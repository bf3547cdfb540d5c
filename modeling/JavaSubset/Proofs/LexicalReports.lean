import JavaSubset.Proofs.LineBreaks
import JavaSubset.Proofs.Tiling
import Mathlib.Data.List.Forall2
import Mathlib.Data.List.Induction

/-!
# What is wrong with the spelling of a source

Illegal text makes a token and a diagnostic at once, a comment that is left open only a diagnostic:

* `Diagnostic.Explains source d t` : the diagnostic says what is wrong with the illegal text `t`;
* `LeavesOpen gap` : behind other blanks and comments the text ends inside a comment;
* `Accounted source gap lexed` : the diagnostics are those of the illegal text, in order, and one
  more if the text `gap` behind the last word is left open.

Nothing is lost and nothing made up (`lex_accounted`).
-/

namespace JavaSubset

variable {source : String} {before after gap : List Char} {p : Position}

/-! ## Illegal text -/

/-- The diagnostic says what is wrong with illegal text, at its place. -/
inductive Diagnostic.Explains (source : String) (d : Diagnostic) (t : Token) : Prop where
  | character {c : Char} (text : t.text.toList = [c]) (quote : c ≠ '"')
      (problem : d.problem = .illegalCharacter c) (place : d.loc = t.loc)
  /-- A string that is not closed on its line. -/
  | string (text : t.text.toList.head? = some '"') (problem : d.problem = .unterminatedString)
      (place : d.loc = t.loc) (inside : '\n' ∉ t.text.toList)
      (stop : ∃ rest, t.loc.span.Cuts source t.text rest ∧ EndsLine rest.toList)

namespace Piece

variable {piece : Piece} {ps more : List Piece}

/-- A piece is explained exactly if it is illegal text. -/
theorem Stands.explains (h : Stands piece after) (hclosed : piece.isOpenComment = false)
    (htext : source.toList = before ++ (piece.text ++ after)) :
    List.Forall₂ (Diagnostic.Explains source)
      (piece.diagnostic? (Position.start.after before)).toList
      ((piece.token? (Position.start.after before)).toList.filter (·.kind = .illegal)) := by
  cases piece with
  | blank | lineComment | blockComment => exact .nil
  | openComment => cases hclosed
  | word kind text literal =>
    have hkind : kind ≠ .illegal := by
      rintro rfl
      cases h.word_isKept
    simp [diagnostic?, problem?, token?, hkind]
  | stray c =>
    cases h with
    | stray mark => exact .cons (.character (String.toList_ofList ..) mark.quote rfl rfl) .nil
  | openString body =>
    have hcuts := cuts_covering htext
    cases h with
    | @openString items loose _ inside dangling stop =>
      refine .cons (.string ?_ rfl rfl ?_ ⟨_, hcuts, by rwa [String.toList_ofList]⟩) .nil
      · rw [String.toList_ofList]
        rfl
      · rw [String.toList_ofList, text, List.mem_cons, not_or]
        exact ⟨by decide, StringItem.newline_not_mem_texts inside dangling⟩

theorem Standing.explains (h : Standing (ps ++ more)) (before : List Char)
    (hclosed : ∀ piece ∈ ps, piece.isOpenComment = false)
    (htext : source.toList = before ++ (ps ++ more).flatMap text) :
    List.Forall₂ (Diagnostic.Explains source) (diagnosticsAt (Position.start.after before) ps)
      ((tokensAt (Position.start.after before) ps).filter (·.kind = .illegal)) := by
  induction ps generalizing before with
  | nil => exact .nil
  | cons piece ps ih =>
    obtain ⟨hpiece, hrest⟩ := h
    obtain ⟨hclosed, hclosed'⟩ := List.forall_mem_cons.mp hclosed
    rw [List.cons_append, List.flatMap_cons] at htext
    have hmore := ih hrest (before ++ piece.text) hclosed' (by rw [htext, List.append_assoc])
    rw [Position.after_append] at hmore
    rw [diagnosticsAt_cons, tokensAt_cons, List.filter_append]
    exact List.rel_append (hpiece.explains hclosed htext) hmore

/-! ## Comments that are left open -/

/-- Nothing, or a comment that is left open. -/
def MayStayOpen (ps : List Piece) : Prop := ps = [] ∨ ∃ body, ps = [openComment body]

/-- A comment that is left open has nothing behind it. -/
theorem Standing.exists_closed (h : Standing ps) :
    ∃ closed last, ps = closed ++ last ∧ (∀ piece ∈ closed, piece.isOpenComment = false) ∧
      MayStayOpen last := by
  induction ps with
  | nil => exact ⟨[], [], rfl, by simp, .inl rfl⟩
  | cons piece more ih =>
    obtain ⟨hpiece, hmore⟩ := h
    cases hopen : piece.isOpenComment with
    | true =>
      cases piece with
      | openComment body =>
        refine ⟨[], _, rfl, by simp, .inr ⟨body, ?_⟩⟩
        generalize hrest : more.flatMap text = rest at hpiece
        cases hpiece
        cases more with
        | nil => rfl
        | cons next more =>
          exact absurd (List.append_eq_nil_iff.mp hrest).1 hmore.1.text_ne_nil
      | _ => cases hopen
    | false =>
      obtain ⟨closed, last, rfl, hclosed, hlast⟩ := ih hmore
      exact ⟨piece :: closed, last, rfl, List.forall_mem_cons.mpr ⟨hopen, hclosed⟩, hlast⟩

theorem Standing.of_append (h : Standing (ps ++ more)) : Standing more := by
  induction ps with
  | nil => exact h
  | cons piece ps ih => exact ih h.2

/-- Pieces that make no token are trivia. -/
theorem Standing.trivia (h : Standing (ps ++ more))
    (hnone : ∀ piece ∈ ps, ∀ p, piece.token? p = none) :
    Trivia (more.flatMap text) (ps.flatMap text) := by
  induction ps with
  | nil => exact .nil
  | cons piece ps ih =>
    rw [List.cons_append] at h
    obtain ⟨hpiece, hrest⟩ := h
    obtain ⟨hfirst, hnone⟩ := List.forall_mem_cons.mp hnone
    rw [List.flatMap_append] at hpiece
    rw [List.flatMap_cons]
    exact hpiece.trivia (hfirst .start) (ih hrest hnone)

end Piece

/-- Trivia in front of more text is cut into pieces. -/
theorem Trivia.exists_pieces {more : List Piece} (h : Trivia (more.flatMap Piece.text) gap)
    (hmore : Piece.Standing more) (hne : more.flatMap Piece.text ≠ []) :
    ∃ ps, Piece.Standing (ps ++ more) ∧ ps.flatMap Piece.text = gap := by
  induction h with
  | nil => exact ⟨[], hmore, rfl⟩
  | @blank c gap blank _ ih =>
    obtain ⟨ps, hps, rfl⟩ := ih
    exact ⟨.blank c :: ps, ⟨.blank blank, hps⟩, rfl⟩
  | @lineComment body gap inside stop _ ih =>
    obtain ⟨ps, hps, rfl⟩ := ih
    rw [← List.flatMap_append] at stop
    exact ⟨.lineComment body :: ps, ⟨.lineComment inside stop, hps⟩, rfl⟩
  | @blockComment body gap inside _ ih =>
    obtain ⟨ps, hps, rfl⟩ := ih
    refine ⟨.blockComment body :: ps, ⟨.blockComment inside, hps⟩, ?_⟩
    simp [Piece.text]
  | openComment inside last => exact absurd last hne

/-- Behind other blanks and comments the text ends inside a comment. -/
def LeavesOpen (gap : List Char) : Prop :=
  ∃ lead body, gap = lead ++ '/' :: '*' :: body ∧ Trivia ('/' :: '*' :: body) lead ∧
    ¬ ['*', '/'] <:+: body

theorem LeavesOpen.pieces_eq (h : LeavesOpen gap) :
    ∃ ps body, pieces gap = ps ++ [.openComment body] := by
  obtain ⟨lead, body, rfl, htrivia, inside⟩ := h
  have htext : [Piece.openComment body].flatMap Piece.text = '/' :: '*' :: body :=
    List.append_nil _
  rw [← htext] at htrivia
  obtain ⟨ps, hps, rfl⟩ := htrivia.exists_pieces ⟨.openComment inside, trivial⟩ (by simp [htext])
  have heq := hps.pieces_eq
  rw [List.flatMap_append, htext] at heq
  exact ⟨ps, body, heq⟩

/-! ## Behind the last word -/

theorem stopOf_concat (offset : Nat) (tokens : List Token) (t : Token) :
    stopOf offset (tokens ++ [t]) = t.loc.span.stop := by
  rw [stopOf, List.getLast?_concat]
  rfl

namespace Piece

variable {ps : List Piece}

theorem token?_eq_none {piece : Piece} {q : Position} (h : piece.token? p = none) :
    piece.token? q = none := by
  cases piece with
  | word | stray | openString => cases h
  | _ => rfl

theorem token?_stop {piece : Piece} {t : Token} (h : piece.token? p = some t) :
    t.loc.span.stop = (p.after piece.text).offset := by
  cases piece <;> cases h <;> rfl

/-- Behind the last piece that makes a token there is nothing but trivia. -/
theorem exists_trailing (ps : List Piece) (p : Position) :
    ∃ lead trail, ps = lead ++ trail ∧ (∀ piece ∈ trail, ∀ q, piece.token? q = none) ∧
      stopOf p.offset (tokensAt p ps) = (p.after (lead.flatMap text)).offset := by
  induction ps using List.reverseRecOn with
  | nil => exact ⟨[], [], rfl, by simp, rfl⟩
  | append_singleton ps piece ih =>
    have htokens : tokensAt p (ps ++ [piece]) =
        tokensAt p ps ++ (piece.token? (p.after (ps.flatMap text))).toList := by
      rw [tokensAt_append, tokensAt_cons]
      exact congrArg _ (List.append_nil _)
    rw [htokens]
    cases htoken : piece.token? (p.after (ps.flatMap text)) with
    | some t =>
      refine ⟨ps ++ [piece], [], (List.append_nil _).symm, by simp, ?_⟩
      rw [Option.toList_some, stopOf_concat, token?_stop htoken, List.flatMap_append,
        Position.after_append, List.flatMap_singleton]
    | none =>
      obtain ⟨lead, trail, rfl, htrail, hstop⟩ := ih
      refine ⟨lead, trail ++ [piece], List.append_assoc .., ?_, ?_⟩
      · exact List.forall_mem_append.mpr ⟨htrail, by simpa using fun q => token?_eq_none htoken⟩
      · rw [Option.toList_none, List.append_nil, hstop]

/-- Diagnostics are in the order of the pieces. -/
theorem Standing.rising (h : Standing ps) (p : Position) :
    (diagnosticsAt p ps).Pairwise (fun d e => d.loc.span.start < e.loc.span.start) ∧
      ∀ d ∈ diagnosticsAt p ps, p.offset ≤ d.loc.span.start := by
  induction ps generalizing p with
  | nil => exact ⟨.nil, by simp [diagnosticsAt, placed]⟩
  | cons piece more ih =>
    obtain ⟨hpiece, hmore⟩ := h
    obtain ⟨hrising, hstart⟩ := ih hmore (p.after piece.text)
    have hlt : p.offset < (p.after piece.text).offset :=
      Nat.lt_add_of_pos_right (utf8Length_pos hpiece.text_ne_nil)
    have hfirst : ∀ d ∈ (piece.diagnostic? p).toList, d.loc.span.start = p.offset := by
      intro d hd
      obtain ⟨problem, -, rfl⟩ := Option.map_eq_some_iff.mp (Option.mem_toList.mp hd)
      rfl
    rw [diagnosticsAt_cons]
    constructor
    · refine List.pairwise_append.mpr ⟨?_, hrising, fun d hd e he => ?_⟩
      · cases piece.diagnostic? p <;> simp
      · rw [hfirst d hd]
        exact Nat.lt_of_lt_of_le hlt (hstart e he)
    · intro d hd
      rcases List.mem_append.mp hd with hd | hd
      · exact Nat.le_of_eq (hfirst d hd).symm
      · exact Nat.le_trans (Nat.le_of_lt hlt) (hstart d hd)

end Piece

/-! ## A whole source -/

/-- A comment that the text behind the last word leaves open is reported, up to the end of the
source. -/
inductive ReportsOpen (source gap : String) : List Diagnostic → Prop where
  | closed (closed : ¬ LeavesOpen gap.toList) : ReportsOpen source gap []
  | left {d : Diagnostic} {body : String} (left : LeavesOpen gap.toList)
      (problem : d.problem = .unterminatedComment)
      (span : d.loc.span.Cuts source ("/*" ++ body) "") : ReportsOpen source gap [d]

/-- What is wrong with the spelling of a source, `gap` being the text behind its last word. -/
structure Accounted (source gap : String) (lexed : Lexed) : Prop where
  rising : lexed.diagnostics.Pairwise fun d e => d.loc.span.start < e.loc.span.start
  explained : ∃ faults unclosed, lexed.diagnostics = faults ++ unclosed ∧
    List.Forall₂ (Diagnostic.Explains source) faults (lexed.tokens.filter (·.kind = .illegal)) ∧
    ReportsOpen source gap unclosed
  hasErrors : lexed.hasErrors = true ↔
    (∃ t ∈ lexed.tokens, t.kind = .illegal) ∨ LeavesOpen gap.toList

theorem ReportsOpen.ne_nil_iff {gap : String} {unclosed : List Diagnostic}
    (h : ReportsOpen source gap unclosed) : unclosed ≠ [] ↔ LeavesOpen gap.toList := by
  cases h with
  | closed closed => exact iff_of_false (absurd rfl) closed
  | left left => exact iff_of_true (List.cons_ne_nil _ _) left

/-- There are diagnostics if there is illegal text or an open comment. -/
theorem hasErrors_iff {gap : String} {lexed : Lexed} {faults unclosed : List Diagnostic}
    (h : lexed.diagnostics = faults ++ unclosed)
    (hfaults : List.Forall₂ (Diagnostic.Explains source) faults
      (lexed.tokens.filter (·.kind = .illegal)))
    (hunclosed : ReportsOpen source gap unclosed) :
    lexed.hasErrors = true ↔
      (∃ t ∈ lexed.tokens, t.kind = .illegal) ∨ LeavesOpen gap.toList := by
  have hillegal : faults ≠ [] ↔ ∃ t ∈ lexed.tokens, t.kind = .illegal := by
    rw [← List.length_pos_iff, hfaults.length_eq, List.length_pos_iff, Ne,
      List.filter_eq_nil_iff]
    simp
  rw [← hillegal, ← hunclosed.ne_nil_iff, Lexed.hasErrors, h, Bool.not_eq_true',
    List.isEmpty_eq_false_iff, Ne, List.append_eq_nil_iff, not_and_or]

theorem illegal_of_lex (source : String) :
    (lex source).tokens.filter (·.kind = .illegal) =
      (Piece.tokensAt .start (pieces source.toList)).filter (·.kind = .illegal) := by
  rw [lex_tokens, List.filter_append]
  exact List.append_nil _

/-- The text of the pieces behind the last word is the last gap. -/
theorem cuts_trailing {lead trail : List Piece} (hpieces : pieces source.toList = lead ++ trail)
    (hstop : stopOf 0 (Piece.tokensAt .start (pieces source.toList)) =
      (Position.start.after (lead.flatMap Piece.text)).offset) :
    Span.Cuts ⟨stopOf 0 (lex source).tokens.dropLast, source.utf8ByteSize⟩ source
      (String.ofList (trail.flatMap Piece.text)) "" := by
  have htext : source.toList = lead.flatMap Piece.text ++ trail.flatMap Piece.text ++ [] := by
    rw [List.append_nil, ← List.flatMap_append, ← hpieces, pieces_text]
  have hcuts := Span.cuts_of_toList htext
  have hstart : stopOf 0 (lex source).tokens.dropLast = utf8Length (lead.flatMap Piece.text) := by
    rw [lex_tokens, List.dropLast_concat, hstop]
    exact Nat.zero_add _
  rw [hstart, ← utf8Length_toList, htext, List.append_nil]
  exact hcuts

/-- What is reported of the pieces behind the last word. -/
theorem reportsOpen_trailing {trail last : List Piece} (h : Piece.Standing (trail ++ last))
    (hnone : ∀ piece ∈ trail, ∀ q, piece.token? q = none)
    (hclosed : ∀ piece ∈ trail, piece.isOpenComment = false) (hlast : Piece.MayStayOpen last)
    (htext : source.toList = before ++ last.flatMap Piece.text) :
    ReportsOpen source (String.ofList ((trail ++ last).flatMap Piece.text))
      (Piece.diagnosticsAt (Position.start.after before) last) := by
  rcases hlast with rfl | ⟨body, rfl⟩
  · refine .closed fun hopen => ?_
    rw [String.toList_ofList] at hopen
    obtain ⟨ps, body, heq⟩ := hopen.pieces_eq
    rw [h.pieces_eq, List.append_nil] at heq
    have hfalse := hclosed (.openComment body) (by rw [heq]; simp)
    cases hfalse
  · have hbody : [Piece.openComment body].flatMap Piece.text = '/' :: '*' :: body :=
      List.append_nil _
    have htrivia := h.trivia hnone
    rw [hbody] at htrivia htext
    have hcuts := @cuts_covering source before ('/' :: '*' :: body) [] (by
      rw [List.append_nil, htext])
    have hcomment : String.ofList ('/' :: '*' :: body) = "/*" ++ String.ofList body := by
      simp [← String.toList_inj]
    rw [hcomment] at hcuts
    refine .left ?_ rfl hcuts
    rw [String.toList_ofList, List.flatMap_append, hbody]
    cases h.of_append.1 with
    | openComment inside => exact ⟨_, body, rfl, htrivia, inside⟩

/-- **Nothing is lost and nothing made up.** The diagnostics of a source are those of its illegal
text and of a comment left open behind its last word. -/
theorem lex_accounted (source : String) :
    ∃ gap, Span.Cuts ⟨stopOf 0 (lex source).tokens.dropLast, source.utf8ByteSize⟩ source gap "" ∧
      Accounted source gap (lex source) := by
  have hstanding := pieces_standing source.toList
  have hrising := (hstanding.rising .start).1
  rw [← lex_diagnostics] at hrising
  obtain ⟨closed, last, hpieces, hclosed, hlast⟩ := hstanding.exists_closed
  obtain ⟨lead, trail, rfl, hnone, hstop⟩ := Piece.exists_trailing closed .start
  have htext := pieces_text source.toList
  rw [hpieces] at hstanding htext
  have htokens : Piece.tokensAt .start (pieces source.toList) =
      Piece.tokensAt .start (lead ++ trail) := by
    rw [hpieces, Piece.tokensAt_append]
    rcases hlast with rfl | ⟨body, rfl⟩ <;> exact List.append_nil _
  have hdiagnostics : (lex source).diagnostics = Piece.diagnosticsAt .start (lead ++ trail) ++
      Piece.diagnosticsAt (Position.start.after ((lead ++ trail).flatMap Piece.text)) last := by
    rw [lex_diagnostics, hpieces, Piece.diagnosticsAt_append]
  have hfaults : List.Forall₂ (Diagnostic.Explains source)
      (Piece.diagnosticsAt .start (lead ++ trail))
      ((lex source).tokens.filter (·.kind = .illegal)) := by
    rw [illegal_of_lex, htokens]
    exact hstanding.explains [] hclosed htext.symm
  have hrest : Piece.Standing (trail ++ last) := (List.append_assoc lead .. ▸ hstanding).of_append
  have hopen := reportsOpen_trailing hrest hnone
    (fun piece hmem => hclosed piece (List.mem_append_right _ hmem)) hlast
    (htext.symm.trans List.flatMap_append)
  refine ⟨_, cuts_trailing (hpieces.trans (List.append_assoc ..)) (htokens ▸ hstop), hrising,
    ⟨_, _, hdiagnostics, hfaults, hopen⟩, hasErrors_iff hdiagnostics hfaults hopen⟩

end JavaSubset
