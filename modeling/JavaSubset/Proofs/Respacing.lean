import JavaSubset.Proofs.Tiling

/-!
# Writing tokens anew

A word ends in front of any blank, whatever it stood in front of before (`Piece.Stands.respaced`).
So the words of a source may be written down again with other blanks between them (`layout`): the
text is cut into just these words and blanks (`pieces_layout`).
-/

namespace JavaSubset

/-- What a token says, wherever it stands. -/
def Token.content (t : Token) : Token.Kind × String × Option String := (t.kind, t.text, t.literal)

/-- Texts with `space 0` in front, `space 1` behind the first one and so on. -/
def layout (space : Nat → String) : List String → String
  | [] => space 0
  | text :: texts => space 0 ++ text ++ layout (fun i => space (i + 1)) texts

namespace Piece

/-! ## Words in front of blanks -/

theorem Stands.respaced {kind : Token.Kind} {text after after' : List Char}
    {literal : Option String} (h : Stands (word kind text literal) after)
    (hblank : ∀ d ∈ after'.head?, isBlank d = true) : Stands (word kind text literal) after' := by
  have hpart : ∀ d ∈ after'.head?, isNamePart d = false :=
    fun d hd => isNamePart_of_isBlank (hblank d hd)
  have hdigit : ∀ d ∈ after'.head?, d.isDigit = false :=
    fun d hd => isDigit_of_isBlank (hblank d hd)
  cases h with
  | name start inside => exact .name start inside hpart
  | whole some_digit inside =>
    refine .whole some_digit inside hdigit fun d rest hrest => ?_
    exact absurd (hblank '.' (by rw [hrest]; rfl)) (by decide)
  | fraction some_digit inside some_decimal behind =>
    exact .fraction some_digit inside some_decimal behind hdigit
  | string inside => exact .string inside
  | pair spelled => exact .pair spelled
  | single spelled =>
    refine .single spelled (fun d hd => ofSymbol?_of_isBlank (hblank d hd)) fun d hd _ => ?_
    constructor
    · rintro rfl
      exact absurd (hblank _ hd) (by decide)
    · rintro rfl
      exact absurd (hblank _ hd) (by decide)

/-! ## Words and blanks in turn -/

def blanks (space : String) : List Piece := space.toList.map blank

/-- The words of tokens with blanks around them. -/
def laid (space : Nat → String) : List Token → List Piece
  | [] => blanks (space 0)
  | t :: ts => blanks (space 0) ++ ofToken t :: laid (fun i => space (i + 1)) ts

variable {space : Nat → String} {ts : List Token} {p : Position}

theorem blanks_text (space : String) : (blanks space).flatMap text = space.toList := by
  rw [blanks, List.flatMap_map]
  exact List.flatMap_singleton' _

theorem laid_text : (laid space ts).flatMap text = (layout space (ts.map (·.text))).toList := by
  induction ts generalizing space with
  | nil => exact blanks_text _
  | cons t ts ih =>
    rw [laid, List.flatMap_append, List.flatMap_cons, blanks_text, ih, List.map_cons, layout,
      String.toList_append, String.toList_append, List.append_assoc]
    rfl

end Piece

/-- Blanks for `n` words: any number in front of the first and behind the last, some between two. -/
structure Spaces (n : Nat) (space : Nat → String) : Prop where
  blank : ∀ i ≤ n, ∀ c ∈ (space i).toList, isBlank c = true
  between : ∀ i < n, 0 < i → space i ≠ ""

namespace Piece

variable {space : Nat → String} {ts : List Token} {p : Position}

theorem Standing.blanks_append {cs : List Char} {more : List Piece}
    (hblank : ∀ c ∈ cs, isBlank c = true) (h : Standing more) :
    Standing (cs.map blank ++ more) := by
  induction cs with
  | nil => exact h
  | cons c cs ih =>
    obtain ⟨hc, hcs⟩ := List.forall_mem_cons.mp hblank
    exact ⟨.blank hc, ih hcs⟩

/-- What follows a word starts with a blank. -/
theorem laid_head {t : Token} (h : Spaces (t :: ts).length space) :
    ∀ d ∈ ((laid (fun i => space (i + 1)) ts).flatMap text).head?, isBlank d = true := by
  have hblank := h.blank 1 (Nat.le_add_left 1 ts.length)
  cases ts with
  | nil =>
    intro d hd
    rw [laid, blanks_text] at hd
    exact hblank d (List.mem_of_mem_head? hd)
  | cons u ts =>
    obtain ⟨c, cs, hspace⟩ := List.exists_cons_of_ne_nil (l := (space 1).toList) (by
      simpa using h.between 1 (by simp) Nat.one_pos)
    intro d hd
    rw [laid, List.flatMap_append, blanks_text, hspace] at hd
    cases hd
    exact hblank c (hspace ▸ List.mem_cons_self)

theorem standing_laid (h : Spaces ts.length space)
    (hts : ∀ t ∈ ts, ∃ after, Stands (ofToken t) after) : Standing (laid space ts) := by
  induction ts generalizing space with
  | nil =>
    rw [laid, blanks, ← List.append_nil (List.map ..)]
    exact .blanks_append (h.blank 0 (Nat.zero_le _)) trivial
  | cons t ts ih =>
    obtain ⟨⟨after, ht⟩, hts⟩ := List.forall_mem_cons.mp hts
    have htail : Spaces ts.length fun i => space (i + 1) :=
      ⟨fun i hi => h.blank (i + 1) (Nat.succ_le_succ hi),
        fun i hi _ => h.between (i + 1) (Nat.succ_lt_succ hi) (Nat.succ_pos i)⟩
    refine .blanks_append (h.blank 0 (Nat.zero_le _)) ⟨?_, ih htail hts⟩
    exact ht.respaced (laid_head h)

theorem tokensAt_blanks (cs : List Char) : tokensAt p (cs.map blank) = [] := by
  induction cs generalizing p with
  | nil => rfl
  | cons c cs ih => exact ih

theorem tokensAt_laid : (tokensAt p (laid space ts)).map Token.content = ts.map Token.content := by
  induction ts generalizing space p with
  | nil => rw [laid, blanks, tokensAt_blanks, List.map_nil]
  | cons t ts ih =>
    rw [laid, tokensAt_append, blanks, tokensAt_blanks, tokensAt_cons, List.nil_append,
      List.map_append, ih]
    simp [ofToken, token?, Token.content, text]

theorem diagnosticsAt_eq_nil {ps : List Piece} (h : ∀ piece ∈ ps, piece.problem? = none) :
    diagnosticsAt p ps = [] := by
  induction ps generalizing p with
  | nil => rfl
  | cons piece ps ih =>
    obtain ⟨hpiece, hps⟩ := List.forall_mem_cons.mp h
    rw [diagnosticsAt_cons, diagnostic?, hpiece, ih hps]
    rfl

theorem problem?_laid : ∀ piece ∈ laid space ts, piece.problem? = none := by
  have hblanks : ∀ s, ∀ piece ∈ blanks s, piece.problem? = none := by
    intro s piece hpiece
    obtain ⟨c, -, rfl⟩ := List.mem_map.mp hpiece
    rfl
  induction ts generalizing space with
  | nil => exact hblanks _
  | cons t ts ih =>
    exact List.forall_mem_append.mpr ⟨hblanks _, List.forall_mem_cons.mpr ⟨rfl, ih⟩⟩

end Piece

/-! ## All words of a source -/

/-- A text that is laid out is cut into the words and blanks again. -/
theorem pieces_layout {space : Nat → String} {ts : List Token} (h : Spaces ts.length space)
    (hts : ∀ t ∈ ts, ∃ after, Piece.Stands (.ofToken t) after) :
    pieces (layout space (ts.map (·.text))).toList = Piece.laid space ts := by
  rw [← Piece.laid_text]
  exact (Piece.standing_laid h hts).pieces_eq

/-- **Words can be written anew.** However they are spaced, they are the same words again. -/
theorem lex_layout (source : String) (space : Nat → String)
    (h : Spaces ((lex source).tokens.filter (·.kind.isKept)).length space) :
    let words := (lex source).tokens.filter (·.kind.isKept)
    let rewritten := lex (layout space (words.map (·.text)))
    rewritten.diagnostics = [] ∧
      rewritten.tokens.map Token.content = words.map Token.content ++ [(.eof, "", none)] := by
  intro words rewritten
  have hpieces := pieces_layout h fun t ht => exists_stands_of_lex ht
  constructor
  · rw [lex_diagnostics, hpieces]
    exact Piece.diagnosticsAt_eq_nil Piece.problem?_laid
  · rw [lex_tokens, hpieces, List.map_append, Piece.tokensAt_laid]
    rfl

/-- Words that stand without blanks between them, behind them a comment and illegal text. -/
theorem lex_layout_crowded :
    let source := "x+++1.5/\"q\\\"\r\"/* c */=#\"open"
    let space := fun i => if i = 0 ∨ i = 7 then "" else "\r\n"
    let words := (lex source).tokens.filter (·.kind.isKept)
    let rewritten := lex (layout space (words.map (·.text)))
    words.map (·.text) = ["x", "++", "+", "1.5", "/", "\"q\\\"\r\"", "="] ∧
      Spaces words.length space ∧ rewritten.diagnostics = [] ∧
      rewritten.tokens.map Token.content = words.map Token.content ++ [(.eof, "", none)] := by
  intro source space words rewritten
  have htexts : words.map (·.text) = ["x", "++", "+", "1.5", "/", "\"q\\\"\r\"", "="] := by
    decide +kernel
  have hlength : words.length = 7 := by simpa using congrArg List.length htexts
  have hspaces : Spaces words.length space := by
    rw [hlength]
    refine ⟨fun i _ c hc => ?_, by decide +kernel⟩
    by_cases hi : i = 0 ∨ i = 7
    · simp [space, hi] at hc
    · have hc' : c = '\r' ∨ c = '\n' := by simpa [space, hi] using hc
      rcases hc' with rfl | rfl <;> rfl
  exact ⟨htexts, hspaces, lex_layout source space hspaces⟩

end JavaSubset
