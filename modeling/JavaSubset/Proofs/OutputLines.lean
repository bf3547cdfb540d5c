import JavaSubset.Proofs.Lines
import JavaSubset.Proofs.LongestMatch
import JavaSubset.Proofs.QuotedStrings
import JavaSubset.Proofs.Wording

/-!
# What is written, line by line

Diagnostics and tokens are written with a line feed behind each (`unlines`). Whether they come out
one on a line depends on what they hold themselves:

* `splitLines` : a text cut at its line feeds. It gives lines back exactly if none of them holds a
  line feed (`splitLines_unlines`);
* no token of a source holds one in its text (`Token.oneLine_text`), so no diagnostic does in its
  report: each is a line of its own (`check_reports_lined`);
* the value of a string does where its literal has the escape `\n` (`count_meanings`), so tokens are
  listed one on a line exactly if no literal has it (`check_tokens_lined`).
-/

namespace JavaSubset

open StringItem

/-! ## Texts and their lines -/

/-- A text cut at its line feeds. -/
def splitLines (s : String) : List String := (s.toList.splitOn '\n').map String.ofList

section Lines

variable {l : String} {ls : List String}

theorem toList_unlines_cons :
    (unlines (l :: ls)).toList = l.toList ++ '\n' :: (unlines ls).toList := by
  rw [unlines, List.map_cons, String.join_cons, ← unlines, String.toList_append,
    String.toList_append, List.append_assoc]
  rfl

theorem count_unlines (ls : List String) :
    (unlines ls).toList.count '\n' = ls.length + (String.join ls).toList.count '\n' := by
  induction ls with
  | nil => rfl
  | cons l ls ih =>
    rw [toList_unlines_cons, List.count_append, List.count_cons_self, ih, String.join_cons,
      String.toList_append, List.count_append, List.length_cons]
    omega

theorem length_splitLines (s : String) : (splitLines s).length = s.toList.count '\n' + 1 := by
  rw [splitLines, List.length_map]
  induction s.toList with
  | nil => rfl
  | cons c chars ih =>
    rw [List.splitOn_cons_eq_if_modifyHead]
    by_cases hc : c = '\n'
    · rw [if_pos (by simpa using hc), hc, List.count_cons_self, List.length_cons, ih]
    · rw [if_neg (by simpa using hc), List.length_modifyHead, ih, List.count_cons_of_ne hc]

/-- Lines come back exactly if each of them is one line. -/
theorem splitLines_unlines : splitLines (unlines ls) = ls ++ [""] ↔ ∀ l ∈ ls, OneLine l := by
  constructor
  · intro h l hl
    -- A line feed inside a line would make one line too many.
    have hlength := congrArg List.length h
    rw [length_splitLines, count_unlines, List.length_append, List.length_singleton] at hlength
    have hjoin : (String.join ls).toList.count '\n' = 0 := by omega
    rw [List.count_eq_zero, String.toList_join] at hjoin
    exact fun hmem => hjoin (List.mem_flatMap.mpr ⟨l, hl, hmem⟩)
  · intro h
    induction ls with
    | nil => rfl
    | cons l ls ih =>
      obtain ⟨hl, hls⟩ := List.forall_mem_cons.mp h
      rw [splitLines, toList_unlines_cons, List.splitOn_append_cons_self_of_not_mem hl,
        List.map_cons, String.ofList_toList, ← splitLines, ih hls, List.cons_append]

end Lines

/-! ## What is shown of a report -/

section Actions

variable {channel : Channel} {actions : List Action}

theorem written_lines (channel : Channel) (ls : List String) :
    written channel (ls.map (Action.line channel)) = unlines ls := by
  rw [written, List.map_map, unlines]
  congr 2
  funext l
  exact if_pos rfl

theorem written_of_silent (h : ∀ action ∈ actions, action.textOn channel = "") :
    written channel actions = "" := by
  induction actions with
  | nil => rfl
  | cons action actions ih =>
    obtain ⟨haction, hmore⟩ := List.forall_mem_cons.mp h
    rw [written, List.map_cons, String.join_cons, haction, ← written, ih hmore]
    rfl

variable (render : Renderer) (name text : String) (r : Report)

/-- Diagnostics are all that goes to the error stream. -/
theorem written_err_actions (tokens ast : Bool) :
    written .err (r.actions render ⟨tokens, ast, false⟩ name text) = unlines r.lines := by
  have hout : ∀ action ∈ (if tokens then r.tokens.map (Action.line .out ·.listing) else []) ++
      (if ast then [Action.line .out (r.program.outline.render 0)] else []),
      action.textOn .err = "" := by
    rw [List.forall_mem_append]
    constructor <;> split <;> simp [Action.line, Action.textOn]
  have hlines := written_lines .err r.lines
  rw [Report.lines, List.map_map] at hlines
  rw [Report.actions, written_append, written_of_silent hout, String.empty_append, Report.lines,
    ← hlines]
  rfl

/-- Without the tree, tokens are all that goes to the output stream. -/
theorem written_out_actions (fancy : Bool) :
    written .out (r.actions render ⟨true, false, fancy⟩ name text) =
      unlines (r.tokens.map Token.listing) := by
  have herr : ∀ form : Diagnostic → String,
      written .out (r.diagnostics.map fun d => Action.line .err (form d)) = "" := fun _ =>
    written_of_silent (List.forall_mem_map.mpr fun _ _ => rfl)
  have htokens := written_lines .out (r.tokens.map Token.listing)
  rw [List.map_map] at htokens
  rw [Report.actions, written_append, herr, String.append_empty, ← htokens]
  exact congrArg (written .out) (List.append_nil _)

end Actions

/-! ## The texts of tokens -/

section Tokens

variable {source : String} {t : Token} {d : Diagnostic} {piece : Piece} {after : List Char}

theorem Token.oneLine_text (ht : t ∈ (lex source).tokens) : OneLine t.text := by
  rcases lex_token_cases ht with ⟨line, offset, rfl⟩ | ⟨p, piece, after, htoken, hstands, -⟩
  · exact .literal rfl
  · obtain ⟨htext, -⟩ := hstands.token htoken
    rw [OneLine, htext, String.toList_ofList]
    exact hstands.newline_not_mem htoken

end Tokens

/-! ## Reports -/

section Reports

variable {source : String} {t : Token} {d : Diagnostic}

theorem oneLine_toString (n : Nat) : OneLine (toString n) := by
  have hdigits : ∀ c ∈ Nat.toDigits 10 n, c.isDigit = true :=
    fun c hc => Nat.isDigit_of_mem_toDigits (by decide) (by decide) hc
  change '\n' ∉ n.repr.toList
  rw [Nat.toList_repr]
  exact newline_not_mem_of_all (by decide) hdigits

theorem Diagnostic.oneLine_report (hanchor : OneLine d.problem.anchor)
    (hmessage : OneLine d.problem.message) : OneLine d.report := by
  have hline : OneLine ("[line " ++ toString d.loc.line) :=
    .append (.literal rfl) (oneLine_toString _)
  have hhead : OneLine ("[line " ++ toString d.loc.line ++ "] Error " ++ d.problem.anchor) :=
    (hline.append (.literal rfl)).append hanchor
  exact (hhead.append (.literal rfl)).append hmessage

theorem oneLine_quoted_word {s : String} (h : OneLine s) : OneLine ("at '" ++ s ++ "'") :=
  .append (.append (.literal rfl) h) (.literal rfl)

theorem Diagnostic.Anchored.oneLine_anchor (h : d.Anchored t) (ht : OneLine t.text) :
    OneLine d.problem.anchor := by
  have hshows := h.shows
  have htoken : ∀ found, OneLine (Problem.atToken found t.text) := by
    intro found
    unfold Problem.atToken
    split
    · exact .literal rfl
    · exact oneLine_quoted_word ht
  cases hproblem : d.problem with
  | unexpectedToken demand found lexeme =>
    rw [hproblem] at hshows
    exact hshows.2 ▸ htoken found
  | missingClass found lexeme | nestingTooDeep found lexeme =>
    rw [hproblem] at hshows
    exact hshows.2 ▸ htoken found
  | repeatedModifier m => exact oneLine_quoted_word m.oneLine_spelling
  | unterminatedString | unterminatedComment | illegalCharacter c => exact .literal rfl

theorem Diagnostic.oneLine_lexical (hd : d ∈ (lex source).diagnostics) : OneLine d.report := by
  rw [lex_diagnostics] at hd
  obtain ⟨⟨p, piece⟩, hmem, hdiagnostic⟩ := List.mem_filterMap.mp hd
  obtain ⟨before, after, -, -, hstands⟩ := stands_of_mem_placed hmem
  obtain ⟨problem, hproblem, rfl⟩ := Option.map_eq_some_iff.mp hdiagnostic
  cases piece with
  | openComment | openString =>
    cases hproblem
    exact oneLine_report (.literal rfl) (.literal rfl)
  | stray c =>
    cases hproblem
    cases hstands with
    | stray mark =>
      have hchar : OneLine (String.singleton c) := by
        simpa [OneLine] using mark.ne_newline.symm
      refine oneLine_report (.literal rfl) ?_
      exact .append (.append (.literal rfl) hchar) (.literal rfl)
  | blank | lineComment | blockComment | word => cases hproblem

theorem Diagnostic.oneLine_syntactic (hd : d ∈ (parse (lex source).tokens).diagnostics) :
    OneLine d.report := by
  have halong := (Parser.program_orderly (c := .ofTokens (lex source).tokens) maxNesting).along
  rw [(lex_tiled source).rest_ofTokens] at halong
  rw [parse_diagnostics] at hd
  have hraised := (withoutCascades_sublist _).subset hd
  obtain ⟨t, ht, hanchored⟩ := halong.exists_anchor hraised
  have htext := Token.oneLine_text (List.mem_of_mem_filter ht)
  exact oneLine_report (hanchored.oneLine_anchor htext) (Parser.program_worded _ _ d hraised)

theorem oneLine_of_mem_lines {l : String} (h : l ∈ (check source).lines) : OneLine l := by
  obtain ⟨d, hd, rfl⟩ := List.mem_map.mp h
  rcases List.mem_append.mp hd with hd | hd
  · exact Diagnostic.oneLine_lexical hd
  · exact Diagnostic.oneLine_syntactic hd

/-- **Each diagnostic is one line.** The report of no diagnostic holds a line feed. So if details
are not asked for, the error stream gets the reports in order, each on a line of its own, and they
are what stands between its line feeds. -/
theorem check_reports_lined (render : Renderer) (tokens ast : Bool) (name source : String) :
    let report := check source
    let err := (perform {} (report.actions render ⟨tokens, ast, false⟩ name source)).err
    (∀ d ∈ report.diagnostics, '\n' ∉ d.report.toList) ∧
      err = String.join (report.lines.map (· ++ "\n")) ∧
      splitLines err = report.lines ++ [""] := by
  intro report err
  have herr : err = unlines report.lines := by
    rw [← written_err_actions render name source report tokens ast]
    exact congrArg Transcript.err (perform_faultless _)
  have hlines : ∀ l ∈ report.lines, OneLine l := fun l => oneLine_of_mem_lines
  refine ⟨fun d hd => hlines _ (List.mem_map_of_mem hd), herr, ?_⟩
  rw [herr]
  exact splitLines_unlines.mpr hlines

end Reports

/-! ## Tokens -/

section Listings

variable {source : String} {t : Token} {items : List StringItem}

theorem Keyword.oneLine_name (word : Keyword) : OneLine word.name := by
  have hall : all.all (fun word => !word.name.toList.contains '\n') = true := by decide +kernel
  simpa [OneLine] using List.all_eq_true.mp hall word word.mem_all

theorem Operator.oneLine_name (op : Operator) : OneLine op.name := by
  have hall : all.all (fun op => !op.name.toList.contains '\n') = true := by decide +kernel
  simpa [OneLine] using List.all_eq_true.mp hall op op.mem_all

theorem Punctuation.oneLine_name (mark : Punctuation) : OneLine mark.name := by
  cases mark <;> exact .literal rfl

theorem Token.Kind.oneLine_name (kind : Kind) : OneLine kind.name := by
  cases kind with
  | keyword word => exact .append (.append (.literal rfl) word.oneLine_name) (.literal rfl)
  | operator op => exact .append (.append (.literal rfl) op.oneLine_name) (.literal rfl)
  | punctuation mark => exact .append (.append (.literal rfl) mark.oneLine_name) (.literal rfl)
  | identifier | number | stringLiteral | illegal | eof => exact .literal rfl

/-- An item stands for a line feed exactly if it is the escape for it. -/
theorem count_meaning {item : StringItem} (h : item.Inside) :
    item.meaning.count '\n' = if item = .escape 'n' then 1 else 0 := by
  rw [← value_eq_meaning]
  cases item with
  | plain c => simp [value, h.2.1]
  | escape c =>
    have hc : c ≠ '\n' := h
    unfold value
    split <;> simp_all [List.count_cons]

theorem count_meanings (h : ∀ item ∈ items, item.Inside) :
    (meanings items).toList.count '\n' = items.count (.escape 'n') := by
  rw [meanings, String.toList_ofList]
  induction items with
  | nil => rfl
  | cons item items ih =>
    obtain ⟨hitem, hitems⟩ := List.forall_mem_cons.mp h
    rw [List.flatMap_cons, List.count_append, count_meaning hitem, ih hitems, List.count_cons]
    simp [Nat.add_comm]

/-- The token is a string whose literal has the escape for a line feed. -/
def Token.EscapesNewline (t : Token) : Prop :=
  t.kind = .stringLiteral ∧
    ∃ items, (∀ item ∈ items, item.Inside) ∧ t.text = quoted items ∧ .escape 'n' ∈ items

theorem Piece.Stands.literal {kind : Token.Kind} {text after : List Char} {literal : Option String}
    (h : Stands (word kind text literal) after) (hkind : kind ≠ .stringLiteral) :
    literal = none ∨ literal = some (String.ofList text) := by
  cases h with
  | name | pair | single => exact .inl rfl
  | whole | fraction => exact .inr rfl
  | string => exact absurd rfl hkind

/-- Only a string has a value that is not spelled out. -/
theorem literal_of_lex (ht : t ∈ (lex source).tokens) (hkind : t.kind ≠ .stringLiteral) :
    t.literal = none ∨ t.literal = some t.text := by
  rcases lex_token_cases ht with ⟨line, offset, rfl⟩ | ⟨p, piece, after, htoken, hstands, -⟩
  · exact .inl rfl
  · cases piece with
    | word kind text literal =>
      cases htoken
      exact hstands.literal hkind
    | stray | openString =>
      cases htoken
      exact .inl rfl
    | blank | lineComment | blockComment | openComment => cases htoken

theorem count_listing (ht : OneLine t.text) :
    t.listing.toList.count '\n' = (t.literal.getD "").toList.count '\n' := by
  have hhead : OneLine (toString t.loc.line ++ " " ++ t.kind.name ++ " '" ++ t.text ++ "'") :=
    .append (.append (.append (.append (.append (oneLine_toString _) (.literal rfl))
      t.kind.oneLine_name) (.literal rfl)) ht) (.literal rfl)
  have hspace : OneLine " " := .literal rfl
  rw [Token.listing, String.toList_append, List.count_append, List.count_eq_zero.mpr hhead]
  cases t.literal with
  | none => rfl
  | some literal =>
    simp only [String.toList_append, List.count_append, List.count_eq_zero.mpr hspace]
    simp

theorem count_listings {ts : List Token} (h : ∀ t ∈ ts, OneLine t.text) :
    (String.join (ts.map Token.listing)).toList.count '\n' =
      (String.join (ts.map (·.literal.getD ""))).toList.count '\n' := by
  induction ts with
  | nil => rfl
  | cons t ts ih =>
    obtain ⟨ht, hts⟩ := List.forall_mem_cons.mp h
    simp only [List.map_cons, String.join_cons, String.toList_append, List.count_append,
      count_listing ht, ih hts]

theorem oneLine_listing_iff (ht : t ∈ (lex source).tokens) :
    OneLine t.listing ↔ ¬ t.EscapesNewline := by
  rw [OneLine, ← List.count_eq_zero, count_listing (Token.oneLine_text ht)]
  by_cases hkind : t.kind = .stringLiteral
  · obtain ⟨items, hitems, htext, hliteral⟩ := items_of_lex ht hkind
    rw [hliteral, Option.getD_some, count_meanings hitems, List.count_eq_zero]
    constructor
    · rintro hnone ⟨-, others, hothers, htext', hmem⟩
      obtain rfl := quoted_injective hothers hitems (htext'.symm.trans htext)
      exact hnone hmem
    · exact fun hnone hmem => hnone ⟨hkind, items, hitems, htext, hmem⟩
  · refine iff_of_true (List.count_eq_zero.mpr ?_) fun h => hkind h.1
    rcases literal_of_lex ht hkind with hliteral | hliteral
    · rw [hliteral]
      exact List.not_mem_nil
    · rw [hliteral]
      exact Token.oneLine_text ht

/-- **Tokens are listed one on a line unless a string breaks it.** The listings of the tokens are
written in order, with a line feed behind each. There are more line feeds than tokens by those in
the values of strings, and the lines are the listings exactly if no string has an escape for one. -/
theorem check_tokens_lined (render : Renderer) (fancy : Bool) (name source : String) :
    let tokens := (check source).tokens
    let out := (perform {} ((check source).actions render ⟨true, false, fancy⟩ name source)).out
    out = String.join (tokens.map (·.listing ++ "\n")) ∧
      out.toList.count '\n' =
        tokens.length + (String.join (tokens.map (·.literal.getD ""))).toList.count '\n' ∧
      (splitLines out = tokens.map Token.listing ++ [""] ↔ ∀ t ∈ tokens, ¬ t.EscapesNewline) := by
  intro tokens out
  have hout : out = unlines (tokens.map Token.listing) := by
    rw [← written_out_actions render name source (check source) fancy]
    exact congrArg Transcript.out (perform_faultless _)
  have hlex : ∀ t ∈ tokens, t ∈ (lex source).tokens := fun _ ht => ht
  rw [hout]
  refine ⟨?_, ?_, ?_⟩
  · rw [unlines, List.map_map]
    rfl
  · rw [count_unlines, List.length_map]
    exact congrArg (_ + ·) (count_listings fun t ht => Token.oneLine_text (hlex t ht))
  · rw [splitLines_unlines, List.forall_mem_map]
    exact forall₂_congr fun t ht => oneLine_listing_iff (hlex t ht)

/-- Two tokens on three lines: the string is a line feed. -/
theorem check_tokens_broken :
    let source := "\"\\n\""
    let tokens := (check source).tokens
    let out := (perform {} ((check source).actions .oneLine ⟨true, false, false⟩ "" source)).out
    tokens.length = 2 ∧ out = "1 StringLiteral '\"\\n\"' \n\n1 Eof ''\n" ∧
      splitLines out ≠ tokens.map Token.listing ++ [""] ∧
      out.toList.count '\n' ≠ tokens.length := by
  decide +kernel

end Listings

end JavaSubset
