import JavaSubset.Proofs.LexicalReports
import JavaSubset.Proofs.StringLiterals
import JavaSubset.Tree.Listing

/-!
# Quoted strings are read back

Text is shown in quotes (`quote`) with the escapes that a string literal may hold:

* `Spellable c` : quoting shows `c` itself or a backslash with a letter, and no code point;
* `quoteItem c` : what quoting makes of such a character, as an item of a string. It is written the
  same way (`quoteItem_text`) and stands for `c` (`quoteItem_meaning`);
* `lex_display` : so the literal that shows a string is that string again when it is read.
-/

namespace JavaSubset

open StringItem

variable {c : Char} {items : List StringItem}

/-! ## Characters -/

/-- The characters that quoting escapes with a letter. -/
def lettered : List Char := ['"', '\\', '\n', '\r', '\t', '\x00']

/-- Quoting shows the character itself or escapes it with a letter. -/
def Spellable (c : Char) : Prop := quoteChar c = [c] ∨ c ∈ lettered

instance (c : Char) : Decidable (Spellable c) := inferInstanceAs (Decidable (_ ∨ _))

/-- A quoted character as an item of a string. -/
def quoteItem : Char → StringItem
  | '\n' => .escape 'n'
  | '\r' => .escape 'r'
  | '\t' => .escape 't'
  | '\x00' => .escape '0'
  | '"' => .escape '"'
  | '\\' => .escape '\\'
  | c => .plain c

theorem quoteItem_of_not_mem (h : c ∉ lettered) : quoteItem c = .plain c := by
  simp only [lettered, List.mem_cons, List.not_mem_nil, or_false, not_or] at h
  unfold quoteItem
  split <;> simp_all

theorem quoteItem_of_mem (h : c ∈ lettered) :
    (quoteItem c).text = quoteChar c ∧ (quoteItem c).Inside ∧ (quoteItem c).meaning = [c] := by
  simp only [lettered, List.mem_cons, List.not_mem_nil, or_false] at h
  rcases h with rfl | rfl | rfl | rfl | rfl | rfl <;>
    exact ⟨by decide, by simp [quoteItem, Inside], by decide⟩

theorem quoteItem_text (h : Spellable c) : (quoteItem c).text = quoteChar c := by
  by_cases hc : c ∈ lettered
  · exact (quoteItem_of_mem hc).1
  · rw [quoteItem_of_not_mem hc, h.resolve_right hc]
    rfl

theorem quoteItem_inside (c : Char) : (quoteItem c).Inside := by
  by_cases hc : c ∈ lettered
  · exact (quoteItem_of_mem hc).2.1
  · rw [quoteItem_of_not_mem hc]
    simp only [lettered, List.mem_cons, List.not_mem_nil, or_false, not_or] at hc
    exact ⟨hc.1, hc.2.2.1, hc.2.1⟩

theorem quoteItem_meaning (c : Char) : (quoteItem c).meaning = [c] := by
  by_cases hc : c ∈ lettered
  · exact (quoteItem_of_mem hc).2.2
  · rw [quoteItem_of_not_mem hc]
    rfl

/-! ## Texts -/

theorem quote_eq_quoted {s : String} (h : ∀ c ∈ s.toList, Spellable c) :
    quote s = quoted (s.toList.map quoteItem) := by
  have htexts : texts (s.toList.map quoteItem) = s.toList.flatMap quoteChar := by
    rw [texts, List.flatMap_map, List.flatMap_def, List.flatMap_def,
      List.map_congr_left fun c hc => quoteItem_text (h c hc)]
  rw [quote, quoteChars, quoted, htexts]

theorem meanings_quoteItem (s : String) : meanings (s.toList.map quoteItem) = s := by
  rw [meanings, List.flatMap_map, funext quoteItem_meaning, List.flatMap_singleton',
    String.ofList_toList]

theorem newline_not_mem_quoted (h : ∀ item ∈ items, item.Inside) :
    '\n' ∉ (quoted items).toList := by
  have htexts := newline_not_mem_texts h (.inl rfl)
  rw [List.append_nil] at htexts
  simp [quoted, htexts]

/-- A source that is one literal has this token and no other, on one line. -/
theorem lex_quoted_alone (h : ∀ item ∈ items, item.Inside) :
    lex (quoted items) =
      ⟨[⟨.stringLiteral, quoted items, some (meanings items),
          ⟨⟨0, (quoted items).utf8ByteSize⟩, 1⟩⟩,
        .endOfInput 1 (quoted items).utf8ByteSize], []⟩ := by
  have hpieces := pieces_quoted h ""
  have hfirst := head?_lex_quoted h ""
  rw [String.append_empty] at hpieces hfirst
  rw [String.toList_empty, pieces] at hpieces
  have htokens := lex_tokens (quoted items)
  rw [hpieces, List.count_eq_zero.mpr (newline_not_mem_quoted h)] at htokens
  have hdiagnostics : (lex (quoted items)).diagnostics = [] := by
    rw [lex_diagnostics, hpieces]
    rfl
  rw [htokens] at hfirst
  rw [← Option.some.inj hfirst, ← hdiagnostics]
  exact congrArg (Lexed.mk · _) htokens

/-! ## Literals -/

/-- **A displayed string is read back.** If quoting writes no character of a string as a code point,
the source that displays the string as a literal has no errors and one token, which is this literal
and has the string for its value. -/
theorem lex_display (s : String) (h : ∀ c ∈ s.toList, Spellable c) :
    lex (Literal.string s).display =
      ⟨[⟨.stringLiteral, (Literal.string s).display, some s,
          ⟨⟨0, (Literal.string s).display.utf8ByteSize⟩, 1⟩⟩,
        .endOfInput 1 (Literal.string s).display.utf8ByteSize], []⟩ := by
  have hitems : ∀ item ∈ s.toList.map quoteItem, item.Inside :=
    List.forall_mem_map.mpr fun c _ => quoteItem_inside c
  have hlex := lex_quoted_alone hitems
  rwa [meanings_quoteItem, ← quote_eq_quoted h] at hlex

/-- Every escape, a backslash in front of the closing quote, and letters that name escapes. -/
theorem lex_display_escapes :
    let s := "n'\n\"\r\t\x00日\\"
    let shown := "\"n'\\n\\\"\\r\\t\\0日\\\\\""
    (∀ c ∈ s.toList, Spellable c) ∧ (Literal.string s).display = shown ∧
      lex shown = ⟨[⟨.stringLiteral, shown, some s, ⟨⟨0, 19⟩, 1⟩⟩, .endOfInput 1 19], []⟩ := by
  intro s shown
  have hall : s.toList.all (Spellable ·) = true := by decide +kernel
  have hspell : ∀ c ∈ s.toList, Spellable c := by simpa using hall
  have hshown : (Literal.string s).display = shown := by decide +kernel
  have hsize : shown.utf8ByteSize = 19 := by decide +kernel
  have hlex := lex_display s hspell
  rw [hshown, hsize] at hlex
  exact ⟨hspell, hshown, hlex⟩

end JavaSubset
