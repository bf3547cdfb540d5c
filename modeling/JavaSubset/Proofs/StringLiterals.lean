import JavaSubset.Proofs.Tiling

/-!
# String literals, item by item

Between its quotes a string literal is a list of items, and its value is what they stand for, one
after the other:

* `StringItem.meaning` : what an item stands for, by the table `StringItem.escapes`;
* `StringItem.quoted` : the literal that the items spell, which tells them
  (`StringItem.quoted_injective`);
* `lex_quoted` : a literal is read back whatever follows it, and every string of a source is one.
-/

namespace JavaSubset

namespace StringItem

variable {items others : List StringItem} {rest : List Char}

/-! ## What items stand for -/

/-- The characters that name an escape, each with the character it stands for. -/
def escapes : List (Char × Char) :=
  [('n', '\n'), ('t', '\t'), ('r', '\r'), ('b', '\x08'), ('f', '\x0c'), ('0', '\x00'), ('"', '"'),
    ('\'', '\''), ('\\', '\\')]

/-- A plain character is itself. An escape that is not in the table keeps its backslash. -/
def meaning : StringItem → List Char
  | plain c => [c]
  | escape c => ((escapes.lookup c).map ([·])).getD ['\\', c]

theorem value_eq_meaning (item : StringItem) : item.value = item.meaning := by
  cases item with
  | plain c => rfl
  | escape c =>
    by_cases hc : c ∈ escapes.map Prod.fst
    · simp only [escapes, List.map_cons, List.map_nil, List.mem_cons, List.not_mem_nil,
        or_false] at hc
      rcases hc with rfl | rfl | rfl | rfl | rfl | rfl | rfl | rfl | rfl <;> rfl
    · have hlookup : escapes.lookup c = none := by
        rw [List.lookup_eq_none_iff]
        intro p hp
        simpa using fun h : c = p.1 => hc (List.mem_map.mpr ⟨p, hp, h.symm⟩)
      rw [meaning, hlookup]
      simp only [escapes, List.map_cons, List.map_nil, List.mem_cons, not_or] at hc
      rw [value] <;> simp_all

/-- The literal with these items. -/
def quoted (items : List StringItem) : String := String.ofList ('"' :: (texts items ++ ['"']))

def meanings (items : List StringItem) : String := String.ofList (items.flatMap meaning)

theorem ofList_values (items : List StringItem) :
    String.ofList (values items) = meanings items := by
  rw [values, meanings, funext value_eq_meaning]

/-- Items in front of a quote are read back. -/
theorem split_closed (h : ∀ item ∈ items, item.Inside) :
    split (texts items ++ '"' :: rest) = (items, '"' :: rest) := by
  rw [split_texts h, split_quote, Prod.map_apply, List.append_nil, id]

theorem quoted_injective (h : ∀ item ∈ items, item.Inside) (h' : ∀ item ∈ others, item.Inside)
    (heq : quoted items = quoted others) : items = others := by
  have htexts : texts items ++ ['"'] = texts others ++ ['"'] :=
    (List.cons.inj (String.ofList_injective heq)).2
  have hsplit := congrArg split htexts
  rw [split_closed h, split_closed h'] at hsplit
  exact congrArg Prod.fst hsplit

end StringItem

/-! ## Strings in a source -/

open StringItem

variable {items : List StringItem} {after : List Char}

theorem pieces_quoted (h : ∀ item ∈ items, item.Inside) (suffix : String) :
    pieces (quoted items ++ suffix).toList =
      .word .stringLiteral ('"' :: (texts items ++ ['"'])) (some (meanings items)) ::
        pieces suffix.toList := by
  have htext : (quoted items ++ suffix).toList =
      '"' :: (texts items ++ '"' :: suffix.toList) := by
    rw [String.toList_append, quoted, String.toList_ofList, List.cons_append, List.append_assoc]
    rfl
  rw [htext, pieces, Piece.first_quote, Piece.string_closed h, ofList_values]

/-- A literal at the start of a source is its first token, whatever follows. -/
theorem head?_lex_quoted (h : ∀ item ∈ items, item.Inside) (suffix : String) :
    (lex (quoted items ++ suffix)).tokens.head? =
      some ⟨.stringLiteral, quoted items, some (meanings items),
        ⟨⟨0, (quoted items).utf8ByteSize⟩, 1⟩⟩ := by
  have hbytes : (Position.start.after ('"' :: (texts items ++ ['"']))).offset =
      (quoted items).utf8ByteSize := by
    rw [quoted, ← utf8Length_eq]
    exact Nat.zero_add _
  rw [lex_tokens, pieces_quoted h, Piece.tokensAt_cons, ← hbytes]
  rfl

theorem Piece.Stands.stringLiteral {kind : Token.Kind} {text : List Char} {literal : Option String}
    (h : Stands (word kind text literal) after) (hkind : kind = .stringLiteral) :
    ∃ items, (∀ item ∈ items, item.Inside) ∧ String.ofList text = quoted items ∧
      literal = some (meanings items) := by
  cases h with
  | @name c parts =>
    unfold nameKind at hkind
    split at hkind <;> cases hkind
  | whole | fraction => cases hkind
  | @string items _ inside => exact ⟨items, inside, rfl, congrArg some (ofList_values items)⟩
  | pair spelled | single spelled =>
    rcases ofSymbol?_cases spelled with ⟨op, -, -, rfl⟩ | ⟨mark, -, -, rfl⟩ <;> cases hkind

theorem items_of_lex {source : String} {t : Token} (ht : t ∈ (lex source).tokens)
    (hkind : t.kind = .stringLiteral) :
    ∃ items, (∀ item ∈ items, item.Inside) ∧ t.text = quoted items ∧
      t.literal = some (meanings items) := by
  rcases lex_token_cases ht with ⟨line, offset, rfl⟩ | ⟨p, piece, after, htoken, hstands, -⟩
  · cases hkind
  · cases piece with
    | word kind text literal =>
      cases htoken
      exact hstands.stringLiteral hkind
    | stray | openString =>
      cases htoken
      cases hkind
    | blank | lineComment | blockComment | openComment => cases htoken

/-- **Strings are read item by item.** Whatever follows the literal of some items, it is the first
token and has their meanings for its value; and every string of a source is the literal of items,
of no others, with their meanings for its value. -/
theorem lex_quoted :
    (∀ items : List StringItem, (∀ item ∈ items, item.Inside) → ∀ suffix : String,
      (lex (quoted items ++ suffix)).tokens.head? =
        some ⟨.stringLiteral, quoted items, some (meanings items),
          ⟨⟨0, (quoted items).utf8ByteSize⟩, 1⟩⟩) ∧
      ∀ source : String, ∀ t ∈ (lex source).tokens, t.kind = .stringLiteral →
        ∃ items, (∀ item ∈ items, item.Inside) ∧ t.text = quoted items ∧
          t.literal = some (meanings items) ∧
          ∀ others, (∀ item ∈ others, item.Inside) → t.text = quoted others → others = items := by
  refine ⟨fun items h suffix => head?_lex_quoted h suffix, fun source t ht hkind => ?_⟩
  obtain ⟨items, hitems, htext, hliteral⟩ := items_of_lex ht hkind
  refine ⟨items, hitems, htext, hliteral, fun others hothers htext' => ?_⟩
  exact quoted_injective hothers hitems (htext'.symm.trans htext)

/-- An escaped backslash in front of the quote that closes the string, then one that is escaped. -/
theorem lex_quoted_backslashes :
    let items := [.plain 'é', .escape '\\']
    let source := "x = \"\\q\\\"\\n\";"
    let t : Token := ⟨.stringLiteral, "\"\\q\\\"\\n\"", some "\\q\"\n", ⟨⟨4, 12⟩, 1⟩⟩
    (∀ item ∈ items, item.Inside) ∧
      (lex (quoted items ++ "n\"")).tokens.head? =
        some ⟨.stringLiteral, "\"é\\\\\"", some "é\\", ⟨⟨0, 6⟩, 1⟩⟩ ∧
      t ∈ (lex source).tokens ∧
      ∃ items, (∀ item ∈ items, item.Inside) ∧ t.text = quoted items ∧
        t.literal = some (meanings items) ∧
        ∀ others, (∀ item ∈ others, item.Inside) → t.text = quoted others → others = items := by
  intro items source t
  have hitems : ∀ item ∈ items, item.Inside := by simp [items, Inside]
  have ht : t ∈ (lex source).tokens := by decide +kernel
  exact ⟨hitems, lex_quoted.1 items hitems "n\"", ht, lex_quoted.2 source t ht rfl⟩

end JavaSubset
