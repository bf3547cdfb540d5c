import JavaSubset.Token.Piece

/-!
# Where a piece ends

`Piece.Stands piece after` : in front of the text `after` the piece is well formed and could not be
longer. This decides how a source is cut:

* `Piece.symbol_eq_registered` : the operators that the dispatch on a first character knows, and the
  punctuation marks, are those of the vocabulary, of which it takes the longest;
* `Piece.first_stands` : the first piece of a text stands in front of what follows it;
* `Piece.Stands.first_eq` : a piece that stands in front of a text is cut off from it;
* `pieces_standing`, `Piece.Standing.pieces_eq` : the same for all pieces of a text, so a list of
  pieces is the cut of its text exactly if each of them stands in front of the rest.
-/

namespace JavaSubset

/-- A line ends in front of this text. -/
def EndsLine (after : List Char) : Prop := ∀ d ∈ after.head?, d = '\n'

theorem endsLine_nil : EndsLine [] := by
  simp [EndsLine]

theorem endsLine_cons {d : Char} {after : List Char} : EndsLine (d :: after) ↔ d = '\n' := by
  simp [EndsLine]

/-! ## Inside a string -/

namespace StringItem

/-- An item that can stand anywhere between two quotes. -/
def Inside : StringItem → Prop
  | plain c => c ≠ '"' ∧ c ≠ '\n' ∧ c ≠ '\\'
  | escape c => c ≠ '\n'

@[simp] theorem texts_append (items more : List StringItem) :
    texts (items ++ more) = texts items ++ texts more := by
  simp [texts]

variable {items : List StringItem} {after : List Char}

theorem split_plain {c : Char} (h : (plain c).Inside) (rest : List Char) :
    split (c :: rest) = (split rest).map (plain c :: ·) id := by
  obtain ⟨hquote, hline, hback⟩ := h
  rw [split]
  · simp [hquote, hline]
  · rintro d tail rfl rfl
    exact hback rfl

theorem split_escape {c : Char} (h : (escape c).Inside) (rest : List Char) :
    split ('\\' :: c :: rest) = (split rest).map (escape c :: ·) id := by
  rw [split, if_neg h]

/-- Items inside a string are read one after the other. -/
theorem split_texts (h : ∀ item ∈ items, item.Inside) (rest : List Char) :
    split (texts items ++ rest) = (split rest).map (items ++ ·) id := by
  induction items with
  | nil => rfl
  | cons item items ih =>
    obtain ⟨hitem, hitems⟩ := List.forall_mem_cons.mp h
    cases item with
    | plain c =>
      change split (c :: (texts items ++ rest)) = _
      rw [split_plain hitem, ih hitems]
      rfl
    | escape c =>
      change split ('\\' :: c :: (texts items ++ rest)) = _
      rw [split_escape hitem, ih hitems]
      rfl

theorem split_quote (rest : List Char) : split ('"' :: rest) = ([], '"' :: rest) := by
  simp [split]

theorem split_endsLine (h : EndsLine after) : split after = ([], after) := by
  cases after with
  | nil => rfl
  | cons d after =>
    obtain rfl := endsLine_cons.mp h
    simp [split]

theorem split_backslash (h : EndsLine after) : split ('\\' :: after) = ([plain '\\'], after) := by
  cases after with
  | nil => rfl
  | cons d after => rw [split, if_pos (endsLine_cons.mp h), endsLine_cons.mp h]

/-- What stands in front of the end of a line: nothing, or a backslash that escapes nothing. -/
def Dangling (items : List StringItem) : Prop := items = [] ∨ items = [plain '\\']

/-- The items of a string end at a quote, or at the end of the line with a backslash possibly left
loose. -/
theorem split_cases (input : List Char) :
    ∃ items loose after, split input = (items ++ loose, after) ∧ (∀ item ∈ items, item.Inside) ∧
      ((loose = [] ∧ ∃ rest, after = '"' :: rest) ∨ (Dangling loose ∧ EndsLine after)) := by
  fun_induction split input with
  | case1 => exact ⟨[], [], [], rfl, by simp, .inr ⟨.inl rfl, endsLine_nil⟩⟩
  | case2 rest =>
    exact ⟨[], [plain '\\'], '\n' :: rest, rfl, by simp, .inr ⟨.inr rfl, endsLine_cons.mpr rfl⟩⟩
  | case3 c rest hline ih =>
    obtain ⟨items, loose, after, hsplit, hinside, hend⟩ := ih
    refine ⟨escape c :: items, loose, after, by rw [hsplit]; rfl, ?_, hend⟩
    exact List.forall_mem_cons.mpr ⟨hline, hinside⟩
  | case4 c rest _ hstop =>
    refine ⟨[], [], c :: rest, rfl, by simp, ?_⟩
    rcases hstop with rfl | rfl
    · exact .inl ⟨rfl, rest, rfl⟩
    · exact .inr ⟨.inl rfl, endsLine_cons.mpr rfl⟩
  | case5 c rest hback hgo ih =>
    by_cases hc : c = '\\'
    · -- a backslash comes here only as the very last character
      subst hc
      cases rest with
      | nil => exact ⟨[], [plain '\\'], [], rfl, by simp, .inr ⟨.inr rfl, endsLine_nil⟩⟩
      | cons d rest => exact absurd rfl (hback d rest rfl)
    · obtain ⟨items, loose, after, hsplit, hinside, hend⟩ := ih
      refine ⟨plain c :: items, loose, after, by rw [hsplit]; rfl, ?_, hend⟩
      have hplain : (plain c).Inside := ⟨fun h => hgo (.inl h), fun h => hgo (.inr h), hc⟩
      exact List.forall_mem_cons.mpr ⟨hplain, hinside⟩

theorem Inside.newline_not_mem {item : StringItem} (h : item.Inside) : '\n' ∉ item.text := by
  cases item with
  | plain c => simpa [text] using Ne.symm h.2.1
  | escape c => simpa [text] using Ne.symm h

theorem newline_not_mem_texts {items loose : List StringItem} (h : ∀ item ∈ items, item.Inside)
    (hloose : Dangling loose) : '\n' ∉ texts (items ++ loose) := by
  rw [texts, List.flatMap_append, List.mem_append, not_or]
  constructor
  · intro hmem
    obtain ⟨item, hitem, hin⟩ := List.mem_flatMap.mp hmem
    exact (h item hitem).newline_not_mem hin
  · rcases hloose with rfl | rfl <;> decide

end StringItem

/-! ## Characters -/

section Characters

variable {c : Char}

theorem isBlank_iff :
    isBlank c = true ↔ c = ' ' ∨ c = '\t' ∨ c = '\r' ∨ c = '\n' ∨ c = '\x0c' := by
  simp [isBlank, or_assoc]

theorem isBlank_of_isNamePart (h : isNamePart c = true) : isBlank c = false := by
  cases hblank : isBlank c with
  | false => rfl
  | true =>
    rcases isBlank_iff.mp hblank with rfl | rfl | rfl | rfl | rfl <;> exact absurd h (by decide)

theorem isNamePart_of_isBlank (h : isBlank c = true) : isNamePart c = false := by
  cases hpart : isNamePart c with
  | false => rfl
  | true => rw [isBlank_of_isNamePart hpart] at h; cases h

theorem isNamePart_of_isNameStart (h : isNameStart c = true) : isNamePart c = true := by
  simp [isNamePart, h]

theorem isNamePart_of_isDigit (h : c.isDigit = true) : isNamePart c = true := by
  simp [isNamePart, h]

theorem isDigit_of_isBlank (h : isBlank c = true) : c.isDigit = false := by
  cases hdigit : c.isDigit with
  | false => rfl
  | true =>
    have hpart := isNamePart_of_isBlank h
    rw [isNamePart_of_isDigit hdigit] at hpart
    cases hpart

theorem isAlpha_of_isDigit (h : c.isDigit = true) : c.isAlpha = false := by
  have hnine : c.val.toNat ≤ 57 := of_decide_eq_true (Bool.and_eq_true_iff.mp h).2
  refine Bool.or_eq_false_iff.mpr ⟨decide_eq_false ?_, ?_⟩
  · rintro ⟨hfrom, -⟩
    have : 65 ≤ c.val.toNat := hfrom
    omega
  · refine Bool.and_eq_false_iff.mpr (.inl (decide_eq_false fun hfrom => ?_))
    have : 97 ≤ c.val.toNat := hfrom
    omega

theorem isNameStart_of_isDigit (h : c.isDigit = true) : isNameStart c = false := by
  have hunder : c ≠ '_' := by rintro rfl; exact absurd h (by decide)
  have hdollar : c ≠ '$' := by rintro rfl; exact absurd h (by decide)
  simp [isNameStart, hunder, hdollar, isAlpha_of_isDigit h]

end Characters

/-- Characters with a property in front of one without it. -/
theorem takeWhile_dropWhile_stop {p : Char → Bool} {text after : List Char}
    (hall : ∀ c ∈ text, p c = true) (hstop : ∀ d ∈ after.head?, p d = false) :
    (text ++ after).takeWhile p = text ∧ (text ++ after).dropWhile p = after := by
  have hafter : after.takeWhile p = [] ∧ after.dropWhile p = after := by
    cases after with
    | nil => exact ⟨rfl, rfl⟩
    | cons d after =>
      have hd : p d = false := hstop d rfl
      simp [hd]
  rw [List.takeWhile_append_of_pos hall, List.dropWhile_append_of_pos hall, hafter.1, hafter.2]
  exact ⟨List.append_nil _, rfl⟩

theorem head?_dropWhile_stop (p : Char → Bool) (input : List Char) :
    ∀ d ∈ (input.dropWhile p).head?, p d = false := by
  intro d hd
  have h := List.head?_dropWhile_not p input
  rwa [Option.mem_def.mp hd] at h

/-! ## Symbols -/

/-- The spellings of all symbols. -/
def symbols : List (List Char) :=
  Operator.all.map (·.spelling.toList) ++ Punctuation.all.map (·.spelling.toList)

/-- A character that starts no blank, name, number or string. -/
structure IsMark (c : Char) : Prop where
  blank : isBlank c = false
  name : isNameStart c = false
  digit : c.isDigit = false
  quote : c ≠ '"'

instance (c : Char) : Decidable (IsMark c) :=
  decidable_of_iff (isBlank c = false ∧ isNameStart c = false ∧ c.isDigit = false ∧ c ≠ '"')
    ⟨fun ⟨h₁, h₂, h₃, h₄⟩ => ⟨h₁, h₂, h₃, h₄⟩, fun ⟨h₁, h₂, h₃, h₄⟩ => ⟨h₁, h₂, h₃, h₄⟩⟩

theorem isMark_of_mem_symbols : ∀ text ∈ symbols, ∀ c ∈ text, IsMark c := by
  have hall : symbols.all (fun text => text.all fun c => decide (IsMark c)) = true := by
    decide +kernel
  intro text htext c hc
  exact of_decide_eq_true (List.all_eq_true.mp (List.all_eq_true.mp hall text htext) c hc)

/-- A symbol is an operator or a punctuation mark with this spelling. -/
theorem ofSymbol?_cases {text : String} {kind : Token.Kind}
    (h : Token.Kind.ofSymbol? text = some kind) :
    (∃ op ∈ Operator.all, op.spelling = text ∧ kind = .operator op) ∨
      ∃ mark ∈ Punctuation.all, mark.spelling = text ∧ kind = .punctuation mark := by
  unfold Token.Kind.ofSymbol? at h
  cases hop : Operator.ofSpelling? text with
  | some op =>
    have hspell : op.spelling = text := by simpa using List.find?_some hop
    exact .inl ⟨op, List.mem_of_find?_eq_some hop, hspell, by simpa [hop, eq_comm] using h⟩
  | none =>
    obtain ⟨mark, hmark, hkind⟩ : ∃ mark, Punctuation.ofSpelling? text = some mark ∧
        Token.Kind.punctuation mark = kind := by simpa [hop] using h
    have hspell : mark.spelling = text := by simpa using List.find?_some hmark
    exact .inr ⟨mark, List.mem_of_find?_eq_some hmark, hspell, hkind.symm⟩

theorem mem_symbols {text : List Char} {kind : Token.Kind}
    (h : Token.Kind.ofSymbol? (String.ofList text) = some kind) : text ∈ symbols := by
  rcases ofSymbol?_cases h with ⟨op, hmem, hspell, -⟩ | ⟨mark, hmem, hspell, -⟩
  · have hin := List.mem_map_of_mem (f := (·.spelling.toList)) hmem
    rw [hspell, String.toList_ofList] at hin
    exact List.mem_append_left _ hin
  · have hin := List.mem_map_of_mem (f := (·.spelling.toList)) hmem
    rw [hspell, String.toList_ofList] at hin
    exact List.mem_append_right _ hin

theorem ofSymbol?_of_isBlank {c d : Char} (h : isBlank d = true) :
    Token.Kind.ofSymbol? (String.ofList [c, d]) = none := by
  cases hsymbol : Token.Kind.ofSymbol? (String.ofList [c, d]) with
  | none => rfl
  | some kind =>
    have hmark := isMark_of_mem_symbols _ (mem_symbols hsymbol) d (by simp)
    rw [hmark.blank] at h
    cases h

/-! ## The dispatch and the vocabulary -/

namespace Piece

/-- What the vocabulary makes of one character. -/
def alone (c : Char) : Piece :=
  match Token.Kind.ofSymbol? (String.ofList [c]) with
  | some kind => word kind [c] none
  | none => stray c

/-- What the vocabulary has at the start of a text, a symbol of two characters if there is one. -/
def registered (c : Char) : List Char → Piece × List Char
  | [] => (alone c, [])
  | d :: after =>
    match Token.Kind.ofSymbol? (String.ofList [c, d]) with
    | some kind => (word kind [c, d] none, after)
    | none => (alone c, d :: after)

/-- `compounds` are the vocabulary's symbols of two characters that start with `c`. -/
structure Pairs (c : Char) (compounds : List (Char × Operator)) : Prop where
  known : ∀ p ∈ compounds, Token.Kind.ofSymbol? (String.ofList [c, p.1]) = some (.operator p.2)
  complete : ∀ text ∈ symbols, text.length = 2 → text.head? = some c →
    text.tail ∈ compounds.map fun p => [p.1]

instance (c : Char) (compounds : List (Char × Operator)) : Decidable (Pairs c compounds) :=
  decidable_of_iff
    ((∀ p ∈ compounds, Token.Kind.ofSymbol? (String.ofList [c, p.1]) = some (.operator p.2)) ∧
      ∀ text ∈ symbols, text.length = 2 → text.head? = some c →
        text.tail ∈ compounds.map fun p => [p.1])
    ⟨fun ⟨h, h'⟩ => ⟨h, h'⟩, fun ⟨h, h'⟩ => ⟨h, h'⟩⟩

section Dispatch

variable {c d second : Char} {simple op : Operator} {compounds : List (Char × Operator)}
  {rest : List Char}

theorem Pairs.ofSymbol? (h : Pairs c compounds) (d : Char) :
    Token.Kind.ofSymbol? (String.ofList [c, d]) = (compounds.lookup d).map .operator := by
  cases hlookup : compounds.lookup d with
  | some op =>
    obtain ⟨front, behind, rfl, -⟩ := List.lookup_eq_some_iff.mp hlookup
    exact h.known (d, op) (by simp)
  | none =>
    cases hsymbol : Token.Kind.ofSymbol? (String.ofList [c, d]) with
    | none => rfl
    | some kind =>
      have hmem := h.complete [c, d] (mem_symbols hsymbol) rfl rfl
      obtain ⟨p, hp, hpd⟩ := List.mem_map.mp hmem
      cases hpd
      simpa using List.lookup_eq_none_iff.mp hlookup p hp

theorem operator_eq_registered (hpairs : Pairs c compounds)
    (hsimple : Token.Kind.ofSymbol? (String.ofList [c]) = some (.operator simple)) :
    operator c simple compounds rest = registered c rest := by
  unfold operator registered alone
  rw [hsimple]
  cases rest with
  | nil => rfl
  | cons d after =>
    simp only [hpairs.ofSymbol? d]
    cases compounds.lookup d <;> rfl

theorem pairOnly_eq_registered (hpairs : Pairs c [(second, op)])
    (halone : Token.Kind.ofSymbol? (String.ofList [c]) = none) :
    pairOnly c second op rest = registered c rest := by
  unfold pairOnly registered alone
  rw [halone]
  cases rest with
  | nil => rfl
  | cons d after =>
    simp only [hpairs.ofSymbol? d, List.lookup_cons, List.lookup_nil]
    by_cases hd : d = second
    · simp [hd]
    · simp [hd, beq_false_of_ne hd]

theorem slash_eq_registered (hcomment : ∀ d ∈ rest.head?, d ≠ '/' ∧ d ≠ '*') :
    slash rest = registered '/' rest := by
  have hpairs : Pairs '/' [('=', .assign .divAssign)] := by decide +kernel
  have halone : Token.Kind.ofSymbol? (String.ofList ['/']) = some (.operator (.binary .div)) := by
    decide +kernel
  rw [← operator_eq_registered hpairs halone]
  unfold slash operator
  split
  · exact absurd rfl (hcomment '/' rfl).1
  · exact absurd rfl (hcomment '*' rfl).2
  · rfl
  · next hline hblock hequals =>
    cases rest with
    | nil => rfl
    | cons d after =>
      have hd : d ≠ '=' := fun h => hequals after (by rw [h])
      simp [List.lookup_cons, beq_false_of_ne hd]

/-- A character that starts no operator is a symbol only as a punctuation mark. -/
theorem ofSymbol?_single (h : ∀ op ∈ Operator.all, op.spelling.toList.head? ≠ some c) :
    Token.Kind.ofSymbol? (String.ofList [c]) = (Punctuation.ofChar? c).map .punctuation := by
  have hop : Operator.ofSpelling? (String.ofList [c]) = none := by
    refine List.find?_eq_none.mpr fun op hop hspell => h op hop ?_
    rw [of_decide_eq_true hspell, String.toList_ofList, List.head?_cons]
  have hmark : Punctuation.ofSpelling? (String.ofList [c]) = Punctuation.ofChar? c := by
    unfold Punctuation.ofSpelling? Punctuation.ofChar?
    congr 1
    funext found
    rw [decide_eq_decide, Punctuation.spelling, String.singleton_eq_ofList, String.ofList_inj]
    exact List.singleton_inj
  unfold Token.Kind.ofSymbol?
  rw [hop, hmark]
  rfl

theorem mark_eq_registered (h : ∀ op ∈ Operator.all, op.spelling.toList.head? ≠ some c) :
    mark c rest = registered c rest := by
  have hpairs : Pairs c [] := by
    refine ⟨by simp, fun text htext htwo hhead => ?_⟩
    rcases List.mem_append.mp htext with hmem | hmem
    · obtain ⟨op, hop, rfl⟩ := List.mem_map.mp hmem
      exact absurd hhead (h op hop)
    · obtain ⟨found, -, rfl⟩ := List.mem_map.mp hmem
      simp [Punctuation.spelling] at htwo
  unfold mark registered alone
  rw [ofSymbol?_single h]
  cases rest with
  | nil => cases Punctuation.ofChar? c <;> rfl
  | cons d after =>
    simp only [hpairs.ofSymbol? d, List.lookup_nil, Option.map_none]
    cases Punctuation.ofChar? c <;> rfl

/-- **The dispatch knows the vocabulary.** Where no comment starts, it cuts off the symbol of two
characters that the vocabulary has, else the one of one, else a stray character. -/
theorem symbol_eq_registered (hcomment : ∀ d ∈ rest.head?, c = '/' → d ≠ '/' ∧ d ≠ '*') :
    symbol c rest = registered c rest := by
  unfold symbol
  split
  case h_8 => exact slash_eq_registered fun d hd => hcomment d hd rfl
  case h_9 | h_10 | h_11 => exact pairOnly_eq_registered (by decide +kernel) (by decide +kernel)
  case h_12 =>
    -- the operators start with the eleven characters above
    have hstarts : ∀ op ∈ Operator.all, op.spelling.toList.head? ∈
        ['=', '<', '>', '+', '-', '*', '%', '/', '!', '&', '|'].map some := by decide +kernel
    refine mark_eq_registered fun op hop hhead => ?_
    have hc := hstarts op hop
    rw [hhead] at hc
    simp_all
  all_goals exact operator_eq_registered (by decide +kernel) (by decide +kernel)

end Dispatch

/-! ## Comments -/


theorem closeComment_cons {c : Char} {rest : List Char} (h : ¬ ['*', '/'] <+: c :: rest) :
    closeComment (c :: rest) = (closeComment rest).map (Prod.map (c :: ·) id) := by
  rw [closeComment]
  rintro tail rfl rfl
  exact h ⟨tail, rfl⟩

/-- The first `*/` ends a comment. -/
theorem closeComment_of_body {body : List Char} (h : ¬ ['*', '/'] <:+: body ++ ['*'])
    (after : List Char) : closeComment (body ++ '*' :: '/' :: after) = some (body, after) := by
  induction body with
  | nil => rfl
  | cons c body ih =>
    have hhead : ¬ ['*', '/'] <+: c :: (body ++ '*' :: '/' :: after) := by
      rintro ⟨tail, htail⟩
      apply h
      cases body with
      | nil => cases htail
      | cons d body =>
        cases htail
        exact ⟨[], body ++ ['*'], rfl⟩
    have htail : ¬ ['*', '/'] <:+: body ++ ['*'] :=
      fun hin => h (hin.trans (List.suffix_cons _ _).isInfix)
    rw [List.cons_append, closeComment_cons hhead, ih htail]
    rfl

theorem closeComment_none {input : List Char} :
    closeComment input = none ↔ ¬ ['*', '/'] <:+: input := by
  fun_induction closeComment input with
  | case1 => simp
  | case2 rest => simpa using ⟨[], rest, rfl⟩
  | case3 c rest hother ih =>
    have hhead : ¬ ['*', '/'] <+: c :: rest := by
      rintro ⟨tail, htail⟩
      cases htail
      exact hother tail rfl rfl
    rw [Option.map_eq_none_iff, ih, List.infix_cons_iff, not_or]
    exact ⟨fun h => ⟨hhead, h⟩, And.right⟩

theorem closeComment_body {input body after : List Char}
    (h : closeComment input = some (body, after)) : ¬ ['*', '/'] <:+: body ++ ['*'] := by
  fun_induction closeComment input generalizing body with
  | case1 => cases h
  | case2 rest =>
    cases h
    decide
  | case3 c rest hother ih =>
    obtain ⟨⟨body', after'⟩, hfound, heq⟩ := Option.map_eq_some_iff.mp h
    cases heq
    have htext := closeComment_text hfound
    rw [List.cons_append, List.infix_cons_iff, not_or]
    refine ⟨?_, ih hfound⟩
    rintro ⟨tail, htail⟩
    cases body' with
    | nil => cases htail
    | cons d body' =>
      -- the comment would have been closed here already
      cases htail
      exact hother _ rfl htext.symm

/-! ## Pieces in front of a text -/

/-- In front of this text the piece is well formed and could not be longer. -/
inductive Stands : Piece → List Char → Prop where
  | blank {c : Char} {after : List Char} (blank : isBlank c = true) : Stands (.blank c) after
  | lineComment {body after : List Char} (inside : '\n' ∉ body) (stop : EndsLine after) :
      Stands (.lineComment body) after
  | blockComment {body after : List Char} (inside : ¬ ['*', '/'] <:+: body ++ ['*']) :
      Stands (.blockComment body) after
  | openComment {body : List Char} (inside : ¬ ['*', '/'] <:+: body) : Stands (.openComment body) []
  | name {c : Char} {parts after : List Char} (start : isNameStart c = true)
      (inside : ∀ d ∈ parts, isNamePart d = true) (stop : ∀ d ∈ after.head?, isNamePart d = false) :
      Stands (word (nameKind (c :: parts)) (c :: parts) none) after
  | whole {digits after : List Char} (some_digit : digits ≠ [])
      (inside : ∀ d ∈ digits, d.isDigit = true) (stop : ∀ d ∈ after.head?, d.isDigit = false)
      (point : ∀ d rest, after = '.' :: d :: rest → d.isDigit = false) :
      Stands (word .number digits (some (String.ofList digits))) after
  | fraction {digits decimals after : List Char} (some_digit : digits ≠ [])
      (inside : ∀ d ∈ digits, d.isDigit = true) (some_decimal : decimals ≠ [])
      (behind : ∀ d ∈ decimals, d.isDigit = true) (stop : ∀ d ∈ after.head?, d.isDigit = false) :
      Stands (word .number (digits ++ '.' :: decimals)
        (some (String.ofList (digits ++ '.' :: decimals)))) after
  | string {items : List StringItem} {after : List Char} (inside : ∀ item ∈ items, item.Inside) :
      Stands (word .stringLiteral ('"' :: (StringItem.texts items ++ ['"']))
        (some (String.ofList (StringItem.values items)))) after
  | openString {items loose : List StringItem} {after : List Char}
      (inside : ∀ item ∈ items, item.Inside) (dangling : StringItem.Dangling loose)
      (stop : EndsLine after) : Stands (.openString (StringItem.texts (items ++ loose))) after
  | pair {c d : Char} {kind : Token.Kind} {after : List Char}
      (spelled : Token.Kind.ofSymbol? (String.ofList [c, d]) = some kind) :
      Stands (word kind [c, d] none) after
  | single {c : Char} {kind : Token.Kind} {after : List Char}
      (spelled : Token.Kind.ofSymbol? (String.ofList [c]) = some kind)
      (stop : ∀ d ∈ after.head?, Token.Kind.ofSymbol? (String.ofList [c, d]) = none)
      (comment : ∀ d ∈ after.head?, c = '/' → d ≠ '/' ∧ d ≠ '*') :
      Stands (word kind [c] none) after
  | stray {c : Char} {after : List Char} (mark : IsMark c)
      (unknown : Token.Kind.ofSymbol? (String.ofList [c]) = none)
      (stop : ∀ d ∈ after.head?, Token.Kind.ofSymbol? (String.ofList [c, d]) = none) :
      Stands (.stray c) after

variable {c : Char} {rest after : List Char} {piece : Piece}

/-! ## The first piece stands -/

theorem name_stands (h : isNameStart c = true) :
    Stands (name (c :: rest)).1 (name (c :: rest)).2 := by
  have hpart := isNamePart_of_isNameStart h
  simp only [name, List.takeWhile_cons, List.dropWhile_cons, hpart, ↓reduceIte]
  exact .name h (List.all_eq_true.mp List.all_takeWhile) (head?_dropWhile_stop _ rest)

theorem number_eq (input : List Char) :
    number input = (word .number (numeral input).1 (some (String.ofList (numeral input).1)),
      (numeral input).2) :=
  rfl

theorem number_stands (h : c.isDigit = true) :
    Stands (number (c :: rest)).1 (number (c :: rest)).2 := by
  have hdigits : (c :: rest).takeWhile Char.isDigit ≠ [] := by simp [h]
  have hinside : ∀ d ∈ (c :: rest).takeWhile Char.isDigit, d.isDigit = true :=
    List.all_eq_true.mp List.all_takeWhile
  have hstop := head?_dropWhile_stop Char.isDigit (c :: rest)
  rw [number_eq]
  unfold numeral
  split
  · next d more hafter =>
    by_cases hd : d.isDigit = true
    · simp only [hd, ↓reduceIte]
      refine .fraction hdigits hinside (by simp [hd]) (List.all_eq_true.mp List.all_takeWhile) ?_
      exact head?_dropWhile_stop Char.isDigit (d :: more)
    · simp only [hd]
      rw [hafter] at hstop
      refine .whole hdigits hinside hstop fun e tail heq => ?_
      cases heq
      simpa using hd
  · next hpoint =>
    refine .whole hdigits hinside hstop fun e tail heq => ?_
    exact absurd heq (hpoint e tail)

theorem string_of_quote {items : List StringItem}
    (h : StringItem.split rest = (items, '"' :: after)) :
    string rest = (word .stringLiteral ('"' :: (StringItem.texts items ++ ['"']))
      (some (String.ofList (StringItem.values items))), after) := by
  unfold string
  rw [h]
  rfl

theorem string_of_endsLine {items : List StringItem} (h : StringItem.split rest = (items, after))
    (hline : EndsLine after) : string rest = (.openString (StringItem.texts items), after) := by
  unfold string
  split
  · next hquote =>
    rw [h] at hquote
    cases hquote
    exact absurd (endsLine_cons.mp hline) (by decide)
  · next hother =>
    rw [h] at hother
    cases hother
    rfl

theorem string_stands : Stands (string rest).1 (string rest).2 := by
  obtain ⟨items, loose, after, hsplit, hinside, ⟨rfl, tail, rfl⟩ | ⟨hloose, hline⟩⟩ :=
    StringItem.split_cases rest
  · rw [List.append_nil] at hsplit
    rw [string_of_quote hsplit]
    exact .string hinside
  · rw [string_of_endsLine hsplit hline]
    exact .openString hinside hloose hline

theorem block_stands : Stands (block rest).1 (block rest).2 := by
  unfold block
  split
  · next h => exact .blockComment (closeComment_body h)
  · next h => exact .openComment (closeComment_none.mp h)

theorem registered_stands (h : IsMark c)
    (hcomment : ∀ d ∈ rest.head?, c = '/' → d ≠ '/' ∧ d ≠ '*') :
    Stands (registered c rest).1 (registered c rest).2 := by
  have halone : ∀ after : List Char,
      (∀ d ∈ after.head?, Token.Kind.ofSymbol? (String.ofList [c, d]) = none) →
      (∀ d ∈ after.head?, c = '/' → d ≠ '/' ∧ d ≠ '*') → Stands (alone c) after := by
    intro after hstop hcomment
    unfold alone
    split
    · next kind hkind => exact .single hkind hstop hcomment
    · next hnone => exact .stray h hnone hstop
  cases rest with
  | nil => exact halone [] (by simp) (by simp)
  | cons d rest =>
    rw [registered]
    split
    · next kind hkind => exact .pair hkind
    · next hnone => exact halone _ (by simpa using hnone) hcomment

theorem slash_stands : Stands (slash rest).1 (slash rest).2 := by
  by_cases hcomment : ∀ d ∈ rest.head?, d ≠ '/' ∧ d ≠ '*'
  · rw [slash_eq_registered hcomment]
    exact registered_stands (by decide +kernel) fun d hd _ => hcomment d hd
  · unfold slash
    split
    · next body =>
      refine .lineComment (fun hmem => ?_) ?_
      · simpa using List.all_eq_true.mp List.all_takeWhile _ hmem
      · simpa [EndsLine] using head?_dropWhile_stop (· ≠ '\n') body
    · exact block_stands
    · exact absurd (by simp) hcomment
    · next hline hblock _ =>
      refine absurd (fun d hd => ?_) hcomment
      obtain ⟨more, rfl⟩ := List.head?_eq_some_iff.mp hd
      exact ⟨fun h => hline more (by rw [h]), fun h => hblock more (by rw [h])⟩

theorem symbol_stands (h : IsMark c) : Stands (symbol c rest).1 (symbol c rest).2 := by
  by_cases hslash : c = '/'
  · subst hslash
    exact slash_stands
  · have hcomment : ∀ d ∈ rest.head?, c = '/' → d ≠ '/' ∧ d ≠ '*' :=
      fun _ _ h => absurd h hslash
    rw [symbol_eq_registered hcomment]
    exact registered_stands h hcomment

/-- The first piece of a text stands in front of what follows it. -/
theorem first_stands (c : Char) (rest : List Char) :
    Stands (first c rest).1 (first c rest).2 := by
  unfold first
  split
  · next hblank => exact .blank hblank
  · next hblank =>
    split
    · next hname => exact name_stands hname
    · next hname =>
      split
      · next hdigit => exact number_stands hdigit
      · next hdigit =>
        split
        · exact string_stands
        · next hquote =>
          exact symbol_stands ⟨by simpa using hblank, by simpa using hname, by simpa using hdigit,
            hquote⟩

/-! ## What stands is cut off -/

theorem first_blank (h : isBlank c = true) : first c rest = (.blank c, rest) := by
  simp only [first, h, ↓reduceIte]

theorem first_name (h : isNameStart c = true) : first c rest = name (c :: rest) := by
  have hblank := isBlank_of_isNamePart (isNamePart_of_isNameStart h)
  simp only [first, hblank, h, Bool.false_eq_true, ↓reduceIte]

theorem first_number (h : c.isDigit = true) : first c rest = number (c :: rest) := by
  have hblank := isBlank_of_isNamePart (isNamePart_of_isDigit h)
  have hname := isNameStart_of_isDigit h
  simp only [first, hblank, hname, h, Bool.false_eq_true, ↓reduceIte]

theorem first_quote : first '"' rest = string rest := rfl

theorem first_lineComment : first '/' ('/' :: rest) =
    (.lineComment (rest.takeWhile (· ≠ '\n')), rest.dropWhile (· ≠ '\n')) := rfl

theorem first_blockComment : first '/' ('*' :: rest) = block rest := rfl

theorem first_symbol (h : IsMark c) : first c rest = symbol c rest := by
  unfold first
  rw [if_neg (by simp [h.blank]), if_neg (by simp [h.name]), if_neg (by simp [h.digit]),
    if_neg h.quote]

theorem first_registered (h : IsMark c)
    (hcomment : ∀ d ∈ rest.head?, c = '/' → d ≠ '/' ∧ d ≠ '*') :
    first c rest = registered c rest :=
  (first_symbol h).trans (symbol_eq_registered hcomment)

theorem string_closed {items : List StringItem} (h : ∀ item ∈ items, item.Inside) :
    string (StringItem.texts items ++ '"' :: after) =
      (word .stringLiteral ('"' :: (StringItem.texts items ++ ['"']))
        (some (String.ofList (StringItem.values items))), after) := by
  apply string_of_quote
  rw [StringItem.split_texts h, StringItem.split_quote, Prod.map_apply, List.append_nil, id]

theorem string_open {items loose : List StringItem} (h : ∀ item ∈ items, item.Inside)
    (hloose : StringItem.Dangling loose) (hline : EndsLine after) :
    string (StringItem.texts (items ++ loose) ++ after) =
      (.openString (StringItem.texts (items ++ loose)), after) := by
  have hrest : StringItem.split (StringItem.texts loose ++ after) = (loose, after) := by
    rcases hloose with rfl | rfl
    · exact StringItem.split_endsLine hline
    · exact StringItem.split_backslash hline
  refine string_of_endsLine ?_ hline
  rw [StringItem.texts_append, List.append_assoc, StringItem.split_texts h, hrest]
  rfl

theorem numeral_whole {digits : List Char} (inside : ∀ d ∈ digits, d.isDigit = true)
    (stop : ∀ d ∈ after.head?, d.isDigit = false)
    (point : ∀ d rest, after = '.' :: d :: rest → d.isDigit = false) :
    numeral (digits ++ after) = (digits, after) := by
  obtain ⟨htake, hdrop⟩ := takeWhile_dropWhile_stop inside stop
  unfold numeral
  rw [htake, hdrop]
  split
  · next d rest =>
    rw [if_neg (by simp [point d rest rfl])]
  · rfl

theorem numeral_fraction {digits decimals : List Char} (inside : ∀ d ∈ digits, d.isDigit = true)
    (some_decimal : decimals ≠ []) (behind : ∀ d ∈ decimals, d.isDigit = true)
    (stop : ∀ d ∈ after.head?, d.isDigit = false) :
    numeral (digits ++ '.' :: decimals ++ after) = (digits ++ '.' :: decimals, after) := by
  obtain ⟨d, decimals, rfl⟩ := List.exists_cons_of_ne_nil some_decimal
  have hpoint : ∀ e ∈ ('.' :: d :: (decimals ++ after)).head?, e.isDigit = false := by simp
  obtain ⟨htake, hdrop⟩ := takeWhile_dropWhile_stop inside hpoint
  obtain ⟨htake', hdrop'⟩ := takeWhile_dropWhile_stop behind stop
  have hd : d.isDigit = true := behind d List.mem_cons_self
  rw [List.cons_append] at htake' hdrop'
  unfold numeral
  rw [List.append_assoc, List.cons_append, List.cons_append, htake, hdrop]
  simp only [hd, ↓reduceIte, htake', hdrop']

theorem registered_pair {d : Char} {kind : Token.Kind}
    (h : Token.Kind.ofSymbol? (String.ofList [c, d]) = some kind) :
    registered c (d :: after) = (word kind [c, d] none, after) := by
  simp only [registered, h]

theorem registered_alone
    (h : ∀ d ∈ after.head?, Token.Kind.ofSymbol? (String.ofList [c, d]) = none) :
    registered c after = (alone c, after) := by
  cases after with
  | nil => rfl
  | cons d after => simp only [registered, h d rfl]

/-- A piece that stands in front of a text is cut off from it. -/
theorem Stands.first_eq (h : Stands piece after) :
    ∃ c rest, piece.text ++ after = c :: rest ∧ first c rest = (piece, after) := by
  cases h with
  | blank hblank => exact ⟨_, _, rfl, first_blank hblank⟩
  | @lineComment body _ inside stop =>
    have hinside : ∀ d ∈ body, (d ≠ '\n' : Bool) = true := by
      intro d hd
      simpa using fun h : d = '\n' => inside (h ▸ hd)
    obtain ⟨htake, hdrop⟩ := takeWhile_dropWhile_stop hinside (by simpa [EndsLine] using stop)
    refine ⟨'/', '/' :: (body ++ after), rfl, ?_⟩
    rw [first_lineComment, htake, hdrop]
  | @blockComment body _ inside =>
    refine ⟨'/', '*' :: (body ++ '*' :: '/' :: after), by simp [text], ?_⟩
    rw [first_blockComment, block, closeComment_of_body inside]
  | @openComment body inside =>
    refine ⟨'/', '*' :: body, by simp [text], ?_⟩
    rw [first_blockComment, block, closeComment_none.mpr inside]
  | @name c parts _ start inside stop =>
    have hparts : ∀ d ∈ c :: parts, isNamePart d = true :=
      List.forall_mem_cons.mpr ⟨isNamePart_of_isNameStart start, inside⟩
    obtain ⟨htake, hdrop⟩ := takeWhile_dropWhile_stop hparts stop
    refine ⟨c, parts ++ after, rfl, ?_⟩
    rw [first_name start, Piece.name, ← List.cons_append, htake, hdrop]
  | @whole digits _ some_digit inside stop point =>
    obtain ⟨d, digits, rfl⟩ := List.exists_cons_of_ne_nil some_digit
    refine ⟨d, digits ++ after, rfl, ?_⟩
    rw [first_number (inside d List.mem_cons_self), number_eq, ← List.cons_append,
      numeral_whole inside stop point]
  | @fraction digits decimals _ some_digit inside some_decimal behind stop =>
    obtain ⟨d, digits, rfl⟩ := List.exists_cons_of_ne_nil some_digit
    refine ⟨d, digits ++ '.' :: decimals ++ after, rfl, ?_⟩
    rw [first_number (inside d List.mem_cons_self), number_eq, ← List.cons_append,
      ← List.cons_append, numeral_fraction inside some_decimal behind stop]
  | @string items _ inside =>
    refine ⟨'"', StringItem.texts items ++ '"' :: after, by simp [text], ?_⟩
    rw [first_quote, string_closed inside]
  | openString inside dangling stop =>
    exact ⟨'"', _, rfl, first_quote.trans (string_open inside dangling stop)⟩
  | @pair c d kind _ spelled =>
    have hmem := mem_symbols spelled
    have hcomment : ∀ e ∈ (d :: after).head?, c = '/' → e ≠ '/' ∧ e ≠ '*' := by
      rintro e he rfl
      cases he
      have hno : ['/', '/'] ∉ symbols ∧ ['/', '*'] ∉ symbols := by decide +kernel
      exact ⟨fun h => hno.1 (h ▸ hmem), fun h => hno.2 (h ▸ hmem)⟩
    have hmark := isMark_of_mem_symbols _ hmem c List.mem_cons_self
    exact ⟨c, d :: after, rfl, (first_registered hmark hcomment).trans (registered_pair spelled)⟩
  | @single c kind _ spelled stop comment =>
    have hmark := isMark_of_mem_symbols _ (mem_symbols spelled) c List.mem_cons_self
    refine ⟨c, after, rfl, ?_⟩
    rw [first_registered hmark comment, registered_alone stop, alone, spelled]
  | @stray c _ mark unknown stop =>
    have hslash : c ≠ '/' := by
      rintro rfl
      revert unknown
      decide +kernel
    refine ⟨c, after, rfl, ?_⟩
    rw [first_registered mark (fun _ _ h => absurd h hslash), registered_alone stop, alone, unknown]

/-! ## All pieces -/

/-- Each piece stands in front of the text of those behind it. -/
def Standing : List Piece → Prop
  | [] => True
  | piece :: more => Stands piece (more.flatMap text) ∧ Standing more

theorem Standing.pieces_eq {ps : List Piece} (h : Standing ps) : pieces (ps.flatMap text) = ps := by
  induction ps with
  | nil => rw [List.flatMap_nil, pieces]
  | cons piece more ih =>
    obtain ⟨hpiece, hmore⟩ := h
    obtain ⟨c, rest, htext, hfirst⟩ := hpiece.first_eq
    rw [List.flatMap_cons, htext, pieces, hfirst, ih hmore]

end Piece

theorem pieces_standing (input : List Char) : Piece.Standing (pieces input) := by
  fun_induction pieces input with
  | case1 => trivial
  | case2 c rest found ih =>
    refine ⟨?_, ih⟩
    rw [pieces_text]
    exact Piece.first_stands c rest

end JavaSubset
