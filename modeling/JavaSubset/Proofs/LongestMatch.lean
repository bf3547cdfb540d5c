import JavaSubset.Proofs.Tiling

/-!
# Every word is the longest the vocabulary has

`Token.Follows t c tail` : in front of the text that starts with `c` and goes on with `tail` the
vocabulary asks for the token `t`. A letter asks for the longest name, a digit for the longest
numeral, any other character for the longest symbol (`Longest`); a quote opens a string. Each piece
that stands in front of a text makes such a token (`Piece.Stands.follows`), and so every token of a
source is one (`lex_follows`).
-/

namespace JavaSubset

/-! ## Longest beginnings -/

/-- `text` is the longest beginning of `rest` with the property `P`. -/
structure Longest (P : List Char → Prop) (rest text : List Char) : Prop where
  fits : P text
  starts : text <+: rest
  maximal : ∀ other, P other → other <+: rest → other.length ≤ text.length

section Longest

variable {P : Char → Prop} {text other after : List Char}

/-- A beginning that goes further than `text` has the first character behind it. -/
theorem length_le_or_mem (h : other <+: text ++ after) :
    other.length ≤ text.length ∨ ∃ d ∈ after.head?, d ∈ other := by
  rcases List.prefix_or_prefix_of_prefix h (List.prefix_append text after) with hle | ⟨more, rfl⟩
  · exact .inl hle.length_le
  · cases more with
    | nil => exact .inl (by simp)
    | cons d more =>
      obtain ⟨tail, rfl⟩ := (List.prefix_append_right_inj text).mp h
      exact .inr ⟨d, rfl, by simp⟩

theorem longest_of_stop (inside : ∀ d ∈ text, P d) (stop : ∀ d ∈ after.head?, ¬ P d) :
    Longest (fun s => ∀ d ∈ s, P d) (text ++ after) text := by
  refine ⟨inside, List.prefix_append text after, fun other hother hstart => ?_⟩
  rcases length_le_or_mem hstart with hle | ⟨d, hd, hmem⟩
  · exact hle
  · exact absurd (hother d hmem) (stop d hd)

end Longest

/-! ## Characters -/

def IsLetter (c : Char) : Prop := ('A' ≤ c ∧ c ≤ 'Z') ∨ ('a' ≤ c ∧ c ≤ 'z')

def IsDecimal (c : Char) : Prop := '0' ≤ c ∧ c ≤ '9'

/-- What a name starts with. -/
def OpensName (c : Char) : Prop := IsLetter c ∨ c = '_' ∨ c = '$'

/-- What a name goes on with. -/
def InName (c : Char) : Prop := OpensName c ∨ IsDecimal c

instance (c : Char) : Decidable (IsLetter c) := inferInstanceAs (Decidable (_ ∨ _))

instance (c : Char) : Decidable (IsDecimal c) := inferInstanceAs (Decidable (_ ∧ _))

instance (c : Char) : Decidable (OpensName c) := inferInstanceAs (Decidable (_ ∨ _))

instance (c : Char) : Decidable (InName c) := inferInstanceAs (Decidable (_ ∨ _))

theorem isDigit_iff {c : Char} : c.isDigit = true ↔ IsDecimal c :=
  Bool.and_eq_true_iff.trans (and_congr decide_eq_true_iff decide_eq_true_iff)

theorem isNameStart_iff {c : Char} : isNameStart c = true ↔ OpensName c := by
  have hletter : c.isAlpha = true ↔ IsLetter c :=
    Bool.or_eq_true_iff.trans (or_congr decide_eq_true_iff
      (Bool.and_eq_true_iff.trans (and_congr decide_eq_true_iff decide_eq_true_iff)))
  simp only [isNameStart, Bool.or_eq_true, decide_eq_true_eq, hletter, OpensName, or_assoc]

theorem isNamePart_iff {c : Char} : isNamePart c = true ↔ InName c := by
  rw [isNamePart, Bool.or_eq_true, isNameStart_iff, isDigit_iff, InName]

theorem isDigit_eq_false_iff {c : Char} : c.isDigit = false ↔ ¬ IsDecimal c := by
  rw [← isDigit_iff, Bool.not_eq_true]

theorem isNameStart_eq_false_iff {c : Char} : isNameStart c = false ↔ ¬ OpensName c := by
  rw [← isNameStart_iff, Bool.not_eq_true]

theorem isNamePart_eq_false_iff {c : Char} : isNamePart c = false ↔ ¬ InName c := by
  rw [← isNamePart_iff, Bool.not_eq_true]

/-! ## Numerals -/

/-- Some digits and nothing else. -/
def IsDigits (text : List Char) : Prop := text ≠ [] ∧ ∀ d ∈ text, IsDecimal d

/-- Digits, or digits on both sides of a point. -/
inductive IsNumeral : List Char → Prop where
  | whole {digits : List Char} (digits_ok : IsDigits digits) : IsNumeral digits
  | fraction {digits decimals : List Char} (digits_ok : IsDigits digits)
      (decimals_ok : IsDigits decimals) : IsNumeral (digits ++ '.' :: decimals)

theorem IsNumeral.head {text : List Char} (h : IsNumeral text) :
    ∃ d more, text = d :: more ∧ IsDecimal d := by
  have hdigits : ∀ {digits : List Char}, IsDigits digits →
      ∃ d more, digits = d :: more ∧ IsDecimal d := by
    rintro digits ⟨some_digit, inside⟩
    obtain ⟨d, more, rfl⟩ := List.exists_cons_of_ne_nil some_digit
    exact ⟨d, more, rfl, inside d List.mem_cons_self⟩
  cases h with
  | whole digits_ok => exact hdigits digits_ok
  | fraction digits_ok decimals_ok =>
    obtain ⟨d, more, rfl, hd⟩ := hdigits digits_ok
    exact ⟨d, _, rfl, hd⟩

theorem isDigits_of {text : List Char} (some_digit : text ≠ [])
    (inside : ∀ d ∈ text, d.isDigit = true) : IsDigits text :=
  ⟨some_digit, fun d hd => isDigit_iff.mp (inside d hd)⟩

section Numerals

variable {digits digits' decimals decimals' after : List Char}

theorem stops_digits (stop : ∀ d ∈ after.head?, d.isDigit = false) :
    ∀ d ∈ after.head?, ¬ IsDecimal d :=
  fun d hd => isDigit_eq_false_iff.mp (stop d hd)

theorem point_stops (rest : List Char) : ∀ d ∈ ('.' :: rest).head?, ¬ IsDecimal d := by
  intro d hd
  cases hd
  decide

theorem digits_longest (h : IsDigits digits) (stop : ∀ d ∈ after.head?, ¬ IsDecimal d)
    (h' : IsDigits digits') (hstart : digits' <+: digits ++ after) :
    digits'.length ≤ digits.length :=
  (longest_of_stop h.2 stop).maximal digits' h'.2 hstart

/-- The digits in front of a point are all digits there are. -/
theorem digits_eq_of_point (h : IsDigits digits) (stop : ∀ d ∈ after.head?, ¬ IsDecimal d)
    (h' : IsDigits digits') {rest : List Char} (heq : digits' ++ '.' :: rest = digits ++ after) :
    digits' = digits ∧ '.' :: rest = after := by
  have hle := digits_longest h stop h' ⟨'.' :: rest, heq⟩
  have hge := digits_longest h' (point_stops rest) h ⟨after, heq.symm⟩
  exact List.append_inj heq (Nat.le_antisymm hle hge)

theorem whole_longest (h : IsDigits digits) (stop : ∀ d ∈ after.head?, ¬ IsDecimal d)
    (point : ∀ d rest, after = '.' :: d :: rest → ¬ IsDecimal d) :
    Longest IsNumeral (digits ++ after) digits := by
  refine ⟨.whole h, List.prefix_append digits after, fun other hother hstart => ?_⟩
  cases hother with
  | whole h' => exact digits_longest h stop h' hstart
  | fraction h' hdecimals =>
    obtain ⟨tail, htail⟩ := hstart
    rw [List.append_assoc, List.cons_append] at htail
    obtain ⟨-, rfl⟩ := digits_eq_of_point h stop h' htail
    obtain ⟨d, more, rfl⟩ := List.exists_cons_of_ne_nil hdecimals.1
    exact absurd (hdecimals.2 d List.mem_cons_self) (point d (more ++ tail) rfl)

theorem fraction_longest (h : IsDigits digits) (hdecimals : IsDigits decimals)
    (stop : ∀ d ∈ after.head?, ¬ IsDecimal d) :
    Longest IsNumeral (digits ++ '.' :: decimals ++ after) (digits ++ '.' :: decimals) := by
  have hpoint := point_stops (decimals ++ after)
  refine ⟨.fraction h hdecimals, List.prefix_append _ after, fun other hother hstart => ?_⟩
  rw [List.append_assoc, List.cons_append] at hstart
  cases hother with
  | whole h' =>
    have hle := digits_longest h hpoint h' hstart
    rw [List.length_append]
    omega
  | @fraction digits' decimals' h' hdecimals' =>
    obtain ⟨tail, htail⟩ := hstart
    rw [List.append_assoc, List.cons_append] at htail
    obtain ⟨rfl, hrest⟩ := digits_eq_of_point h hpoint h' htail
    have hle := digits_longest hdecimals stop hdecimals' ⟨tail, (List.cons.inj hrest).2⟩
    simp only [List.length_append, List.length_cons]
    omega

end Numerals

/-! ## The vocabulary -/

theorem Keyword.mem_all (k : Keyword) : k ∈ all := by
  cases k with
  | declaration word => cases word <;> decide
  | modifier modifier => cases modifier <;> decide
  | primitive type => cases type <;> decide
  | control word => cases word <;> decide
  | expression word => cases word <;> decide
  | reserved word => cases word <;> decide

theorem Operator.mem_all (op : Operator) : op ∈ all := by
  cases op with
  | binary op => cases op <;> decide
  | step op => cases op <;> decide
  | assign op => cases op <;> decide

theorem Punctuation.mem_all (mark : Punctuation) : mark ∈ all := by
  cases mark <;> decide

/-- No two keywords are spelled alike. -/
theorem Keyword.ofSpelling?_spelling (k : Keyword) : ofSpelling? k.spelling = some k := by
  have hall : ∀ k ∈ all, ofSpelling? k.spelling = some k := by decide +kernel
  exact hall k (mem_all k)

/-- The spelling of a symbol's kind. -/
def Token.Kind.symbol? : Token.Kind → Option String
  | operator op => some op.spelling
  | punctuation mark => some mark.spelling
  | _ => none

theorem ofSymbol?_eq_some_iff {text : String} {kind : Token.Kind} :
    Token.Kind.ofSymbol? text = some kind ↔ kind.symbol? = some text := by
  constructor
  · intro h
    rcases ofSymbol?_cases h with ⟨op, -, rfl, rfl⟩ | ⟨mark, -, rfl, rfl⟩ <;> rfl
  · intro h
    cases kind with
    | operator op =>
      cases h
      have hall : ∀ op ∈ Operator.all,
          Token.Kind.ofSymbol? op.spelling = some (.operator op) := by decide +kernel
      exact hall op (Operator.mem_all op)
    | punctuation mark =>
      cases h
      have hall : ∀ mark ∈ Punctuation.all,
          Token.Kind.ofSymbol? mark.spelling = some (.punctuation mark) := by decide +kernel
      exact hall mark (Punctuation.mem_all mark)
    | _ => cases h

section Symbols

variable {c d : Char} {text after : List Char}

theorem mem_symbols_iff :
    text ∈ symbols ↔ ∃ kind, Token.Kind.ofSymbol? (String.ofList text) = some kind := by
  constructor
  · intro h
    rcases List.mem_append.mp h with h | h
    · obtain ⟨op, -, rfl⟩ := List.mem_map.mp h
      exact ⟨.operator op, ofSymbol?_eq_some_iff.mpr (by rw [String.ofList_toList]; rfl)⟩
    · obtain ⟨mark, -, rfl⟩ := List.mem_map.mp h
      exact ⟨.punctuation mark, ofSymbol?_eq_some_iff.mpr (by rw [String.ofList_toList]; rfl)⟩
  · rintro ⟨kind, h⟩
    exact mem_symbols h

theorem not_mem_symbols (h : Token.Kind.ofSymbol? (String.ofList text) = none) :
    text ∉ symbols := by
  intro hmem
  obtain ⟨kind, hkind⟩ := mem_symbols_iff.mp hmem
  rw [h] at hkind
  cases hkind

/-- A symbol has one character or two. -/
theorem symbol_cases (h : text ∈ symbols) : (∃ c, text = [c]) ∨ ∃ c d, text = [c, d] := by
  have hall : ∀ text ∈ symbols, text.length = 1 ∨ text.length = 2 := by decide +kernel
  have hlength := hall text h
  match text, hlength with
  | [c], _ => exact .inl ⟨c, rfl⟩
  | [c, d], _ => exact .inr ⟨c, d, rfl⟩

/-- Where no two characters are a symbol, the only symbol there can be is the first one. -/
theorem symbol_eq_single (stop : ∀ d ∈ after.head?, [c, d] ∉ symbols) (h : text ∈ symbols)
    (hstart : text <+: c :: after) : text = [c] := by
  obtain ⟨tail, htail⟩ := hstart
  rcases symbol_cases h with ⟨d, rfl⟩ | ⟨d, e, rfl⟩
  · cases htail
    rfl
  · cases htail
    exact absurd h (stop e rfl)

theorem pair_longest (h : [c, d] ∈ symbols) :
    Longest (· ∈ symbols) (c :: d :: after) [c, d] := by
  refine ⟨h, ⟨after, rfl⟩, fun other hother _ => ?_⟩
  rcases symbol_cases hother with ⟨_, rfl⟩ | ⟨_, _, rfl⟩ <;> simp

theorem single_longest (h : [c] ∈ symbols) (stop : ∀ d ∈ after.head?, [c, d] ∉ symbols) :
    Longest (· ∈ symbols) (c :: after) [c] := by
  refine ⟨h, ⟨after, rfl⟩, fun other hother hstart => ?_⟩
  exact (symbol_eq_single stop hother hstart).symm ▸ Nat.le_refl 1

end Symbols

/-! ## What the vocabulary asks for -/

/-- The token that the vocabulary asks for where the text goes on with `c` and `tail`. -/
inductive Token.Follows (t : Token) (c : Char) (tail : List Char) : Prop where
  /-- A name is a keyword if it is spelled like one. -/
  | name (start : OpensName c)
      (longest : Longest (fun s => ∀ d ∈ s, InName d) (c :: tail) t.text.toList)
      (keyword : ∀ k : Keyword, t.kind = .keyword k ↔ t.text = k.spelling)
      (other : (∀ k : Keyword, t.text ≠ k.spelling) → t.kind = .identifier)
  | number (start : IsDecimal c) (longest : Longest IsNumeral (c :: tail) t.text.toList)
      (kind : t.kind = .number) (literal : t.literal = some t.text)
  | string (start : c = '"') (kind : t.kind = .stringLiteral ∨ t.kind = .illegal)
  /-- The kind of a symbol is the only one with this spelling. -/
  | symbol (name : ¬ OpensName c) (digit : ¬ IsDecimal c) (quote : c ≠ '"')
      (longest : Longest (· ∈ symbols) (c :: tail) t.text.toList)
      (kind : ∀ kind : Token.Kind, kind.symbol? = some t.text ↔ kind = t.kind)
  | stray (name : ¬ OpensName c) (digit : ¬ IsDecimal c) (quote : c ≠ '"')
      (unknown : ∀ s ∈ symbols, ¬ s <+: c :: tail) (kind : t.kind = .illegal)
      (text : t.text.toList = [c])

namespace Piece

variable {c : Char} {rest after : List Char} {piece : Piece} {p : Position} {t : Token}
  {kind : Token.Kind}

/-- A name is the keyword it spells. -/
theorem nameKind_eq_keyword {text : List Char} {k : Keyword} :
    nameKind text = .keyword k ↔ String.ofList text = k.spelling := by
  refine ⟨nameKind_spelling, fun h => ?_⟩
  rw [nameKind, h, Keyword.ofSpelling?_spelling]

theorem nameKind_eq_identifier {text : List Char}
    (h : ∀ k : Keyword, String.ofList text ≠ k.spelling) : nameKind text = .identifier := by
  cases hfound : Keyword.ofSpelling? (String.ofList text) with
  | none => rw [nameKind, hfound]
  | some k =>
    have hkind : nameKind text = .keyword k := by rw [nameKind, hfound]
    exact absurd (nameKind_spelling hkind) (h k)

/-- The kind found for a symbol is the only one with its spelling. -/
theorem kind_unique {text : String} (h : Token.Kind.ofSymbol? text = some kind)
    (other : Token.Kind) : other.symbol? = some text ↔ other = kind := by
  rw [← ofSymbol?_eq_some_iff, h, Option.some_inj, eq_comm]

theorem name_follows {parts : List Char} (start : isNameStart c = true)
    (inside : ∀ d ∈ parts, isNamePart d = true) (stop : ∀ d ∈ after.head?, isNamePart d = false)
    (htoken : (word (nameKind (c :: parts)) (c :: parts) none).token? p = some t) :
    t.Follows c (parts ++ after) := by
  cases htoken
  have hparts : ∀ d ∈ c :: parts, InName d := by
    intro d hd
    rcases List.mem_cons.mp hd with rfl | hd
    · exact .inl (isNameStart_iff.mp start)
    · exact isNamePart_iff.mp (inside d hd)
  have hstop : ∀ d ∈ after.head?, ¬ InName d :=
    fun d hd => isNamePart_eq_false_iff.mp (stop d hd)
  refine .name (isNameStart_iff.mp start) ?_ (fun k => nameKind_eq_keyword) nameKind_eq_identifier
  rw [text, String.toList_ofList]
  exact longest_of_stop hparts hstop

theorem number_follows {digits : List Char} (h : Longest IsNumeral (digits ++ after) digits)
    (htoken : (word .number digits (some (String.ofList digits))).token? p = some t) :
    ∃ c tail, digits ++ after = c :: tail ∧ t.Follows c tail := by
  cases htoken
  obtain ⟨d, more, rfl, hd⟩ := h.fits.head
  refine ⟨d, more ++ after, rfl, .number hd ?_ rfl rfl⟩
  rw [text, String.toList_ofList]
  exact h

theorem symbol_follows {mark : List Char}
    (spelled : Token.Kind.ofSymbol? (String.ofList mark) = some kind)
    (h : Longest (· ∈ symbols) (mark ++ after) mark)
    (htoken : (word kind mark none).token? p = some t) :
    ∃ c tail, mark ++ after = c :: tail ∧ t.Follows c tail := by
  cases htoken
  obtain ⟨c, more, rfl⟩ : ∃ c more, mark = c :: more := by
    rcases symbol_cases h.fits with ⟨c, rfl⟩ | ⟨c, d, rfl⟩
    · exact ⟨c, [], rfl⟩
    · exact ⟨c, [d], rfl⟩
  have hmark := isMark_of_mem_symbols _ h.fits c List.mem_cons_self
  refine ⟨c, more ++ after, rfl, .symbol (isNameStart_eq_false_iff.mp hmark.name)
    (isDigit_eq_false_iff.mp hmark.digit) hmark.quote ?_ (kind_unique spelled)⟩
  rw [text, String.toList_ofList]
  exact h

/-- A piece that stands in front of a text makes the token that the vocabulary asks for. -/
theorem Stands.follows (h : Stands piece after) (htoken : piece.token? p = some t) :
    ∃ c tail, piece.text ++ after = c :: tail ∧ t.Follows c tail := by
  cases h with
  | blank | lineComment | blockComment | openComment => cases htoken
  | name start inside stop => exact ⟨_, _, rfl, name_follows start inside stop htoken⟩
  | whole some_digit inside stop point =>
    exact number_follows (whole_longest (isDigits_of some_digit inside) (stops_digits stop)
      fun d rest hrest => isDigit_eq_false_iff.mp (point d rest hrest)) htoken
  | fraction some_digit inside some_decimal behind stop =>
    exact number_follows (fraction_longest (isDigits_of some_digit inside)
      (isDigits_of some_decimal behind) (stops_digits stop)) htoken
  | string inside =>
    cases htoken
    exact ⟨'"', _, rfl, .string rfl (.inl rfl)⟩
  | openString inside dangling stop =>
    cases htoken
    exact ⟨'"', _, rfl, .string rfl (.inr rfl)⟩
  | pair spelled => exact symbol_follows spelled (pair_longest (mem_symbols spelled)) htoken
  | single spelled stop =>
    refine symbol_follows spelled (single_longest (mem_symbols spelled) ?_) htoken
    exact fun d hd => not_mem_symbols (stop d hd)
  | @stray c _ mark unknown stop =>
    cases htoken
    refine ⟨c, after, rfl, .stray (isNameStart_eq_false_iff.mp mark.name)
      (isDigit_eq_false_iff.mp mark.digit) mark.quote ?_ rfl ?_⟩
    · intro s hs hstart
      have hsingle := symbol_eq_single (fun d hd => not_mem_symbols (stop d hd)) hs hstart
      exact not_mem_symbols unknown (hsingle ▸ hs)
    · rw [text, String.toList_ofList]

/-- Numbers and strings have a value, and no other words. -/
theorem Stands.literal_isSome (h : Stands piece after) (htoken : piece.token? p = some t) :
    t.literal.isSome = true ↔ t.kind = .number ∨ t.kind = .stringLiteral := by
  have hsymbol : ∀ {text : String} {kind : Token.Kind}, Token.Kind.ofSymbol? text = some kind →
      kind ≠ .number ∧ kind ≠ .stringLiteral := by
    intro text kind hkind
    rcases ofSymbol?_cases hkind with ⟨op, -, -, rfl⟩ | ⟨mark, -, -, rfl⟩ <;> simp
  cases h with
  | blank | lineComment | blockComment | openComment => cases htoken
  | @name c parts =>
    cases htoken
    unfold nameKind
    split <;> simp
  | whole | fraction | string | openString | stray =>
    cases htoken
    simp
  | pair spelled | single spelled =>
    cases htoken
    simp [hsymbol spelled]

end Piece

/-! ## All tokens of a source -/

/-- **Every token is the longest match.** Where it starts the vocabulary asks for no other one, and
only numbers and strings have a value. -/
theorem lex_follows {source : String} {t : Token} (ht : t ∈ (lex source).tokens) :
    (t.literal.isSome = true ↔ t.kind = .number ∨ t.kind = .stringLiteral) ∧
      (t.kind ≠ .eof → ∃ after c tail, t.loc.span.Cuts source t.text after ∧
        (t.text ++ after).toList = c :: tail ∧ t.Follows c tail) := by
  rcases lex_token_cases ht with ⟨line, offset, rfl⟩ | ⟨p, piece, after, htoken, hstands, hcuts⟩
  · exact ⟨by simp [Token.endOfInput], fun h => absurd rfl h⟩
  · obtain ⟨c, tail, hrest, hfollows⟩ := hstands.follows htoken
    refine ⟨hstands.literal_isSome htoken, fun _ => ⟨_, c, tail, hcuts, ?_, hfollows⟩⟩
    rw [String.toList_append, String.toList_ofList, (hstands.token htoken).1,
      String.toList_ofList, hrest]

/-- Of three plus signs the first two are a symbol. -/
theorem lex_follows_increment :
    let source := "/* é */x+++1.2.3"
    let t : Token := ⟨.operator (.step .increment), "++", none, ⟨⟨9, 11⟩, 1⟩⟩
    t ∈ (lex source).tokens ∧
      (t.literal.isSome = true ↔ t.kind = .number ∨ t.kind = .stringLiteral) ∧
      (t.kind ≠ .eof → ∃ after c tail, t.loc.span.Cuts source t.text after ∧
        (t.text ++ after).toList = c :: tail ∧ t.Follows c tail) := by
  intro source t
  have ht : t ∈ (lex source).tokens := by decide +kernel
  exact ⟨ht, lex_follows ht⟩

end JavaSubset
