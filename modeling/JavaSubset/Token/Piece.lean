import JavaSubset.Token
import JavaSubset.Token.StringItem

/-!
# Cutting a source into pieces

Before anything has a place, a source text is cut into `Piece`s: blanks, comments, words of the
language and text that is none of these. `Piece.first` cuts off one piece and `pieces` all of
them; putting the pieces together again gives the source back (`pieces_text`).

A word is as long as it can be: a name takes every letter, digit, `_` and `$`, a number takes a
fraction if a digit follows the point, a symbol of two characters wins over one of one.
-/

namespace JavaSubset

/-! ## Character classes -/

/-- The characters between tokens. -/
def isBlank (c : Char) : Bool := c = ' ' || c = '\t' || c = '\r' || c = '\n' || c = '\x0c'

def isNameStart (c : Char) : Bool := c.isAlpha || c = '_' || c = '$'

def isNamePart (c : Char) : Bool := isNameStart c || c.isDigit

/-! ## Pieces -/

inductive Piece where
  | blank (c : Char)
  /-- From `//` to the end of the line, which is not part of it. -/
  | lineComment (body : List Char)
  /-- From `/*` to the first `*/`. -/
  | blockComment (body : List Char)
  /-- From a `/*` that is never closed to the end of the source. -/
  | openComment (body : List Char)
  | word (kind : Token.Kind) (text : List Char) (literal : Option String)
  /-- A character that starts nothing. -/
  | stray (c : Char)
  /-- A quote and what follows it on its line, with no quote to close it. -/
  | openString (body : List Char)
  deriving DecidableEq

namespace Piece

def text : Piece → List Char
  | blank c | stray c => [c]
  | lineComment body => '/' :: '/' :: body
  | blockComment body => '/' :: '*' :: (body ++ ['*', '/'])
  | openComment body => '/' :: '*' :: body
  | word _ text _ => text
  | openString body => '"' :: body

/-- The text up to the first `*/`, and what follows it. -/
def closeComment : List Char → Option (List Char × List Char)
  | [] => none
  | '*' :: '/' :: rest => some ([], rest)
  | c :: rest => (closeComment rest).map (Prod.map (c :: ·) id)

/-- A comment after its `/*`. -/
def block (rest : List Char) : Piece × List Char :=
  match closeComment rest with
  | some (body, after) => (blockComment body, after)
  | none => (openComment rest, [])

/-- A string after its opening quote. -/
def string (rest : List Char) : Piece × List Char :=
  match StringItem.split rest with
  | (items, '"' :: after) =>
    (word .stringLiteral ('"' :: (StringItem.texts items ++ ['"']))
      (some (String.ofList (StringItem.values items))), after)
  | (items, after) => (openString (StringItem.texts items), after)

/-- The kind of a name: a keyword if it is spelled like one. -/
def nameKind (text : List Char) : Token.Kind :=
  match Keyword.ofSpelling? (String.ofList text) with
  | some keyword => .keyword keyword
  | none => .identifier

def name (input : List Char) : Piece × List Char :=
  let text := input.takeWhile isNamePart
  (word (nameKind text) text none, input.dropWhile isNamePart)

/-- The digits of a number and, after a point that a digit follows, those of its fraction. -/
def numeral (input : List Char) : List Char × List Char :=
  let digits := input.takeWhile Char.isDigit
  match input.dropWhile Char.isDigit with
  | '.' :: d :: rest =>
    if d.isDigit then
      (digits ++ '.' :: (d :: rest).takeWhile Char.isDigit, (d :: rest).dropWhile Char.isDigit)
    else (digits, '.' :: d :: rest)
  | rest => (digits, rest)

def number (input : List Char) : Piece × List Char :=
  match numeral input with
  | (text, after) => (word .number text (some (String.ofList text)), after)

/-- An operator that starts with `c`: with the next character if that is one of `compounds`, else
`simple`. -/
def operator (c : Char) (simple : Operator) (compounds : List (Char × Operator)) :
    List Char → Piece × List Char
  | [] => (word (.operator simple) [c] none, [])
  | d :: rest =>
    match compounds.lookup d with
    | some op => (word (.operator op) [c, d] none, rest)
    | none => (word (.operator simple) [c] none, d :: rest)

/-- An operator whose first character means nothing alone. -/
def pairOnly (c second : Char) (op : Operator) : List Char → Piece × List Char
  | [] => (stray c, [])
  | d :: rest =>
    if d = second then (word (.operator op) [c, d] none, rest) else (stray c, d :: rest)

/-- A comment or an operator after its `/`. -/
def slash : List Char → Piece × List Char
  | '/' :: body => (lineComment (body.takeWhile (· ≠ '\n')), body.dropWhile (· ≠ '\n'))
  | '*' :: body => block body
  | '=' :: rest => (word (.operator (.assign .divAssign)) ['/', '='] none, rest)
  | rest => (word (.operator (.binary .div)) ['/'] none, rest)

/-- A punctuation mark, if `c` is one. -/
def mark (c : Char) (rest : List Char) : Piece × List Char :=
  match Punctuation.ofChar? c with
  | some found => (word (.punctuation found) [c] none, rest)
  | none => (stray c, rest)

/-- What starts with a character of no name, number or string. -/
def symbol (c : Char) (rest : List Char) : Piece × List Char :=
  match c with
  | '=' => operator '=' (.assign .assign) [('=', .binary .eq)] rest
  | '<' => operator '<' (.binary .lt) [('=', .binary .ltEq)] rest
  | '>' => operator '>' (.binary .gt) [('=', .binary .gtEq)] rest
  | '+' => operator '+' (.binary .add) [('+', .step .increment), ('=', .assign .addAssign)] rest
  | '-' => operator '-' (.binary .sub) [('-', .step .decrement), ('=', .assign .subAssign)] rest
  | '*' => operator '*' (.binary .mul) [('=', .assign .mulAssign)] rest
  | '%' => operator '%' (.binary .mod) [('=', .assign .modAssign)] rest
  | '/' => slash rest
  | '!' => pairOnly '!' '=' (.binary .notEq) rest
  | '&' => pairOnly '&' '&' (.binary .and) rest
  | '|' => pairOnly '|' '|' (.binary .or) rest
  | _ => mark c rest

/-- The first piece of a text that starts with `c`, and what follows it. -/
def first (c : Char) (rest : List Char) : Piece × List Char :=
  if isBlank c then (blank c, rest)
  else if isNameStart c then name (c :: rest)
  else if c.isDigit then number (c :: rest)
  else if c = '"' then string rest
  else symbol c rest

/-! ## Nothing is lost -/

theorem closeComment_text {input body after : List Char}
    (h : closeComment input = some (body, after)) : body ++ '*' :: '/' :: after = input := by
  fun_induction closeComment input generalizing body with
  | case1 => simp at h
  | case2 rest => simp_all
  | case3 c rest _ ih =>
    obtain ⟨found, hf, he⟩ := Option.map_eq_some_iff.1 h
    cases he
    simpa using ih hf

/-- What is cut off from `c :: rest`: `c`, and what follows it up to what is left. -/
def Takes (c : Char) (rest : List Char) (found : Piece × List Char) : Prop :=
  ∃ more, found.1.text = c :: more ∧ more ++ found.2 = rest

theorem block_takes (body : List Char) : Takes '/' ('*' :: body) (block body) := by
  unfold block
  split
  · next inside after h =>
    refine ⟨'*' :: (inside ++ ['*', '/']), rfl, ?_⟩
    rw [← closeComment_text h]
    simp
  · exact ⟨'*' :: body, rfl, by simp⟩

theorem string_takes (rest : List Char) : Takes '"' rest (string rest) := by
  have h := StringItem.split_text rest
  unfold string
  split
  · next items after hs =>
    exact ⟨StringItem.texts items ++ ['"'], rfl, by simpa [hs] using h⟩
  · next items after _ hs => exact ⟨StringItem.texts items, rfl, by simpa [hs] using h⟩

theorem name_takes {c : Char} (h : isNameStart c = true) (rest : List Char) :
    Takes c rest (name (c :: rest)) := by
  have hpart : isNamePart c = true := by simp [isNamePart, h]
  refine ⟨rest.takeWhile isNamePart, ?_, ?_⟩
  · simp [name, text, hpart]
  · simp [name, hpart]

theorem number_takes {c : Char} (h : c.isDigit = true) (rest : List Char) :
    Takes c rest (number (c :: rest)) := by
  have hrest := List.takeWhile_append_dropWhile (p := Char.isDigit) (l := rest)
  unfold number numeral
  simp only [List.takeWhile_cons, List.dropWhile_cons, h, ↓reduceIte]
  split
  · next d tail hafter =>
    split
    · refine ⟨rest.takeWhile Char.isDigit ++ '.' :: d :: tail.takeWhile Char.isDigit, rfl, ?_⟩
      rw [List.append_assoc, List.cons_append, List.cons_append, List.takeWhile_append_dropWhile,
        ← hafter, hrest]
    · exact ⟨rest.takeWhile Char.isDigit, rfl, by rw [← hafter, hrest]⟩
  · exact ⟨rest.takeWhile Char.isDigit, rfl, hrest⟩

theorem operator_takes (c : Char) (simple : Operator) (compounds : List (Char × Operator))
    (rest : List Char) : Takes c rest (operator c simple compounds rest) := by
  unfold operator
  split
  · exact ⟨[], rfl, rfl⟩
  · next d after =>
    split
    · exact ⟨[d], rfl, rfl⟩
    · exact ⟨[], rfl, rfl⟩

theorem pairOnly_takes (c second : Char) (op : Operator) (rest : List Char) :
    Takes c rest (pairOnly c second op rest) := by
  unfold pairOnly
  split
  · exact ⟨[], rfl, rfl⟩
  · next d after =>
    split
    · exact ⟨[d], rfl, rfl⟩
    · exact ⟨[], rfl, rfl⟩

theorem slash_takes (rest : List Char) : Takes '/' rest (slash rest) := by
  unfold slash
  split
  · next body => exact ⟨'/' :: body.takeWhile (· ≠ '\n'), rfl, by simp⟩
  · exact block_takes _
  · exact ⟨['='], rfl, rfl⟩
  · exact ⟨[], rfl, rfl⟩

theorem mark_takes (c : Char) (rest : List Char) : Takes c rest (mark c rest) := by
  unfold mark
  split
  · exact ⟨[], rfl, rfl⟩
  · exact ⟨[], rfl, rfl⟩

theorem symbol_takes (c : Char) (rest : List Char) : Takes c rest (symbol c rest) := by
  unfold symbol
  split
  case h_8 => exact slash_takes rest
  case h_9 | h_10 | h_11 => exact pairOnly_takes _ _ _ rest
  case h_12 => exact mark_takes c rest
  all_goals exact operator_takes _ _ _ rest

theorem first_takes (c : Char) (rest : List Char) : Takes c rest (first c rest) := by
  unfold first
  split
  · exact ⟨[], rfl, rfl⟩
  · split
    · next hname => exact name_takes hname rest
    · split
      · next hdigit => exact number_takes hdigit rest
      · split
        · next hquote =>
          rw [hquote]
          exact string_takes rest
        · exact symbol_takes c rest

/-- The first piece and what follows it make up the text. -/
theorem first_text (c : Char) (rest : List Char) :
    (first c rest).1.text ++ (first c rest).2 = c :: rest := by
  obtain ⟨more, htext, hrest⟩ := first_takes c rest
  rw [htext, List.cons_append, hrest]

theorem first_shorter (c : Char) (rest : List Char) :
    (first c rest).2.length < (c :: rest).length := by
  obtain ⟨more, -, hrest⟩ := first_takes c rest
  have hlength := congrArg List.length hrest
  rw [List.length_append] at hlength
  rw [List.length_cons]
  omega

end Piece

/-- All pieces of a text, in order. -/
def pieces : List Char → List Piece
  | [] => []
  | c :: rest =>
    let found := Piece.first c rest
    found.1 :: pieces found.2
termination_by input => input.length
decreasing_by exact Piece.first_shorter c rest

theorem pieces_text (input : List Char) : (pieces input).flatMap Piece.text = input := by
  fun_induction pieces input with
  | case1 => rfl
  | case2 c rest _ ih => rw [List.flatMap_cons, ih, Piece.first_text]

end JavaSubset
