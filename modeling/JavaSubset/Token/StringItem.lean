/-!
# The inside of a string literal

Between its quotes a string literal is a sequence of items, each a plain character or a backslash
with the character after it. `StringItem.split` reads the items up to the first bare quote, line
feed or end of text; nothing is lost (`StringItem.split_text`).
-/

namespace JavaSubset

inductive StringItem where
  | plain (c : Char)
  | escape (c : Char)
  deriving DecidableEq

namespace StringItem

/-- How an item is written. -/
def text : StringItem → List Char
  | plain c => [c]
  | escape c => ['\\', c]

/-- What an item stands for; a backslash before a character that names no escape stays. -/
def value : StringItem → List Char
  | plain c => [c]
  | escape 'n' => ['\n']
  | escape 't' => ['\t']
  | escape 'r' => ['\r']
  | escape 'b' => ['\x08']
  | escape 'f' => ['\x0c']
  | escape '0' => ['\x00']
  | escape '"' => ['"']
  | escape '\'' => ['\'']
  | escape '\\' => ['\\']
  | escape c => ['\\', c]

def texts (items : List StringItem) : List Char := items.flatMap text

def values (items : List StringItem) : List Char := items.flatMap value

/-- The items in front of the first bare quote or line feed, and what follows them. A backslash
escapes neither a line feed nor the end of the text. -/
def split : List Char → List StringItem × List Char
  | [] => ([], [])
  | '\\' :: c :: rest =>
    if c = '\n' then ([plain '\\'], c :: rest)
    else (split rest).map (escape c :: ·) id
  | c :: rest =>
    if c = '"' ∨ c = '\n' then ([], c :: rest)
    else (split rest).map (plain c :: ·) id

theorem split_text (input : List Char) : texts (split input).1 ++ (split input).2 = input := by
  fun_induction split input with
  | case1 => rfl
  | case2 => simp_all [texts, text]
  | case3 c rest h ih => simpa [texts, text] using ih
  | case4 => rfl
  | case5 c rest _ h ih => simpa [texts, text] using ih

end StringItem

end JavaSubset
