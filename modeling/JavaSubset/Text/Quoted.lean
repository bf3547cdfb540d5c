import JavaSubset.Text.Printable

/-!
# Quoted text

`quote` shows a text between double quotes on one line: a quote, a backslash and the commonest
control characters get a backslash and a letter, every other character that can not be shown is
written as its code point in hexadecimal.
-/

namespace JavaSubset

/-- A character inside quotes. -/
def quoteChar (c : Char) : List Char :=
  if c = '"' ∨ c = '\\' then ['\\', c]
  else if c = '\n' then ['\\', 'n']
  else if c = '\r' then ['\\', 'r']
  else if c = '\t' then ['\\', 't']
  else if c = '\x00' then ['\\', '0']
  else if isPrintable c then [c]
  else '\\' :: 'u' :: '{' :: (Nat.toDigits 16 c.toNat ++ ['}'])

def quoteChars (text : List Char) : List Char := '"' :: (text.flatMap quoteChar ++ ['"'])

def quote (text : String) : String := String.ofList (quoteChars text.toList)

end JavaSubset
