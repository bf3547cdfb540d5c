import JavaSubset.Location
import JavaSubset.Vocabulary.Keyword
import JavaSubset.Vocabulary.Operator
import JavaSubset.Vocabulary.Punctuation

/-!
# Tokens

A `Token` is a word of the source: what it is (`Token.Kind`), how it is spelled, the value it
stands for if it is a literal, and where it stands. The kind alone decides how a token is parsed.
-/

namespace JavaSubset

inductive Token.Kind where
  | keyword (word : Keyword)
  | operator (op : Operator)
  | punctuation (mark : Punctuation)
  | identifier
  | number
  | stringLiteral
  /-- Text that is no token of the language; parsing passes over it. -/
  | illegal
  /-- The end of the source. -/
  | eof
  deriving DecidableEq

structure Token where
  kind : Token.Kind
  text : String
  literal : Option String
  loc : Location
  deriving DecidableEq

namespace Token.Kind

/-- The name of a kind, as token listings show it. -/
def name : Kind → String
  | keyword word => "Keyword(" ++ word.name ++ ")"
  | operator op => "Operator(" ++ op.name ++ ")"
  | punctuation mark => "Punctuation(" ++ mark.name ++ ")"
  | identifier => "Identifier"
  | number => "Number"
  | stringLiteral => "StringLiteral"
  | illegal => "Illegal"
  | eof => "Eof"

/-- A fixed spelling in the words of a diagnostic. -/
def quoted (spelling : String) : String := "'" ++ spelling ++ "'"

/-- A kind in the words of a diagnostic: fixed spellings are quoted. -/
def describe : Kind → String
  | keyword word => quoted word.spelling
  | operator op => quoted op.spelling
  | punctuation mark => quoted mark.spelling
  | identifier => "identifier"
  | number => "number"
  | stringLiteral => "string literal"
  | illegal => "illegal token"
  | eof => "end of input"

def all : List Kind :=
  Keyword.all.map keyword ++ Operator.all.map operator ++ Punctuation.all.map punctuation ++
    [identifier, number, stringLiteral, illegal, eof]

/-- The kind with exactly this name. -/
def ofName? (text : String) : Option Kind := all.find? (·.name = text)

def keyword? : Kind → Option Keyword
  | keyword word => some word
  | _ => none

def operator? : Kind → Option Operator
  | operator op => some op
  | _ => none

def punctuation? : Kind → Option Punctuation
  | punctuation mark => some mark
  | _ => none

def primitiveType? : Kind → Option PrimitiveType
  | keyword word => word.primitiveType?
  | _ => none

def modifier? : Kind → Option Modifier
  | keyword word => word.modifier?
  | _ => none

/-- The kind of a symbol with exactly this spelling. -/
def ofSymbol? (text : String) : Option Kind :=
  (Operator.ofSpelling? text).map operator <|> (Punctuation.ofSpelling? text).map punctuation

/-- Parsing passes over illegal text. -/
def isTrivia : Kind → Bool
  | illegal => true
  | _ => false

/-- The kinds a production can meet: everything but illegal text and the end of the source. -/
def isKept : Kind → Bool
  | illegal | eof => false
  | _ => true

end Token.Kind

/-- The end of the source at a byte offset. -/
def Token.endOfInput (line offset : Nat) : Token := ⟨.eof, "", none, ⟨⟨offset, offset⟩, line⟩⟩

end JavaSubset
