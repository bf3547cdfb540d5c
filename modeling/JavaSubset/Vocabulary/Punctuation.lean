/-!
# Punctuation

The marks that separate and enclose; each is a single character.
-/

namespace JavaSubset

inductive Punctuation where
  | comma | semicolon | colon | dot | lparen | rparen | lbrace | rbrace
  deriving DecidableEq

namespace Punctuation

def char : Punctuation → Char
  | comma => ','
  | semicolon => ';'
  | colon => ':'
  | dot => '.'
  | lparen => '('
  | rparen => ')'
  | lbrace => '{'
  | rbrace => '}'

def spelling (p : Punctuation) : String := String.singleton p.char

def name : Punctuation → String
  | comma => "Comma"
  | semicolon => "Semicolon"
  | colon => "Colon"
  | dot => "Dot"
  | lparen => "LParen"
  | rparen => "RParen"
  | lbrace => "LBrace"
  | rbrace => "RBrace"

/-- The name of the group a mark belongs to. -/
def category : Punctuation → String
  | comma | semicolon | colon => "Separator"
  | dot => "Access"
  | lparen | rparen | lbrace | rbrace => "Delimiter"

def all : List Punctuation := [comma, semicolon, colon, dot, lparen, rparen, lbrace, rbrace]

def ofSpelling? (text : String) : Option Punctuation := all.find? (·.spelling = text)

def ofChar? (c : Char) : Option Punctuation := all.find? (·.char = c)

end Punctuation

end JavaSubset
