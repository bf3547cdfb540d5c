import JavaSubset.Diagnostic.Demand

/-!
# Diagnostics

A `Problem` is a cause, a `Diagnostic` is a problem at a location. All wording but that of the
demands is here:

* `Diagnostic.report` : the one-line form, `[line 3] Error at 'x': Expect ';' after expression.`;
* `Problem.code`, `Problem.help`, `Problem.label` : what the detailed form adds;
* `Diagnostic.detailed` : that form, again on one line.
-/

namespace JavaSubset

inductive Problem where
  | unterminatedString
  | unterminatedComment
  | illegalCharacter (char : Char)
  | unexpectedToken (demand : Demand) (found : Token.Kind) (lexeme : String)
  | missingClass (found : Token.Kind) (lexeme : String)
  | repeatedModifier (modifier : Modifier)
  | nestingTooDeep (found : Token.Kind) (lexeme : String)
  deriving DecidableEq

structure Diagnostic where
  problem : Problem
  loc : Location
  deriving DecidableEq

namespace Problem

/-- Lexical problems are seen before any grammar is applied. -/
def isLexical : Problem → Bool
  | unterminatedString | unterminatedComment | illegalCharacter _ => true
  | _ => false

/-- A token in words. -/
def atToken (found : Token.Kind) (lexeme : String) : String :=
  if found = .eof then "at end" else "at '" ++ lexeme ++ "'"

/-- The token a problem is pinned to, in words; lexical problems are pinned to none. -/
def anchor : Problem → String
  | unexpectedToken _ found lexeme | missingClass found lexeme | nestingTooDeep found lexeme =>
    atToken found lexeme
  | repeatedModifier modifier => "at '" ++ modifier.spelling ++ "'"
  | unterminatedString | unterminatedComment | illegalCharacter _ => ""

def message : Problem → String
  | unterminatedString => "Unterminated string."
  | unterminatedComment => "Unterminated block comment."
  | illegalCharacter char => "Unexpected character '" ++ String.singleton char ++ "'."
  | unexpectedToken demand _ _ => demand.message
  | missingClass _ _ => "Expect class declaration."
  | repeatedModifier modifier => "Repeated modifier '" ++ modifier.spelling ++ "'."
  | nestingTooDeep _ _ => "Nesting too deep."

def code : Problem → String
  | unterminatedString => "jcompiler::lex::unterminated_string"
  | unterminatedComment => "jcompiler::lex::unterminated_comment"
  | illegalCharacter _ => "jcompiler::lex::illegal_character"
  | unexpectedToken _ _ _ => "jcompiler::parse::unexpected_token"
  | missingClass _ _ => "jcompiler::parse::missing_class"
  | repeatedModifier _ => "jcompiler::parse::repeated_modifier"
  | nestingTooDeep _ _ => "jcompiler::parse::nesting_too_deep"

def help : Problem → Option String
  | unterminatedString => some "string literals must be closed with `\"` on the line they start"
  | unterminatedComment => some "close the comment with `*/`"
  | missingClass _ _ => some "a compilation unit must declare exactly one class"
  | nestingTooDeep _ _ => some "split deeply nested blocks or expressions into smaller pieces"
  | illegalCharacter _ | unexpectedToken _ _ _ | repeatedModifier _ => none

/-- What is written under the marked text. -/
def label : Problem → String
  | unterminatedString => "string starts here"
  | unterminatedComment => "comment starts here"
  | illegalCharacter _ => "not valid here"
  | unexpectedToken demand found _ =>
    "expected " ++ demand.expected.describe ++ ", found " ++ found.describe
  | missingClass _ _ => "no class declaration from here on"
  | repeatedModifier _ => "already specified"
  | nestingTooDeep _ _ => "nesting limit reached here"

end Problem

namespace Diagnostic

/-! ## Diagnostics at a token -/

def unexpected (demand : Demand) (token : Token) : Diagnostic :=
  ⟨.unexpectedToken demand token.kind token.text, token.loc⟩

def missingClass (token : Token) : Diagnostic :=
  ⟨.missingClass token.kind token.text, token.loc⟩

def repeatedModifier (modifier : Modifier) (token : Token) : Diagnostic :=
  ⟨.repeatedModifier modifier, token.loc⟩

def nestingTooDeep (token : Token) : Diagnostic :=
  ⟨.nestingTooDeep token.kind token.text, token.loc⟩

/-! ## Lists of diagnostics -/

/-- Leaves out every diagnostic with the span of the one before it, `span` for the first. -/
def withoutRepeats (span : Span) : List Diagnostic → List Diagnostic
  | [] => []
  | d :: more =>
    if d.loc.span = span then withoutRepeats span more
    else d :: withoutRepeats d.loc.span more

/-- Of neighbours with the same span only the first is worth showing: the others follow from
it. -/
def withoutCascades : List Diagnostic → List Diagnostic
  | [] => []
  | d :: more => d :: withoutRepeats d.loc.span more

/-! ## Wording -/

def report (d : Diagnostic) : String :=
  "[line " ++ toString d.loc.line ++ "] Error " ++ d.problem.anchor ++ ": " ++ d.problem.message

/-- The detailed form for a source called `source`: code, message, help, place and label. -/
def detailed (source : String) (d : Diagnostic) : String :=
  let span := d.loc.span
  let place := source ++ "@" ++ toString span.start ++ "+" ++ toString span.length
  "|".intercalate
    [d.problem.code, d.problem.message, d.problem.help.getD "", place, d.problem.label]

end Diagnostic

end JavaSubset
