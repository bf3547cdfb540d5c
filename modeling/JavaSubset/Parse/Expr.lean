import JavaSubset.Parse.Parser
import JavaSubset.Tree.Expr

/-!
# Parsing expressions

From the loosest to the tightest:

* `logical`, `relational`, `additive`, `multiplicative` : binary operators, grouped from the left;
* `unary` : a sign in front of a selection;
* `selection` : fields and method calls after a dot;
* `primary` : names, literals, calls and parentheses.

Productions take the parser for a whole expression as an argument. `expression n` closes the
circle: `n` bounds how many expressions may be open inside one another.
-/

namespace JavaSubset

namespace Parser

/-! ## Primary expressions -/

/-- The arguments of a call, in parentheses. -/
def arguments (expr : Parser (Expr Location)) (demand : Demand) :
    Parser (List (Expr Location)) := do
  let _ ← expect demand
  let args ← if ← sees (.punctuation .rparen) then pure [] else separated expr
  let _ ← expect .argumentsEnd
  return args

def primary (expr : Parser (Expr Location)) : Parser (Expr Location) := located do
  match ← peekKind with
  | .identifier =>
    let name := (← advance).text
    if ← sees (.punctuation .lparen) then
      let args ← arguments expr .methodArguments
      return (.call · name args)
    else
      return (.ident · name)
  | .number =>
    let token ← advance
    return (.literal · (.number (token.literal.getD token.text)))
  | .stringLiteral =>
    let token ← advance
    return (.literal · (.string (token.literal.getD "")))
  | .keyword (.expression .thisKw) =>
    let _ ← advance
    return (.this ·)
  | .keyword (.expression .superKw) =>
    let _ ← advance
    let _ ← expect .dotAfterSuper
    let method ← name .superMethodName
    let args ← arguments expr .superArguments
    return (.superCall · method args)
  | .keyword (.expression .newKw) =>
    let _ ← advance
    let className ← name .newClassName
    let args ← arguments expr .newArguments
    return (.new · className args)
  | .punctuation .lparen =>
    let _ ← advance
    let inner ← expr
    let _ ← expect .groupEnd
    return (inner.withNote ·)
  | _ => fail .expression

/-! ## Selections -/

end Parser

/-- What follows a dot. -/
inductive Selector where
  | field (loc : Location) (name : String)
  | call (loc : Location) (name : String) (args : List (Expr Location))

def Selector.apply (target : Expr Location) : Selector → Expr Location
  | field loc name => .field loc target name
  | call loc name args => .invoke loc target name args

namespace Parser

/-- A dot and what follows it; the location reaches back to the token `start`. -/
def selector (expr : Parser (Expr Location)) (start : Token) : Parser (Option Selector) := do
  if ← accept (.punctuation .dot) then
    let property ← name .propertyName
    if ← sees (.punctuation .lparen) then
      let args ← arguments expr .methodArguments
      return some (.call (← locationFrom start) property args)
    else
      return some (.field (← locationFrom start) property)
  else
    return none

def selection (expr : Parser (Expr Location)) : Parser (Expr Location) := do
  let start ← peek
  let target ← primary expr
  let selectors ← many (selector expr start)
  return selectors.foldl Selector.apply target

/-! ## Operators -/

/-- The sign in front of an operand. -/
def sign? : Token.Kind → Option UnaryOp
  | .operator (.binary .add) => some .plus
  | .operator (.binary .sub) => some .neg
  | _ => none

def unary (expr : Parser (Expr Location)) : Parser (Expr Location) := do
  match sign? (← peekKind) with
  | none => selection expr
  | some op => located do
    let _ ← advance
    let operand ← selection expr
    return (.unary · op operand)

/-- The binary operator of a tier. -/
def tierOp? (tier : Tier) : Token.Kind → Option BinaryOp
  | .operator (.binary op) => if op.tier = tier then some op else none
  | _ => none

/-- Two operands with an operator between them. -/
def join (left : Expr Location) (link : BinaryOp × Expr Location) : Expr Location :=
  .binary (left.note.merge link.2.note) left link.1 link.2

/-- Operands with the operators of one tier between them. -/
def chain (tier : Tier) (operand : Parser (Expr Location)) : Parser (Expr Location) := do
  let first ← operand
  let links ← many do
    match tierOp? tier (← peekKind) with
    | none => return none
    | some op =>
      let _ ← advance
      return some (op, ← operand)
  return links.foldl join first

def multiplicative (expr : Parser (Expr Location)) : Parser (Expr Location) :=
  chain .multiplicative (unary expr)

def additive (expr : Parser (Expr Location)) : Parser (Expr Location) :=
  chain .additive (multiplicative expr)

def relational (expr : Parser (Expr Location)) : Parser (Expr Location) :=
  chain .relational (additive expr)

def logical (expr : Parser (Expr Location)) : Parser (Expr Location) :=
  chain .logical (relational expr)

/-! ## Whole expressions -/

/-- Gives up because too much is open. -/
def tooDeep {α : Type} : Parser α := fun c => .error (.nestingTooDeep c.peek) c

/-- An expression inside which `n - 1` more may be open at once. -/
def expression : Nat → Parser (Expr Location)
  | 0 => tooDeep
  | n + 1 => fun c => logical (expression n) c

end Parser

end JavaSubset
