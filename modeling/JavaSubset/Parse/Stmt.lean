import JavaSubset.Parse.Expr
import JavaSubset.Parse.Recovery
import JavaSubset.Tree.Stmt

/-!
# Parsing statements

Productions take the parsers for a nested statement and for an expression as arguments.
`statement n` closes the circle; statements and expressions that are open inside one another draw
on the same `n`.

Inside a block every statement is parsed with `recover`, so a block is lost only if its closing
brace is missing.
-/

namespace JavaSubset.Parser

/-! ## Declarations of variables -/

/-- The value after `=`, if there is one. -/
def initializer (expr : Parser (Expr Location)) : Parser (Option (Expr Location)) := do
  if ← accept (.operator (.assign .assign)) then return some (← expr) else return none

def declarator (expr : Parser (Expr Location)) (demand : Demand) :
    Parser (Declarator Location) := do
  let name ← name demand
  return ⟨name, ← initializer expr⟩

/-- The name of a primitive type. -/
def primitiveType (demand : Demand) : Parser PrimitiveType := do
  match (← peekKind).primitiveType? with
  | some type =>
    let _ ← advance
    return type
  | none => fail demand

def localVariables (expr : Parser (Expr Location)) : Parser (Location → Stmt Location) := do
  let type ← primitiveType .type
  let declarators ← separated (declarator expr .variableName)
  let _ ← expect .variablesEnd
  return (.locals · type declarators)

/-! ## Expression statements -/

/-- Reports an operator whose operand can not be assigned to. -/
def checkTarget (target : Expr Location) (op : Token) : Parser Unit := do
  unless target.isAssignable do log (.unexpected .assignmentTarget op)

def step? : Token.Kind → Option Step
  | .operator (.step op) => some op
  | _ => none

def assignOp? : Token.Kind → Option AssignOp
  | .operator (.assign op) => some op
  | _ => none

/-- One more assignment operator and the expression after it, behind the expression `current`. -/
def assignment (expr : Parser (Expr Location)) (current : Expr Location) :
    Parser (Option ((Expr Location × AssignOp) × Expr Location)) := do
  match assignOp? (← peekKind) with
  | none => return none
  | some op =>
    checkTarget current (← advance)
    return some ((current, op), ← expr)

/-- A target, the operator behind it and the value. -/
def store (link : Expr Location × AssignOp) (value : Expr Location) : Expr Location :=
  .assign (link.1.note.merge value.note) link.1 link.2 value

/-- The assignments behind an expression, grouped from the right. -/
def assignments (expr : Parser (Expr Location)) (target : Expr Location) :
    Parser (Expr Location) := fun c =>
  (iterate (assignment expr) target c).map fun (links, value) => links.foldr store value

/-- An expression with a step in front, a step behind or assignments, or just an expression. -/
def effect (expr : Parser (Expr Location)) : Parser (Expr Location) := do
  let start ← peek
  match step? start.kind with
  | some step =>
    let op ← advance
    let target ← selection expr
    checkTarget target op
    return .unary (← locationFrom start) (.pre step) target
  | none =>
    let value ← expr
    match step? (← peekKind) with
    | some step =>
      checkTarget value (← advance)
      return .unary (← locationFrom start) (.post step) value
    | none => assignments expr value

def effectStatement (expr : Parser (Expr Location)) : Parser (Location → Stmt Location) := do
  let value ← effect expr
  let _ ← expect .expressionEnd
  return (.expr · value)

/-! ## Blocks -/

def block (stmt : Parser (Stmt Location)) (demand : Demand) : Parser (List (Stmt Location)) := do
  let _ ← expect demand
  let body ← bodyOf .statement stmt
  let _ ← expect .blockEnd
  return body

/-! ## Control flow -/

/-- The condition of the statement that `word` opens, in parentheses. -/
def condition (expr : Parser (Expr Location)) (word : ControlWord) : Parser (Expr Location) := do
  let _ ← expect (.condition word)
  let value ← expr
  let _ ← expect (.conditionEnd word)
  return value

/-- An `else` belongs to the nearest `if`. -/
def ifStatement (stmt : Parser (Stmt Location)) (expr : Parser (Expr Location)) :
    Parser (Location → Stmt Location) := do
  let _ ← advance
  let test ← condition expr .ifKw
  let thenBranch ← stmt
  if ← accept (.keyword (.control .elseKw)) then
    let elseBranch ← stmt
    return (.ifElse · test thenBranch elseBranch)
  else
    return (.ifThen · test thenBranch)

def whileStatement (stmt : Parser (Stmt Location)) (expr : Parser (Expr Location)) :
    Parser (Location → Stmt Location) := do
  let _ ← advance
  let test ← condition expr .whileKw
  let body ← stmt
  return (.whileLoop · test body)

def doStatement (stmt : Parser (Stmt Location)) (expr : Parser (Expr Location)) :
    Parser (Location → Stmt Location) := do
  let _ ← advance
  let body ← stmt
  let _ ← expect .whileAfterBody
  let test ← condition expr .whileKw
  let _ ← expect .doEnd
  return (.doLoop · body test)

def label? : Parser (Option String) := do
  if ← sees .identifier then return some (← advance).text else return none

/-- A word that jumps, the label it jumps to and what ends the statement. -/
def jump (demand : Demand) : Parser (Option String) := do
  let _ ← advance
  let label ← label?
  let _ ← expect demand
  return label

def breakStatement : Parser (Location → Stmt Location) :=
  return (.breakTo · (← jump .breakEnd))

def continueStatement : Parser (Location → Stmt Location) :=
  return (.continueTo · (← jump .continueEnd))

def returnStatement (expr : Parser (Expr Location)) : Parser (Location → Stmt Location) := do
  let _ ← advance
  let value ← if ← sees (.punctuation .semicolon) then pure none else some <$> expr
  let _ ← expect .returnEnd
  return (.returnWith · value)

def labeledStatement (stmt : Parser (Stmt Location)) : Parser (Location → Stmt Location) := do
  let label := (← advance).text
  let _ ← advance
  let body ← stmt
  return (.labeled · label body)

/-! ## Exceptions -/

def catchClause (stmt : Parser (Stmt Location)) : Parser (CatchClause Location) := do
  let _ ← expect .catchParameter
  let exceptionType ← name .exceptionType
  let name ← name .exceptionName
  let _ ← expect .catchParameterEnd
  let body ← block stmt .catchBody
  return ⟨exceptionType, name, body⟩

/-- A `try` without `catch` and `finally` is reported, but its body is kept. -/
def tryStatement (stmt : Parser (Stmt Location)) : Parser (Location → Stmt Location) := do
  let _ ← advance
  let body ← block stmt .tryBody
  let catches ← many do
    if ← accept (.keyword (.control .catchKw)) then return some (← catchClause stmt)
    else return none
  if ← accept (.keyword (.control .finallyKw)) then
    let cleanup ← block stmt .finallyBody
    return (.tryFinally · body catches cleanup)
  else
    if catches.isEmpty then complain .handler
    return (.tryCatch · body catches)

/-! ## All statements -/

/-- The statement that starts with a token of this kind. -/
def statementOf (stmt : Parser (Stmt Location)) (expr : Parser (Expr Location)) :
    Token.Kind → Parser (Location → Stmt Location)
  | .punctuation .lbrace => do
    let body ← block stmt .block
    return (.block · body)
  | .punctuation .semicolon => do
    let _ ← advance
    return (.empty ·)
  | .keyword (.primitive _) => localVariables expr
  | .keyword (.control .ifKw) => ifStatement stmt expr
  | .keyword (.control .whileKw) => whileStatement stmt expr
  | .keyword (.control .doKw) => doStatement stmt expr
  | .keyword (.control .breakKw) => breakStatement
  | .keyword (.control .continueKw) => continueStatement
  | .keyword (.control .returnKw) => returnStatement expr
  | .keyword (.control .tryKw) => tryStatement stmt
  | .keyword (.expression .thisKw) | .keyword (.expression .superKw)
  | .keyword (.expression .newKw) => effectStatement expr
  | .keyword _ => fail .statement
  | .identifier => do
    if (← peekNextKind) = .punctuation .colon then labeledStatement stmt
    else effectStatement expr
  | _ => effectStatement expr

/-- A statement inside which `n - 1` more statements and expressions may be open at once. -/
def statement : Nat → Parser (Stmt Location)
  | 0 => tooDeep
  | n + 1 => fun c =>
    located (do statementOf (statement n) (expression n) (← peekKind)) c

end JavaSubset.Parser
