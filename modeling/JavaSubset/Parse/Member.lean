import JavaSubset.Parse.Stmt
import JavaSubset.Tree.Program

/-!
# Parsing classes

A class body is parsed member by member with `recover`, as a block is statement by statement. A
class whose closing brace is missing is kept. Productions take the number of statements and
expressions that may be open inside one another as an argument (`maxNesting` in a whole parse).
-/

namespace JavaSubset

/-- How many statements and expressions may be open inside one another. -/
def maxNesting : Nat := 128

namespace Parser

/-! ## Modifiers -/

/-- Reads a modifier behind those in `seen`, to which it is added; one that is there already is
reported. -/
def addModifier (seen : List Modifier) (modifier : Modifier) : Parser (List Modifier) := do
  let token ← advance
  if modifier ∈ seen then
    log (.repeatedModifier modifier token)
    return seen
  else
    return seen ++ [modifier]

/-- The next modifier of a class; one that does not belong there is reported and left out. -/
def classModifier (seen : List Modifier) : Parser (Option (Unit × List Modifier)) := do
  match (← peekKind).modifier? with
  | none => return none
  | some modifier =>
    if modifier.onClass then
      return some ((), ← addModifier seen modifier)
    else
      complain .classModifier
      let _ ← advance
      return some ((), seen)

/-- The next modifier of a member; one that does not belong there ends the list. -/
def memberModifier (seen : List Modifier) : Parser (Option (Unit × List Modifier)) := do
  match (← peekKind).modifier? with
  | none => return none
  | some modifier =>
    if modifier.onMember then return some ((), ← addModifier seen modifier) else return none

def modifiers (next : List Modifier → Parser (Option (Unit × List Modifier))) :
    Parser ModifierSet := fun c =>
  (iterate next [] c).map fun (_, seen) => .ofList seen

/-! ## Members -/

def parameter : Parser Param := do
  let type ← primitiveType .type
  return ⟨type, ← name .parameterName⟩

/-- A method from its opening parenthesis on. -/
def methodRest (limit : Nat) (set : ModifierSet) (type : PrimitiveType) (name : String) :
    Parser (Location → Member Location) := do
  let _ ← advance
  let params ← if ← sees (.punctuation .rparen) then pure [] else separated parameter
  let _ ← expect .parametersEnd
  let body ← block (statement limit) .methodBody
  return (.method · set type name params body)

/-- A field from the end of its name on. -/
def fieldRest (limit : Nat) (set : ModifierSet) (type : PrimitiveType) (name : String) :
    Parser (Location → Member Location) := do
  let init ← initializer (expression limit)
  let more ← many do
    if ← accept (.punctuation .comma) then
      return some (← declarator (expression limit) .fieldName)
    else return none
  let _ ← expect .fieldEnd
  return (.field · set type ⟨name, init⟩ more)

def member (limit : Nat) : Parser (Member Location) := located do
  let set ← modifiers memberModifier
  let type ← primitiveType (if set.isEmpty then .member else .memberType)
  let name ← name .memberName
  if ← sees (.punctuation .lparen) then methodRest limit set type name
  else fieldRest limit set type name

/-! ## The class -/

/-- The members of a class, in braces. -/
def classBody (limit : Nat) : Parser (List (Member Location)) := do
  let _ ← expect .classBody
  let members ← bodyOf .member (member limit)
  unless ← accept (.punctuation .rbrace) do complain .classEnd
  return members

def classDecl (limit : Nat) : Parser (ClassDecl Location) := located do
  let set ← modifiers classModifier
  let _ ← expect .classAfterModifiers
  let name ← name .className
  let members ← classBody limit
  return (⟨·, set, name, members⟩)

end Parser

end JavaSubset
