import JavaSubset.Parse.Member

/-!
# Parsing programs

`parse` reads any list of tokens to its end. What does not parse is reported and left out of the
program. Of several diagnostics in a row for the same token only the first is kept.
-/

namespace JavaSubset

namespace Parser

/-! ## The header -/

/-- Names with dots between them, read as one name. -/
def qualifiedName (demand : Demand) : Parser String := do
  let first ← name demand
  let more ← many do
    if ← accept (.punctuation .dot) then return some (← name .nameAfterDot) else return none
  return ".".intercalate (first :: more)

/-- A word, a qualified name and what ends the clause. -/
def clause (nameDemand endDemand : Demand) : Parser String := do
  let _ ← advance
  let name ← qualifiedName nameDemand
  let _ ← expect endDemand
  return name

def packageDecl : Parser String := clause .packageName .packageEnd

def importDecl : Parser String := clause .importName .importEnd

def package? : Parser (Option String) := do
  if ← sees (.keyword (.declaration .packageKw)) then recover .topLevel packageDecl
  else return none

def imports : Parser (List String) := do
  let items ← many do
    if ← sees (.keyword (.declaration .importKw)) then
      return some (← recover .topLevel importDecl)
    else return none
  return items.filterMap id

/-! ## Finding the class -/

/-- Whether `class` stands anywhere ahead. -/
def classAhead : Parser Bool := fun c =>
  .ok (c.rest.any (·.kind = .keyword (.declaration .classKw))) c

/-- Moves to the start of a class declaration. Without one all tokens are skipped, and the lack is
reported unless the search goes on after a declaration that was given up (`again`). -/
def locateClass (again : Bool) : Parser Bool := do
  if ← classAhead then
    unless (← peekKind).startsClass do
      complain .classDeclaration
      skipTo (·.kind.startsClass)
    return true
  else
    unless again do log (.missingClass (← peek))
    skipToEnd
    return false

end Parser

/-- The state of the search for the class. -/
inductive ClassSearch where
  | first
  | again
  | found (decl : ClassDecl Location)

def ClassSearch.result? : ClassSearch → Option (ClassDecl Location)
  | first | again => none
  | found decl => some decl

namespace Parser

/-- An attempt at the next class declaration, the first one or, after one was given up,
another. -/
def attemptFrom (limit : Nat) (again : Bool) : Parser (Option (Unit × ClassSearch)) := do
  if ← locateClass again then
    match ← recover .topLevel (classDecl limit) with
    | some decl => return some ((), .found decl)
    | none => return some ((), .again)
  else
    return none

def attempt (limit : Nat) : ClassSearch → Parser (Option (Unit × ClassSearch))
  | .first => attemptFrom limit false
  | .again => attemptFrom limit true
  | .found _ => pure none

/-- The first class declaration that is not given up. -/
def classDeclaration (limit : Nat) : Parser (Option (ClassDecl Location)) := fun c =>
  (iterate (attempt limit) .first c).map fun (_, search) => search.result?

/-! ## The whole source -/

def program (limit : Nat) : Parser (Program Location) := do
  let package ← package?
  let imports ← imports
  let classDecl ← classDeclaration limit
  unless ← atEnd do
    complain .sourceEnd
    skipToEnd
  return ⟨package, imports, classDecl⟩

end Parser

structure Parsed where
  program : Program Location
  diagnostics : List Diagnostic

def Parsed.isOk (parsed : Parsed) : Bool := parsed.diagnostics.isEmpty

/-- The program in a list of tokens, and what is wrong with it. -/
def parse (tokens : List Token) : Parsed :=
  let reply := Parser.program maxNesting (.ofTokens tokens)
  match reply.outcome with
  | .ok program => ⟨program, Diagnostic.withoutCascades reply.reports⟩
  | .error d => ⟨⟨none, [], none⟩, Diagnostic.withoutCascades (reply.reports ++ [d])⟩

end JavaSubset
