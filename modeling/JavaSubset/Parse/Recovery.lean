import JavaSubset.Parse.Parser

/-!
# Going on after an error

When a production gives up, `Parser.recover` reports why and skips to a place where the next one
can start: past the next semicolon, past a block that opens on the way, or in front of a token
that can only start something new. A brace that closes the surrounding body is never skipped, and
a block that opens on the way is skipped as a whole (`SyncPoint.skip`).
-/

namespace JavaSubset

/-- What is being repeated where an error is met. -/
inductive SyncPoint where
  | statement
  | member
  | topLevel
  deriving DecidableEq

/-- A class declaration starts with a modifier or with `class`. -/
def Token.Kind.startsClass : Token.Kind → Bool
  | .keyword (.declaration .classKw) | .keyword (.modifier _) => true
  | _ => false

namespace SyncPoint

/-- The tokens that can only start something new. -/
def resumesAt : SyncPoint → Token.Kind → Bool
  | statement, _ => false
  | member, .keyword (.primitive _) => true
  | member, .keyword (.modifier m) => m.onMember
  | member, _ => false
  | topLevel, .keyword (.declaration .importKw) => true
  | topLevel, kind => kind.startsClass

/-- The number of tokens to skip, `depth` blocks deep. -/
def skip (point : SyncPoint) : (depth : Nat) → List Token → Nat
  | _, [] => 0
  | 0, t :: rest =>
    if point.resumesAt t.kind then 0
    else if t.kind = .punctuation .semicolon then 1
    else if t.kind = .punctuation .rbrace then 0
    else if t.kind = .punctuation .lbrace then point.skip 1 rest + 1
    else point.skip 0 rest + 1
  | depth + 1, t :: rest =>
    if t.kind = .punctuation .lbrace then point.skip (depth + 2) rest + 1
    else if t.kind = .punctuation .rbrace then
      if depth = 0 then 1 else point.skip depth rest + 1
    else point.skip (depth + 1) rest + 1

end SyncPoint

/-- Skips to the first place where parsing can go on. -/
def Cursor.synchronize (c : Cursor) (point : SyncPoint) : Cursor :=
  c.skip (point.skip 0 c.rest)

namespace Parser

variable {α : Type}

/-- Reports the error of `p`, if it gives up, and skips on; at least one token is read. -/
def recover (point : SyncPoint) (p : Parser α) : Parser (Option α) := fun c =>
  match p c with
  | ⟨.ok a, reports, c'⟩ => ⟨.ok (some a), reports, c'⟩
  | ⟨.error d, reports, c'⟩ =>
    let next := c'.synchronize point
    ⟨.ok none, reports ++ [d], if next.rest.length = c.rest.length then next.advance else next⟩

/-- The next item of a body, which ends in front of a closing brace. -/
def bodyItem (point : SyncPoint) (p : Parser α) : Parser (Option (Option α)) := do
  if (← atEnd) || (← sees (.punctuation .rbrace)) then return none
  else return some (← recover point p)

/-- Everything up to the brace that closes a body, without what does not parse. -/
def bodyOf (point : SyncPoint) (p : Parser α) : Parser (List α) := do
  let items ← many (bodyItem point p)
  return items.filterMap id

end Parser

end JavaSubset
