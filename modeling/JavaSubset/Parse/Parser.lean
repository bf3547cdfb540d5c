import JavaSubset.Diagnostic
import JavaSubset.Parse.Cursor

/-!
# Parsers

A `Parser α` reads tokens from a cursor. Its `Reply` is an `α`, or the diagnostic it gave up with,
together with the diagnostics it reported on the way and the cursor where it stopped, in either
case. Reports only pile up: no parser can see what was reported before it.

The only loop is `Parser.iterate`, which repeats a step as long as the step reads something; the
number of tokens ahead bounds it.
-/

namespace JavaSubset

structure Reply (α : Type) where
  outcome : Except Diagnostic α
  reports : List Diagnostic
  cursor : Cursor

namespace Reply

variable {α β : Type}

def ok (a : α) (c : Cursor) : Reply α := ⟨.ok a, [], c⟩

def error (d : Diagnostic) (c : Cursor) : Reply α := ⟨.error d, [], c⟩

/-- The same reply after `earlier` reports. -/
def after (earlier : List Diagnostic) (r : Reply α) : Reply α :=
  { r with reports := earlier ++ r.reports }

def map (f : α → β) (r : Reply α) : Reply β := ⟨r.outcome.map f, r.reports, r.cursor⟩

/-- Goes on with the value and the cursor of a reply, unless it is an error. -/
def andThen (r : Reply α) (f : α → Cursor → Reply β) : Reply β :=
  match r with
  | ⟨.ok a, reports, c⟩ => (f a c).after reports
  | ⟨.error d, reports, c⟩ => ⟨.error d, reports, c⟩

end Reply

def Parser (α : Type) : Type := Cursor → Reply α

namespace Parser

variable {α β σ : Type}

instance : Monad Parser where
  pure a := fun c => .ok a c
  bind p f := fun c => (p c).andThen f

/-! ## Looking ahead -/

/-- The next token, which stays where it is. -/
def peek : Parser Token := fun c => .ok c.peek c

/-- The kind of the next token. -/
def peekKind : Parser Token.Kind := fun c => .ok c.peek.kind c

/-- The kind of the token after the next. -/
def peekNextKind : Parser Token.Kind := fun c => .ok c.peekNext.kind c

def atEnd : Parser Bool := fun c => .ok c.atEnd c

def sees (kind : Token.Kind) : Parser Bool := return (← peekKind) = kind

/-! ## Reading -/

def advance : Parser Token := fun c => .ok c.peek c.advance

/-- Reads the next token if it is of this kind. -/
def accept (kind : Token.Kind) : Parser Bool := do
  if ← sees kind then
    let _ ← advance
    return true
  else
    return false

def skipToEnd : Parser Unit := fun c => .ok () c.toEnd

def skipTo (p : Token → Bool) : Parser Unit := fun c => .ok () (c.skipTo p)

/-! ## Diagnostics -/

def log (d : Diagnostic) : Parser Unit := fun c => ⟨.ok (), [d], c⟩

/-- Reports that the next token is not what was asked for, and goes on. -/
def complain (demand : Demand) : Parser Unit := do log (.unexpected demand (← peek))

/-- Gives up: the next token is not what was asked for. -/
def fail (demand : Demand) : Parser α := fun c => .error (.unexpected demand c.peek) c

/-- Reads the token that was asked for. -/
def expect (demand : Demand) : Parser Token := do
  if demand.expected.admits (← peekKind) then advance else fail demand

/-- Reads the name that was asked for. -/
def name (demand : Demand) : Parser String := return (← expect demand).text

/-! ## Locations -/

/-- Where the text from the token `start` to the token just read stands. -/
def locationFrom (start : Token) : Parser Location := fun c => .ok (c.locationFrom start) c

/-- A node from where it starts to where it ends. -/
def located (p : Parser (Location → α)) : Parser α := do
  let start ← peek
  let node ← p
  return node (← locationFrom start)

/-! ## Repetition -/

/-- Repeats `step` from state `s` until it has nothing more to give or reads nothing: what the
steps gave, and the last state. -/
def iterate (step : σ → Parser (Option (β × σ))) (s : σ) (c : Cursor) : Reply (List β × σ) :=
  match step s c with
  | ⟨.error d, reports, c'⟩ => ⟨.error d, reports, c'⟩
  | ⟨.ok none, reports, c'⟩ => ⟨.ok ([], s), reports, c'⟩
  | ⟨.ok (some (b, s')), reports, c'⟩ =>
    if c'.rest.length < c.rest.length then
      ((iterate step s' c').map (Prod.map (b :: ·) id)).after reports
    else ⟨.ok ([b], s'), reports, c'⟩
termination_by c.rest.length

/-- Repeats a step that needs no state. -/
def many (step : Parser (Option α)) : Parser (List α) := fun c =>
  (iterate (fun _ => do return (← step).map (·, ())) () c).map Prod.fst

/-- One or more, with commas between them. -/
def separated (p : Parser α) : Parser (List α) := do
  let first ← p
  let more ← many do
    if ← accept (.punctuation .comma) then return some (← p) else return none
  return first :: more

end Parser

end JavaSubset
