import JavaSubset.Report
import JavaSubset.Streams
import JavaSubset.Tree.Listing

/-!
# Interactive sessions

A session prompts for a line, checks it as a source of its own and shows the result, until the
input ends or a line says `exit`. `session` gives all that happens as a `Script`: the actions on
the output streams and how the session ends. Input is bytes: a line that is not UTF-8 ends the
session with an error.
-/

namespace JavaSubset

/-! ## Showing a report -/

/-- What to show besides the diagnostics, and how to show those. -/
structure Options where
  tokens : Bool := false
  ast : Bool := false
  fancy : Bool := false
  deriving DecidableEq

/-- A token on one line: line number, kind, text and literal. -/
def Token.listing (t : Token) : String :=
  toString t.loc.line ++ " " ++ t.kind.name ++ " '" ++ t.text ++ "'" ++
    match t.literal with
    | some literal => " " ++ literal
    | none => ""

/-- Writes a line. -/
def Action.line (channel : Channel) (text : String) : Action := .write channel (text ++ "\n")

/-- How a diagnostic is shown in detail, given the name and the text of its source. -/
abbrev Renderer := (name text : String) → Diagnostic → String

/-- All details on one line, without any text of the source. -/
def Renderer.oneLine : Renderer := fun name _ d => d.detailed name

/-- Shows the report on a source with this name and text. -/
def Report.actions (render : Renderer) (options : Options) (name text : String) (r : Report) :
    List Action :=
  let tokens := if options.tokens then r.tokens.map fun t => Action.line .out t.listing else []
  let ast := if options.ast then [Action.line .out (r.program.outline.render 0)] else []
  let form := if options.fancy then render name text else Diagnostic.report
  tokens ++ ast ++ r.diagnostics.map fun d => Action.line .err (form d)

/-! ## Lines -/

/-- The lines of an input. A line feed ends a line, together with a carriage return right before
it; the last line may lack its end. -/
def inputLines : List UInt8 → List (List UInt8)
  | [] => []
  | b :: rest =>
    if b = 10 then [] :: inputLines rest
    else if b = 13 ∧ rest.head? = some 10 then inputLines rest
    else
      match inputLines rest with
      | [] => [[b]]
      | line :: more => (b :: line) :: more

/-- The text in bytes, if they are UTF-8. -/
def decode? (bytes : List UInt8) : Option String := String.fromUTF8? ⟨bytes.toArray⟩

/-! ## Scripts -/

/-- How the input of a session was used up. -/
inductive Ending where
  | finished
  | notUtf8
  deriving DecidableEq

structure Script where
  actions : List Action
  ending : Ending
  deriving DecidableEq

def prompt : List Action := [.write .out "> ", .flush]

/-- What a line of input asks for. -/
inductive Request where
  | leave
  | check (source : String)
  | unreadable
  deriving DecidableEq

def Request.ofLine (line : List UInt8) : Request :=
  match decode? line with
  | none => .unreadable
  | some text => if text = "exit" then .leave else .check text

/-- Checks a line and shows the report. -/
def answer (render : Renderer) (options : Options) (line : String) : List Action :=
  (check line).actions render options "<stdin>" line

/-- A session over lines of input. -/
def sessionLines (render : Renderer) (options : Options) : List (List UInt8) → Script
  | [] => ⟨prompt, .finished⟩
  | line :: more =>
    match Request.ofLine line with
    | .leave => ⟨prompt, .finished⟩
    | .unreadable => ⟨prompt, .notUtf8⟩
    | .check text =>
      let later := sessionLines render options more
      ⟨prompt ++ answer render options text ++ later.actions, later.ending⟩

def session (render : Renderer) (options : Options) (input : List UInt8) : Script :=
  sessionLines render options (inputLines input)

end JavaSubset
