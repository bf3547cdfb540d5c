import JavaSubset.Session
import JavaSubset.Text.Plain

/-!
# Command-line arguments

`Arguments.parse` reads options and paths in any order; after `--` everything is a path. The first
problem ends it. A run of paths is looked over only where it ends, at the next option that is
known or at the end of the line, so an option that is not known comes before an empty path.
-/

namespace JavaSubset

/-- The options that can be switched on. -/
inductive Switch where
  | tokens
  | ast
  | fancy
  deriving DecidableEq

inductive Flag where
  | switch (s : Switch)
  | help
  | version
  deriving DecidableEq

/-- Why the arguments give nothing to run. Help and version are asked for, the others are
mistakes. -/
inductive ArgumentProblem where
  | helpRequested
  | versionRequested
  | unknownArgument (argument : String)
  | repeatedSwitch (s : Switch)
  | strayValue (flag : Flag) (value : String)
  | emptyPath
  deriving DecidableEq

structure Arguments where
  paths : List String
  options : Options
  deriving DecidableEq

/-! ## Names -/

namespace Switch

def name : Switch → String
  | tokens => "--tokens"
  | ast => "--ast"
  | fancy => "--fancy"

def isOn (options : Options) : Switch → Bool
  | tokens => options.tokens
  | ast => options.ast
  | fancy => options.fancy

def turnOn (options : Options) : Switch → Options
  | tokens => { options with tokens := true }
  | ast => { options with ast := true }
  | fancy => { options with fancy := true }

end Switch

namespace Flag

def name : Flag → String
  | switch s => s.name
  | help => "--help"
  | version => "--version"

def all : List Flag := [switch .tokens, switch .ast, switch .fancy, help, version]

def ofName? (text : String) : Option Flag := all.find? (·.name = text)

/-- The flags with a short form. -/
def ofLetter? : Char → Option Flag
  | 'h' => some help
  | 'V' => some version
  | _ => none

end Flag

/-! ## Reading -/

/-- The shape of an argument. -/
inductive ArgumentShape where
  /-- `--`, after which everything is a path. -/
  | divider
  /-- `--name` or `--name=value`. -/
  | long (name : String) (value : Option String)
  /-- `-` and at least one letter. -/
  | short (letter : Char)
  | path

def ArgumentShape.of (argument : String) : ArgumentShape :=
  match argument.toList with
  | ['-', '-'] => .divider
  | '-' :: '-' :: rest =>
    let name := String.ofList ('-' :: '-' :: rest.takeWhile (· ≠ '='))
    match rest.dropWhile (· ≠ '=') with
    | _ :: value => .long name (some (String.ofList value))
    | [] => .long name none
  | '-' :: letter :: _ => .short letter
  | _ => .path

namespace Arguments

def addPaths (a : Arguments) (paths : List String) : Arguments :=
  { a with paths := a.paths ++ paths }

/-- Closes a run of paths, in which `blank` tells whether one was empty. -/
def closePaths (blank : Bool) : Except ArgumentProblem Unit :=
  if blank then .error .emptyPath else .ok ()

/-- Obeys a flag. -/
def obey (a : Arguments) : Flag → Except ArgumentProblem Arguments
  | .help => .error .helpRequested
  | .version => .error .versionRequested
  | .switch s =>
    if s.isOn a.options then .error (.repeatedSwitch s)
    else .ok { a with options := s.turnOn a.options }

/-- Reads arguments behind those read into `a`. -/
def parseFrom (a : Arguments) (blank : Bool) : List String → Except ArgumentProblem Arguments
  | [] => do
    closePaths blank
    return a
  | argument :: more =>
    match ArgumentShape.of argument with
    | .divider => do
      closePaths (blank || more.any (· = ""))
      return a.addPaths more
    | .path => parseFrom (a.addPaths [argument]) (blank || argument = "") more
    | .short letter =>
      match Flag.ofLetter? letter with
      | none => .error (.unknownArgument (String.ofList ['-', letter]))
      | some flag => do
        closePaths blank
        parseFrom (← a.obey flag) false more
    | .long name value =>
      match Flag.ofName? name, value with
      | none, _ => .error (.unknownArgument name)
      | some flag, some value => .error (.strayValue flag value)
      | some flag, none => do
        closePaths blank
        parseFrom (← a.obey flag) false more

def parse (arguments : List String) : Except ArgumentProblem Arguments :=
  parseFrom ⟨[], {}⟩ false arguments

end Arguments

/-! ## Wording -/

def versionText : String := "jcompiler 0.1.0"

def helpLines : List String :=
  ["Lexer and parser for a Java language subset",
    "",
    "Usage: jcompiler [OPTIONS] [FILE]...",
    "",
    "Arguments:",
    "  [FILE]...  Source file to check; omit to start the interactive prompt",
    "",
    "Options:",
    "      --tokens   Print the token stream (debug)",
    "      --ast      Print the parsed AST (debug)",
    "      --fancy    Render diagnostics with source context instead of the one-line format",
    "  -h, --help     Print help",
    "  -V, --version  Print version"]

namespace ArgumentProblem

/-- The answer to the arguments, line by line. What it repeats of them can not command the
terminal. -/
def lines : ArgumentProblem → List String
  | helpRequested => helpLines
  | versionRequested => [versionText]
  | unknownArgument argument =>
    ["error: unexpected argument '" ++ plainText argument ++ "' found"]
  | repeatedSwitch s => ["error: the argument '" ++ s.name ++ "' cannot be used multiple times"]
  | strayValue flag value =>
    ["error: unexpected value '" ++ plainText value ++ "' for '" ++ flag.name ++
      "' found; no more were expected"]
  | emptyPath => ["error: a value is required for '[FILE]...' but none was supplied"]

/-- Mistakes are shown as errors; what was asked for is not. -/
def isMistake : ArgumentProblem → Bool
  | helpRequested | versionRequested => false
  | _ => true

end ArgumentProblem

end JavaSubset
