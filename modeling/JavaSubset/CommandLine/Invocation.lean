import JavaSubset.CommandLine.Arguments

/-!
# Running the program

`Invocation.run` is the whole program as a function of its arguments, the files it can read and
its input. Without a path it holds a session, with one path it checks that file, with more it
refuses.
-/

namespace JavaSubset

/-! ## Exit codes and failures -/

namespace ExitCode

def success : Nat := 0
def usage : Nat := 64
def dataError : Nat := 65
def noInput : Nat := 66
def ioError : Nat := 74

end ExitCode

/-- Why the program stopped before its work was done. -/
inductive Failure where
  /-- More than one path was given. -/
  | tooManyPaths
  | unreadableFile (path reason : String)
  | io (reason : String)
  deriving DecidableEq

namespace Failure

def message : Failure → String
  | tooManyPaths => "Usage: jcompiler [FILE]"
  | unreadableFile path reason => "Error reading file '" ++ path ++ "': " ++ reason
  | io reason => "I/O error: " ++ reason

def exitCode : Failure → Nat
  | tooManyPaths => ExitCode.usage
  | unreadableFile _ _ => ExitCode.noInput
  | io _ => ExitCode.ioError

end Failure

/-- What is said of bytes that are not UTF-8. -/
def notUtf8Reason : String := "stream did not contain valid UTF-8"

/-- Why a file can not be read. -/
inductive ReadProblem where
  | notFound
  | isDirectory
  | other (reason : String)
  deriving DecidableEq

def ReadProblem.reason : ReadProblem → String
  | notFound => "No such file or directory (os error 2)"
  | isDirectory => "Is a directory (os error 21)"
  | other reason => reason

/-! ## Sessions -/

/-- What was written, and the exit code or the failure. -/
structure Run where
  out : String
  err : String
  result : Except Failure Nat

def Ending.result : Ending → Except Failure Nat
  | finished => .ok ExitCode.success
  | notUtf8 => .error (.io notUtf8Reason)

/-- Carries out actions; a refused one is a failure of its own. -/
def runActions (faults : Faults) (actions : List Action) (result : Except Failure Nat) : Run :=
  let done := perform faults actions
  match done.refusal with
  | some reason => ⟨done.out, done.err, .error (.io reason)⟩
  | none => ⟨done.out, done.err, result⟩

def runPrompt (options : Options) (faults : Faults) (input : List UInt8)
    (render : Renderer := .oneLine) : Run :=
  let script := session render options input
  runActions faults script.actions script.ending.result

/-! ## Files -/

/-- The text of a file. -/
def sourceOf (path : String) (contents : Except ReadProblem (List UInt8)) :
    Except Failure String :=
  match contents with
  | .error problem => .error (.unreadableFile path problem.reason)
  | .ok bytes =>
    match decode? bytes with
    | some source => .ok source
    | none => .error (.unreadableFile path notUtf8Reason)

/-- A file with diagnostics is bad data. -/
def Report.exitCode (r : Report) : Nat :=
  if r.hadError then ExitCode.dataError else ExitCode.success

def runFile (options : Options) (faults : Faults) (path : String)
    (contents : Except ReadProblem (List UInt8)) (render : Renderer := .oneLine) : Run :=
  match sourceOf path contents with
  | .error failure => ⟨"", "", .error failure⟩
  | .ok source =>
    let report := check source
    runActions faults (report.actions render options path source) (.ok report.exitCode)

/-! ## Invocations -/

/-- What the program meets when it is started. -/
structure Invocation where
  arguments : List String
  /-- The bytes of the file at a path. -/
  read : String → Except ReadProblem (List UInt8)
  input : List UInt8

/-- What the program leaves behind. -/
structure Exit where
  code : Nat
  out : String
  err : String
  deriving DecidableEq

/-- Lines of text, each with its end. -/
def unlines (lines : List String) : String := String.join (lines.map (· ++ "\n"))

/-- A failure is told on the error stream. -/
def Run.exit (r : Run) : Exit :=
  match r.result with
  | .ok code => ⟨code, r.out, r.err⟩
  | .error failure => ⟨failure.exitCode, r.out, r.err ++ unlines [failure.message]⟩

def ArgumentProblem.exit (p : ArgumentProblem) : Exit :=
  if p.isMistake then ⟨ExitCode.usage, "", unlines p.lines⟩
  else ⟨ExitCode.success, unlines p.lines, ""⟩

def Invocation.run (i : Invocation) : Exit :=
  match Arguments.parse i.arguments with
  | .error problem => problem.exit
  | .ok ⟨[], options⟩ => (runPrompt options {} i.input).exit
  | .ok ⟨[path], options⟩ => (runFile options {} path (i.read path)).exit
  | .ok ⟨_ :: _ :: _, _⟩ => (Run.mk "" "" (.error .tooManyPaths)).exit

end JavaSubset
