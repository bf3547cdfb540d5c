import JavaSubset.CommandLine.Invocation

/-!
# The program

Carries out on the real streams and files what `Invocation.run` describes, one line of input at a
time.
-/

namespace JavaSubset

/-- Carries out an action on the standard streams. -/
def Action.carryOut : Action → IO Unit
  | .write .out text => do (← IO.getStdout).putStr text
  | .write .err text => do (← IO.getStderr).putStr text
  | .flush => do (← IO.getStdout).flush

/-- Reads the bytes up to and including the next line feed. -/
partial def readLine (input : IO.FS.Stream) (read : List UInt8) : IO (List UInt8) := do
  match (← input.read 1).data.toList with
  | [] => return read.reverse
  | b :: _ => if b = 10 then return (b :: read).reverse else readLine input (b :: read)

/-- Holds a session on the standard streams. -/
partial def converse (options : Options) : IO (Except Failure Nat) := do
  prompt.forM Action.carryOut
  match inputLines (← readLine (← IO.getStdin) []) with
  | [] => return Ending.finished.result
  | line :: _ =>
    match Request.ofLine line with
    | .leave => return Ending.finished.result
    | .unreadable => return Ending.notUtf8.result
    | .check text =>
      (answer .oneLine options text).forM Action.carryOut
      converse options

/-- The bytes of a file. -/
def readFile (path : String) : IO (Except ReadProblem (List UInt8)) := do
  try
    return .ok (← IO.FS.readBinFile path).data.toList
  catch
    | .noFileOrDirectory .. => return .error .notFound
    | .inappropriateType .. => return .error .isDirectory
    | e => return .error (.other (toString e))

def checkFile (options : Options) (path : String) : IO (Except Failure Nat) := do
  match sourceOf path (← readFile path) with
  | .error failure => return .error failure
  | .ok source =>
    let report := check source
    (report.actions .oneLine options path source).forM Action.carryOut
    return .ok report.exitCode

/-- Does the work; an error of the streams is a failure. -/
def work (arguments : Arguments) : IO (Except Failure Nat) := do
  try
    match arguments with
    | ⟨[], options⟩ => converse options
    | ⟨[path], options⟩ => checkFile options path
    | ⟨_ :: _ :: _, _⟩ => return .error .tooManyPaths
  catch e => return .error (.io (toString e))

/-- Writes what is left to say and gives the exit code. -/
def Exit.finish (e : Exit) : IO UInt32 := do
  (← IO.getStdout).putStr e.out
  (← IO.getStderr).putStr e.err
  return e.code.toUInt32

end JavaSubset

def main (arguments : List String) : IO UInt32 :=
  match JavaSubset.Arguments.parse arguments with
  | .error problem => problem.exit.finish
  | .ok arguments => do
    let result ← JavaSubset.work arguments
    (JavaSubset.Run.mk "" "" result).exit.finish
