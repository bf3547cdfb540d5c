/-!
# Output streams

What a program does to its two output streams is a list of `Action`s. `perform` carries them out
until one is refused and keeps what was written up to then.
-/

namespace JavaSubset

inductive Channel where
  | out
  | err
  deriving DecidableEq

inductive Action where
  | write (channel : Channel) (text : String)
  /-- Sends on what was written to `out`. -/
  | flush
  deriving DecidableEq

/-- Why a stream refuses to be written or flushed, if it does. -/
structure Faults where
  out : Option String := none
  flush : Option String := none
  err : Option String := none
  deriving DecidableEq

/-- What was written, and the reason why no more was. -/
structure Transcript where
  out : String
  err : String
  refusal : Option String
  deriving DecidableEq

namespace Faults

/-- The reason why an action is refused. -/
def refusal (faults : Faults) : Action → Option String
  | .write .out _ => faults.out
  | .write .err _ => faults.err
  | .flush => faults.flush

end Faults

/-- The text of an action on a channel. -/
def Action.textOn (channel : Channel) : Action → String
  | write c text => if c = channel then text else ""
  | flush => ""

def perform (faults : Faults) : List Action → Transcript
  | [] => ⟨"", "", none⟩
  | action :: more =>
    match faults.refusal action with
    | some reason => ⟨"", "", some reason⟩
    | none =>
      let later := perform faults more
      ⟨action.textOn .out ++ later.out, action.textOn .err ++ later.err, later.refusal⟩

end JavaSubset
