import Resync.Error
import Resync.Defect

namespace Resync

/-- The outcome of a parser: how far it got, an output, and the error if it failed. A failed outcome
    has an output too: the placeholder of a leaf, or what a branch could make of the children that
    it reached. -/
structure Result where
  start : State
  stop : State
  output : Output
  error : Option ParseError

namespace Result

def success (start stop : State) (output : Output) : Result :=
  ⟨start, stop, output, none⟩

def failure (start stop : State) (output : Output) (error : ParseError) : Result :=
  ⟨start, stop, output, some error⟩

def isOk (r : Result) : Bool :=
  r.error.isNone

/-- The same outcome with another output. -/
def withOutput (r : Result) (output : Output) : Result :=
  { r with output }

/-- The same outcome with its error, if any, attributed to a parser unless it is already. -/
def claim (r : Result) (id : Nat) : Result :=
  { r with error := r.error.map (·.claim id) }

/-- The output, which has to be of the type that the reader expects. -/
def read (r : Result) (expected : Ty) : Except Defect expected.Val :=
  match r.output.as? expected with
  | some value => .ok value
  | none => .error (.outputType expected)

end Result

end Resync
