import Resync.Result

namespace Resync

/-- What a branch learns when it is to go on after one of its children was parsed anew. -/
structure Resumption where
  /-- The position of the child among the children of the branch. -/
  index : Nat
  /-- The outcome of the child. -/
  child : Result
  /-- What the branch has saved in the error that recovery started from. -/
  saved : Option Saved

/-- Something that happens in a run. Runs return their events, in order, beside their result, so
    that a run can be followed by its reader and talked about as a whole. -/
inductive Event where
  /-- A parser is run from a state. -/
  | entered (id : Nat) (s : State)
  /-- A branch is to go on after one of its children. -/
  | resumed (branch : Nat) (label : String) (resumption : Resumption)
  /-- A parser that was entered or resumed has finished. -/
  | left (id : Nat) (result : Result)
  /-- A branch makes a remark. -/
  | noted (line : String)
  /-- An error has reached the recovery. -/
  | reported (error : ParseError)
  /-- An anchor has been asked for its waste. There is none if it does not match, or not before a
      cheaper one. -/
  | estimated (anchor : Nat) (label : String) (pos : Nat) (waste : Option Nat) (cached : Bool)
  /-- The cheapest anchor has been picked. -/
  | anchored (anchor : Nat) (label : String) (pos : Nat)
  /-- Recovery has ended, and the error unwinds. -/
  | gaveUp (pos : Nat)

end Resync
