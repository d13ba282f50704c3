import Resync.Leaf
import Resync.ScalarClass

namespace Resync

/-- What a leaf of free choice matches. Its label, the wording of its failure and its recoverer are
    chosen apart from that, so the recoverer need not fit what it matches. -/
inductive Matcher where
  /-- A given text, which fails where it starts. -/
  | exactly (text : String)
  /-- A given text, which fails at the first scalar that differs. -/
  | scalarwise (text : String)
  /-- As many scalars of a class as there are, but at least `least` of them. -/
  | run (members : ScalarClass) (least : Nat)
  /-- A number of units, fewer only at the end, where there has to be one at least. -/
  | units (count : Nat)
  /-- Nothing at all. -/
  | nothing
  /-- Fails always, with a semantic error some bytes ahead. -/
  | refusal (ahead : Nat)

namespace Matcher

/-- Goes on scalar by scalar while the input agrees. -/
def matchScalars (failure : String) : List Char → State → Except ParseError State
  | [], s => .ok s
  | c :: cs, s =>
    if s.scalars.head? = some c then matchScalars failure cs (s.moveByUnits 1)
    else .error (s.syntaxError failure)

/-- The cursor after a match, or the error. -/
def stop (failure : String) (s : State) : Matcher → Except ParseError State
  | exactly text =>
    if text.toList.isPrefixOf s.scalars then .ok (s.moveBy text.utf8ByteSize)
    else .error (s.syntaxError failure)
  | scalarwise text => matchScalars failure text.toList s
  | run members least =>
    let count := (s.scalars.takeWhile members.contains).length
    if count < least then .error (s.syntaxError failure) else .ok (s.moveByUnits count)
  | units count => if s.atEnd then .error (s.syntaxError failure) else .ok (s.moveByUnits count)
  | nothing => .ok s
  | refusal ahead => .error ((s.moveBy ahead).semanticError failure)

/-- The leaf that consumes what a matcher matches. -/
def leaf (m : Matcher) (label failure : String) (recoverer : Option Recoverer) : Leaf where
  label := label
  type := .text
  run := fun s =>
    match m.stop failure s with
    | .ok stop => .ok (stop, s.stringTo stop)
    | .error e => .error e
  recoverer := recoverer
  safeSpot := false

end Matcher

end Resync
