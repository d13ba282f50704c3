import Resync.State

namespace Resync

/-- What a recoverer proposes to skip. -/
inductive Waste where
  /-- After skipping this many units the leaf parses. -/
  | units (count : Nat)
  /-- The leaf does not parse anywhere in the rest of the input. -/
  | tooMuch
  /-- The leaf cannot serve as an anchor, since it may match without consuming. -/
  | never
deriving DecidableEq, Repr

/-- The waste of skipping a number of bytes, in units. -/
def wasteTo (s : State) (bytes : Nat) : Waste :=
  .units (s.unitsTo (s.moveBy bytes))

/-- How the waste of an anchor is found: how much input is to be skipped from a failing state before
    the leaf parses again. Most leaves can be searched for; the others are probed one unit further
    each time. -/
inductive Recoverer where
  /-- By computing it. -/
  | fast (waste : State → Waste)
  /-- By parsing the leaf again, one unit further each time. -/
  | step

namespace Recoverer

/-- The recoverer of leaves that may match without consuming. -/
def never : Recoverer :=
  .fast fun _ => .never

/-- The waste up to an offset from the state, if there is one. -/
def wasteToOffset (s : State) : Option Nat → Waste
  | some offset => wasteTo s offset
  | none => .tooMuch

/-- The offset in bytes of the first scalar with a property. -/
def offsetOf? (p : Char → Bool) : List Char → Option Nat
  | [] => none
  | c :: cs => if p c then some 0 else (offsetOf? p cs).map (c.utf8Size + ·)

/-- The offset in bytes of the first occurrence of some scalars. -/
def offsetOfList? (needle : List Char) : List Char → Option Nat
  | [] => if needle.isEmpty then some 0 else none
  | c :: cs =>
    if needle.isPrefixOf (c :: cs) then some 0
    else (offsetOfList? needle cs).map (c.utf8Size + ·)

/-- Skips up to the first scalar with a property. -/
def find (p : Char → Bool) : Recoverer :=
  .fast fun s => wasteToOffset s (offsetOf? p s.scalars)

/-- Skips up to the first occurrence of a text. -/
def findText (needle : String) : Recoverer :=
  .fast fun s => wasteToOffset s (offsetOfList? needle.toList s.scalars)

/-- Skips up to the first byte with a property. -/
def findByte (p : UInt8 → Bool) : Recoverer :=
  .fast fun s => wasteToOffset s (s.currentBytes.findIdx? p)

def isFast : Recoverer → Bool
  | fast _ => true
  | step => false

end Recoverer

end Resync
