import Resync.Input

namespace Resync

/-- The byte that ends a line. -/
def newline : UInt8 := 10

def countNewlines (bytes : List UInt8) : Nat :=
  bytes.count newline

/-- The index of the last newline among the bytes. -/
def lastNewline? : List UInt8 → Option Nat
  | [] => none
  | b :: bytes =>
    match lastNewline? bytes with
    | some i => some (i + 1)
    | none => if b = newline then some 0 else none

/-- A cursor over an input. Parsers receive one and return another. It carries its line and the
    newline before that line along, and every move updates both from the bytes it passes, so that no
    move has to look at the input from its start. It also carries the watermark of the last safe
    spot that matched, which never goes down. -/
structure State where
  input : Input
  /-- Byte offset into the input. -/
  pos : Nat
  /-- Number of the line that holds the cursor, counted from one. -/
  line : Nat
  /-- Offset of the newline that ends the line before, if there is one. -/
  prevNewline : Option Nat
  /-- The furthest position at which a safe spot ended. -/
  safeSpot : Nat

namespace State

/-- The cursor at the beginning of an input. -/
def start (input : Input) : State where
  input := input
  pos := 0
  line := 1
  prevNewline := none
  safeSpot := 0

/-- Whether a safe spot has matched beyond the position of `before`. -/
def crossedSafeSpotSince (s before : State) : Bool :=
  before.pos < s.safeSpot

/-- Raises the watermark to the cursor. It is never lowered. -/
def markSafeSpot (s : State) : State :=
  { s with safeSpot := max s.safeSpot s.pos }

def atEnd (s : State) : Bool :=
  s.input.size ≤ s.pos

/-- The number of bytes after the cursor. -/
def remaining (s : State) : Nat :=
  s.input.size - s.pos

def currentBytes (s : State) : List UInt8 :=
  s.input.bytes.drop s.pos

/-- The scalars after the cursor, up to the first byte that belongs to none. -/
def scalars (s : State) : List Char :=
  s.input.scalarsFrom s.pos

def currentText (s : State) : String :=
  String.ofList s.scalars

/-- Puts the cursor at `target`, which lies ahead of it, and counts the lines on the way. -/
def advanceTo (s : State) (target : Nat) : State :=
  let passed := s.input.slice s.pos target
  { s with
    pos := target
    line := s.line + countNewlines passed
    prevNewline :=
      match lastNewline? passed with
      | some i => some (s.pos + i)
      | none => s.prevNewline }

/-- Moves forward by a number of bytes, not beyond the end. In a text the target is aligned
    forward to a scalar boundary. -/
def moveBy (s : State) (count : Nat) : State :=
  s.advanceTo (s.input.align (min (s.pos + count) s.input.size))

/-- Moves forward by a number of units, not beyond the end. Where no scalar can be read there is
    nothing to count, and the move goes to the end of the text. -/
def moveByUnits (s : State) (count : Nat) : State :=
  if s.input.binary then s.moveBy count
  else
    let cs := s.scalars
    s.moveBy (if count < cs.length then Utf8.width (cs.take count) else s.remaining)

/-- Moves back to an offset, which is kept as it is, even inside a scalar. An offset ahead of the
    cursor is reached by a forward move. -/
def moveBackTo (s : State) (pos : Nat) : State :=
  if s.pos ≤ pos then s.moveBy (pos - s.pos)
  else
    let newlines := countNewlines (s.input.slice pos s.pos)
    if newlines = 0 then { s with pos }
    else
      { s with
        pos
        line := s.line - newlines
        prevNewline := lastNewline? (s.input.bytes.take pos) }

/-- Moves forward or back to an offset. -/
def movedTo (s : State) (pos : Nat) : State :=
  if s.pos ≤ pos then s.moveBy (pos - s.pos) else s.moveBackTo pos

/-- The number of units from this cursor to another one, none if the other is behind. -/
def unitsTo (s other : State) : Nat :=
  s.input.units s.pos other.pos

/-- The text from this cursor to another one. It is empty if the other is behind, and also if it
    is not reached through whole scalars. -/
def stringTo (s other : State) : String :=
  if other.pos ≤ s.pos then ""
  else String.ofList ((Utf8.cut? (other.pos - s.pos) s.scalars).getD [])

/-- The bytes from this cursor to another one, none if the other is behind. -/
def bytesTo (s other : State) : List UInt8 :=
  if other.pos ≤ s.pos then [] else s.input.slice s.pos other.pos

end State

end Resync
