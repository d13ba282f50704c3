import Resync.State
import Resync.Excerpt

namespace Resync

/-- The position of an offset as a reader counts it, by line and column. -/
structure Location where
  /-- Line number, counted from one. -/
  line : Nat
  /-- Column in units, counted from one; zero on an empty line. -/
  column : Nat
deriving DecidableEq, Repr

/-- The bounds of a line, without the newline that ends it. -/
structure LineSpan where
  line : Nat
  start : Nat
  stop : Nat
deriving DecidableEq, Repr

namespace State

/-- The offset at which the line of the cursor starts. -/
def lineStart (s : State) : Nat :=
  match s.prevNewline with
  | some newline => newline + 1
  | none => 0

/-- The line number of an offset inside the input. Ahead of the cursor the newlines from the cursor
    on are counted, on its line there are none to count, and behind it they are counted from the
    start of the input or back from the line of the cursor, whichever is nearer. -/
def lineNumberAt (s : State) (target : Nat) : Nat :=
  let lineStart := s.lineStart
  if s.pos ≤ target then s.line + countNewlines (s.input.slice s.pos target)
  else if lineStart ≤ target then s.line
  else if target ≤ lineStart - target then 1 + countNewlines (s.input.bytes.take target)
  else s.line - countNewlines (s.input.slice target lineStart)

/-- The line that holds an offset. Offsets beyond the end count as the end. -/
def lineSpan (s : State) (target : Nat) : LineSpan :=
  let target := min target s.input.size
  { line := s.lineNumberAt target
    start :=
      match lastNewline? (s.input.bytes.take target) with
      | some i => i + 1
      | none => 0
    stop := target + ((s.input.bytes.drop target).takeWhile (· != newline)).length }

/-- Line and column of an offset. -/
def locate (s : State) (pos : Nat) : Location :=
  let span := s.lineSpan pos
  { line := span.line
    column :=
      if span.start = span.stop then 0
      else s.input.units span.start (min pos s.input.size) + 1 }

def column (s : State) : Nat :=
  (s.locate s.pos).column

/-- The marked excerpt of the input around an offset. -/
def excerpt (s : State) (pos : Nat) : String :=
  let pos := min pos s.input.size
  if s.input.binary then Excerpt.hexdump s.input.bytes pos
  else
    let span := s.lineSpan pos
    Excerpt.ofText s.input.bytes span.start pos span.stop

end State

end Resync
