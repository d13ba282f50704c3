import Mathlib.Algebra.Ring.Nat
import Resync.Error
import Resync.Proofs.Cursor.Scan

namespace Resync

/-- A line number or a column, which has 32 bits. -/
def count? (n : Nat) : Option Nat :=
  if n < 2 ^ 32 then some n else none

/-- A difference, which must not be negative. -/
def difference? (a b : Nat) : Option Nat :=
  if b ≤ a then some (a - b) else none

theorem count?_of_lt {n : Nat} (h : n < 2 ^ 32) : count? n = some n :=
  if_pos h

theorem difference?_of_le {a b : Nat} (h : b ≤ a) : difference? a b = some (a - b) :=
  if_pos h

namespace Input

variable (input : Input)

/-- The bytes of a range, which has to lie inside the input. -/
def slice? (start stop : Nat) : Option (List UInt8) :=
  if start ≤ stop ∧ stop ≤ input.size then some (input.slice start stop) else none

/-- The bytes before an offset inside the input. -/
def before? (stop : Nat) : Option (List UInt8) :=
  if stop ≤ input.size then some (input.bytes.take stop) else none

/-- The bytes from an offset inside the input on. -/
def from? (start : Nat) : Option (List UInt8) :=
  if start ≤ input.size then some (input.bytes.drop start) else none

variable {input} {start stop : Nat}

theorem slice?_of_le (h : start ≤ stop) (hstop : stop ≤ input.size) :
    input.slice? start stop = some (input.slice start stop) :=
  if_pos ⟨h, hstop⟩

theorem before?_of_le (h : stop ≤ input.size) :
    input.before? stop = some (input.bytes.take stop) :=
  if_pos h

theorem from?_of_le (h : start ≤ input.size) : input.from? start = some (input.bytes.drop start) :=
  if_pos h

/-- A range that is passed adds its newlines to those before it, so a line number can be carried
    along. -/
theorem countNewlines_take_add_slice (input : Input) (h : start ≤ stop) :
    countNewlines (input.bytes.take start) + countNewlines (input.slice start stop) =
      countNewlines (input.bytes.take stop) := by
  rw [← countNewlines_append, input.take_append_slice h]

theorem units_le_size (input : Input) (start stop : Nat) : input.units start stop ≤ input.size := by
  unfold units
  split
  · next hrange =>
    have hlength : (input.slice start stop).length ≤ stop - start := List.length_take_le ..
    have hcount := List.countP_le_length (p := fun b => !Utf8.isContinuation b)
      (l := input.slice start stop)
    split <;> omega
  · exact Nat.zero_le _

end Input

namespace State

variable (s : State)

def currentBytes? : Option (List UInt8) :=
  s.input.from? s.pos

def remaining? : Option Nat :=
  difference? s.input.size s.pos

def moveBy? (count : Nat) : Option State := do
  let target := s.input.align (min (s.pos + count) s.input.size)
  let passed ← s.input.slice? s.pos target
  let line ← count? (s.line + countNewlines passed)
  return { s.advanceTo target with line }

def moveByUnits? (count : Nat) : Option State :=
  if s.input.binary then s.moveBy? count
  else do
    let remaining ← s.remaining?
    let cs := s.scalars
    s.moveBy? (if count < cs.length then Utf8.width (cs.take count) else remaining)

def moveBackTo? (pos : Nat) : Option State :=
  if s.pos ≤ pos then s.moveBy? (pos - s.pos)
  else do
    let newlines := countNewlines (← s.input.slice? pos s.pos)
    if newlines = 0 then return { s with pos }
    else
      let line ← difference? s.line newlines
      let before ← s.input.before? pos
      return { s with pos, line, prevNewline := lastNewline? before }

def movedTo? (pos : Nat) : Option State :=
  if s.pos ≤ pos then s.moveBy? (pos - s.pos) else s.moveBackTo? pos

def lineNumberAt? (target : Nat) : Option Nat :=
  if s.pos ≤ target then do
    let passed ← s.input.slice? s.pos target
    count? (s.line + countNewlines passed)
  else if s.lineStart ≤ target then some s.line
  else if target ≤ s.lineStart - target then do
    let before ← s.input.before? target
    count? (1 + countNewlines before)
  else do
    let skipped ← s.input.slice? target s.lineStart
    difference? s.line (countNewlines skipped)

def lineSpan? (target : Nat) : Option LineSpan := do
  let target := min target s.input.size
  let line ← s.lineNumberAt? target
  let before ← s.input.before? target
  let after ← s.input.from? target
  return {
    line
    start :=
      match lastNewline? before with
      | some i => i + 1
      | none => 0
    stop := target + (after.takeWhile (· != newline)).length }

def locate? (pos : Nat) : Option Location := do
  let span ← s.lineSpan? pos
  if span.start = span.stop then return ⟨span.line, 0⟩
  else
    let column ← count? (s.input.units span.start (min pos s.input.size) + 1)
    return ⟨span.line, column⟩

def excerpt? (pos : Nat) : Option String :=
  let pos := min pos s.input.size
  if s.input.binary then do
    let offset := pos - pos % Excerpt.rowWidth
    let _ ← s.input.slice? (min offset s.input.size) (min (offset + Excerpt.rowWidth) s.input.size)
    return Excerpt.hexdump s.input.bytes pos
  else do
    let span ← s.lineSpan? pos
    return Excerpt.ofText s.input.bytes span.start pos span.stop

def errorHere? (kind : ErrorKind) (message : String) : Option ParseError := do
  let location ← s.locate? s.pos
  let excerpt ← s.excerpt? s.pos
  return { s.errorHere kind message with location, excerpt }

/-- No check fails at a cursor, whatever is done with it. -/
structure Checked (s : State) : Prop where
  currentBytes : s.currentBytes? = some s.currentBytes
  remaining : s.remaining? = some s.remaining
  moveBy : ∀ count, s.moveBy? count = some (s.moveBy count)
  moveByUnits : ∀ count, s.moveByUnits? count = some (s.moveByUnits count)
  moveBackTo : ∀ pos, s.moveBackTo? pos = some (s.moveBackTo pos)
  movedTo : ∀ pos, s.movedTo? pos = some (s.movedTo pos)
  locate : ∀ pos, s.locate? pos = some (s.locate pos)
  errorHere : ∀ kind message, s.errorHere? kind message = some (s.errorHere kind message)

namespace Scanned

variable {s : State} (h : s.Scanned) (hsize : s.input.size ≤ 2 ^ 32 - 2)
include h

/-- Newlines that stand before the cursor can be taken off its line number, since the number counts
    all of them and one more. -/
theorem countNewlines_slice_lt_line {start stop : Nat} (hle : start ≤ stop) (hstop : stop ≤ s.pos) :
    countNewlines (s.input.slice start stop) < s.line := by
  have hstart := s.input.countNewlines_take_add_slice hle
  have hrest := s.input.countNewlines_take_add_slice hstop
  have hline := h.line_eq
  omega

/-- What is left of the input is its size less the place of the cursor, which lies inside. -/
theorem remaining?_eq : s.remaining? = some s.remaining :=
  difference?_of_le h.pos_le

include hsize

/-- A move by bytes passes its checks: it reads a range inside the input, and the new line number
    fits its width. -/
theorem moveBy?_eq (count : Nat) : s.moveBy? count = some (s.moveBy count) := by
  have hmoved : (s.moveBy count).Scanned := h.moveBy count
  have hline := hmoved.line_le
  obtain ⟨hle, hpos⟩ := moveBy_pos_bounds h.pos_le count
  rw [moveBy_pos] at hle hpos
  have hcount : count? (s.moveBy count).line = some (s.moveBy count).line := by
    apply count?_of_lt
    rw [moveBy_input] at hline
    omega
  rw [moveBy?, Input.slice?_of_le hle hpos]
  change (count? (s.moveBy count).line >>= fun line => _) = _
  rw [hcount]
  rfl

/-- A move by units passes its checks, as it is a move by the bytes of the units. -/
theorem moveByUnits?_eq (count : Nat) : s.moveByUnits? count = some (s.moveByUnits count) := by
  rw [moveByUnits?, State.moveByUnits]
  by_cases hbinary : s.input.binary = true
  · rw [if_pos hbinary, if_pos hbinary]
    exact h.moveBy?_eq hsize count
  · rw [if_neg hbinary, if_neg hbinary, h.remaining?_eq]
    exact h.moveBy?_eq hsize _

/-- A move back passes its checks: the newlines that are taken off were counted before. -/
theorem moveBackTo?_eq (pos : Nat) : s.moveBackTo? pos = some (s.moveBackTo pos) := by
  rw [moveBackTo?, State.moveBackTo]
  by_cases hle : s.pos ≤ pos
  · rw [if_pos hle, if_pos hle]
    exact h.moveBy?_eq hsize _
  · have hback : pos ≤ s.pos := Nat.le_of_not_le hle
    have hlt := h.countNewlines_slice_lt_line hback (Nat.le_refl _)
    rw [if_neg hle, if_neg hle, Input.slice?_of_le hback h.pos_le]
    simp only [Option.bind_eq_bind, Option.bind_some, difference?_of_le (Nat.le_of_lt hlt),
      Input.before?_of_le (Nat.le_trans hback h.pos_le)]
    split <;> rfl

theorem movedTo?_eq (pos : Nat) : s.movedTo? pos = some (s.movedTo pos) := by
  rw [movedTo?, State.movedTo]
  by_cases hle : s.pos ≤ pos
  · rw [if_pos hle, if_pos hle]
    exact h.moveBy?_eq hsize _
  · rw [if_neg hle, if_neg hle]
    exact h.moveBackTo?_eq hsize pos

/-- Lines are counted up to an offset inside the input, or back from the start of the line. Neither
    way fails a check. -/
theorem lineNumberAt?_eq {target : Nat} (htarget : target ≤ s.input.size) :
    s.lineNumberAt? target = some (s.lineNumberAt target) := by
  rw [lineNumberAt?, State.lineNumberAt]
  have hbefore := countNewlines_le_length (s.input.bytes.take target)
  rw [s.input.length_take_bytes htarget] at hbefore
  by_cases hahead : s.pos ≤ target
  · have hpassed := s.input.countNewlines_take_add_slice hahead
    have hline := h.line_eq
    rw [if_pos hahead, if_pos hahead, Input.slice?_of_le hahead htarget]
    exact count?_of_lt (by omega)
  rw [if_neg hahead, if_neg hahead]
  by_cases hhere : s.lineStart ≤ target
  · rw [if_pos hhere, if_pos hhere]
  rw [if_neg hhere, if_neg hhere]
  by_cases hnear : target ≤ s.lineStart - target
  · rw [if_pos hnear, if_pos hnear, Input.before?_of_le htarget]
    exact count?_of_lt (by omega)
  · have hstart := h.lineStart_le_pos
    have hle : target ≤ s.lineStart := Nat.le_of_not_le hhere
    have hlt := h.countNewlines_slice_lt_line hle hstart
    rw [if_neg hnear, if_neg hnear, Input.slice?_of_le hle (Nat.le_trans hstart h.pos_le)]
    exact difference?_of_le (Nat.le_of_lt hlt)

/-- The line of any offset is found without failing a check, also beyond the end. -/
theorem lineSpan?_eq (target : Nat) : s.lineSpan? target = some (s.lineSpan target) := by
  have hmin : min target s.input.size ≤ s.input.size := Nat.min_le_right ..
  unfold lineSpan?
  simp only [h.lineNumberAt?_eq hsize hmin, Input.before?_of_le hmin, Input.from?_of_le hmin]
  rfl

/-- The location of any offset is told without failing a check: line and column fit their width. -/
theorem locate?_eq (pos : Nat) : s.locate? pos = some (s.locate pos) := by
  have hunits := s.input.units_le_size (s.lineSpan pos).start (min pos s.input.size)
  have hcount := count?_of_lt (n := s.input.units (s.lineSpan pos).start (min pos s.input.size) + 1)
    (by omega)
  rw [locate?, State.locate, h.lineSpan?_eq hsize]
  simp only [Option.bind_eq_bind, Option.bind_some, hcount]
  split <;> rfl

/-- What is shown around any offset is cut out without failing a check. -/
theorem excerpt?_eq (pos : Nat) : s.excerpt? pos = some (s.excerpt pos) := by
  rw [excerpt?, State.excerpt]
  by_cases hbinary : s.input.binary = true
  · simp only [if_pos hbinary]
    rw [Input.slice?_of_le (by omega) (Nat.min_le_right ..)]
    rfl
  · simp only [if_neg hbinary]
    rw [h.lineSpan?_eq hsize]
    rfl

/-- An error is raised without failing a check, with the location of the cursor. -/
theorem errorHere?_eq (kind : ErrorKind) (message : String) :
    s.errorHere? kind message = some (s.errorHere kind message) := by
  rw [errorHere?, h.locate?_eq hsize, h.excerpt?_eq hsize]
  rfl

/-- Where lines are counted right and counts have room, no check fails: no range outside the input
    is read, and no count goes below zero or out of its width. -/
theorem checked : s.Checked where
  currentBytes := Input.from?_of_le h.pos_le
  remaining := h.remaining?_eq
  moveBy := h.moveBy?_eq hsize
  moveByUnits := h.moveByUnits?_eq hsize
  moveBackTo := h.moveBackTo?_eq hsize
  movedTo := h.movedTo?_eq hsize
  locate := h.locate?_eq hsize
  errorHere := h.errorHere?_eq hsize

end Scanned

end State

end Resync
