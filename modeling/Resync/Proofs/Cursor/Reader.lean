import Mathlib.Data.List.Induction
import Resync.Proofs.Cursor.Checked

namespace Resync

/-- Where a reader stands after one more byte. Only bytes that begin a unit count in a column. -/
def Location.next (binary : Bool) (here : Location) (b : UInt8) : Location :=
  if b = newline then ⟨here.line + 1, 1⟩
  else if binary || !Utf8.isContinuation b then ⟨here.line, here.column + 1⟩
  else here

/-- Whether nothing stands on the line of an offset: the bytes before and after it end a line, if
    there are any. -/
def Input.onEmptyLine (input : Input) (pos : Nat) : Bool :=
  (input.bytes.take pos).getLast?.all (· == newline) &&
    (input.bytes.drop pos).head?.all (· == newline)

/-- Where a reader finds an offset that reads the input from its start. Lines and columns are counted
    from one, and an empty line has no columns. -/
def Input.scan (input : Input) (pos : Nat) : Location :=
  let here := (input.bytes.take pos).foldl (Location.next input.binary) ⟨1, 1⟩
  if input.onEmptyLine pos then { here with column := 0 } else here

/-- Where the last line of some bytes starts. -/
def lastLineStart (bytes : List UInt8) : Nat :=
  match lastNewline? bytes with
  | some i => i + 1
  | none => 0

/-- The number of units that begin in some bytes. -/
def countUnits (binary : Bool) (bytes : List UInt8) : Nat :=
  bytes.countP fun b => binary || !Utf8.isContinuation b

/-- A newline begins a new line behind it, and any other byte belongs to the last line. -/
theorem lastLineStart_concat (bytes : List UInt8) (b : UInt8) :
    lastLineStart (bytes ++ [b]) =
      if b = newline then (bytes ++ [b]).length else lastLineStart bytes := by
  rw [lastLineStart, lastNewline?_append]
  by_cases hb : b = newline <;> simp [lastNewline?, hb, lastLineStart]

theorem lastLineStart_le_length (bytes : List UInt8) : lastLineStart bytes ≤ bytes.length := by
  unfold lastLineStart
  split
  · next i hi => exact lastNewline?_lt_length hi
  · exact Nat.zero_le _

/-- The last line is empty so far if the bytes end with a newline, or there are none. These are the
    offsets without a column of their own. -/
theorem lastLineStart_eq_length_iff (bytes : List UInt8) :
    lastLineStart bytes = bytes.length ↔ bytes.getLast?.all (· == newline) = true := by
  induction bytes using List.reverseRecOn with
  | nil => simp [lastLineStart, lastNewline?]
  | append_singleton bytes b _ =>
    have hle := lastLineStart_le_length bytes
    rw [lastLineStart_concat, List.getLast?_concat]
    by_cases hb : b = newline
    · simp [hb]
    · simp only [hb, if_false, Option.all_some, beq_iff_eq, iff_false, List.length_append,
        List.length_singleton]
      omega

/-- A reader counts the newlines, and the units of the last line, starting from one. The induction
    adds a byte at the end, as the reader goes on from there. -/
theorem foldl_next (binary : Bool) (bytes : List UInt8) :
    bytes.foldl (Location.next binary) ⟨1, 1⟩ =
      ⟨1 + countNewlines bytes, countUnits binary (bytes.drop (lastLineStart bytes)) + 1⟩ := by
  induction bytes using List.reverseRecOn with
  | nil => rfl
  | append_singleton bytes b ih =>
    rw [List.foldl_concat, ih, lastLineStart_concat, countNewlines_append]
    by_cases hb : b = newline
    · simp [Location.next, hb, countNewlines, countUnits, Nat.add_assoc]
    · have hzero : countNewlines [b] = 0 := by simp [countNewlines, hb]
      rw [if_neg hb, hzero, List.drop_append_of_le_length (lastLineStart_le_length bytes)]
      unfold countUnits Location.next
      rw [List.countP_append, List.countP_singleton]
      simp only [hb, if_false]
      split <;> rfl

theorem Input.units_eq_countUnits (input : Input) {start stop : Nat} (hle : start ≤ stop)
    (hstop : stop ≤ input.size) :
    input.units start stop = countUnits input.binary ((input.bytes.take stop).drop start) := by
  have hslice : (input.bytes.take stop).drop start = input.slice start stop := List.drop_take
  rw [Input.units, if_pos ⟨hle, hstop⟩, hslice]
  cases input.binary with
  | false => simp [countUnits]
  | true =>
    have hlength : (input.slice start stop).length = stop - start := by
      rw [← hslice, List.length_drop, input.length_take_bytes hstop]
    simp [countUnits, hlength]

namespace State

variable {s : State}

/-- The line of a cursor is empty if it starts where it stops: before it and behind it a line
    ends. -/
theorem lineSpan_start_eq_stop_iff (h : s.pos ≤ s.input.size) :
    (s.lineSpan s.pos).start = (s.lineSpan s.pos).stop ↔ s.input.onEmptyLine s.pos = true := by
  have hlength := s.input.length_take_bytes h
  have hle := lastLineStart_le_length (s.input.bytes.take s.pos)
  have hbefore := lastLineStart_eq_length_iff (s.input.bytes.take s.pos)
  have hafter : ((s.input.bytes.drop s.pos).takeWhile (· != newline)).length = 0 ↔
      (s.input.bytes.drop s.pos).head?.all (· == newline) = true := by
    cases s.input.bytes.drop s.pos with
    | nil => simp
    | cons b bytes => by_cases hb : b = newline <;> simp [hb]
  rw [Input.onEmptyLine, Bool.and_eq_true, ← hbefore, ← hafter, hlength]
  change lastLineStart (s.input.bytes.take (min s.pos s.input.size)) =
    min s.pos s.input.size + _ ↔ _
  rw [Nat.min_eq_left h]
  omega

/-- The line of a cursor is the number of newlines before it and one. -/
theorem Scanned.line_lineSpan (h : s.Scanned) :
    (s.lineSpan s.pos).line = 1 + countNewlines (s.input.bytes.take s.pos) := by
  have hnone : countNewlines (s.input.slice s.pos s.pos) = 0 := by
    simp [Input.slice, countNewlines]
  change s.lineNumberAt (min s.pos s.input.size) = _
  rw [Nat.min_eq_left h.pos_le, lineNumberAt, if_pos (Nat.le_refl _), hnone, h.line_eq]
  rfl

/-- A cursor is where a reader of the whole input finds it, line and column, although it reads
    nothing again. -/
theorem Scanned.locate_eq_scan (h : s.Scanned) : s.locate s.pos = s.input.scan s.pos := by
  have hle := lastLineStart_le_length (s.input.bytes.take s.pos)
  rw [s.input.length_take_bytes h.pos_le] at hle
  have hunits := s.input.units_eq_countUnits hle h.pos_le
  have hstart : (s.lineSpan s.pos).start = lastLineStart (s.input.bytes.take s.pos) := by
    change lastLineStart (s.input.bytes.take (min s.pos s.input.size)) = _
    rw [Nat.min_eq_left h.pos_le]
  have hempty := lineSpan_start_eq_stop_iff h.pos_le
  unfold locate Input.scan
  simp only [foldl_next, h.line_lineSpan, Nat.min_eq_left h.pos_le, hempty]
  split
  · rfl
  · rw [hstart, hunits]

/-- Lines and columns are at most one more than the size of the input. -/
theorem Scanned.locate_le (h : s.Scanned) :
    (s.locate s.pos).line ≤ s.input.size + 1 ∧ (s.locate s.pos).column ≤ s.input.size + 1 := by
  constructor
  · have hline := h.line_le
    rw [h.line_eq, ← h.line_lineSpan] at hline
    exact hline
  · unfold locate
    dsimp only
    split
    · exact Nat.zero_le _
    · exact Nat.succ_le_succ (s.input.units_le_size _ _)

end State

end Resync
