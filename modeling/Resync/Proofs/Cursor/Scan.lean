import Mathlib.Data.List.Basic
import Resync.State.Lines

namespace Resync

theorem countNewlines_append (before after : List UInt8) :
    countNewlines (before ++ after) = countNewlines before + countNewlines after := by
  simp [countNewlines]

theorem countNewlines_le_length (bytes : List UInt8) : countNewlines bytes ≤ bytes.length :=
  List.count_le_length

/-- The last newline is that of the second part, or that of the first one if the second has none. -/
theorem lastNewline?_append (before after : List UInt8) :
    lastNewline? (before ++ after) =
      match lastNewline? after with
      | some i => some (before.length + i)
      | none => lastNewline? before := by
  induction before with
  | nil => cases h : lastNewline? after <;> simp [lastNewline?, h]
  | cons b before ih =>
    rw [List.cons_append, lastNewline?, ih]
    cases h : lastNewline? after with
    | none => simp only [lastNewline?]
    | some i => simp only [List.length_cons, Option.some.injEq]; omega

theorem lastNewline?_eq_none_iff {bytes : List UInt8} :
    lastNewline? bytes = none ↔ countNewlines bytes = 0 := by
  induction bytes with
  | nil => simp [lastNewline?, countNewlines]
  | cons b bytes ih =>
    rw [countNewlines] at ih
    rw [lastNewline?, countNewlines, List.count_cons]
    cases h : lastNewline? bytes with
    | some i =>
      have hpos : ¬ List.count newline bytes = 0 := fun hzero => by simp [ih.2 hzero] at h
      simp only [reduceCtorEq, false_iff]
      omega
    | none =>
      rw [ih.1 h]
      by_cases hb : b = newline <;> simp [hb]

theorem lastNewline?_lt_length {bytes : List UInt8} {i : Nat} (h : lastNewline? bytes = some i) :
    i < bytes.length := by
  induction bytes generalizing i with
  | nil => simp [lastNewline?] at h
  | cons b bytes ih =>
    unfold lastNewline? at h
    cases hlast : lastNewline? bytes with
    | some j =>
      have hj := ih hlast
      simp only [hlast, Option.some.injEq] at h
      simp only [List.length_cons]
      omega
    | none =>
      simp only [hlast, Option.ite_none_right_eq_some, Option.some.injEq] at h
      simp only [List.length_cons]
      omega

namespace Input

/-- The bytes before a range and those in it are the bytes before its end. -/
theorem take_append_slice (input : Input) {start stop : Nat} (h : start ≤ stop) :
    input.bytes.take start ++ input.slice start stop = input.bytes.take stop := by
  have hsplit := List.take_append_drop start (input.bytes.take stop)
  rw [List.take_take, Nat.min_eq_left h] at hsplit
  rw [slice, List.take_drop, Nat.add_sub_cancel' h]
  exact hsplit

theorem length_take_bytes (input : Input) {pos : Nat} (h : pos ≤ input.size) :
    (input.bytes.take pos).length = pos := by
  rw [List.length_take]
  exact Nat.min_eq_left h

theorem le_align (input : Input) (pos : Nat) : pos ≤ input.align pos := by
  unfold align
  split <;> omega

theorem align_le_size (input : Input) {pos : Nat} (h : pos ≤ input.size) :
    input.align pos ≤ input.size := by
  have hlength := (List.takeWhile_prefix (p := Utf8.isContinuation)
    (l := input.bytes.drop pos)).length_le
  rw [List.length_drop] at hlength
  rw [size] at h ⊢
  unfold align
  split <;> omega

end Input

namespace State

@[simp]
theorem advanceTo_input (s : State) (target : Nat) : (s.advanceTo target).input = s.input := rfl

@[simp]
theorem advanceTo_pos (s : State) (target : Nat) : (s.advanceTo target).pos = target := rfl

@[simp]
theorem advanceTo_safeSpot (s : State) (target : Nat) :
    (s.advanceTo target).safeSpot = s.safeSpot := rfl

@[simp]
theorem moveBy_input (s : State) (count : Nat) : (s.moveBy count).input = s.input := rfl

@[simp]
theorem moveBy_safeSpot (s : State) (count : Nat) : (s.moveBy count).safeSpot = s.safeSpot := rfl

theorem moveBy_pos (s : State) (count : Nat) :
    (s.moveBy count).pos = s.input.align (min (s.pos + count) s.input.size) := rfl

@[simp]
theorem markSafeSpot_input (s : State) : s.markSafeSpot.input = s.input := rfl

@[simp]
theorem markSafeSpot_pos (s : State) : s.markSafeSpot.pos = s.pos := rfl

@[simp]
theorem moveByUnits_input (s : State) (count : Nat) : (s.moveByUnits count).input = s.input := by
  unfold moveByUnits
  split <;> rfl

@[simp]
theorem moveByUnits_safeSpot (s : State) (count : Nat) :
    (s.moveByUnits count).safeSpot = s.safeSpot := by
  unfold moveByUnits
  split <;> rfl

/-- Moves by bytes go forward, and not beyond the end, whatever is asked for. -/
theorem moveBy_pos_bounds {s : State} (h : s.pos ≤ s.input.size) (count : Nat) :
    s.pos ≤ (s.moveBy count).pos ∧ (s.moveBy count).pos ≤ s.input.size := by
  have hmin : min (s.pos + count) s.input.size ≤ s.input.size := Nat.min_le_right ..
  have hpos : s.pos ≤ min (s.pos + count) s.input.size := Nat.le_min.2 ⟨Nat.le_add_right .., h⟩
  rw [moveBy_pos]
  exact ⟨Nat.le_trans hpos (s.input.le_align _), s.input.align_le_size hmin⟩

/-- Moves by units go forward, and not beyond the end, whatever is asked for. -/
theorem moveByUnits_pos_bounds {s : State} (h : s.pos ≤ s.input.size) (count : Nat) :
    s.pos ≤ (s.moveByUnits count).pos ∧ (s.moveByUnits count).pos ≤ s.input.size := by
  unfold moveByUnits
  split
  · exact moveBy_pos_bounds h count
  · exact moveBy_pos_bounds h _

@[simp]
theorem moveBackTo_input (s : State) (pos : Nat) : (s.moveBackTo pos).input = s.input := by
  unfold moveBackTo
  split
  · rfl
  · dsimp only
    split <;> rfl

@[simp]
theorem moveBackTo_safeSpot (s : State) (pos : Nat) :
    (s.moveBackTo pos).safeSpot = s.safeSpot := by
  unfold moveBackTo
  split
  · rfl
  · dsimp only
    split <;> rfl

theorem moveBackTo_pos_of_lt {s : State} {pos : Nat} (h : pos < s.pos) :
    (s.moveBackTo pos).pos = pos := by
  rw [moveBackTo, if_neg (Nat.not_le.2 h)]
  dsimp only
  split <;> rfl

@[simp]
theorem movedTo_input (s : State) (pos : Nat) : (s.movedTo pos).input = s.input := by
  unfold movedTo
  split
  · rfl
  · exact s.moveBackTo_input pos

@[simp]
theorem movedTo_safeSpot (s : State) (pos : Nat) : (s.movedTo pos).safeSpot = s.safeSpot := by
  unfold movedTo
  split
  · rfl
  · exact s.moveBackTo_safeSpot pos

/-- A cursor inside its input whose line and newline are those that a scan of all bytes before it
    finds. The watermark lies inside the input too. -/
structure Scanned (s : State) : Prop where
  pos_le : s.pos ≤ s.input.size
  line_eq : s.line = 1 + countNewlines (s.input.bytes.take s.pos)
  prevNewline_eq : s.prevNewline = lastNewline? (s.input.bytes.take s.pos)
  safeSpot_le : s.safeSpot ≤ s.input.size

/-- A new cursor has nothing behind it, so it has counted everything. -/
theorem scanned_start (input : Input) : (start input).Scanned where
  pos_le := Nat.zero_le _
  line_eq := rfl
  prevNewline_eq := rfl
  safeSpot_le := Nat.zero_le _

variable {s : State}

/-- On the way forward the newlines that are passed are added to the line number, and the last of
    them is the one before the cursor. -/
theorem Scanned.advanceTo (h : s.Scanned) {target : Nat} (hle : s.pos ≤ target)
    (hsize : target ≤ s.input.size) : (s.advanceTo target).Scanned where
  pos_le := hsize
  line_eq := by
    change s.line + countNewlines (s.input.slice s.pos target) = _
    rw [h.line_eq, Nat.add_assoc, ← countNewlines_append, s.input.take_append_slice hle]
    rfl
  prevNewline_eq := by
    change (match lastNewline? (s.input.slice s.pos target) with
      | some i => some (s.pos + i)
      | none => s.prevNewline) = lastNewline? (s.input.bytes.take target)
    rw [← s.input.take_append_slice hle, lastNewline?_append, s.input.length_take_bytes h.pos_le,
      h.prevNewline_eq]
  safeSpot_le := h.safeSpot_le

/-- A move by bytes leads forward, and so keeps what a scan would find. -/
theorem Scanned.moveBy (h : s.Scanned) (count : Nat) : (s.moveBy count).Scanned := by
  obtain ⟨hle, hsize⟩ := moveBy_pos_bounds h.pos_le count
  exact h.advanceTo hle hsize

/-- A move by units leads forward, and so keeps what a scan would find. -/
theorem Scanned.moveByUnits (h : s.Scanned) (count : Nat) : (s.moveByUnits count).Scanned := by
  unfold State.moveByUnits
  split
  · exact h.moveBy count
  · exact h.moveBy _

/-- On the way back the newlines that are passed are taken off the line number, and without any
    the newline before the cursor stays the same. -/
theorem Scanned.moveBackTo (h : s.Scanned) (pos : Nat) : (s.moveBackTo pos).Scanned := by
  unfold State.moveBackTo
  by_cases hle : s.pos ≤ pos
  · rw [if_pos hle]
    exact h.moveBy _
  have hback : pos ≤ s.pos := Nat.le_of_not_le hle
  have hline := h.line_eq
  have hnewline := h.prevNewline_eq
  rw [← s.input.take_append_slice hback, countNewlines_append] at hline
  rw [← s.input.take_append_slice hback, lastNewline?_append] at hnewline
  rw [if_neg hle]
  dsimp only
  split
  · next hzero =>
    rw [lastNewline?_eq_none_iff.2 hzero] at hnewline
    rw [hzero] at hline
    exact ⟨Nat.le_trans hback h.pos_le, hline, hnewline, h.safeSpot_le⟩
  · refine ⟨Nat.le_trans hback h.pos_le, ?_, rfl, h.safeSpot_le⟩
    change s.line - countNewlines (s.input.slice pos s.pos) = _
    rw [hline]
    change _ = 1 + countNewlines (s.input.bytes.take pos)
    omega

/-- A move to an offset, forward or back, keeps what a scan would find. -/
theorem Scanned.movedTo (h : s.Scanned) (pos : Nat) : (s.movedTo pos).Scanned := by
  unfold State.movedTo
  split
  · exact h.moveBy _
  · exact h.moveBackTo pos

/-- Marking a safe spot leaves line and newline, and the mark lies inside the input. -/
theorem Scanned.markSafeSpot (h : s.Scanned) : s.markSafeSpot.Scanned where
  pos_le := h.pos_le
  line_eq := h.line_eq
  prevNewline_eq := h.prevNewline_eq
  safeSpot_le := Nat.max_le.2 ⟨h.safeSpot_le, h.pos_le⟩

/-- The start of the line lies at or before the cursor, since the newline before it does. -/
theorem Scanned.lineStart_le_pos (h : s.Scanned) : s.lineStart ≤ s.pos := by
  unfold lineStart
  cases hprev : s.prevNewline with
  | none => exact Nat.zero_le _
  | some i =>
    have hlast := h.prevNewline_eq
    rw [hprev] at hlast
    have hlt := lastNewline?_lt_length hlast.symm
    rw [s.input.length_take_bytes h.pos_le] at hlt
    exact hlt

/-- The line number of a cursor is at most one more than the size of its input. -/
theorem Scanned.line_le (h : s.Scanned) : s.line ≤ s.input.size + 1 := by
  have hcount := countNewlines_le_length (s.input.bytes.take s.pos)
  rw [s.input.length_take_bytes h.pos_le] at hcount
  have hpos := h.pos_le
  rw [h.line_eq]
  omega

/-- Cursors that moves lead to from the start of an input. -/
inductive Reached (input : Input) : State → Prop
  | start : Reached input (start input)
  | moveBy {s : State} (count : Nat) (h : Reached input s) : Reached input (s.moveBy count)
  | moveByUnits {s : State} (count : Nat) (h : Reached input s) :
      Reached input (s.moveByUnits count)
  | moveBackTo {s : State} (pos : Nat) (h : Reached input s) : Reached input (s.moveBackTo pos)
  | movedTo {s : State} (pos : Nat) (h : Reached input s) : Reached input (s.movedTo pos)
  | markSafeSpot {s : State} (h : Reached input s) : Reached input s.markSafeSpot

/-- However a cursor was moved, its line and the newline before it are what a scan of the input from
    its start would find, and it stays inside the input. -/
theorem Reached.scanned {input : Input} (h : s.Reached input) : s.Scanned := by
  induction h with
  | start => exact scanned_start input
  | moveBy count _ ih => exact ih.moveBy count
  | moveByUnits count _ ih => exact ih.moveByUnits count
  | moveBackTo pos _ ih => exact ih.moveBackTo pos
  | movedTo pos _ ih => exact ih.movedTo pos
  | markSafeSpot _ ih => exact ih.markSafeSpot

theorem Reached.input_eq {input : Input} (h : s.Reached input) : s.input = input := by
  induction h with
  | start => rfl
  | moveBy count _ ih => exact ih
  | moveByUnits count _ ih => rw [moveByUnits_input, ih]
  | moveBackTo pos _ ih => rw [moveBackTo_input, ih]
  | movedTo pos _ ih => rw [movedTo_input, ih]
  | markSafeSpot _ ih => exact ih

end State

end Resync
