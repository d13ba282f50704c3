import Resync.Proofs.Cursor.Checked

namespace Resync

/-- The last newline of some bytes is one, and there is none behind it. The induction adds a byte at
    the end, which is the last newline or leaves the last one where it was. -/
theorem lastNewline?_eq_some_iff {bytes : List UInt8} {i : Nat} :
    lastNewline? bytes = some i ↔
      bytes[i]? = some newline ∧ ∀ j, i < j → bytes[j]? ≠ some newline := by
  induction bytes generalizing i with
  | nil => simp [lastNewline?]
  | cons b bytes ih =>
    rw [lastNewline?]
    cases hlast : lastNewline? bytes with
    | some last =>
      obtain ⟨hnewline, hnone⟩ := ih.1 hlast
      rw [Option.some.injEq]
      constructor
      · rintro rfl
        refine ⟨hnewline, fun j hj => ?_⟩
        obtain ⟨j, rfl⟩ := Nat.exists_eq_succ_of_ne_zero (Nat.ne_zero_of_lt hj)
        exact hnone j (Nat.lt_of_succ_lt_succ hj)
      · rintro ⟨hi, hlater⟩
        -- A later newline than the last one, or one behind `i`, would contradict the other.
        cases i with
        | zero => exact absurd hnewline (hlater (last + 1) (Nat.succ_pos _))
        | succ i =>
          obtain hlt | rfl | hlt := Nat.lt_trichotomy i last
          · exact absurd hnewline (hlater (last + 1) (Nat.succ_lt_succ hlt))
          · rfl
          · exact absurd hi (hnone i hlt)
    | none =>
      have hzero := lastNewline?_eq_none_iff.1 hlast
      have hrest (j : Nat) : bytes[j]? ≠ some newline := fun hj =>
        List.count_eq_zero.1 hzero (List.mem_of_getElem? hj)
      constructor
      · intro hfirst
        obtain ⟨hb, hi⟩ := Option.ite_none_right_eq_some.1 hfirst
        cases hi
        refine ⟨congrArg some hb, fun j hj => ?_⟩
        obtain ⟨j, rfl⟩ := Nat.exists_eq_succ_of_ne_zero (Nat.ne_zero_of_lt hj)
        exact hrest j
      · rintro ⟨hi, -⟩
        cases i with
        | zero => exact if_pos (Option.some.inj hi)
        | succ i => exact absurd hi (hrest i)

theorem getElem?_take_eq_some_iff {bytes : List UInt8} {n i : Nat} {b : UInt8} :
    (bytes.take n)[i]? = some b ↔ i < n ∧ bytes[i]? = some b := by
  rw [List.getElem?_take, Option.ite_none_right_eq_some]

/-- The newline that ends the line before an offset: the last one that stands before it. -/
def Input.EndsLineBefore (input : Input) (pos i : Nat) : Prop :=
  i < pos ∧ input.bytes[i]? = some newline ∧
    ∀ j, i < j → j < pos → input.bytes[j]? ≠ some newline

/-- The last newline before an offset is the one that ends the line before it. -/
theorem Input.lastNewline?_take_eq_some_iff {input : Input} {pos i : Nat} :
    lastNewline? (input.bytes.take pos) = some i ↔ input.EndsLineBefore pos i := by
  rw [lastNewline?_eq_some_iff, EndsLineBefore]
  constructor
  · rintro ⟨hi, hlater⟩
    obtain ⟨hlt, hnewline⟩ := getElem?_take_eq_some_iff.1 hi
    refine ⟨hlt, hnewline, fun j hj hjpos => ?_⟩
    rw [← List.getElem?_take_of_lt hjpos]
    exact hlater j hj
  · rintro ⟨hlt, hnewline, hlater⟩
    refine ⟨getElem?_take_eq_some_iff.2 ⟨hlt, hnewline⟩, fun j hj hjnewline => ?_⟩
    obtain ⟨hjpos, hjnewline⟩ := getElem?_take_eq_some_iff.1 hjnewline
    exact hlater j hj hjpos hjnewline

/-- There is no newline before an offset on the first line. -/
theorem Input.lastNewline?_take_eq_none_iff {input : Input} {pos : Nat} :
    lastNewline? (input.bytes.take pos) = none ↔ ∀ i < pos, input.bytes[i]? ≠ some newline := by
  rw [lastNewline?_eq_none_iff, countNewlines, List.count_eq_zero]
  constructor
  · intro hnone i hi hnewline
    exact hnone (List.mem_of_getElem? (getElem?_take_eq_some_iff.2 ⟨hi, hnewline⟩))
  · intro hnone hmem
    obtain ⟨i, hi⟩ := List.mem_iff_getElem?.1 hmem
    obtain ⟨hlt, hnewline⟩ := getElem?_take_eq_some_iff.1 hi
    exact hnone i hlt hnewline

namespace State

/-- One operation that leads from a cursor to another one. -/
inductive Motion where
  | moveBy (count : Nat)
  | moveByUnits (count : Nat)
  | moveBackTo (pos : Nat)
  | movedTo (pos : Nat)
  | markSafeSpot
deriving DecidableEq, Repr

/-- The cursor after an operation. -/
def Motion.run : Motion → State → State
  | moveBy count, s => s.moveBy count
  | moveByUnits count, s => s.moveByUnits count
  | moveBackTo pos, s => s.moveBackTo pos
  | movedTo pos, s => s.movedTo pos
  | markSafeSpot, s => s.markSafeSpot

/-- The cursor after an operation with all its checks. -/
def Motion.run? : Motion → State → Option State
  | moveBy count, s => s.moveBy? count
  | moveByUnits count, s => s.moveByUnits? count
  | moveBackTo pos, s => s.moveBackTo? pos
  | movedTo pos, s => s.movedTo? pos
  | markSafeSpot, s => some s.markSafeSpot

/-- The cursor after several operations. -/
def follow (s : State) (motions : List Motion) : State :=
  motions.foldl (fun s motion => motion.run s) s

/-- The cursor after several operations with all their checks. -/
def follow? (s : State) (motions : List Motion) : Option State :=
  motions.foldlM (fun s motion => motion.run? s) s

variable {s : State} {input : Input} {motions : List Motion}

/-- One operation more leads to a cursor that moves have led to. -/
theorem Reached.run (h : s.Reached input) (motion : Motion) :
    (motion.run s).Reached input := by
  cases motion with
  | moveBy count => exact h.moveBy count
  | moveByUnits count => exact h.moveByUnits count
  | moveBackTo pos => exact h.moveBackTo pos
  | movedTo pos => exact h.movedTo pos
  | markSafeSpot => exact h.markSafeSpot

theorem Checked.run? (h : s.Checked) (motion : Motion) :
    motion.run? s = some (motion.run s) := by
  cases motion with
  | moveBy count => exact h.moveBy count
  | moveByUnits count => exact h.moveByUnits count
  | moveBackTo pos => exact h.moveBackTo pos
  | movedTo pos => exact h.movedTo pos
  | markSafeSpot => rfl

/-- Only a safe spot moves the watermark, and it moves it up. Moves back leave it where it is. -/
theorem safeSpot_le_run (s : State) (motion : Motion) :
    s.safeSpot ≤ (motion.run s).safeSpot := by
  cases motion with
  | moveBy count => exact Nat.le_refl _
  | moveByUnits count => exact Nat.le_of_eq (s.moveByUnits_safeSpot count).symm
  | moveBackTo pos => exact Nat.le_of_eq (s.moveBackTo_safeSpot pos).symm
  | movedTo pos => exact Nat.le_of_eq (s.movedTo_safeSpot pos).symm
  | markSafeSpot => exact Nat.le_max_left ..

/-- Any sequence of operations leads to a cursor that moves have led to. -/
theorem Reached.follow (h : s.Reached input) (motions : List Motion) :
    (s.follow motions).Reached input := by
  induction motions generalizing s with
  | nil => exact h
  | cons motion motions ih => exact ih (h.run motion)

/-- On any way the watermark goes up, or stays where it is. -/
theorem safeSpot_le_follow (s : State) (motions : List Motion) :
    s.safeSpot ≤ (s.follow motions).safeSpot := by
  induction motions generalizing s with
  | nil => exact Nat.le_refl _
  | cons motion motions ih => exact Nat.le_trans (s.safeSpot_le_run motion) (ih _)

/-- The watermark is no lower than it was earlier on the way, at any point. -/
theorem safeSpot_follow_le_of_prefix (s : State) {earlier : List Motion}
    (h : earlier <+: motions) : (s.follow earlier).safeSpot ≤ (s.follow motions).safeSpot := by
  obtain ⟨later, rfl⟩ := h
  have hsplit : s.follow (earlier ++ later) = (s.follow earlier).follow later := List.foldl_append
  rw [hsplit]
  exact safeSpot_le_follow _ later

/-- Cursors that moves have led to pass all checks, if the input leaves room for the counts. The
    size that is asked for is the largest whose lines and columns fit 32 bits. -/
theorem Reached.checked (h : s.Reached input) (hsize : input.size ≤ 2 ^ 32 - 2) : s.Checked := by
  apply h.scanned.checked
  rw [h.input_eq]
  exact hsize

/-- No check fails on a whole way, by induction on its operations: each leads to a cursor where none
    fails. -/
theorem Reached.follow?_eq (h : s.Reached input) (hsize : input.size ≤ 2 ^ 32 - 2)
    (motions : List Motion) : s.follow? motions = some (s.follow motions) := by
  induction motions generalizing s with
  | nil => rfl
  | cons motion motions ih =>
    rw [follow?, List.foldlM_cons, (h.checked hsize).run? motion]
    exact ih (h.run motion)

/-- Cursors at one place of an input tell the same of their line, whatever way has led there. -/
theorem Reached.line_eq_of_pos_eq {other : State} (h : s.Reached input)
    (hother : other.Reached input) (hpos : other.pos = s.pos) :
    other.line = s.line ∧ other.prevNewline = s.prevNewline := by
  rw [hother.scanned.line_eq, hother.scanned.prevNewline_eq, h.scanned.line_eq,
    h.scanned.prevNewline_eq, hother.input_eq, h.input_eq, hpos]
  exact ⟨rfl, rfl⟩

/-- However a cursor is moved from the start of an input, no check fails on the way or at the place
    that it comes to. It stays inside the input and tells its line and the newline before it by its
    place alone, and its watermark never goes down. -/
theorem follow_start_tells_place (hsize : input.size ≤ 2 ^ 32 - 2) (motions : List Motion) :
    let s := (start input).follow motions
    (start input).follow? motions = some s ∧ s.Checked ∧ s.pos ≤ input.size ∧
      s.line = 1 + countNewlines (input.bytes.take s.pos) ∧
      (∀ i, s.prevNewline = some i ↔ input.EndsLineBefore s.pos i) ∧
      (s.prevNewline = none ↔ ∀ i < s.pos, input.bytes[i]? ≠ some newline) ∧
      s.safeSpot ≤ input.size ∧
      (∀ earlier, earlier <+: motions → ((start input).follow earlier).safeSpot ≤ s.safeSpot) ∧
      ∀ others, ((start input).follow others).pos = s.pos →
        ((start input).follow others).line = s.line ∧
          ((start input).follow others).prevNewline = s.prevNewline := by
  intro s
  have hstart : (start input).Reached input := .start
  have hs : s.Reached input := hstart.follow motions
  have hscanned := hs.scanned
  have hline := hscanned.line_eq
  have hnewline := hscanned.prevNewline_eq
  rw [hs.input_eq] at hline hnewline
  have hmoves := hstart.follow?_eq hsize motions
  have hearly (earlier : List Motion) (hstarts : earlier <+: motions) :
      ((start input).follow earlier).safeSpot ≤ s.safeSpot :=
    safeSpot_follow_le_of_prefix _ hstarts
  refine ⟨hmoves, hs.checked hsize, ?_, hline, fun i => ?_, ?_, ?_, hearly, fun others hpos =>
    hs.line_eq_of_pos_eq (hstart.follow others) hpos⟩
  · rw [← hs.input_eq]
    exact hscanned.pos_le
  · rw [hnewline]
    exact Input.lastNewline?_take_eq_some_iff
  · rw [hnewline]
    exact Input.lastNewline?_take_eq_none_iff
  · rw [← hs.input_eq]
    exact hscanned.safeSpot_le

/-- The cursor turns back into the middle of the scalar of two bytes, and goes on from there. -/
theorem follow_start_tells_place_inside_scalar :
    (Input.text "b\né\n").size ≤ 2 ^ 32 - 2 ∧
      let motions := [.moveBy 4, .markSafeSpot, .moveBackTo 3, .moveByUnits 1, .movedTo 3]
      let s := (start (Input.text "b\né\n")).follow motions
      (s.pos, s.line, s.prevNewline, s.safeSpot) = (3, 2, some 1, 4) ∧
        (start (Input.text "b\né\n")).follow? motions = some s ∧ s.Checked ∧
        (Input.text "b\né\n").EndsLineBefore 3 1 := by
  have hsize : (Input.text "b\né\n").size ≤ 2 ^ 32 - 2 := by decide
  refine ⟨hsize, ?_⟩
  intro motions s
  obtain ⟨hfollow, hchecked, -, -, hnewline, -⟩ := follow_start_tells_place hsize motions
  have hplace : (s.pos, s.line, s.prevNewline, s.safeSpot) = (3, 2, some 1, 4) := by decide
  exact ⟨hplace, hfollow, hchecked, (hnewline 1).1 rfl⟩

end State

end Resync
