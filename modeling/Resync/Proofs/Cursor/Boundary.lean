import Resync.Proofs.Cursor.Scan
import Resync.Proofs.Text.Boundary

namespace Resync

private theorem not_of_getElem?_length_takeWhile {p : UInt8 → Bool} {bytes : List UInt8} {b : UInt8}
    (h : bytes[(bytes.takeWhile p).length]? = some b) : p b = false := by
  induction bytes with
  | nil => simp at h
  | cons first bytes ih =>
    by_cases hfirst : p first
    · rw [List.takeWhile_cons_of_pos hfirst] at h
      exact ih (by simpa using h)
    · rw [List.takeWhile_cons_of_neg hfirst] at h
      simp only [List.length_nil, List.getElem?_cons_zero, Option.some.injEq] at h
      simpa [← h] using hfirst

namespace Input

/-- An offset inside an input at which no scalar is cut. Raw bytes can be cut anywhere. -/
def IsBoundary (input : Input) (pos : Nat) : Prop :=
  pos ≤ input.size ∧
    (input.binary = false → ∀ b, input.bytes[pos]? = some b → Utf8.isContinuation b = false)

/-- The number of units before an offset. -/
def unitsBefore (input : Input) (pos : Nat) : Nat :=
  if input.binary then pos
  else (input.bytes.take pos).countP fun b => !Utf8.isContinuation b

variable {input : Input} {pos : Nat}

theorem isBoundary_zero (input : Input) : input.IsBoundary 0 := by
  refine ⟨Nat.zero_le _, ?_⟩
  intro htext b hb
  obtain ⟨cs, hcs⟩ := input.encodesText htext
  rw [hcs] at hb
  have hfirst : (Utf8.encode ([] ++ cs))[Utf8.width []]? = some b := hb
  exact Utf8.isContinuation_of_getElem?_encode_append hfirst

theorem isBoundary_size (input : Input) : input.IsBoundary input.size := by
  refine ⟨Nat.le_refl _, ?_⟩
  intro _ b hb
  rw [size, List.getElem?_eq_none (Nat.le_refl _)] at hb
  cases hb

/-- Aligning leads to a boundary, from any offset of the input. -/
theorem isBoundary_align (input : Input) (h : pos ≤ input.size) :
    input.IsBoundary (input.align pos) := by
  refine ⟨input.align_le_size h, ?_⟩
  intro htext b hb
  rw [align, htext, if_neg (by simp), ← List.getElem?_drop] at hb
  exact not_of_getElem?_length_takeWhile hb

/-- A boundary is aligned already, so a move that comes to one stays there. -/
theorem IsBoundary.align_eq (h : input.IsBoundary pos) : input.align pos = pos := by
  unfold align
  split
  · rfl
  · next hbinary =>
    have htext : input.binary = false := by simpa using hbinary
    cases hdrop : input.bytes.drop pos with
    | nil => rfl
    | cons b rest =>
      have hb : input.bytes[pos]? = some b := by
        rw [← List.head?_drop, hdrop, List.head?_cons]
      simp [h.2 htext b hb]

/-- The boundaries of a text are the ends of the scalars that it begins with. -/
theorem IsBoundary.exists_append (h : input.IsBoundary pos) (htext : input.binary = false) :
    ∃ front back, input.bytes = Utf8.encode (front ++ back) ∧ Utf8.width front = pos := by
  obtain ⟨cs, hcs⟩ := input.encodesText htext
  have hpos : pos ≤ Utf8.width cs := by
    have hsize := h.1
    rwa [size, hcs, Utf8.length_encode] at hsize
  obtain ⟨front, back, rfl, hwidth⟩ := Utf8.exists_append_of_not_isContinuation hpos
    (by simpa only [hcs] using h.2 htext)
  exact ⟨front, back, hcs, hwidth⟩

/-- Where a text is cut between scalars, there is a boundary. -/
theorem isBoundary_of_append {front back : List Char}
    (hbytes : input.bytes = Utf8.encode (front ++ back)) : input.IsBoundary (Utf8.width front) := by
  refine ⟨?_, ?_⟩
  · rw [size, hbytes, Utf8.length_encode, Utf8.width_append]
    exact Nat.le_add_right ..
  · intro _ b hb
    rw [hbytes] at hb
    exact Utf8.isContinuation_of_getElem?_encode_append hb

private theorem take_of_append {front back : List Char}
    (hbytes : input.bytes = Utf8.encode (front ++ back)) :
    input.bytes.take (Utf8.width front) = Utf8.encode front := by
  rw [hbytes, Utf8.encode_append]
  exact List.take_left' (Utf8.length_encode front)

/-- The units before a boundary of a text are the scalars that it begins with. -/
theorem unitsBefore_of_append (htext : input.binary = false) {front back : List Char}
    (hbytes : input.bytes = Utf8.encode (front ++ back)) :
    input.unitsBefore (Utf8.width front) = front.length := by
  rw [unitsBefore, htext, if_neg (by simp), take_of_append hbytes, Utf8.countP_encode]

/-- On boundaries, more bytes are more units. So an offset can be told from the number of units
    before it. -/
theorem IsBoundary.unitsBefore_lt {other : Nat} (h : input.IsBoundary pos)
    (hother : input.IsBoundary other) (hlt : pos < other) :
    input.unitsBefore pos < input.unitsBefore other := by
  by_cases hbinary : input.binary = true
  · simpa [unitsBefore, hbinary] using hlt
  have htext : input.binary = false := by simpa using hbinary
  obtain ⟨front, back, hbytes, rfl⟩ := h.exists_append htext
  obtain ⟨front', back', hbytes', rfl⟩ := hother.exists_append htext
  have hsplit := Utf8.encode_injective (hbytes.symm.trans hbytes')
  obtain ⟨rest, rfl⟩ := Utf8.prefix_of_width_le hsplit (Nat.le_of_lt hlt)
  have hrest : rest ≠ [] := by
    rintro rfl
    simp at hlt
  have hpos := List.length_pos_of_ne_nil hrest
  rw [unitsBefore_of_append htext hbytes, unitsBefore_of_append htext hbytes', List.length_append]
  omega

theorem IsBoundary.unitsBefore_le {other : Nat} (h : input.IsBoundary pos)
    (hother : input.IsBoundary other) (hle : pos ≤ other) :
    input.unitsBefore pos ≤ input.unitsBefore other := by
  obtain rfl | hlt := Nat.eq_or_lt_of_le hle
  · exact Nat.le_refl _
  · exact Nat.le_of_lt (h.unitsBefore_lt hother hlt)

/-- Two boundaries with as many units before them are the same. -/
theorem IsBoundary.eq_of_unitsBefore_eq {other : Nat} (h : input.IsBoundary pos)
    (hother : input.IsBoundary other) (heq : input.unitsBefore pos = input.unitsBefore other) :
    pos = other := by
  obtain hlt | heq' | hlt := Nat.lt_trichotomy pos other
  · have hunits := h.unitsBefore_lt hother hlt
    omega
  · exact heq'
  · have hunits := hother.unitsBefore_lt h hlt
    omega

/-- The units of a range are those before its end less those before its start. -/
theorem units_eq_sub {start stop : Nat} (hle : start ≤ stop) (hsize : stop ≤ input.size) :
    input.units start stop = input.unitsBefore stop - input.unitsBefore start := by
  rw [units, if_pos ⟨hle, hsize⟩, unitsBefore, unitsBefore]
  by_cases hbinary : input.binary = true
  · simp only [hbinary, if_true]
  · simp only [hbinary, Bool.false_eq_true, if_false]
    rw [← input.take_append_slice hle, List.countP_append, Nat.add_sub_cancel_left]

/-- The rest of an input holds all units ahead, so there are no more of them in any range. -/
theorem units_le_units_size (input : Input) (start stop : Nat) :
    input.units start stop ≤ input.units start input.size := by
  by_cases hrange : start ≤ stop ∧ stop ≤ input.size
  · have hend : start ≤ input.size ∧ input.size ≤ input.size :=
      ⟨Nat.le_trans hrange.1 hrange.2, Nat.le_refl _⟩
    have hless : stop - start ≤ input.size - start := Nat.sub_le_sub_right hrange.2 start
    rw [units, units, if_pos hrange, if_pos hend]
    split
    · exact hless
    · exact (List.take_prefix_take_left hless).sublist.countP_le
  · rw [units, if_neg hrange]
    exact Nat.zero_le _

end Input

namespace State

/-- A cursor of an input that stands on a boundary and has counted its lines right. -/
structure SitsOn (s : State) (input : Input) : Prop where
  input_eq : s.input = input
  scanned : s.Scanned
  boundary : input.IsBoundary s.pos

/-- A new cursor stands at the start of its input, which is a boundary. -/
theorem start_sitsOn (input : Input) : (start input).SitsOn input :=
  ⟨rfl, scanned_start input, input.isBoundary_zero⟩

variable {s : State} {input : Input}

/-- A move by bytes is aligned to a boundary, and counts the lines that it passes. -/
theorem SitsOn.moveBy (h : s.SitsOn input) (count : Nat) : (s.moveBy count).SitsOn input := by
  refine ⟨h.input_eq, h.scanned.moveBy count, ?_⟩
  rw [moveBy_pos, h.input_eq]
  exact input.isBoundary_align (Nat.min_le_right ..)

theorem SitsOn.moveByUnits (h : s.SitsOn input) (count : Nat) :
    (s.moveByUnits count).SitsOn input := by
  unfold State.moveByUnits
  split
  · exact h.moveBy count
  · exact h.moveBy _

theorem SitsOn.markSafeSpot (h : s.SitsOn input) : s.markSafeSpot.SitsOn input :=
  ⟨h.input_eq, h.scanned.markSafeSpot, h.boundary⟩

theorem SitsOn.movedTo_pos (h : s.SitsOn input) {pos : Nat} (hpos : input.IsBoundary pos) :
    (s.movedTo pos).pos = pos := by
  unfold movedTo
  split
  · next hle =>
    rw [moveBy_pos, h.input_eq, Nat.add_sub_cancel' hle, Nat.min_eq_left hpos.1, hpos.align_eq]
  · next hle => exact moveBackTo_pos_of_lt (Nat.not_le.1 hle)

/-- A cursor that moves to a boundary stands there, and has counted its lines right. -/
theorem SitsOn.movedTo (h : s.SitsOn input) {pos : Nat} (hpos : input.IsBoundary pos) :
    (s.movedTo pos).SitsOn input := by
  refine ⟨by rw [movedTo_input, h.input_eq], h.scanned.movedTo pos, ?_⟩
  rw [h.movedTo_pos hpos]
  exact hpos

theorem SitsOn.pos_le_size (h : s.SitsOn input) : s.pos ≤ input.size :=
  h.boundary.1

theorem SitsOn.pos_le_moveBy (h : s.SitsOn input) (count : Nat) :
    s.pos ≤ (s.moveBy count).pos := by
  refine (moveBy_pos_bounds ?_ count).1
  rw [h.input_eq]
  exact h.pos_le_size

theorem SitsOn.pos_le_moveByUnits (h : s.SitsOn input) (count : Nat) :
    s.pos ≤ (s.moveByUnits count).pos := by
  refine (moveByUnits_pos_bounds ?_ count).1
  rw [h.input_eq]
  exact h.pos_le_size

/-- What can be read at a boundary of a text is what stands behind it. -/
theorem SitsOn.exists_append (h : s.SitsOn input) (htext : input.binary = false) :
    ∃ front, input.bytes = Utf8.encode (front ++ s.scalars) ∧ Utf8.width front = s.pos := by
  obtain ⟨front, back, hbytes, hwidth⟩ := h.boundary.exists_append htext
  have hback : s.scalars = back := by
    rw [scalars, Input.scalarsFrom, h.input_eq, hbytes, ← hwidth, Utf8.encode_append,
      List.drop_left' (Utf8.length_encode front), Utf8.decodeLongest_encode]
  exact ⟨front, by rw [hback]; exact hbytes, hwidth⟩

/-- Cursors at one position read the same, however they came there. -/
theorem SitsOn.scalars_eq {other : State} (h : s.SitsOn input) (hother : other.SitsOn input)
    (hpos : s.pos = other.pos) : s.scalars = other.scalars := by
  rw [scalars, scalars, h.input_eq, hother.input_eq, hpos]

/-- The units of a text are those before the cursor and the scalars behind it. -/
theorem SitsOn.unitsBefore_size (h : s.SitsOn input) (htext : input.binary = false) :
    input.unitsBefore input.size = input.unitsBefore s.pos + s.scalars.length := by
  obtain ⟨front, hbytes, hwidth⟩ := h.exists_append htext
  have hsize : input.size = Utf8.width (front ++ s.scalars) := by
    rw [Input.size, hbytes, Utf8.length_encode]
  have hall : input.bytes = Utf8.encode ((front ++ s.scalars) ++ []) := by
    rw [List.append_nil]
    exact hbytes
  rw [hsize, Input.unitsBefore_of_append htext hall, List.length_append, ← hwidth,
    Input.unitsBefore_of_append htext hbytes]

/-- A move by units adds to the units before the cursor, as far as there are any. On text the units
    are the scalars that can be read, and on raw bytes the bytes. -/
theorem SitsOn.unitsBefore_moveByUnits (h : s.SitsOn input) (count : Nat) :
    input.unitsBefore (s.moveByUnits count).pos =
      min (input.unitsBefore s.pos + count) (input.unitsBefore input.size) := by
  by_cases hbinary : input.binary = true
  · rw [State.moveByUnits, h.input_eq, hbinary, if_pos rfl, moveBy_pos, h.input_eq]
    simp [Input.unitsBefore, Input.align, hbinary]
  have htext : input.binary = false := by simpa using hbinary
  obtain ⟨front, hbytes, hwidth⟩ := h.exists_append htext
  have hhere : input.unitsBefore s.pos = front.length := by
    rw [← hwidth, Input.unitsBefore_of_append htext hbytes]
  have hall := h.unitsBefore_size htext
  rw [hhere] at hall
  rw [State.moveByUnits, h.input_eq, htext, if_neg (by simp), moveBy_pos, h.input_eq, hall, hhere]
  by_cases hcount : count < s.scalars.length
  · have hsplit : input.bytes =
        Utf8.encode ((front ++ s.scalars.take count) ++ s.scalars.drop count) := by
      rw [List.append_assoc, List.take_append_drop]
      exact hbytes
    have hboundary := Input.isBoundary_of_append hsplit
    have htarget : s.pos + Utf8.width (s.scalars.take count) =
        Utf8.width (front ++ s.scalars.take count) := by
      rw [Utf8.width_append, hwidth]
    rw [if_pos hcount, htarget, Nat.min_eq_left hboundary.1, hboundary.align_eq,
      Input.unitsBefore_of_append htext hsplit, List.length_append, List.length_take]
    omega
  · have hend : s.pos + s.remaining = input.size := by
      have hpos := h.pos_le_size
      rw [remaining, h.input_eq]
      omega
    rw [if_neg hcount, hend, Nat.min_self, input.isBoundary_size.align_eq, hall]
    omega

/-- The scalars that a move by units passes are no longer ahead, and the others are. -/
theorem SitsOn.scalars_moveByUnits (h : s.SitsOn input) (htext : input.binary = false)
    (count : Nat) : (s.moveByUnits count).scalars = s.scalars.drop count := by
  obtain ⟨front, hbytes, hwidth⟩ := h.exists_append htext
  obtain ⟨front', hbytes', hwidth'⟩ := (h.moveByUnits count).exists_append htext
  have hsplit := Utf8.encode_injective (hbytes'.symm.trans hbytes)
  have hunits := h.unitsBefore_moveByUnits count
  rw [h.unitsBefore_size htext, ← hwidth, ← hwidth', Input.unitsBefore_of_append htext hbytes,
    Input.unitsBefore_of_append htext hbytes'] at hunits
  have hdrop := congrArg (List.drop front'.length) hsplit
  rw [List.drop_left, List.drop_append] at hdrop
  rw [hdrop, hunits, List.drop_eq_nil_of_le (by omega), List.nil_append]
  by_cases hcount : count ≤ s.scalars.length
  · congr 1
    omega
  · rw [List.drop_eq_nil_of_le (by omega), List.drop_eq_nil_of_le (by omega)]

/-- A move by units goes over the scalars ahead, as long as there are more of them. -/
theorem SitsOn.moveByUnits_eq_moveBy (h : s.SitsOn input) (htext : input.binary = false)
    {count : Nat} (hlt : count < s.scalars.length) :
    s.moveByUnits count = s.moveBy (Utf8.width (s.scalars.take count)) := by
  rw [State.moveByUnits, h.input_eq, htext, if_neg (by decide)]
  dsimp only
  rw [if_pos hlt]

/-- Raw bytes are passed as many as are asked for, as far as there are any. -/
theorem SitsOn.moveBy_pos_of_binary (h : s.SitsOn input) (hbinary : input.binary = true)
    (count : Nat) : (s.moveBy count).pos = min (s.pos + count) input.size := by
  rw [State.moveBy_pos, h.input_eq, Input.align, if_pos hbinary]

theorem SitsOn.currentBytes_moveByUnits (h : s.SitsOn input) (hbinary : input.binary = true)
    (count : Nat) : (s.moveByUnits count).currentBytes = s.currentBytes.drop count := by
  have hunits : s.moveByUnits count = s.moveBy count := by
    rw [State.moveByUnits, h.input_eq, if_pos hbinary]
  rw [hunits, currentBytes, moveBy_input, h.moveBy_pos_of_binary hbinary, currentBytes,
    List.drop_drop, h.input_eq]
  obtain hle | hle := Nat.le_total (s.pos + count) input.size
  · rw [Nat.min_eq_left hle]
  · rw [Nat.min_eq_right hle, List.drop_eq_nil_of_le hle, Input.size, List.drop_length]

/-- The units from one cursor to another ahead of it are those before the second one less those
    before the first. -/
theorem SitsOn.unitsTo_eq_sub {other : State} (h : s.SitsOn input) (hother : other.SitsOn input)
    (hle : s.pos ≤ other.pos) :
    s.unitsTo other = input.unitsBefore other.pos - input.unitsBefore s.pos := by
  rw [unitsTo, h.input_eq, Input.units_eq_sub hle hother.pos_le_size]

/-- A move by units passes as many, as long as there are so many scalars ahead. -/
theorem SitsOn.unitsTo_moveByUnits (h : s.SitsOn input) (htext : input.binary = false)
    {count : Nat} (hle : count ≤ s.scalars.length) : s.unitsTo (s.moveByUnits count) = count := by
  rw [h.unitsTo_eq_sub (h.moveByUnits count) (h.pos_le_moveByUnits count),
    h.unitsBefore_moveByUnits, h.unitsBefore_size htext]
  omega

/-- Each of the raw bytes that a move passes is a unit, as long as there are so many. -/
theorem SitsOn.unitsTo_moveBy (h : s.SitsOn input) (hbinary : input.binary = true) {count : Nat}
    (hle : count ≤ s.currentBytes.length) : s.unitsTo (s.moveBy count) = count := by
  have hend : s.pos + count ≤ input.size := by
    have hpos := h.pos_le_size
    rw [currentBytes, List.length_drop, h.input_eq] at hle
    rw [Input.size] at hpos ⊢
    omega
  rw [h.unitsTo_eq_sub (h.moveBy count) (h.pos_le_moveBy count), Input.unitsBefore,
    Input.unitsBefore, if_pos hbinary, if_pos hbinary, h.moveBy_pos_of_binary hbinary,
    Nat.min_eq_left hend, Nat.add_sub_cancel_left]

/-- There is nothing to be passed behind the end, so a move by more units than are left ends
    there. -/
theorem SitsOn.moveByUnits_pos_of_units_le (h : s.SitsOn input) {count : Nat}
    (hle : input.units s.pos input.size ≤ count) : (s.moveByUnits count).pos = input.size := by
  have hend := h.boundary.unitsBefore_le input.isBoundary_size h.pos_le_size
  apply (h.moveByUnits count).boundary.eq_of_unitsBefore_eq input.isBoundary_size
  rw [Input.units_eq_sub h.pos_le_size (Nat.le_refl _)] at hle
  rw [h.unitsBefore_moveByUnits]
  omega

/-- Counting the units to a boundary ahead and moving by as many leads there. -/
theorem SitsOn.moveByUnits_unitsTo {other : State} (h : s.SitsOn input)
    (hother : other.SitsOn input) (hle : s.pos ≤ other.pos) :
    (s.moveByUnits (s.unitsTo other)).pos = other.pos := by
  have hunits := h.boundary.unitsBefore_le hother.boundary hle
  have hend := hother.boundary.unitsBefore_le input.isBoundary_size hother.pos_le_size
  apply (h.moveByUnits _).boundary.eq_of_unitsBefore_eq hother.boundary
  rw [h.unitsBefore_moveByUnits, h.unitsTo_eq_sub hother hle]
  omega

section Waste

variable {offset other : Nat}

/-- The waste of a boundary ahead is the number of units up to it. -/
theorem SitsOn.unitsTo_movedTo (h : s.SitsOn input) (hoffset : input.IsBoundary offset)
    (hle : s.pos ≤ offset) :
    s.unitsTo (s.movedTo offset) = input.unitsBefore offset - input.unitsBefore s.pos := by
  have hpos := h.movedTo_pos hoffset
  rw [h.unitsTo_eq_sub (h.movedTo hoffset) (Nat.le_trans hle (Nat.le_of_eq hpos.symm)), hpos]

/-- The waste of a boundary ahead leads there, so an anchor is resumed where it was found. -/
theorem SitsOn.moveByUnits_unitsTo_movedTo (h : s.SitsOn input) (hoffset : input.IsBoundary offset)
    (hle : s.pos ≤ offset) : (s.moveByUnits (s.unitsTo (s.movedTo offset))).pos = offset := by
  have hpos := h.movedTo_pos hoffset
  rw [h.moveByUnits_unitsTo (h.movedTo hoffset) (Nat.le_trans hle (Nat.le_of_eq hpos.symm)), hpos]

/-- Of two boundaries ahead the nearer one is the cheaper one, and only then is it cheaper. -/
theorem SitsOn.unitsTo_movedTo_lt_iff (h : s.SitsOn input) (hoffset : input.IsBoundary offset)
    (hle : s.pos ≤ offset) (hother : input.IsBoundary other) (hle' : s.pos ≤ other) :
    s.unitsTo (s.movedTo offset) < s.unitsTo (s.movedTo other) ↔ offset < other := by
  rw [h.unitsTo_movedTo hoffset hle, h.unitsTo_movedTo hother hle']
  have hunits := h.boundary.unitsBefore_le hoffset hle
  have hunits' := h.boundary.unitsBefore_le hother hle'
  constructor
  · intro hlt
    by_contra hge
    have hback := hother.unitsBefore_le hoffset (Nat.le_of_not_lt hge)
    omega
  · intro hlt
    have hahead := hoffset.unitsBefore_lt hother hlt
    omega

/-- Only the cursor itself is reached without waste, among the boundaries ahead. -/
theorem SitsOn.unitsTo_movedTo_eq_zero_iff (h : s.SitsOn input) (hoffset : input.IsBoundary offset)
    (hle : s.pos ≤ offset) : s.unitsTo (s.movedTo offset) = 0 ↔ offset = s.pos := by
  have hself : s.unitsTo (s.movedTo s.pos) = 0 := by
    rw [h.unitsTo_movedTo h.boundary (Nat.le_refl _), Nat.sub_self]
  have hlt := h.unitsTo_movedTo_lt_iff h.boundary (Nat.le_refl _) hoffset hle
  rw [hself] at hlt
  omega

end Waste

end State

end Resync
