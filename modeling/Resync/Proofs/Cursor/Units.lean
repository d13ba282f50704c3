import Resync.Proofs.Cursor.Boundary
import Resync.Recoverer

namespace Resync

namespace State

/-- The number of units behind a cursor: the scalars that can be read from a text, or all bytes. -/
def unitsAhead (s : State) : Nat :=
  if s.input.binary then s.remaining else s.scalars.length

variable {s t : State} {input : Input}

/-- Cursors that moves have led to a boundary sit there. Raw bytes have boundaries everywhere. -/
theorem Reached.sitsOn (h : s.Reached input)
    (hboundary : input.binary = false → input.IsBoundary s.pos) : s.SitsOn input where
  input_eq := h.input_eq
  scanned := h.scanned
  boundary := by
    have hpos := h.scanned.pos_le
    rw [h.input_eq] at hpos
    exact ⟨hpos, fun htext => (hboundary htext).2 htext⟩

/-- Two cursors of an input that stand at one place and share a watermark are the same. -/
theorem SitsOn.eq_of_pos_eq (h : s.SitsOn input) (ht : t.SitsOn input) (hpos : s.pos = t.pos)
    (hsafeSpot : s.safeSpot = t.safeSpot) : s = t := by
  have hinput := h.input_eq.trans ht.input_eq.symm
  have hline : s.line = t.line := by
    rw [h.scanned.line_eq, ht.scanned.line_eq, hinput, hpos]
  have hnewline : s.prevNewline = t.prevNewline := by
    rw [h.scanned.prevNewline_eq, ht.scanned.prevNewline_eq, hinput, hpos]
  cases s
  cases t
  simp_all only

/-- The units of an input are those before a cursor and those ahead of it. -/
theorem SitsOn.unitsBefore_add_unitsAhead (h : s.SitsOn input) :
    input.unitsBefore s.pos + s.unitsAhead = input.unitsBefore input.size := by
  by_cases hbinary : input.binary = true
  · have hpos := h.pos_le_size
    rw [unitsAhead, h.input_eq, if_pos hbinary, remaining, h.input_eq, Input.unitsBefore,
      Input.unitsBefore, if_pos hbinary, if_pos hbinary]
    omega
  · rw [unitsAhead, h.input_eq, if_neg hbinary, h.unitsBefore_size (by simpa using hbinary)]

/-- Two moves by units in a row are one move by their sum, also at the end of the input. -/
theorem SitsOn.moveByUnits_moveByUnits (h : s.SitsOn input) (m n : Nat) :
    (s.moveByUnits m).moveByUnits n = s.moveByUnits (m + n) := by
  have hfirst := h.moveByUnits m
  have hsum := h.moveByUnits (m + n)
  have hunits : input.unitsBefore ((s.moveByUnits m).moveByUnits n).pos =
      input.unitsBefore (s.moveByUnits (m + n)).pos := by
    rw [hfirst.unitsBefore_moveByUnits, h.unitsBefore_moveByUnits, h.unitsBefore_moveByUnits]
    omega
  have hpos := (hfirst.moveByUnits n).boundary.eq_of_unitsBefore_eq hsum.boundary hunits
  exact (hfirst.moveByUnits n).eq_of_pos_eq hsum hpos (by simp)

/-- A move by units passes as many as it is asked for, or all that are left. -/
theorem SitsOn.unitsTo_moveByUnits_eq_min (h : s.SitsOn input) (n : Nat) :
    s.unitsTo (s.moveByUnits n) = min n s.unitsAhead := by
  have hall := h.unitsBefore_add_unitsAhead
  rw [h.unitsTo_eq_sub (h.moveByUnits n) (h.pos_le_moveByUnits n), h.unitsBefore_moveByUnits]
  omega

/-- To skip what a move by bytes costs in units is that move, so a waste leads to where the anchor
    was found. -/
theorem SitsOn.moveByUnits_of_wasteTo (h : s.SitsOn input) {bytes units : Nat}
    (hwaste : wasteTo s bytes = .units units) : s.moveByUnits units = s.moveBy bytes := by
  cases hwaste
  have hmoved := h.moveBy bytes
  have hpos := h.moveByUnits_unitsTo hmoved (h.pos_le_moveBy bytes)
  exact (h.moveByUnits _).eq_of_pos_eq hmoved hpos (by simp)

/-- On boundaries of an input, moves by units add up, the units that such a move passes are those it
    is asked for as far as there are any ahead, and moving by the units to a cursor ahead leads to its
    place. Every move by bytes has a waste, and moving by the waste is that move. -/
theorem unit_arithmetic (hs : s.Reached input) (ht : t.Reached input)
    (hsboundary : input.binary = false → input.IsBoundary s.pos)
    (htboundary : input.binary = false → input.IsBoundary t.pos) (hle : s.pos ≤ t.pos)
    (m n bytes : Nat) :
    (s.moveByUnits m).moveByUnits n = s.moveByUnits (m + n) ∧
      s.unitsTo (s.moveByUnits n) = min n s.unitsAhead ∧
      (s.moveByUnits (s.unitsTo t)).pos = t.pos ∧
      (∃ units, wasteTo s bytes = .units units) ∧
      ∀ units, wasteTo s bytes = .units units → s.moveByUnits units = s.moveBy bytes := by
  have hs := hs.sitsOn hsboundary
  have ht := ht.sitsOn htboundary
  refine ⟨?_, ?_, ?_, ?_, ?_⟩
  · exact hs.moveByUnits_moveByUnits m n
  · exact hs.unitsTo_moveByUnits_eq_min n
  · exact hs.moveByUnits_unitsTo ht hle
  · -- a waste in units is counted up to the end of the move, wherever that is
    exact ⟨s.unitsTo (s.moveBy bytes), rfl⟩
  · intro units hwaste
    exact hs.moveByUnits_of_wasteTo hwaste

/-- The move by one byte is aligned to the end of a scalar of two bytes, and the one by nine units goes
    over the last line to the end of the text. -/
theorem unit_arithmetic_across_scalar :
    let input := Input.text "aé\n😀"
    let s := (start input).moveByUnits 1
    let t := (start input).moveBy 4
    s.Reached input ∧ t.Reached input ∧ input.IsBoundary s.pos ∧ input.IsBoundary t.pos ∧
      s.pos ≤ t.pos ∧ (s.moveByUnits 2).moveByUnits 9 = s.moveByUnits 11 ∧
      s.unitsTo (s.moveByUnits 9) = 3 ∧ s.unitsTo t = 2 ∧ (s.moveByUnits 2).pos = 4 ∧
      wasteTo s 1 = .units 1 ∧ s.moveByUnits 1 = s.moveBy 1 ∧ (s.moveBy 1).pos = 3 := by
  intro input s t
  have hs : s.Reached input := .moveByUnits 1 .start
  have ht : t.Reached input := .moveBy 4 .start
  have hpos : s.pos = 1 := by decide
  have hpos' : t.pos = 4 := by decide
  have hhere : input.IsBoundary s.pos := by
    have hbytes : input.bytes = Utf8.encode (['a'] ++ ['é', '\n', '😀']) := rfl
    rw [hpos]
    exact Input.isBoundary_of_append hbytes
  have hthere : input.IsBoundary t.pos := by
    have hbytes : input.bytes = Utf8.encode (['a', 'é', '\n'] ++ ['😀']) := rfl
    rw [hpos']
    exact Input.isBoundary_of_append hbytes
  have hle : s.pos ≤ t.pos := by decide
  obtain ⟨hsum, hpassed, hback, -, hwaste⟩ :=
    unit_arithmetic hs ht (fun _ => hhere) (fun _ => hthere) hle 2 9 1
  have hleft : s.unitsAhead = 3 := by decide
  have hunits : s.unitsTo t = 2 := by decide
  have hone : wasteTo s 1 = .units 1 := by decide
  rw [hleft] at hpassed
  rw [hunits, hpos'] at hback
  exact ⟨hs, ht, hhere, hthere, hle, hsum, hpassed, hunits, hback, hone, hwaste 1 hone, by decide⟩

end State

end Resync
