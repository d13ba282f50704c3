import Mathlib.Logic.Basic
import Resync.Leaf.Primitive
import Resync.Proofs.Cursor.Scan

namespace Resync

/-- The leaf consumes whatever it matches. -/
def Leaf.Consumes (leaf : Leaf) : Prop :=
  ∀ ⦃s stop value⦄, s.pos ≤ s.input.size → leaf.run s = .ok (stop, value) → s.pos < stop.pos

namespace State

variable {s : State}

/-- Where there is something left, a move goes on by a byte at least. -/
theorem pos_lt_moveBy (h : s.pos < s.input.size) {count : Nat} (hcount : 0 < count) :
    s.pos < (s.moveBy count).pos := by
  rw [moveBy_pos]
  have hmin : s.pos < min (s.pos + count) s.input.size := Nat.lt_min.2 ⟨by omega, h⟩
  exact Nat.lt_of_lt_of_le hmin (s.input.le_align _)

theorem lt_size_of_scalars (h : s.scalars ≠ []) : s.pos < s.input.size := by
  by_contra hend
  apply h
  rw [scalars, Input.scalarsFrom, List.drop_eq_nil_of_le (Nat.not_lt.1 hend)]
  rfl

theorem lt_size_of_currentBytes (h : s.currentBytes ≠ []) : s.pos < s.input.size := by
  by_contra hend
  exact h (List.drop_eq_nil_of_le (Nat.not_lt.1 hend))

end State

namespace Primitive

/-- The primitives that match nothing without consuming it. -/
def Consumes : Primitive → Prop
  | literal expected => expected ≠ ""
  | digits | endOfInput | upTo _ => False
  | _ => True

/-- A scalar that is matched is consumed, as it takes a byte at least. -/
private theorem lt_of_matchScalar {label : String} {p : Char → Bool} {s stop : State} {c : Char}
    (h : matchScalar label p s = .ok (stop, c)) : s.pos < stop.pos := by
  unfold matchScalar at h
  split at h
  · next found rest hscalars =>
    split at h
    · cases h
      exact State.pos_lt_moveBy (State.lt_size_of_scalars (by rw [hscalars]; nofun))
        (Char.utf8Size_pos _)
    · cases h
  · cases h

private theorem lt_of_matchByte {label : String} {p : UInt8 → Bool} {s stop : State} {b : UInt8}
    (h : matchByte label p s = .ok (stop, b)) : s.pos < stop.pos := by
  unfold matchByte at h
  split at h
  · next found rest hbytes =>
    split at h
    · cases h
      exact State.pos_lt_moveBy (State.lt_size_of_currentBytes (by rw [hbytes]; nofun)) Nat.one_pos
    · cases h
  · cases h

/-- A text that is matched is consumed, if it is not empty. -/
private theorem lt_of_matchText {expected : String} (hexpected : expected ≠ "") {s stop : State}
    {found : String} (h : matchText expected s = .ok (stop, found)) : s.pos < stop.pos := by
  unfold matchText at h
  split at h
  · next hprefix =>
    cases h
    have hscalars : s.scalars ≠ [] := by
      intro hnil
      rw [hnil, List.isPrefixOf_iff_prefix, List.prefix_nil, String.toList_eq_nil_iff] at hprefix
      exact hexpected hprefix
    refine State.pos_lt_moveBy (State.lt_size_of_scalars hscalars) (Nat.pos_of_ne_zero ?_)
    rwa [Ne, String.utf8ByteSize_eq_zero_iff]
  · cases h

/-- Digits that are matched are consumed, since there is one at least. -/
private theorem lt_of_matchSomeDigits {s stop : State} {found : String}
    (h : matchSomeDigits s = .ok (stop, found)) : s.pos < stop.pos := by
  unfold matchSomeDigits at h
  split at h
  · cases h
  · next digit rest hdigits =>
    cases h
    have hscalars : s.scalars ≠ [] := by
      intro hnil
      rw [hnil] at hdigits
      cases hdigits
    refine State.pos_lt_moveBy (State.lt_size_of_scalars hscalars) ?_
    have hdigit := Char.utf8Size_pos digit
    rw [hdigits, Utf8.width_cons]
    omega

/-- A primitive that consumes what it matches moves beyond the cursor, wherever that stands. The
    others match the end of the input, possibly no digits, or an empty text. -/
theorem Consumes.leaf {primitive : Primitive} (h : primitive.Consumes) :
    primitive.leaf.Consumes := by
  intro s stop value _ hrun
  cases primitive with
  | char expected => exact lt_of_matchScalar hrun
  | satisfy label p => exact lt_of_matchScalar hrun
  | literal expected => exact lt_of_matchText h hrun
  | anyChar => exact lt_of_matchScalar hrun
  | digits => exact h.elim
  | someDigits => exact lt_of_matchSomeDigits hrun
  | endOfInput => exact h.elim
  | upTo text => exact h.elim
  | byte expected => exact lt_of_matchByte hrun
  | anyByte => exact lt_of_matchByte hrun

end Primitive

end Resync
