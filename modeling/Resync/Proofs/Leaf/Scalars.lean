import Resync.Proofs.Leaf.Promises

namespace Resync

namespace State

/-- A cursor of an input that has these scalars ahead, and a watermark that is not ahead of it. -/
structure Faces (s : State) (input : Input) (cs : List Char) : Prop where
  sits : s.SitsOn input
  scalars_eq : s.scalars = cs
  safeSpot_le : s.safeSpot ≤ s.pos

variable {s : State} {input : Input} {front back cs : List Char} {c : Char}

/-- A run on a text begins before all its scalars, with nothing behind it. -/
theorem faces_start (h : input.bytes = Utf8.encode cs) : (start input).Faces input cs where
  sits := start_sitsOn input
  scalars_eq := by
    rw [scalars, Input.scalarsFrom, start, List.drop_zero, h, Utf8.decodeLongest_encode]
  safeSpot_le := Nat.le_refl _

/-- A move by the width of the first scalars passes just these, and leaves the watermark behind. -/
theorem Faces.moveBy (h : s.Faces input (front ++ back)) :
    (s.moveBy (Utf8.width front)).Faces input back ∧
      (s.moveBy (Utf8.width front)).pos = s.pos + Utf8.width front := by
  obtain ⟨hpos, hscalars⟩ := h.sits.moveBy_width h.scalars_eq
  refine ⟨⟨h.sits.moveBy _, hscalars, ?_⟩, hpos⟩
  rw [moveBy_safeSpot, hpos]
  exact Nat.le_trans h.safeSpot_le (Nat.le_add_right ..)

theorem Faces.moveBy_one (h : s.Faces input (c :: back)) :
    (s.moveBy c.utf8Size).Faces input back ∧ (s.moveBy c.utf8Size).pos = s.pos + c.utf8Size := by
  have hone : s.Faces input ([c] ++ back) := h
  exact hone.moveBy

/-- A move by units goes over as many scalars of a text. -/
theorem Faces.moveByUnits (htext : input.binary = false) (h : s.Faces input (front ++ c :: back)) :
    (s.moveByUnits front.length).Faces input (c :: back) ∧
      (s.moveByUnits front.length).pos = s.pos + Utf8.width front := by
  have hmove : s.moveByUnits front.length = s.moveBy (Utf8.width front) := by
    rw [h.sits.moveByUnits_eq_moveBy htext (by simp [h.scalars_eq]), h.scalars_eq, List.take_left]
  rw [hmove]
  exact h.moveBy

theorem Faces.markSafeSpot (h : s.Faces input cs) : s.markSafeSpot.Faces input cs where
  sits := h.sits.markSafeSpot
  scalars_eq := h.scalars_eq
  safeSpot_le := Nat.max_le.2 ⟨h.safeSpot_le, Nat.le_refl _⟩

/-- A cursor that is moved to where it stands has the same ahead, and stands at the same place. -/
theorem Faces.movedTo_pos (h : s.Faces input cs) :
    (s.movedTo s.pos).Faces input cs ∧ (s.movedTo s.pos).pos = s.pos := by
  have hpos := h.sits.movedTo_pos h.sits.boundary
  have hsits := h.sits.movedTo h.sits.boundary
  refine ⟨⟨hsits, ?_, ?_⟩, hpos⟩
  · rw [hsits.scalars_eq h.sits hpos, h.scalars_eq]
  · rw [movedTo_safeSpot, hpos]
    exact h.safeSpot_le

/-- A cursor of a text is at the end if there are no scalars ahead, and only then. -/
theorem Faces.atEnd_iff (htext : input.binary = false) (h : s.Faces input cs) :
    s.atEnd = true ↔ cs = [] := by
  obtain ⟨before, hall, hwidth⟩ := h.sits.exists_append htext
  have hsize : input.size = s.pos + Utf8.width cs := by
    rw [Input.size, hall, Utf8.length_encode, Utf8.width_append, hwidth, h.scalars_eq]
  rw [atEnd, h.sits.input_eq, hsize, decide_eq_true_iff]
  constructor
  · intro hle
    have hlength := Utf8.length_le_width cs
    exact List.length_eq_zero_iff.1 (by omega)
  · rintro rfl
    exact Nat.le_refl _

end State

namespace Primitive

variable {s : State} {input : Input} {front back : List Char} {c : Char}

/-- One given scalar as a safe spot. -/
def landmark (c : Char) : Leaf :=
  { (char c).leaf with safeSpot := true }

theorem matchesScalar_landmark (c : Char) : MatchesScalar (landmark c) (· == c) :=
  fun s => matchesScalar_iff s

theorem matchesScalar_someDigits : MatchesScalar someDigits.leaf isDigit := by
  intro s
  change (∃ found, matchSomeDigits s = .ok found) ↔ _
  unfold matchSomeDigits
  cases s.scalars with
  | nil => simp
  | cons c cs => by_cases hc : isDigit c = true <;> simp [hc]

/-- A landmark goes behind its scalar, and sets the watermark there. Its output is the scalar. -/
theorem exists_parse_landmark (id : Nat) (h : s.Faces input (c :: back)) :
    ∃ stop, (landmark c).parse id s = .success s stop ⟨.char, c⟩ ∧ stop.Faces input back ∧
      stop.pos = s.pos + c.utf8Size ∧ s.pos < stop.safeSpot := by
  have hrun : (landmark c).run s = .ok (s.moveBy c.utf8Size, c) := by
    change matchScalar (String.singleton c) (· == c) s = _
    rw [matchScalar, h.scalars_eq]
    exact if_pos (beq_self_eq_true c)
  obtain ⟨hstop, hpos⟩ := h.moveBy_one
  refine ⟨(s.moveBy c.utf8Size).markSafeSpot, ?_, hstop.markSafeSpot, hpos, ?_⟩
  · rw [Leaf.parse, hrun]
    rfl
  · have hsize := c.utf8Size_pos
    exact Nat.lt_of_lt_of_le (by omega) (Nat.le_max_right ..)

/-- One given scalar is not matched where another one stands, or none, and the error stands at the
    cursor. -/
theorem parse_char_of_ne (safeSpot : Bool) (id : Nat) (h : s.scalars.head? ≠ some c) :
    ({ (char c).leaf with safeSpot } : Leaf).parse id s =
      .failure s s ⟨.char, '\x00'⟩ ((s.syntaxError (String.singleton c)).claim id) := by
  have hrun : (char c).leaf.run s = .error (s.syntaxError (String.singleton c)) := by
    change matchScalar (String.singleton c) (· == c) s = _
    unfold matchScalar
    cases hscalars : s.scalars with
    | nil => rfl
    | cons found rest =>
      rw [hscalars, List.head?_cons, ne_eq, Option.some.injEq] at h
      exact if_neg (by simpa using h)
  rw [Leaf.parse, hrun]
  rfl

/-- A landmark fails where another scalar stands, or none, and leaves the cursor where it is. -/
theorem parse_landmark_of_ne (id : Nat) (h : s.scalars.head? ≠ some c) :
    (landmark c).parse id s =
      .failure s s ⟨.char, '\x00'⟩ ((s.syntaxError (String.singleton c)).claim id) :=
  parse_char_of_ne true id h

/-- The end of a text is matched where no scalars are ahead, without moving. -/
theorem parse_endOfInput (id : Nat) (htext : input.binary = false) (h : s.Faces input []) :
    endOfInput.leaf.parse id s = .success s s ⟨.unit, ()⟩ := by
  have hrun : endOfInput.leaf.run s = .ok (s, ()) := if_pos ((h.atEnd_iff htext).2 rfl)
  rw [Leaf.parse, hrun]
  rfl

/-- The end of a text is not matched where a scalar is ahead, and the error stands there. -/
theorem parse_endOfInput_of_cons (id : Nat) (htext : input.binary = false)
    (h : s.Faces input (c :: back)) :
    endOfInput.leaf.parse id s =
      .failure s s ⟨.unit, ()⟩ ((s.syntaxError "end of input").claim id) := by
  have hrun : endOfInput.leaf.run s = .error (s.syntaxError "end of input") :=
    if_neg fun hend => List.cons_ne_nil _ _ ((h.atEnd_iff htext).1 hend)
  rw [Leaf.parse, hrun]
  rfl

/-- Digits are matched up to the first scalar that is none, and their text is the output. There has
    to be one at least, and a scalar behind them. -/
theorem exists_parse_someDigits (id : Nat) (h : s.Faces input (front ++ c :: back))
    (hfront : front ≠ []) (hdigits : ∀ d ∈ front, isDigit d = true) (hc : isDigit c = false) :
    ∃ stop, someDigits.leaf.parse id s = .success s stop ⟨.text, String.ofList front⟩ ∧
      stop.Faces input (c :: back) ∧ stop.pos = s.pos + Utf8.width front := by
  have hfound : s.scalars.takeWhile isDigit = front := by
    rw [h.scalars_eq, List.takeWhile_append_of_pos hdigits,
      List.takeWhile_cons_of_neg (by simp [hc]), List.append_nil]
  have hrun : someDigits.leaf.run s = .ok (s.moveBy (Utf8.width front), String.ofList front) := by
    change matchSomeDigits s = _
    obtain ⟨first, rest, rfl⟩ := List.exists_cons_of_ne_nil hfront
    rw [matchSomeDigits, hfound, matchDigits, hfound]
    rfl
  refine ⟨s.moveBy (Utf8.width front), ?_, h.moveBy⟩
  rw [Leaf.parse, hrun]
  rfl

/-- Digits are not matched where a scalar stands that is none, and the error stands there. -/
theorem parse_someDigits_of_not (id : Nat) (h : s.Faces input (c :: back))
    (hc : isDigit c = false) :
    someDigits.leaf.parse id s =
      .failure s s ⟨.text, ""⟩ ((s.syntaxError "digit").claim id) := by
  have hrun : someDigits.leaf.run s = .error (s.syntaxError "digit") := by
    change matchSomeDigits s = _
    rw [matchSomeDigits, h.scalars_eq, List.takeWhile_cons_of_neg (by simp [hc])]
    rfl
  rw [Leaf.parse, hrun]
  rfl

end Primitive

end Resync
