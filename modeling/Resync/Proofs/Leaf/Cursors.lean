import Resync.Leaf.Primitive
import Resync.Proofs.Cursor.Boundary
import Resync.Proofs.Engine.Cursors

namespace Resync

/-- A property of cursors inside an input that moving forward and matching a safe spot keep. -/
structure State.ClosedUnderMoves (P : State → Prop) (input : Input) : Prop where
  input_eq : ∀ {s}, P s → s.input = input
  pos_le_size : ∀ {s}, P s → s.pos ≤ s.input.size
  moveBy : ∀ {s} count, P s → P (s.moveBy count)
  markSafeSpot : ∀ {s}, P s → P s.markSafeSpot

theorem State.closedUnderMoves_sitsOn (input : Input) :
    State.ClosedUnderMoves (·.SitsOn input) input where
  input_eq hs := hs.input_eq
  pos_le_size hs := by
    rw [hs.input_eq]
    exact hs.pos_le_size
  moveBy count hs := hs.moveBy count
  markSafeSpot hs := hs.markSafeSpot

/-- Moves lead from cursors that moves have led to, to such cursors. -/
theorem State.closedUnderMoves_reached (input : Input) :
    State.ClosedUnderMoves (·.Reached input) input where
  input_eq hs := hs.input_eq
  pos_le_size hs := hs.scanned.pos_le
  moveBy count hs := hs.moveBy count
  markSafeSpot hs := hs.markSafeSpot

/-- A leaf leads from cursors with a property forward to such, or to errors at such. -/
structure Leaf.Advances (leaf : Leaf) (P : State → Prop) : Prop where
  stop : ∀ {s stop value}, P s → leaf.run s = .ok (stop, value) → P stop ∧ s.pos ≤ stop.pos
  error : ∀ {s e}, P s → leaf.run s = .error e → e.All P

/-- A leaf that moves cursors forward, and saves nothing in an error. -/
structure Leaf.IsPlain (leaf : Leaf) : Prop where
  advances : ∀ {P : State → Prop} {input : Input}, State.ClosedUnderMoves P input → leaf.Advances P
  saved : ∀ {s e}, leaf.run s = .error e → e.saved = []

variable {P : State → Prop} {input : Input} {leaf : Leaf}

/-- A leaf that leads from cursors with a property forward to such does so as an occurrence too,
    safe spot or not. -/
theorem Leaf.Advances.parse (hP : State.ClosedUnderMoves P input) (h : leaf.Advances P) (id : Nat)
    {s : State} (hs : P s) :
    (leaf.parse id s).All P ∧ s.pos ≤ (leaf.parse id s).stop.pos := by
  unfold Leaf.parse
  cases hrun : leaf.run s with
  | error e =>
    exact ⟨Result.carries_failure hs hs ((h.error hs hrun).claim id), Nat.le_refl _⟩
  | ok found =>
    obtain ⟨stop, value⟩ := found
    obtain ⟨hstop, hle⟩ := h.stop hs hrun
    dsimp only
    split
    · exact ⟨Result.carries_success hs (hP.markSafeSpot hstop), hle⟩
    · exact ⟨Result.carries_success hs hstop, hle⟩

/-- A leaf that passes both tests becomes a safe spot, and is otherwise left as it is. -/
theorem Leaf.toSafeSpot_eq_ok_iff {safe : Leaf} :
    leaf.toSafeSpot = .ok safe ↔ leaf.neverAnchors = false ∧ leaf.acceptsEmpty = false ∧
      safe = { leaf with safeSpot := true } := by
  unfold toSafeSpot
  cases leaf.neverAnchors with
  | true => simp
  | false =>
    cases leaf.acceptsEmpty with
    | true => simp
    | false => simp [eq_comm]

theorem Leaf.eq_of_toSafeSpot {safe : Leaf} (h : leaf.toSafeSpot = .ok safe) :
    safe = { leaf with safeSpot := true } :=
  (toSafeSpot_eq_ok_iff.1 h).2.2

/-- A safe spot runs as the leaf that it is made of, so it saves nothing either. -/
theorem Leaf.IsPlain.toSafeSpot (h : leaf.IsPlain) {safe : Leaf}
    (hsafe : leaf.toSafeSpot = .ok safe) : safe.IsPlain := by
  rw [Leaf.eq_of_toSafeSpot hsafe]
  exact ⟨fun hP => ⟨(h.advances hP).stop, (h.advances hP).error⟩, h.saved⟩

namespace Primitive

private theorem advance (hP : State.ClosedUnderMoves P input) {s : State} (hs : P s) (count : Nat) :
    P (s.moveBy count) ∧ s.pos ≤ (s.moveBy count).pos :=
  ⟨hP.moveBy count hs, (State.moveBy_pos_bounds (hP.pos_le_size hs) count).1⟩

/-- What a match of a primitive leaf comes to: something else was expected at the cursor, or the
    cursor is moved, or it stays. -/
private def Steps {α : Type} (s : State) (found : Except ParseError (State × α)) : Prop :=
  (∃ label, found = .error (s.syntaxError label)) ∨
    ∃ value, found = .ok (s, value) ∨ ∃ count, found = .ok (s.moveBy count, value)

private theorem steps_error {α : Type} (s : State) (label : String) :
    Steps s (.error (s.syntaxError label) : Except ParseError (State × α)) :=
  .inl ⟨label, rfl⟩

private theorem steps_moveBy {α : Type} (s : State) (count : Nat) (value : α) :
    Steps s (.ok (s.moveBy count, value)) :=
  .inr ⟨value, .inr ⟨count, rfl⟩⟩

private theorem steps_matchScalar (label : String) (p : Char → Bool) (s : State) :
    Steps s (matchScalar label p s) := by
  unfold matchScalar
  split
  · split
    · exact steps_moveBy s _ _
    · exact steps_error s _
  · exact steps_error s _

private theorem steps_matchByte (label : String) (p : UInt8 → Bool) (s : State) :
    Steps s (matchByte label p s) := by
  unfold matchByte
  split
  · split
    · exact steps_moveBy s _ _
    · exact steps_error s _
  · exact steps_error s _

/-- A match of any primitive leaf expects something else, moves the cursor or stays. This is all
    that a case analysis of the primitives is needed for here. -/
private theorem steps_run (primitive : Primitive) (s : State) : Steps s (primitive.leaf.run s) := by
  cases primitive with
  | char expected => exact steps_matchScalar _ _ s
  | satisfy label p => exact steps_matchScalar _ _ s
  | literal expected =>
    change Steps s (matchText expected s)
    unfold matchText
    split
    · exact steps_moveBy s _ _
    · exact steps_error s _
  | anyChar => exact steps_matchScalar _ _ s
  | digits => exact steps_moveBy s _ _
  | someDigits =>
    change Steps s (matchSomeDigits s)
    unfold matchSomeDigits
    split
    · exact steps_error s _
    · exact steps_moveBy s _ _
  | endOfInput =>
    change Steps s (matchEnd s)
    unfold matchEnd
    split
    · exact .inr ⟨(), .inl rfl⟩
    · exact steps_error s _
  | upTo stop =>
    change Steps s (matchUpTo stop s)
    unfold matchUpTo
    split
    · exact steps_moveBy s _ _
    · exact steps_error s _
  | byte expected => exact steps_matchByte _ _ s
  | anyByte => exact steps_matchByte _ _ s

/-- A primitive leaf that fails expected something else at the cursor, and raises the error
    there. -/
theorem exists_syntaxError (primitive : Primitive) {s : State} {e : ParseError}
    (h : primitive.leaf.run s = .error e) : ∃ label, e = s.syntaxError label := by
  obtain ⟨label, herror⟩ | ⟨value, hstay | ⟨count, hmove⟩⟩ := steps_run primitive s
  · rw [h] at herror
    cases herror
    exact ⟨label, rfl⟩
  · rw [h] at hstay
    cases hstay
  · rw [h] at hmove
    cases hmove

/-- Primitive leaves keep what moving forward keeps, and do not lead back, since a match is a move
    by some bytes or none. -/
theorem advances (hP : State.ClosedUnderMoves P input) (primitive : Primitive) :
    primitive.leaf.Advances P where
  stop {s _ _} hs hrun := by
    obtain ⟨label, herror⟩ | ⟨value, hstay | ⟨count, hmove⟩⟩ := steps_run primitive s
    · rw [hrun] at herror
      cases herror
    · rw [hrun] at hstay
      cases hstay
      exact ⟨hs, Nat.le_refl _⟩
    · rw [hrun] at hmove
      cases hmove
      exact advance hP hs count
  error hs hrun := by
    obtain ⟨label, rfl⟩ := primitive.exists_syntaxError hrun
    exact State.all_errorHere hs (hP.pos_le_size hs) _ _

/-- Primitive leaves move cursors forward, and save nothing in their errors. -/
theorem isPlain (primitive : Primitive) : primitive.leaf.IsPlain where
  advances hP := primitive.advances hP
  saved hrun := by
    obtain ⟨label, rfl⟩ := primitive.exists_syntaxError hrun
    rfl

end Primitive

end Resync
