import Resync.Proofs.Engine.Forward
import Resync.Proofs.Engine.Likeness
import Resync.Proofs.Leaf.Promises

namespace Resync

/-- The bytes of an input, as raw bytes. -/
def Input.raw (input : Input) : Input where
  bytes := input.bytes
  binary := true
  maxErrors := input.maxErrors
  encodesText := fun h => nomatch h

/-- A boundary of a text is one of its raw bytes, as these have boundaries everywhere. -/
theorem Input.IsBoundary.raw {input : Input} {pos : Nat} (h : input.IsBoundary pos) :
    input.raw.IsBoundary pos :=
  ⟨h.1, fun hbinary => nomatch hbinary⟩

/-- A cursor of an input on a boundary and one of its raw bytes at the same place, with the same
    watermark. -/
structure State.Twins (input : Input) (s t : State) : Prop where
  left : s.SitsOn input
  right : t.SitsOn input.raw
  pos_eq : s.pos = t.pos
  safeSpot_eq : s.safeSpot = t.safeSpot

/-- Two errors report the same, and show it at the same line. Columns are counted in units, and
    excerpts show bytes or text. -/
structure ParseError.ReportsLike (e f : ParseError) : Prop where
  kind : e.kind = f.kind
  message : e.message = f.message
  position : e.position = f.position
  line : e.location.line = f.location.line
  owner : e.owner = f.owner

namespace State

variable {input : Input} {s t : State}

/-- New cursors of a text and of its bytes are twins. -/
theorem twins_start (input : Input) : (start input).Twins input (start input.raw) :=
  ⟨start_sitsOn input, start_sitsOn input.raw, rfl, rfl⟩

namespace Twins

theorem markSafeSpot (h : s.Twins input t) : s.markSafeSpot.Twins input t.markSafeSpot := by
  refine ⟨h.left.markSafeSpot, h.right.markSafeSpot, h.pos_eq, ?_⟩
  rw [State.markSafeSpot, State.markSafeSpot, h.safeSpot_eq, h.pos_eq]

theorem scalars_eq (h : s.Twins input t) : s.scalars = t.scalars := by
  rw [scalars, scalars, h.left.input_eq, h.right.input_eq, h.pos_eq]
  rfl

theorem size_eq (h : s.Twins input t) : s.input.size = t.input.size := by
  rw [h.left.input_eq, h.right.input_eq]
  rfl

/-- Twins differ in how their input is read, and in nothing else, so lines are counted alike. -/
theorem eq_raw (h : s.Twins input t) : t = { s with input := input.raw } := by
  have hline : t.line = s.line := by
    rw [h.left.scanned.line_eq, h.right.scanned.line_eq, h.left.input_eq, h.right.input_eq,
      h.pos_eq]
    rfl
  have hnewline : t.prevNewline = s.prevNewline := by
    rw [h.left.scanned.prevNewline_eq, h.right.scanned.prevNewline_eq, h.left.input_eq,
      h.right.input_eq, h.pos_eq]
    rfl
  obtain ⟨bytes, pos, line, prevNewline, safeSpot⟩ := t
  obtain ⟨-, hright, hpos, hsafe⟩ := h
  cases hright.input_eq
  cases hpos
  cases hline
  cases hnewline
  cases hsafe
  rfl

/-- Twins that are moved by scalars that can be read remain twins. A move by other numbers of bytes
    is aligned on the text only. -/
theorem moveBy_width (h : s.Twins input t) {front back : List Char}
    (hsplit : s.scalars = front ++ back) :
    (s.moveBy (Utf8.width front)).Twins input (t.moveBy (Utf8.width front)) := by
  refine ⟨h.left.moveBy _, h.right.moveBy _, ?_, h.safeSpot_eq⟩
  rw [(h.left.moveBy_width hsplit).1, (h.right.moveBy_width (h.scalars_eq ▸ hsplit)).1, h.pos_eq]

/-- Twins that are moved to a boundary remain twins, forward or back. -/
theorem movedTo (h : s.Twins input t) {pos : Nat} (hpos : input.IsBoundary pos) :
    (s.movedTo pos).Twins input (t.movedTo pos) := by
  refine ⟨h.left.movedTo hpos, h.right.movedTo hpos.raw, ?_, ?_⟩
  · rw [h.left.movedTo_pos hpos, h.right.movedTo_pos hpos.raw]
  · rw [movedTo_safeSpot, movedTo_safeSpot, h.safeSpot_eq]

/-- From twins the same can be read, scalar by scalar and byte by byte. -/
theorem readsLike (h : s.Twins input t) : s.ReadsLike t where
  scalars := h.scalars_eq
  bytes := by
    rw [currentBytes, currentBytes, h.left.input_eq, h.right.input_eq, h.pos_eq]
    rfl
  atEnd := by rw [State.atEnd, State.atEnd, h.size_eq, h.pos_eq]
  upTo hoffset := by
    obtain ⟨front, back, hsplit, -, rfl⟩ := Recoverer.exists_append_of_offsetOfList? hoffset
    rw [stringTo, stringTo, ← (h.moveBy_width hsplit).pos_eq, ← h.pos_eq, h.scalars_eq]

/-- Errors that are raised at twins report the same, though columns and excerpts are in units of the
    input. -/
theorem reportsLike_errorHere (h : s.Twins input t) (kind : ErrorKind) (message : String) :
    (s.errorHere kind message).ReportsLike (t.errorHere kind message) := by
  obtain rfl := h.left.input_eq
  obtain rfl := h.eq_raw
  exact ⟨rfl, rfl, rfl, rfl, rfl⟩

end Twins

end State

/-- What corresponds in a run on an input and in one on its raw bytes. Errors stand and anchors are
    remembered at boundaries. -/
def Input.bytewise (input : Input) : Likeness where
  cursor := State.Twins input
  report e f := e.ReportsLike f ∧ input.IsBoundary e.position
  cache c d := c = d ∧
    ∀ entry ∈ c.entries, ∀ offset, entry.answer = .anchor offset → input.IsBoundary offset
  pos_eq h := h.pos_eq
  safeSpot_eq h := h.safeSpot_eq
  size_eq h := h.size_eq
  raise kind message h := by
    refine ⟨h.reportsLike_errorHere kind message, ?_⟩
    rw [h.left.position_errorHere]
    exact h.left.boundary
  claim id h := ⟨⟨h.1.kind, h.1.message, h.1.position, h.1.line,
    congrArg (Option.or · (some id)) h.1.owner⟩, h.2⟩
  carry _ _ h := ⟨⟨h.1.kind, h.1.message, h.1.position, h.1.line, h.1.owner⟩, h.2⟩
  message_eq h := h.1.message
  position_eq h := h.1.position
  owner_eq h := h.1.owner

variable {input : Input} {s t : State}

/-- A primitive leaf that reads scalars gives corresponding outcomes from twins, safe spot or not.
    It decides on the same move from both, by scalars that can be read, and these lead to twins. -/
theorem Leaf.IsOf.outcomes_parse {leaf : Leaf} {primitive : Primitive} (hleaf : leaf.IsOf primitive)
    (hreads : primitive.ReadsScalars) (id : Nat) (h : s.Twins input t) :
    input.bytewise.Outcomes (leaf.parse id s) (leaf.parse id t) := by
  obtain ⟨safeSpot, rfl⟩ := hleaf
  obtain ⟨move, hpasses, hs, ht⟩ := primitive.sameMove_run h.readsLike
  have hmatch {stop stop' : State} (hstop : stop.Twins input stop')
      (value : primitive.leaf.type.Val) : input.bytewise.Outcomes
        (.success s (if safeSpot then stop.markSafeSpot else stop) ⟨primitive.leaf.type, value⟩)
        (.success t (if safeSpot then stop'.markSafeSpot else stop')
          ⟨primitive.leaf.type, value⟩) := by
    cases safeSpot with
    | true => exact Likeness.success_outcomes h hstop.markSafeSpot _
    | false => exact Likeness.success_outcomes h hstop _
  unfold Leaf.parse
  dsimp only
  rw [hs, ht]
  cases move with
  | refuse label =>
    have herror : input.bytewise.Errors (s.syntaxError label) (t.syntaxError label) :=
      Likeness.raise_errors h _ _
    exact Likeness.failure_outcomes h h _ (herror.claim id)
  | stay value => exact hmatch h value
  | advance count value =>
    obtain ⟨front, back, hsplit, rfl⟩ := hpasses hreads
    exact hmatch (h.moveBy_width hsplit) value

end Resync
