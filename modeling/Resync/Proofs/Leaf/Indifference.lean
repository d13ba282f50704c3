import Resync.Leaf.Matcher
import Resync.Proofs.Engine.Rebudgeting
import Resync.Proofs.Leaf.Moves

namespace Resync

/-- A recoverer that proposes the same under any error budget. -/
def Recoverer.IgnoresBudget : Recoverer → Prop
  | fast waste => ∀ s maxErrors, waste (s.withMaxErrors maxErrors) = waste s
  | step => True

/-- A leaf that does not read the error budget, though the cursor that it is run from shows it: under
    another budget it makes the same match or raises the same error, and so does its recoverer find
    the same waste. -/
structure Leaf.IgnoresBudget (leaf : Leaf) : Prop where
  matched : ∀ {s stop : State} {value : leaf.type.Val}, leaf.run s = .ok (stop, value) →
    ∀ maxErrors, leaf.run (s.withMaxErrors maxErrors) = .ok (stop.withMaxErrors maxErrors, value)
  failed : ∀ {s : State} {e : ParseError}, leaf.run s = .error e →
    ∀ maxErrors, leaf.run (s.withMaxErrors maxErrors) = .error (e.withMaxErrors maxErrors)
  recoverer : ∀ {recoverer : Recoverer}, leaf.recoverer = some recoverer → recoverer.IgnoresBudget

namespace Leaf.IgnoresBudget

variable {leaf : Leaf} (h : leaf.IgnoresBudget)
include h

/-- The outcome of an occurrence of the leaf shows another budget, and nothing else of it differs. -/
theorem parse (id : Nat) (s : State) (maxErrors : Nat) :
    leaf.parse id (s.withMaxErrors maxErrors) = (leaf.parse id s).withMaxErrors maxErrors := by
  unfold Leaf.parse
  cases hrun : leaf.run s with
  | ok found =>
    obtain ⟨stop, value⟩ := found
    rw [h.matched hrun maxErrors]
    cases leaf.safeSpot <;> rfl
  | error e =>
    rw [h.failed hrun maxErrors]
    rfl

/-- Being a safe spot changes nothing about what a leaf reads. -/
theorem withSafeSpot (safeSpot : Bool) : ({ leaf with safeSpot } : Leaf).IgnoresBudget :=
  ⟨h.matched, h.failed, h.recoverer⟩

/-- The recoverer that recovery uses ignores the budget too, as probing reads nothing itself. -/
theorem effectiveRecoverer {recoverer : Recoverer}
    (hrecoverer : leaf.effectiveRecoverer = some recoverer) : recoverer.IgnoresBudget := by
  unfold Leaf.effectiveRecoverer at hrecoverer
  split at hrecoverer
  · cases hown : leaf.recoverer with
    | none =>
      rw [hown] at hrecoverer
      cases hrecoverer
      exact trivial
    | some own =>
      rw [hown] at hrecoverer
      cases hrecoverer
      exact h.recoverer hown
  · exact h.recoverer hrecoverer

end Leaf.IgnoresBudget

namespace Recoverer

theorem never_ignoresBudget : never.IgnoresBudget := fun _ _ => rfl

private theorem wasteToOffset_withMaxErrors (s : State) (maxErrors : Nat) (offset : Option Nat) :
    wasteToOffset (s.withMaxErrors maxErrors) offset = wasteToOffset s offset := by
  cases offset <;> rfl

/-- A search for a scalar reads the scalars ahead, and not the budget. -/
theorem find_ignoresBudget (p : Char → Bool) : (find p).IgnoresBudget :=
  fun s maxErrors => wasteToOffset_withMaxErrors s maxErrors (offsetOf? p s.scalars)

/-- A search for a text reads the scalars ahead, and not the budget. -/
theorem findText_ignoresBudget (needle : String) : (findText needle).IgnoresBudget :=
  fun s maxErrors => wasteToOffset_withMaxErrors s maxErrors (offsetOfList? needle.toList s.scalars)

/-- A search for a byte reads the bytes ahead, and not the budget. -/
theorem findByte_ignoresBudget (p : UInt8 → Bool) : (findByte p).IgnoresBudget :=
  fun s maxErrors => wasteToOffset_withMaxErrors s maxErrors (s.currentBytes.findIdx? p)

end Recoverer

/-- Whatever a leaf reads at a cursor, it reads the same under another budget. -/
theorem State.readsLike_withMaxErrors (s : State) (maxErrors : Nat) :
    s.ReadsLike (s.withMaxErrors maxErrors) where
  scalars := rfl
  bytes := rfl
  atEnd := rfl
  upTo _ := rfl

namespace Primitive

/-- The recoverers of primitive leaves are searches over the content, or always decline, so they
    ignore the budget. -/
private theorem recoverer_ignoresBudget {primitive : Primitive} {recoverer : Recoverer}
    (h : primitive.leaf.recoverer = some recoverer) : recoverer.IgnoresBudget := by
  cases primitive with
  | char expected =>
    cases h
    exact Recoverer.find_ignoresBudget _
  | satisfy label p =>
    cases h
    exact Recoverer.find_ignoresBudget _
  | literal expected =>
    cases h
    split
    · exact Recoverer.never_ignoresBudget
    · exact Recoverer.findText_ignoresBudget expected
  | anyChar =>
    cases h
    exact Recoverer.find_ignoresBudget _
  | someDigits =>
    cases h
    exact Recoverer.find_ignoresBudget _
  | digits | endOfInput | upTo stop =>
    cases h
    exact Recoverer.never_ignoresBudget
  | byte expected =>
    cases h
    exact Recoverer.findByte_ignoresBudget _
  | anyByte =>
    cases h
    exact fun _ _ => rfl

/-- Primitive leaves read the content of the input, which is the same under any budget. They make
    the same move from cursors that read the same, and so do their recoverers search through the
    same. -/
theorem leaf_ignoresBudget (primitive : Primitive) : primitive.leaf.IgnoresBudget where
  matched {s stop value} hrun maxErrors := by
    obtain ⟨move, -, hmove, hmoved⟩ :=
      primitive.sameMove_run (s.readsLike_withMaxErrors maxErrors)
    rw [hmoved]
    rw [hrun] at hmove
    cases move with
    | refuse label => cases hmove
    | stay found =>
      cases hmove
      rfl
    | advance count found =>
      cases hmove
      rfl
  failed {s e} hrun maxErrors := by
    obtain ⟨move, -, hmove, hmoved⟩ :=
      primitive.sameMove_run (s.readsLike_withMaxErrors maxErrors)
    rw [hmoved]
    rw [hrun] at hmove
    cases move with
    | refuse label =>
      cases hmove
      rfl
    | stay found => cases hmove
    | advance count found => cases hmove
  recoverer := recoverer_ignoresBudget

end Primitive

namespace Matcher

/-- Where a matcher stops under another budget, given where it stops. -/
private def rebudgeted (maxErrors : Nat) : Except ParseError State → Except ParseError State
  | .ok stop => .ok (stop.withMaxErrors maxErrors)
  | .error e => .error (e.withMaxErrors maxErrors)

private theorem matchScalars_withMaxErrors (failure : String) (cs : List Char) (s : State)
    (maxErrors : Nat) :
    matchScalars failure cs (s.withMaxErrors maxErrors) =
      rebudgeted maxErrors (matchScalars failure cs s) := by
  induction cs generalizing s with
  | nil => rfl
  | cons c cs ih =>
    have hscalars : (s.withMaxErrors maxErrors).scalars = s.scalars := rfl
    rw [matchScalars, matchScalars, hscalars, State.moveByUnits_withMaxErrors, ih]
    split <;> rfl

/-- A matcher of free choice stops at the same place under another budget, or with the same
    error. -/
private theorem stop_withMaxErrors (m : Matcher) (failure : String) (s : State) (maxErrors : Nat) :
    m.stop failure (s.withMaxErrors maxErrors) = rebudgeted maxErrors (m.stop failure s) := by
  have hscalars : (s.withMaxErrors maxErrors).scalars = s.scalars := rfl
  cases m with
  | exactly text =>
    rw [stop, stop, hscalars]
    split <;> rfl
  | scalarwise text => exact matchScalars_withMaxErrors failure text.toList s maxErrors
  | run members least =>
    rw [stop, stop, hscalars, State.moveByUnits_withMaxErrors]
    split <;> rfl
  | units count =>
    rw [stop, stop, State.atEnd_withMaxErrors, State.moveByUnits_withMaxErrors]
    split <;> rfl
  | nothing => rfl
  | refusal ahead => rfl

/-- A leaf of free choice ignores the budget as soon as its recoverer does, which is chosen apart
    from what the leaf matches. -/
theorem leaf_ignoresBudget (m : Matcher) (label failure : String) {recoverer : Option Recoverer}
    (h : ∀ own, recoverer = some own → own.IgnoresBudget) :
    (m.leaf label failure recoverer).IgnoresBudget where
  matched {s stop value} hrun maxErrors := by
    have hstop := m.stop_withMaxErrors failure s maxErrors
    dsimp only [leaf] at hrun ⊢
    rw [hstop]
    cases hfound : m.stop failure s with
    | ok found =>
      rw [hfound] at hrun
      cases hrun
      rfl
    | error e =>
      rw [hfound] at hrun
      cases hrun
  failed {s e} hrun maxErrors := by
    have hstop := m.stop_withMaxErrors failure s maxErrors
    dsimp only [leaf] at hrun ⊢
    rw [hstop]
    cases hfound : m.stop failure s with
    | ok found =>
      rw [hfound] at hrun
      cases hrun
    | error raised =>
      rw [hfound] at hrun
      cases hrun
      rfl
  recoverer hown := h _ hown

end Matcher

end Resync
