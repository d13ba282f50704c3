import Resync.Proofs.Script.Meets

namespace Resync

namespace Traced

variable {α β α' β' : Type}

/-- Both have the same fault, or results that are related in view of the events. -/
def Goes (x : Traced α) (y : Except Fault β) (R : List Event → α → β → Prop) : Prop :=
  match x.result, y with
  | .ok a, .ok b => R x.events a b
  | .error f, .error f' => f = f'
  | _, _ => False

variable {x : Traced α} {y : Except Fault β} {R : List Event → α → β → Prop}

theorem goes_pure {a : α} {b : β} (h : R [] a b) : (pure a : Traced α).Goes (pure b) R := h

theorem goes_fault {f : Fault} : (Traced.fault f : Traced α).Goes (.error f : Except Fault β) R :=
  rfl

theorem goes_ok {events : List Event} {a : α} {b : β} (h : R events a b) :
    (⟨events, .ok a⟩ : Traced α).Goes (.ok b) R := h

/-- Both have a result, and these are related, or they have the same fault. -/
theorem Goes.cases (h : x.Goes y R) :
    (∃ a b, x.result = .ok a ∧ y = .ok b ∧ R x.events a b) ∨
      ∃ f, x.result = .error f ∧ y = .error f := by
  unfold Goes at h
  cases hx : x.result with
  | ok a =>
    cases y with
    | ok b =>
      rw [hx] at h
      exact .inl ⟨a, b, rfl, rfl, h⟩
    | error f =>
      rw [hx] at h
      exact h.elim
  | error f =>
    cases y with
    | ok b =>
      rw [hx] at h
      exact h.elim
    | error f' =>
      rw [hx] at h
      cases h
      exact .inr ⟨f, rfl, rfl⟩

/-- A traced computation goes like an untraced one step by step, with the events of all steps in
    view. -/
theorem Goes.bind {f : α → Traced α'} {g : β → Except Fault β'}
    {R' : List Event → α' → β' → Prop} (h : x.Goes y R)
    (hf : ∀ a b, R x.events a b → (f a).Goes (g b) fun events => R' (x.events ++ events)) :
    (x >>= f).Goes (y >>= g) R' := by
  obtain ⟨a, b, hx, rfl, hR⟩ | ⟨fault, hx, rfl⟩ := h.cases
  · rw [bind_of_result_eq_ok hx]
    exact hf a b hR
  · rw [bind_of_result_eq_error hx]
    exact (rfl : fault = fault)

theorem Goes.imp {R' : List Event → α → β → Prop} (h : x.Goes y R)
    (himp : ∀ a b, R x.events a b → R' x.events a b) : x.Goes y R' := by
  obtain ⟨a, b, hx, rfl, hR⟩ | ⟨fault, hx, rfl⟩ := h.cases
  · unfold Goes
    rw [hx]
    exact himp a b hR
  · unfold Goes
    rw [hx]

theorem Goes.map_right {f : β → β'} {R' : List Event → α → β' → Prop} (h : x.Goes y R)
    (hf : ∀ a b, R x.events a b → R' x.events a (f b)) : x.Goes (y >>= fun b => pure (f b)) R' := by
  obtain ⟨a, b, hx, rfl, hR⟩ | ⟨fault, hx, rfl⟩ := h.cases
  · unfold Goes
    rw [hx]
    exact hf a b hR
  · unfold Goes
    rw [hx]
    rfl

/-- A computation between an event before it and one behind it goes like the untraced one, if these
    two events make no difference. -/
theorem Goes.framed {before : Event} {after : α → Event} {f : α → α'}
    {R' : List Event → α' → β → Prop} (h : x.Goes y R)
    (hf : ∀ a b, R x.events a b → R' (before :: (x.events ++ [after a])) (f a) b) :
    (do
      emit before
      let a ← x
      emit (after a)
      return f a : Traced α').Goes y R' := by
  rw [bind_of_result_eq_ok (rfl : (emit before).result = .ok ())]
  obtain ⟨a, b, hx, rfl, hR⟩ | ⟨fault, hx, rfl⟩ := h.cases
  · rw [bind_of_result_eq_ok hx]
    exact hf a b hR
  · rw [bind_of_result_eq_error hx]
    exact (rfl : fault = fault)

/-- Results that are related have the same view if related results do, so the events can be
    forgotten in the end. -/
theorem Goes.map_eq {view : α → β} (h : x.Goes y R)
    (hview : ∀ events a b, R events a b → view a = b) : x.result.map view = y := by
  obtain ⟨a, b, hx, rfl, hR⟩ | ⟨fault, hx, rfl⟩ := h.cases
  · rw [hx]
    exact congrArg Except.ok (hview _ a b hR)
  · rw [hx]
    rfl

end Traced

namespace Script

variable {α β γ : Type} {run : Nat → State → Traced Result}

/-- A value that is there for both, or a defect in both, of a step that may show one. -/
theorem goes_ofExcept_bind {x : Except Defect α} {f : α → Script β} {g : α → Except Fault γ}
    {R : List Event → β → γ → Prop} (hf : ∀ a, x = .ok a → ((f a).exec run).Goes (g a) R) :
    ((ofExcept x >>= f).exec run).Goes (x.mapError .defect >>= g) R := by
  cases x with
  | ok a => exact hf a rfl
  | error d => exact Traced.goes_fault

end Script

end Resync
