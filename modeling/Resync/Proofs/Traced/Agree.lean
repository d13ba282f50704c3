import Resync.Proofs.Traced.Ensures

namespace Resync

/-- The anchor and the place of an attempt. -/
def Event.attempt? : Event → Option (Nat × Nat)
  | .anchored anchor _ pos => some (anchor, pos)
  | _ => none

namespace Traced

variable {α β γ δ : Type}

/-- The attempts of a computation, in order. -/
def attempts (x : Traced α) : List (Nat × Nat) :=
  x.events.filterMap Event.attempt?

theorem attempts_bind_pure (x : Traced α) (g : α → β) :
    (x >>= fun a => pure (g a)).attempts = x.attempts := by
  cases hresult : x.result with
  | error fault => rw [bind_of_result_eq_error hresult, attempts, attempts]
  | ok a =>
    rw [bind_of_result_eq_ok hresult, attempts, attempts, List.filterMap_append]
    exact List.append_nil _

theorem Ensures.attempts_eq_nil {x : Traced α} {onFault : Fault → Prop} {onValue : α → Prop}
    (h : x.Ensures (fun e => e.attempt? = none) onFault onValue) : x.attempts = [] :=
  List.filterMap_eq_nil_iff.2 h.event

/-- A computation that makes no attempts and gives a value. -/
structure Yields (x : Traced α) (a : α) : Prop where
  attempts : x.attempts = []
  result : x.result = .ok a

/-- The attempts of two steps are those of the first and then those of the second. -/
theorem attempts_bind_of_result_eq_ok {x : Traced α} {a : α} (h : x.result = .ok a)
    (f : α → Traced β) : (x >>= f).attempts = x.attempts ++ (f a).attempts := by
  rw [attempts, events_bind_of_result_eq_ok h, List.filterMap_append]
  rfl

theorem yields_pure (a : α) : (pure a : Traced α).Yields a := ⟨rfl, rfl⟩

/-- Two steps that make no attempts yield what the second one does. -/
theorem Yields.bind {x : Traced α} {a : α} {f : α → Traced β} {b : β} (hx : x.Yields a)
    (hf : (f a).Yields b) : (x >>= f).Yields b := by
  refine ⟨?_, ?_⟩
  · rw [attempts_bind_of_result_eq_ok hx.result, hx.attempts, hf.attempts]
    rfl
  · rw [bind_of_result_eq_ok hx.result]
    exact hf.result

/-- Two computations make the same attempts and stop with the same fault, or give related values. -/
structure Agree (R : α → β → Prop) (x : Traced α) (y : Traced β) : Prop where
  attempts : x.attempts = y.attempts
  result : (∃ fault, x.result = .error fault ∧ y.result = .error fault) ∨
    ∃ a b, x.result = .ok a ∧ y.result = .ok b ∧ R a b

theorem Yields.agree {R : α → β → Prop} {x : Traced α} {y : Traced β} {a : α} {b : β}
    (hx : x.Yields a) (hy : y.Yields b) (h : R a b) : Agree R x y :=
  ⟨hx.attempts.trans hy.attempts.symm, .inr ⟨a, b, hx.result, hy.result, h⟩⟩

theorem agree_pure {R : α → β → Prop} {a : α} {b : β} (h : R a b) : Agree R (pure a) (pure b) :=
  (yields_pure a).agree (yields_pure b) h

theorem agree_fault {R : α → β → Prop} (f : Fault) : Agree R (fault f) (fault f) :=
  ⟨rfl, .inl ⟨f, rfl, rfl⟩⟩

/-- Two events agree if they are the same attempt, or none of them is one. -/
theorem agree_emit {event event' : Event} (h : event.attempt? = event'.attempt?) :
    Agree (fun _ _ => True) (emit event) (emit event') := by
  refine ⟨?_, .inr ⟨(), (), rfl, rfl, trivial⟩⟩
  unfold attempts emit
  rw [List.filterMap_cons, List.filterMap_cons, h]

/-- A computation agrees with itself, in any relation that its value has to itself. -/
theorem agree_self {R : α → α → Prop} {x : Traced α} (h : ∀ a, x.result = .ok a → R a a) :
    Agree R x x := by
  refine ⟨rfl, ?_⟩
  cases hresult : x.result with
  | error fault => exact .inl ⟨fault, rfl, rfl⟩
  | ok a => exact .inr ⟨a, a, rfl, rfl, h a hresult⟩

theorem Agree.imp {R S : α → β → Prop} {x : Traced α} {y : Traced β} (h : Agree R x y)
    (himp : ∀ a b, R a b → S a b) : Agree S x y :=
  ⟨h.attempts, h.result.imp_right fun ⟨a, b, hx, hy, hab⟩ => ⟨a, b, hx, hy, himp a b hab⟩⟩

/-- Computations that agree in the same value come to the same result. -/
theorem Agree.result_eq {x y : Traced α} (h : Agree (· = ·) x y) : x.result = y.result := by
  obtain ⟨fault, hx, hy⟩ | ⟨a, b, hx, hy, rfl⟩ := h.result
  · rw [hx, hy]
  · rw [hx, hy]

/-- Two computations agree step by step: what follows has to agree from related values. -/
theorem Agree.bind {R : α → β → Prop} {S : γ → δ → Prop} {x : Traced α} {y : Traced β}
    {f : α → Traced γ} {g : β → Traced δ} (h : Agree R x y)
    (hfg : ∀ a b, x.result = .ok a → y.result = .ok b → R a b → Agree S (f a) (g b)) :
    Agree S (x >>= f) (y >>= g) := by
  obtain ⟨fault, hx, hy⟩ | ⟨a, b, hx, hy, hab⟩ := h.result
  · rw [bind_of_result_eq_error hx, bind_of_result_eq_error hy]
    exact ⟨h.attempts, .inl ⟨fault, rfl, rfl⟩⟩
  · have hnext := hfg a b hx hy hab
    refine ⟨?_, ?_⟩
    · rw [attempts_bind_of_result_eq_ok hx, attempts_bind_of_result_eq_ok hy, h.attempts,
        hnext.attempts]
    · rw [bind_of_result_eq_ok hx, bind_of_result_eq_ok hy]
      exact hnext.result

end Traced

end Resync
