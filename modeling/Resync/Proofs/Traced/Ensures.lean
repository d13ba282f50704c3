import Resync.Traced

namespace Resync.Traced

variable {α β : Type}

theorem bind_of_result_eq_error {x : Traced α} {f : Fault} (h : x.result = .error f)
    (g : α → Traced β) : x >>= g = ⟨x.events, .error f⟩ := by
  change Traced.bind x g = _
  rw [Traced.bind, h]

/-- The second step adds its events to those of the first, and gives the result. -/
theorem bind_of_result_eq_ok {x : Traced α} {a : α} (h : x.result = .ok a) (g : α → Traced β) :
    x >>= g = ⟨x.events ++ (g a).events, (g a).result⟩ := by
  change Traced.bind x g = _
  rw [Traced.bind, h]

/-- A function of the result leaves no events behind, and changes nothing else. -/
theorem bind_pure_eq (x : Traced α) (f : α → β) :
    (x >>= fun a => pure (f a)) = ⟨x.events, x.result.map f⟩ := by
  cases h : x.result with
  | error fault => rw [bind_of_result_eq_error h]; rfl
  | ok a => rw [bind_of_result_eq_ok h]; exact congrArg (Traced.mk · _) (List.append_nil _)

/-- An event of a computation, with those before it and those after it. -/
theorem events_eq_of_getElem? {x : Traced α} {n : Nat} {e : Event} (h : x.events[n]? = some e) :
    x.events = x.events.take n ++ e :: x.events.drop (n + 1) := by
  obtain ⟨hlt, hget⟩ := List.getElem?_eq_some_iff.1 h
  rw [← hget, ← List.drop_eq_getElem_cons hlt, List.take_append_drop]

/-- The result of a computation that has one. -/
def value (x : Traced α) (h : x.result.isOk = true) : α :=
  match x.result, h with
  | .ok a, _ => a

theorem result_eq_value {x : Traced α} (h : x.result.isOk = true) : x.result = .ok (x.value h) := by
  obtain ⟨events, result⟩ := x
  cases result with
  | ok a => rfl
  | error f => cases h

/-- All events, the fault and the result of a computation are as described. -/
structure Ensures (x : Traced α) (onEvent : Event → Prop) (onFault : Fault → Prop)
    (onValue : α → Prop) : Prop where
  event : ∀ e ∈ x.events, onEvent e
  fault : ∀ f, x.result = .error f → onFault f
  value : ∀ a, x.result = .ok a → onValue a

variable {onEvent : Event → Prop} {onFault : Fault → Prop} {onValue : α → Prop}

theorem ensures_pure {a : α} (h : onValue a) :
    (pure a : Traced α).Ensures onEvent onFault onValue where
  event _ he := nomatch he
  fault _ hf := nomatch hf
  value _ hb := by
    cases hb
    exact h

theorem ensures_emit {event : Event} (h : onEvent event) :
    (emit event).Ensures onEvent onFault fun _ => True where
  event _ he := by
    cases List.mem_singleton.1 he
    exact h
  fault _ hf := nomatch hf
  value _ _ := trivial

theorem ensures_fault {f : Fault} (h : onFault f) :
    (Traced.fault f : Traced α).Ensures onEvent onFault onValue where
  event _ he := nomatch he
  fault _ hf := by
    cases hf
    exact h
  value _ ha := nomatch ha

/-- Two steps ensure what each of them ensures of its events and faults, and what the second ensures
    of its result. -/
theorem Ensures.bind {x : Traced α} {f : α → Traced β} {onResult : β → Prop}
    (hx : x.Ensures onEvent onFault onValue)
    (hf : ∀ a, x.result = .ok a → onValue a → (f a).Ensures onEvent onFault onResult) :
    (x >>= f).Ensures onEvent onFault onResult := by
  change (Traced.bind x f).Ensures onEvent onFault onResult
  unfold Traced.bind
  cases hresult : x.result with
  | error e =>
    refine ⟨hx.event, fun f hf => ?_, fun a ha => nomatch ha⟩
    cases hf
    exact hx.fault _ hresult
  | ok a =>
    have hnext := hf a hresult (hx.value a hresult)
    refine ⟨fun e he => ?_, hnext.fault, hnext.value⟩
    obtain he | he := List.mem_append.1 he
    · exact hx.event e he
    · exact hnext.event e he

theorem Ensures.imp {x : Traced α} {onValue' : α → Prop} (hx : x.Ensures onEvent onFault onValue)
    (h : ∀ a, x.result = .ok a → onValue a → onValue' a) : x.Ensures onEvent onFault onValue' :=
  ⟨hx.event, hx.fault, fun a ha => h a ha (hx.value a ha)⟩

theorem Ensures.imp_event {x : Traced α} {onEvent' : Event → Prop}
    (hx : x.Ensures onEvent onFault onValue) (h : ∀ e, onEvent e → onEvent' e) :
    x.Ensures onEvent' onFault onValue :=
  ⟨fun e he => h e (hx.event e he), hx.fault, hx.value⟩

end Resync.Traced
