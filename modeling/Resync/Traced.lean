import Resync.Event

namespace Resync

/-- A computation with its events: it has a result or a fault, and the events up to there, which
    survive a fault. Taking the result alone is a morphism to `Except`, so that statements about
    results need not speak of events. -/
structure Traced (α : Type) where
  events : List Event
  result : Except Fault α

namespace Traced

variable {α β : Type}

protected def pure (a : α) : Traced α :=
  ⟨[], .ok a⟩

protected def bind (x : Traced α) (f : α → Traced β) : Traced β :=
  match x.result with
  | .ok a => ⟨x.events ++ (f a).events, (f a).result⟩
  | .error fault => ⟨x.events, .error fault⟩

instance : Monad Traced where
  pure := Traced.pure
  bind := Traced.bind

/-- Leaves one event behind. -/
def emit (event : Event) : Traced Unit :=
  ⟨[event], .ok ()⟩

/-- Stops with a fault. -/
def fault (fault : Fault) : Traced α :=
  ⟨[], .error fault⟩

/-- A value, or the defect that it could not be had for. -/
def ofExcept : Except Defect α → Traced α
  | .ok a => ⟨[], .ok a⟩
  | .error defect => ⟨[], .error (.defect defect)⟩

@[simp]
theorem result_pure (a : α) : (pure a : Traced α).result = .ok a := rfl

theorem result_bind (x : Traced α) (f : α → Traced β) :
    (x >>= f).result = x.result >>= fun a => (f a).result := by
  change (Traced.bind x f).result = _
  unfold Traced.bind
  cases x.result <;> rfl

/-- A computation in two parts has a result when both parts have one. -/
theorem result_bind_eq_ok_iff {x : Traced α} {f : α → Traced β} {b : β} :
    (x >>= f).result = .ok b ↔ ∃ a, x.result = .ok a ∧ (f a).result = .ok b := by
  rw [result_bind]
  exact Fault.bind_eq_ok_iff

/-- The events of the second part follow those of the first. -/
theorem events_bind_of_result_eq_ok {x : Traced α} {a : α} (h : x.result = .ok a)
    (f : α → Traced β) : (x >>= f).events = x.events ++ (f a).events := by
  change (Traced.bind x f).events = _
  simp [Traced.bind, h]

@[simp]
theorem result_emit (event : Event) : (emit event).result = .ok () := rfl

protected theorem id_map (x : Traced α) : id <$> x = x := by
  change Traced.bind x (fun a => Traced.pure (id a)) = x
  obtain ⟨events, result⟩ := x
  cases result <;> simp [Traced.bind, Traced.pure]

protected theorem pure_bind (a : α) (f : α → Traced β) : pure a >>= f = f a := by
  change Traced.bind (Traced.pure a) f = f a
  simp [Traced.bind, Traced.pure]

protected theorem bind_assoc {γ : Type} (x : Traced α) (f : α → Traced β) (g : β → Traced γ) :
    x >>= f >>= g = x >>= fun a => f a >>= g := by
  change Traced.bind (Traced.bind x f) g = Traced.bind x fun a => Traced.bind (f a) g
  obtain ⟨events, result⟩ := x
  cases result with
  | error => rfl
  | ok a => cases h : (f a).result <;> simp [Traced.bind, h]

instance : LawfulMonad Traced :=
  LawfulMonad.mk' _ Traced.id_map Traced.pure_bind Traced.bind_assoc

end Traced

end Resync
