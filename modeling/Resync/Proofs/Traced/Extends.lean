import Resync.Proofs.Script.Meets

namespace Resync

namespace Traced

variable {α β : Type}

/-- Every event that is added is good in view of those before it, and the result meets a goal in
    view of all. -/
structure Extends (x : Traced α) (history : List Event) (good : List Event → Event → Prop)
    (goal : List Event → α → Prop) : Prop where
  event : ∀ {before e after}, x.events = before ++ e :: after → good (history ++ before) e
  value : ∀ a, x.result = .ok a → goal (history ++ x.events) a

variable {history : List Event} {good : List Event → Event → Prop} {goal : List Event → α → Prop}
  {x : Traced α}

theorem extends_pure {a : α} (h : goal history a) :
    (pure a : Traced α).Extends history good goal where
  event heq := absurd (congrArg List.length heq) (by simp [Pure.pure, Traced.pure])
  value _ hb := by
    cases hb
    have hsame : history ++ (pure a : Traced α).events = history := List.append_nil _
    rwa [hsame]

theorem extends_fault {f : Fault} : (Traced.fault f : Traced α).Extends history good goal where
  event heq := absurd (congrArg List.length heq) (by simp [Traced.fault])
  value _ hb := nomatch hb

theorem extends_emit {e : Event} (h : good history e) :
    (emit e).Extends history good fun later _ => later = history ++ [e] where
  event {before e' after} heq := by
    obtain ⟨rfl, heq⟩ | ⟨_, _, hnil⟩ := List.cons_eq_append_iff.1 heq
    · cases heq
      rwa [List.append_nil]
    · simp at hnil
  value _ _ := rfl

theorem Extends.imp {goal' : List Event → α → Prop} (hx : x.Extends history good goal)
    (h : ∀ later a, x.result = .ok a → goal later a → goal' later a) :
    x.Extends history good goal' :=
  ⟨hx.event, fun a ha => h _ a ha (hx.value a ha)⟩

/-- The history that a computation leaves has its events at the end, behind what was there
    before. -/
theorem Extends.recorded (hx : x.Extends history good goal) :
    x.Extends history good fun later a => later = history ++ x.events ∧ goal later a :=
  ⟨hx.event, fun a ha => ⟨rfl, hx.value a ha⟩⟩

/-- Two steps extend a history one after the other: the second begins with what the first has left,
    and may use what it has come to. -/
theorem Extends.bind {f : α → Traced β} {goal' : List Event → β → Prop}
    (hx : x.Extends history good goal)
    (hf : ∀ later a, x.result = .ok a → goal later a → (f a).Extends later good goal') :
    (x >>= f).Extends history good goal' := by
  cases hresult : x.result with
  | error fault =>
    rw [bind_of_result_eq_error hresult]
    exact ⟨hx.event, fun b hb => nomatch hb⟩
  | ok a =>
    have hnext := hf _ a hresult (hx.value a hresult)
    rw [bind_of_result_eq_ok hresult]
    refine ⟨fun {before e after} heq => ?_, fun b hb => ?_⟩
    · dsimp only at heq
      obtain ⟨rest, rfl, hrest⟩ | ⟨rest, hfirst, hrest⟩ := List.append_eq_append_iff.1 heq
      · rw [← List.append_assoc]
        exact hnext.event hrest
      · cases rest with
        | nil =>
          rw [List.append_nil] at hfirst
          rw [← hfirst]
          have hgood : good (history ++ x.events ++ []) e := hnext.event hrest.symm
          rwa [List.append_nil] at hgood
        | cons e' rest =>
          cases hrest
          exact hx.event hfirst
    · rw [← List.append_assoc]
      exact hnext.value b hb

end Traced

namespace Script

variable {α β : Type} {history : List Event} {good : List Event → Event → Prop}

/-- A script that is carried out goes on from a value if there is one. -/
theorem extends_ofExcept_bind {run : Nat → State → Traced Result} {x : Except Defect α}
    {f : α → Script β} {goal : List Event → β → Prop}
    (hf : ∀ a, x = .ok a → ((f a).exec run).Extends history good goal) :
    ((ofExcept x >>= f).exec run).Extends history good goal := by
  cases x with
  | ok a => exact hf a rfl
  | error d => exact Traced.extends_fault

/-- A script that begins with a child goes on from any outcome of the child. -/
theorem extends_child_bind {run : Nat → State → Traced Result} {index : Nat} {s : State}
    {f : Result → Script β} {goal : List Event → β → Prop} {goal' : List Event → Result → Prop}
    (hchild : (run index s).Extends history good goal')
    (hf : ∀ later r, goal' later r → ((f r).exec run).Extends later good goal) :
    ((child index s >>= f).exec run).Extends history good goal := by
  rw [exec_bind, exec_child]
  exact hchild.bind fun later r _ hr => hf later r hr

end Script

end Resync
