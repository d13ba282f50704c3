import Resync.Script
import Resync.Proofs.Traced.Ensures

namespace Resync.Script

/-- What a script may ask of its children and what it may rely on. -/
structure Terms where
  ask : Nat → State → Prop
  answer : Nat → State → Result → Prop
  note : String → Prop
  fault : Fault → Prop

variable {α β : Type} {terms : Terms}

/-- A script asks only for what it may, whatever the answers are, and finishes as it should. -/
def Meets (terms : Terms) (goal : α → Prop) : Script α → Prop
  | done value => goal value
  | fault f => terms.fault f
  | note line next => terms.note line ∧ next.Meets terms goal
  | run index s next =>
    terms.ask index s ∧ ∀ r, terms.answer index s r → (next r).Meets terms goal

/-- A script that meets its terms with a goal meets them with any weaker one. -/
theorem Meets.imp {goal goal' : α → Prop} {script : Script α} (h : script.Meets terms goal)
    (himp : ∀ a, goal a → goal' a) : script.Meets terms goal' := by
  induction script with
  | done value => exact himp value h
  | fault f => exact h
  | note line next ih => exact ⟨h.1, ih h.2⟩
  | run index s next ih => exact ⟨h.1, fun r hr => ih r (h.2 r hr)⟩

/-- Two scripts in a row meet their terms if the second does so after anything that the first may
    come to. -/
theorem Meets.bind {goal : α → Prop} {goal' : β → Prop} {script : Script α} {f : α → Script β}
    (h : script.Meets terms goal) (hf : ∀ a, goal a → (f a).Meets terms goal') :
    (script >>= f).Meets terms goal' := by
  change (script.bind f).Meets terms goal'
  induction script with
  | done value => exact hf value h
  | fault e => exact h
  | note line next ih => exact ⟨h.1, ih h.2⟩
  | run index s next ih => exact ⟨h.1, fun r hr => ih r (h.2 r hr)⟩

/-- Under terms that allow everything there is nothing to meet, so a script that is not known may be
    judged too. -/
theorem meets_of_lenient (hask : ∀ index s, terms.ask index s) (hnote : ∀ line, terms.note line)
    (hfault : ∀ f, terms.fault f) (script : Script α) : script.Meets terms fun _ => True := by
  induction script with
  | done value => exact trivial
  | fault f => exact hfault f
  | note line next ih => exact ⟨hnote line, ih⟩
  | run index s next ih => exact ⟨hask index s, fun r _ => ih r⟩

/-- A script that begins with a child goes on with any outcome that the child may have. -/
theorem meets_child_bind {goal : β → Prop} {index : Nat} {s : State} {f : Result → Script β}
    (hask : terms.ask index s) (hf : ∀ r, terms.answer index s r → (f r).Meets terms goal) :
    (child index s >>= f).Meets terms goal := by
  have hchild : (child index s).Meets terms (terms.answer index s) := ⟨hask, fun _ hr => hr⟩
  exact hchild.bind hf

/-- A step that may show a defect meets the terms if they allow it, and the script goes on with the
    value. -/
theorem meets_ofExcept_bind {goal : β → Prop} {x : Except Defect α} {f : α → Script β}
    (herror : ∀ d, x = .error d → terms.fault (.defect d))
    (hok : ∀ a, x = .ok a → (f a).Meets terms goal) : (ofExcept x >>= f).Meets terms goal := by
  cases x with
  | ok a => exact hok a rfl
  | error d => exact herror d rfl

/-- Carrying out a script that meets its terms ensures its goal as soon as the children keep to
    them, however they are run. -/
theorem Meets.ensures_exec {runChild : Nat → State → Traced Result} {onEvent : Event → Prop}
    {goal : α → Prop} {script : Script α} (h : script.Meets terms goal)
    (hnote : ∀ line, terms.note line → onEvent (.noted line))
    (hrun : ∀ index s, terms.ask index s →
      (runChild index s).Ensures onEvent terms.fault (terms.answer index s)) :
    (script.exec runChild).Ensures onEvent terms.fault goal := by
  induction script with
  | done value => exact Traced.ensures_pure h
  | fault f => exact Traced.ensures_fault h
  | note line next ih =>
    exact (Traced.ensures_emit (hnote line h.1)).bind
      fun _ _ _ => ih h.2
  | run index s next ih => exact (hrun index s h.1).bind fun r _ hr => ih r (h.2 r hr)

end Resync.Script
