import Mathlib.Logic.Basic
import Resync.Proofs.Engine.Steps
import Resync.Proofs.Traced.Ensures

namespace Resync

namespace Traced

variable {α β : Type}

/-- A computation that was not cut off. -/
def Ended (x : Traced α) : Prop :=
  x.result ≠ .error .outOfFuel

theorem ended_pure (a : α) : (pure a : Traced α).Ended := fun h => nomatch h

theorem ended_emit (event : Event) : (emit event).Ended := fun h => nomatch h

theorem Ended.of_bind {x : Traced α} {f : α → Traced β} (h : (x >>= f).Ended) : x.Ended := by
  intro hx
  rw [bind_of_result_eq_error hx] at h
  exact h rfl

/-- If two steps were not cut off, the second was not, from the value of the first. -/
theorem Ended.of_bind_ok {x : Traced α} {f : α → Traced β} (h : (x >>= f).Ended) {a : α}
    (ha : x.result = .ok a) : (f a).Ended := by
  rw [bind_of_result_eq_ok ha] at h
  exact h

theorem Ended.bind {x : Traced α} {f : α → Traced β} (hx : x.Ended)
    (hf : ∀ a, x.result = .ok a → (f a).Ended) : (x >>= f).Ended := by
  cases hresult : x.result with
  | error e =>
    rw [bind_of_result_eq_error hresult]
    intro hfuel
    cases hfuel
    exact hx hresult
  | ok a =>
    rw [bind_of_result_eq_ok hresult]
    exact hf a hresult

theorem bind_congr_ok {x : Traced α} {f g : α → Traced β} (h : ∀ a, x.result = .ok a → f a = g a) :
    x >>= f = x >>= g := by
  cases hresult : x.result with
  | error e => rw [bind_of_result_eq_error hresult, bind_of_result_eq_error hresult]
  | ok a => rw [bind_of_result_eq_ok hresult, bind_of_result_eq_ok hresult, h a hresult]

/-- Computations that a depth bounds end if one of them was not cut off, and none beyond it differs
    from it. -/
def Ends (x : Nat → Traced α) : Prop :=
  ∃ enough, (x enough).Ended ∧ ∀ depth, enough ≤ depth → x depth = x enough

/-- A computation without a bound on its depth ends if it was not cut off. -/
theorem Ended.ends {x : Traced α} (h : x.Ended) : Ends fun _ => x :=
  ⟨0, h, fun _ _ => rfl⟩

theorem Ends.ite {c : Bool} {x y : Nat → Traced α} (hx : c = true → Ends x)
    (hy : c = false → Ends y) : Ends fun depth => if c = true then x depth else y depth := by
  cases c with
  | true => exact hx rfl
  | false => exact hy rfl

/-- Computations in two parts end if both parts do: a depth that is enough for both is the larger of
    the two. -/
theorem Ends.bind {x : Nat → Traced α} {f : Nat → α → Traced β} (hx : Ends x)
    (hf : ∀ a, (∃ depth, (x depth).result = .ok a) → Ends fun depth => f depth a) :
    Ends fun depth => x depth >>= f depth := by
  obtain ⟨first, hended, hsame⟩ := hx
  cases hresult : (x first).result with
  | error e =>
    refine ⟨first, ?_, ?_⟩
    · intro hfuel
      dsimp only at hfuel
      rw [bind_of_result_eq_error hresult] at hfuel
      cases hfuel
      exact hended hresult
    · intro depth hdepth
      dsimp only
      rw [hsame depth hdepth, bind_of_result_eq_error hresult, bind_of_result_eq_error hresult]
  | ok a =>
    obtain ⟨second, hended', hsame'⟩ := hf a ⟨first, hresult⟩
    have hfirst := hsame (max first second) (Nat.le_max_left ..)
    have hsecond := hsame' (max first second) (Nat.le_max_right ..)
    dsimp only at hsame' hsecond
    refine ⟨max first second, ?_, ?_⟩
    · dsimp only
      rw [hfirst, bind_of_result_eq_ok hresult, hsecond]
      exact hended'
    · intro depth hdepth
      dsimp only
      rw [hfirst, hsame depth (by omega), bind_of_result_eq_ok hresult,
        bind_of_result_eq_ok hresult, hsecond, hsame' depth (by omega)]

end Traced

namespace Script

variable {α : Type}

/-- More generous children do not change what a script does that was not cut off. The induction is
    on the script. -/
theorem exec_eq_of_ended {run run' : Nat → State → Traced Result} {script : Script α}
    (hrun : ∀ index s, (run index s).Ended → run' index s = run index s)
    (h : (script.exec run).Ended) : script.exec run' = script.exec run := by
  induction script with
  | done value => rfl
  | fault f => rfl
  | note line next ih =>
    rw [exec, exec, ih (h.of_bind_ok rfl)]
  | run index s next ih =>
    unfold exec at h
    rw [exec, exec, hrun index s h.of_bind]
    exact Traced.bind_congr_ok fun r hr => ih r (h.of_bind_ok hr)

end Script

namespace Registry

variable {reg : Registry}

private theorem runChild_eq_of_ended {run run' : Nat → State → Traced Result} {entry : Entry}
    (hrun : ∀ id s, (run id s).Ended → run' id s = run id s) (index : Nat) (s : State)
    (h : (runChild run entry index s).Ended) :
    runChild run' entry index s = runChild run entry index s := by
  rw [runChild] at h ⊢
  unfold runChild
  cases hchild : entry.children[index]? with
  | none => rfl
  | some id =>
    rw [hchild] at h
    exact hrun id s h

/-- One more level of depth does not change a parse that has ended. The induction is on the
    depth. -/
theorem parse_succ_eq_of_ended {depth id : Nat} {s : State} (h : (reg.parse depth id s).Ended) :
    reg.parse (depth + 1) id s = reg.parse depth id s := by
  induction depth generalizing id s with
  | zero => exact absurd rfl h
  | succ depth ih =>
    cases hentry : reg.entries[id]? with
    | none => rw [parse_of_missing hentry, parse_of_missing hentry]
    | some entry =>
      cases hwork : entry.work with
      | leaf leaf => rw [parse_of_leaf hentry hwork, parse_of_leaf hentry hwork]
      | branch rule =>
        rw [parse_of_branch hentry hwork] at h
        have hscript := (h.of_bind_ok rfl).of_bind
        rw [parse_of_branch hentry hwork, parse_of_branch hentry hwork,
          Script.exec_eq_of_ended (runChild_eq_of_ended fun id s => ih) hscript]

/-- A parse that has ended at some depth is the same at every greater depth, so what a grammar does
    can be spoken of without naming a depth. -/
theorem parse_eq_of_ended {depth depth' id : Nat} {s : State} (h : (reg.parse depth id s).Ended)
    (hle : depth ≤ depth') : reg.parse depth' id s = reg.parse depth id s := by
  induction hle with
  | refl => rfl
  | step _ ih => rw [parse_succ_eq_of_ended (by rw [ih]; exact h), ih]

/-- A branch that was resumed and has ended does the same at every greater depth. -/
theorem resume_eq_of_ended {depth depth' id : Nat} {r : Resumption}
    (h : (reg.resume depth id r).Ended) (hle : depth ≤ depth') :
    reg.resume depth' id r = reg.resume depth id r := by
  cases hentry : reg.entries[id]? with
  | none => rw [resume_of_missing hentry, resume_of_missing hentry]
  | some entry =>
    cases hwork : entry.work with
    | leaf leaf => rw [resume_of_leaf hentry hwork, resume_of_leaf hentry hwork]
    | branch rule =>
      rw [resume_of_branch hentry hwork] at h
      have hscript := (h.of_bind_ok rfl).of_bind
      rw [resume_of_branch hentry hwork, resume_of_branch hentry hwork,
        Script.exec_eq_of_ended
          (runChild_eq_of_ended fun id s hended => parse_eq_of_ended hended hle) hscript]

theorem ends_parse {depth id : Nat} {s : State} (h : (reg.parse depth id s).Ended) :
    Traced.Ends fun depth => reg.parse depth id s :=
  ⟨depth, h, fun _ hle => parse_eq_of_ended h hle⟩

theorem ends_resume {depth id : Nat} {r : Resumption} (h : (reg.resume depth id r).Ended) :
    Traced.Ends fun depth => reg.resume depth id r :=
  ⟨depth, h, fun _ hle => resume_eq_of_ended h hle⟩

end Registry

end Resync
