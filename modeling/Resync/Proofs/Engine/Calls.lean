import Resync.Event

namespace Resync

/-- Nothing is saved for a branch in an outcome. -/
def Result.HoldsNothingFor (r : Result) (branch : Nat) : Prop :=
  ∀ e, r.error = some e → ∀ data, (branch, data) ∉ e.saved

namespace Event

/-- The branch is called. -/
def Calls (branch : Nat) : Event → Prop
  | entered id _ | resumed id _ _ => id = branch
  | _ => False

/-- The branch is called, and is not handed anything that is saved for it in the outcome of a
    child. -/
def Opens (branch : Nat) : Event → Prop
  | entered id _ => id = branch
  | resumed id _ r => id = branch ∧ r.child.HoldsNothingFor branch
  | _ => False

/-- The event is none of the branch, and nothing is saved for the branch in it. -/
def Spares (branch : Nat) : Event → Prop
  | entered id _ => id ≠ branch
  | resumed id _ r => id ≠ branch ∧ r.child.HoldsNothingFor branch
  | left id r => id ≠ branch ∧ r.HoldsNothingFor branch
  | _ => True

theorem Spares.not_calls {branch : Nat} {e : Event} (h : e.Spares branch) : ¬ e.Calls branch := by
  cases e with
  | entered id s => exact h
  | resumed id label r => exact h.1
  | _ => exact id

end Event

/-- A call of a branch that has ended with an error in which the branch itself has saved data:
    nothing was saved for it in what it was given, and nothing by anyone in between. -/
structure StoringCall (branch : Nat) (data : Saved) (call : Event) (inside : List Event)
    (result : Result) : Prop where
  opens : call.Opens branch
  inside : ∀ e ∈ inside, e.Spares branch
  stored : ∃ e, result.error = some e ∧ (branch, data) ∈ e.saved

/-- The last call of a branch in a history has stored data. -/
def IsFresh (history : List Event) (branch : Nat) (data : Saved) : Prop :=
  ∃ before call inside result after,
    history = before ++ call :: inside ++ .left branch result :: after ∧
      StoringCall branch data call inside result ∧ ∀ e ∈ after, ¬ e.Calls branch

/-- Data stays fresh while the branch is not called, since its last call remains the last one. -/
theorem IsFresh.append {history later : List Event} {branch : Nat} {data : Saved}
    (h : IsFresh history branch data) (hlater : ∀ e ∈ later, ¬ e.Calls branch) :
    IsFresh (history ++ later) branch data := by
  obtain ⟨before, call, inside, result, after, rfl, hcall, hafter⟩ := h
  refine ⟨before, call, inside, result, after ++ later, by simp, hcall, fun e he => ?_⟩
  obtain he | he := List.mem_append.1 he
  · exact hafter e he
  · exact hlater e he

/-- A call that has just ended is the last one, so what it has stored is fresh. -/
theorem StoringCall.isFresh {history inside : List Event} {branch : Nat} {data : Saved}
    {call : Event} {result : Result} (h : StoringCall branch data call inside result) :
    IsFresh (history ++ call :: inside ++ [.left branch result]) branch data :=
  ⟨history, call, inside, result, [], rfl, h, fun _ he => nomatch he⟩

end Resync
