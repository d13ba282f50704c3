import Resync.Proofs.Engine.Steps
import Resync.Proofs.Traced.Extends

namespace Resync

/-- The event that says that an occurrence is called. -/
def Step.call (id : Nat) (label : String) : Step → Event
  | descend s => .entered id s
  | resume r => .resumed id label r

theorem Script.extends_exec {α : Type} {run : Nat → State → Traced Result}
    {good : List Event → Event → Prop} (hnote : ∀ history line, good history (.noted line))
    (hrun : ∀ index s history, (run index s).Extends history good fun _ _ => True)
    (script : Script α) (history : List Event) :
    (script.exec run).Extends history good fun _ _ => True := by
  induction script generalizing history with
  | done value => exact Traced.extends_pure trivial
  | fault f => exact Traced.extends_fault
  | note line next ih =>
    exact (Traced.extends_emit (hnote history line)).bind fun later _ _ _ => ih later
  | run index s next ih => exact (hrun index s history).bind fun later r _ _ => ih r later

namespace Registry

/-- A call of a branch: it says so, carries its script out, and is left. -/
def callBranch (reg : Registry) (depth id : Nat) (entry : Entry) (rule : Rule) (step : Step) :
    Traced Result := do
  Traced.emit (step.call id entry.label)
  let result ← (rule.script (reg.view id entry) step).exec (runChild (reg.parse depth) entry)
  Traced.emit (.left id (result.claim id))
  return result.claim id

variable {reg : Registry} {depth id : Nat} {history : List Event}
  {good : List Event → Event → Prop} {goal : List Event → Result → Prop}

/-- A child that is run adds to the history what a parse adds, or is missing. -/
theorem extends_runChild {entry : Entry} {index : Nat} {s : State}
    (h : ∀ child, entry.children[index]? = some child →
      (reg.parse depth child s).Extends history good goal) :
    (runChild (reg.parse depth) entry index s).Extends history good goal := by
  unfold runChild
  split
  · next child hchild => exact h child hchild
  · exact Traced.extends_fault

/-- What holds of leaves, and of branches whose children it holds of, holds of all parsers. The
    recursion of the engine is followed here once, with the history of what has happened. -/
theorem extends_parse (hentered : ∀ history id s, good history (.entered id s))
    (hleaf : ∀ {history id s entry leaf}, reg.entries[id]? = some entry →
      entry.work = .leaf leaf → good history (.left id (leaf.parse id s)) ∧
        goal history (leaf.parse id s))
    (hbranch : ∀ {depth id s history entry rule}, reg.entries[id]? = some entry →
      entry.work = .branch rule →
      (∀ child s history, (reg.parse depth child s).Extends history good goal) →
        (reg.callBranch depth id entry rule (.descend s)).Extends history good goal)
    (depth id : Nat) (s : State) (history : List Event) :
    (reg.parse depth id s).Extends history good goal := by
  induction depth generalizing id s history with
  | zero => exact Traced.extends_fault
  | succ depth ih =>
    have hcalled := Traced.extends_emit (hentered history id s)
    cases hentry : reg.entries[id]? with
    | none =>
      rw [parse_of_missing hentry]
      exact hcalled.bind fun _ _ _ _ => Traced.extends_fault
    | some entry =>
      cases hwork : entry.work with
      | leaf leaf =>
        rw [parse_of_leaf hentry hwork]
        exact hcalled.bind fun _ _ _ _ => (Traced.extends_emit (hleaf hentry hwork).1).bind
          fun _ _ _ _ => Traced.extends_pure (hleaf hentry hwork).2
      | branch rule =>
        rw [parse_of_branch hentry hwork]
        exact hbranch hentry hwork ih

/-- What holds of calls of a branch holds where it is resumed, if it holds of the event that says
    so. -/
theorem extends_resume {r : Resumption} (hresumed : ∀ label, good history (.resumed id label r))
    (hbranch : ∀ {entry rule}, reg.entries[id]? = some entry → entry.work = .branch rule →
      (reg.callBranch depth id entry rule (.resume r)).Extends history good goal) :
    (reg.resume depth id r).Extends history good goal := by
  cases hentry : reg.entries[id]? with
  | none =>
    rw [resume_of_missing hentry]
    exact Traced.extends_fault
  | some entry =>
    cases hwork : entry.work with
    | leaf leaf =>
      rw [resume_of_leaf hentry hwork]
      exact (Traced.extends_emit (hresumed entry.label)).bind fun _ _ _ _ => Traced.extends_fault
    | branch rule =>
      rw [resume_of_branch hentry hwork]
      exact hbranch hentry hwork

end Registry

end Resync
