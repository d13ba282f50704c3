import Resync.Proofs.Engine.Steps
import Resync.Proofs.Script.Meets

namespace Resync.Registry

/-- What is true when an occurrence is entered, with so much depth left, and when it is left. -/
structure Contract where
  enter : (depth id : Nat) → State → Prop
  leave : (id : Nat) → State → Result → Prop
  event : Event → Prop
  fault : Fault → Prop

namespace Contract

/-- The terms that a contract sets the script of an occurrence. -/
def terms (c : Contract) (depth : Nat) (entry : Entry) : Script.Terms where
  ask index s :=
    match entry.children[index]? with
    | some child => c.enter depth child s
    | none => c.fault (.defect (.noSuchChild index))
  answer index s r := ∃ child, entry.children[index]? = some child ∧ c.leave child s r
  note line := c.event (.noted line)
  fault := c.fault

/-- A registry whose leaves and branches keep to a contract, one step of them at a time. -/
structure KeptBy (c : Contract) (reg : Registry) : Prop where
  exhausted : ∀ {id s}, c.enter 0 id s → c.fault .outOfFuel
  missing : ∀ {depth id s}, c.enter (depth + 1) id s → reg.entries[id]? = none →
    c.fault (.defect (.noSuchParser id))
  entered : ∀ {depth id s}, c.enter (depth + 1) id s → c.event (.entered id s)
  left : ∀ {id s r}, c.leave id s r → c.event (.left id r)
  leaf : ∀ {depth id s entry leaf}, c.enter (depth + 1) id s → reg.entries[id]? = some entry →
    entry.work = .leaf leaf → c.leave id s (leaf.parse id s)
  branch : ∀ {depth id s entry rule}, c.enter (depth + 1) id s → reg.entries[id]? = some entry →
    entry.work = .branch rule → (rule.script (reg.view id entry) (.descend s)).Meets
      (c.terms depth entry) fun r => c.leave id s (r.claim id)

variable {c : Contract} {reg : Registry}

/-- A script may ask for a child that may be entered, with one level of depth less. -/
theorem terms_ask {depth index : Nat} {entry : Entry} {s : State}
    (hchild : ∀ child, entry.children[index]? = some child → c.enter depth child s)
    (hmissing : entry.children[index]? = none → c.fault (.defect (.noSuchChild index))) :
    (c.terms depth entry).ask index s := by
  change match entry.children[index]? with
    | some child => c.enter depth child s
    | none => c.fault (.defect (.noSuchChild index))
  split
  · next child hsome => exact hchild child hsome
  · next hnone => exact hmissing hnone

/-- A child that is asked for as the terms allow keeps to the contract, or is missing, which is a
    defect that the contract has to allow then. -/
private theorem ensures_runChild {run : Nat → State → Traced Result} {depth : Nat} {entry : Entry}
    (hrun : ∀ id s, c.enter depth id s → (run id s).Ensures c.event c.fault (c.leave id s))
    (index : Nat) (s : State) (hask : (c.terms depth entry).ask index s) :
    (runChild run entry index s).Ensures c.event (c.terms depth entry).fault
      ((c.terms depth entry).answer index s) := by
  unfold runChild
  change (match entry.children[index]? with
    | some child => c.enter depth child s
    | none => c.fault (.defect (.noSuchChild index))) at hask
  cases hchild : entry.children[index]? with
  | none =>
    rw [hchild] at hask
    exact Traced.ensures_fault hask
  | some child =>
    rw [hchild] at hask
    exact (hrun child s hask).imp fun r _ hr => ⟨child, hchild, hr⟩

private theorem ensures_left {id : Nat} {result : Result} {goal : Result → Prop}
    (hleft : c.event (.left id result)) (hresult : goal result) :
    (do Traced.emit (.left id result); return result : Traced Result).Ensures c.event c.fault
      goal := by
  apply (Traced.ensures_emit hleft).bind
  intro _ _ _
  exact Traced.ensures_pure hresult

/-- Every run of an occurrence keeps to a contract that the registry keeps to step by step. This is
    the induction over the depth that proofs about parsing share. -/
theorem KeptBy.ensures_parse (h : c.KeptBy reg) (depth id : Nat) (s : State)
    (henter : c.enter depth id s) :
    (reg.parse depth id s).Ensures c.event c.fault (c.leave id s) := by
  induction depth generalizing id s with
  | zero => exact Traced.ensures_fault (h.exhausted henter)
  | succ depth ih =>
    cases hentry : reg.entries[id]? with
    | none =>
      rw [parse_of_missing hentry]
      exact (Traced.ensures_emit (h.entered henter)).bind
        fun _ _ _ => Traced.ensures_fault (h.missing henter hentry)
    | some entry =>
      cases hwork : entry.work with
      | leaf leaf =>
        have hleave := h.leaf henter hentry hwork
        rw [parse_of_leaf hentry hwork]
        have hleft := ensures_left (h.left hleave) hleave
        exact (Traced.ensures_emit (h.entered henter)).bind fun _ _ _ => hleft
      | branch rule =>
        rw [parse_of_branch hentry hwork]
        apply (Traced.ensures_emit (h.entered henter)).bind
        intro _ _ _
        have hmeets := h.branch henter hentry hwork
        have hscript := hmeets.ensures_exec (fun _ hnote => hnote) (ensures_runChild ih)
        exact hscript.bind fun r _ hr => ensures_left (h.left hr) hr

/-- A resumed branch keeps to a contract if its script does, and its children are parsed as the
    contract says. -/
theorem KeptBy.ensures_resume (h : c.KeptBy reg) {depth id : Nat} {r : Resumption}
    {goal : Result → Prop}
    (hmissing : reg.entries[id]? = none → c.fault (.defect (.noSuchParser id)))
    (hresumed : ∀ entry, reg.entries[id]? = some entry → c.event (.resumed id entry.label r))
    (hleaf : ∀ entry leaf, reg.entries[id]? = some entry → entry.work = .leaf leaf →
      c.fault (.defect (.leafResumed leaf.label)))
    (hbranch : ∀ entry rule, reg.entries[id]? = some entry → entry.work = .branch rule →
      (rule.script (reg.view id entry) (.resume r)).Meets (c.terms depth entry)
        fun result => goal (result.claim id))
    (hleft : ∀ result, goal result → c.event (.left id result)) :
    (reg.resume depth id r).Ensures c.event c.fault goal := by
  cases hentry : reg.entries[id]? with
  | none =>
    rw [resume_of_missing hentry]
    exact Traced.ensures_fault (hmissing hentry)
  | some entry =>
    cases hwork : entry.work with
    | leaf leaf =>
      rw [resume_of_leaf hentry hwork]
      exact (Traced.ensures_emit (hresumed _ hentry)).bind
        fun _ _ _ => Traced.ensures_fault (hleaf _ _ hentry hwork)
    | branch rule =>
      rw [resume_of_branch hentry hwork]
      apply (Traced.ensures_emit (hresumed _ hentry)).bind
      intro _ _ _
      have hmeets := hbranch _ _ hentry hwork
      have hscript := hmeets.ensures_exec (fun _ hnote => hnote)
        (ensures_runChild (h.ensures_parse depth))
      exact hscript.bind fun result _ hresult => ensures_left (hleft _ hresult) hresult

end Contract

end Resync.Registry
