import Resync.Engine

namespace Resync.Registry

variable {reg : Registry} {depth id : Nat} {s : State} {r : Resumption} {entry : Entry}
  {leaf : Leaf} {rule : Rule}

theorem entry_of_getElem? (h : reg.entries[id]? = some entry) : reg.entry id = .ok entry := by
  rw [Registry.entry, h]

theorem entry_of_getElem?_eq_none (h : reg.entries[id]? = none) :
    reg.entry id = .error (.noSuchParser id) := by
  rw [Registry.entry, h]

/-- To parse an occurrence that is not there is a defect. -/
theorem parse_of_missing (h : reg.entries[id]? = none) :
    reg.parse (depth + 1) id s = ⟨[.entered id s], .error (.defect (.noSuchParser id))⟩ := by
  rw [parse, entry_of_getElem?_eq_none h]
  rfl

/-- A leaf reads the input between the event of its call and that of its return. -/
theorem parse_of_leaf (h : reg.entries[id]? = some entry) (hwork : entry.work = .leaf leaf) :
    reg.parse (depth + 1) id s =
      ⟨[.entered id s, .left id (leaf.parse id s)], .ok (leaf.parse id s)⟩ := by
  rw [parse, entry_of_getElem? h]
  obtain ⟨place, label, work, parent, children⟩ := entry
  cases hwork
  rfl

theorem result_parse_of_leaf (h : reg.entries[id]? = some entry) (hwork : entry.work = .leaf leaf) :
    (reg.parse (depth + 1) id s).result = .ok (leaf.parse id s) := by
  rw [parse_of_leaf h hwork]

/-- A branch has its script carried out, with its children parsed one level deeper, and claims what
    comes of it. -/
theorem parse_of_branch (h : reg.entries[id]? = some entry) (hwork : entry.work = .branch rule) :
    reg.parse (depth + 1) id s = (do
      Traced.emit (.entered id s)
      let result ← (rule.script (reg.view id entry) (.descend s)).exec
        (runChild (reg.parse depth) entry)
      Traced.emit (.left id (result.claim id))
      return result.claim id) := by
  rw [parse, entry_of_getElem? h]
  obtain ⟨place, label, work, parent, children⟩ := entry
  cases hwork
  rfl

/-- To resume an occurrence that is not there is a defect. -/
theorem resume_of_missing (h : reg.entries[id]? = none) :
    reg.resume depth id r = ⟨[], .error (.defect (.noSuchParser id))⟩ := by
  rw [resume, entry_of_getElem?_eq_none h]
  rfl

/-- To resume a leaf is a defect, since a leaf has no children to go on after. -/
theorem resume_of_leaf (h : reg.entries[id]? = some entry) (hwork : entry.work = .leaf leaf) :
    reg.resume depth id r =
      ⟨[.resumed id entry.label r], .error (.defect (.leafResumed leaf.label))⟩ := by
  rw [resume, entry_of_getElem? h]
  obtain ⟨place, label, work, parent, children⟩ := entry
  cases hwork
  rfl

/-- A resumed branch has its script carried out with the step that it is handed, and claims what
    comes of it. -/
theorem resume_of_branch (h : reg.entries[id]? = some entry) (hwork : entry.work = .branch rule) :
    reg.resume depth id r = (do
      Traced.emit (.resumed id entry.label r)
      let result ← (rule.script (reg.view id entry) (.resume r)).exec
        (runChild (reg.parse depth) entry)
      Traced.emit (.left id (result.claim id))
      return result.claim id) := by
  rw [resume, entry_of_getElem? h]
  obtain ⟨place, label, work, parent, children⟩ := entry
  cases hwork
  rfl

/-- A branch that is run claims the outcome of its script, and nothing else is done to it. -/
theorem result_parse_of_branch (h : reg.entries[id]? = some entry) (hwork : entry.work = .branch rule)
    {r : Result} (hr : ((rule.script (reg.view id entry) (.descend s)).exec
      (runChild (reg.parse depth) entry)).result = .ok r) :
    (reg.parse (depth + 1) id s).result = .ok (r.claim id) := by
  rw [parse_of_branch h hwork]
  refine Traced.result_bind_eq_ok_iff.2 ⟨(), rfl, ?_⟩
  exact Traced.result_bind_eq_ok_iff.2 ⟨r, hr, rfl⟩

/-- A branch that is resumed claims the outcome of its script, and nothing else is done to it. -/
theorem result_resume_of_branch (h : reg.entries[id]? = some entry)
    (hwork : entry.work = .branch rule) {result : Result}
    (hresult : ((rule.script (reg.view id entry) (.resume r)).exec
      (runChild (reg.parse depth) entry)).result = .ok result) :
    (reg.resume depth id r).result = .ok (result.claim id) := by
  rw [resume_of_branch h hwork]
  refine Traced.result_bind_eq_ok_iff.2 ⟨(), rfl, ?_⟩
  exact Traced.result_bind_eq_ok_iff.2 ⟨result, hresult, rfl⟩

/-- What a child gave was given by an occurrence, the one that the link of the branch leads to. -/
theorem exists_child_of_runChild {run : Nat → State → Traced Result} {index : Nat} {result : Result}
    (h : (runChild run entry index s).result = .ok result) :
    ∃ child, (run child s).result = .ok result := by
  unfold runChild at h
  split at h
  · next child _ => exact ⟨child, h⟩
  · cases h

end Resync.Registry
