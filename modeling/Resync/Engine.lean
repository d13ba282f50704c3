import Resync.Registry

namespace Resync.Registry

/-- What an occurrence can see of itself. -/
def view (reg : Registry) (id : Nat) (entry : Entry) : View :=
  ⟨id, entry.children.map reg.label⟩

/-- Runs a child of an occurrence, given how occurrences are run. -/
def runChild (run : Nat → State → Traced Result) (entry : Entry) (index : Nat) (s : State) :
    Traced Result :=
  match entry.children[index]? with
  | some id => run id s
  | none => Traced.ofExcept (.error (.noSuchChild index))

/-- Runs the occurrence `id` from a state. A leaf reads the input; a branch has its script carried
    out, with its children run in turn. Errors that leave a branch without an owner are claimed by
    it. The caller provides a number that bounds the depth of the recursion. -/
def parse (reg : Registry) : (depth : Nat) → (id : Nat) → State → Traced Result
  | 0, _, _ => Traced.fault .outOfFuel
  | depth + 1, id, s => do
    Traced.emit (.entered id s)
    let entry ← Traced.ofExcept (reg.entry id)
    let result ←
      match entry.work with
      | .leaf leaf => pure (leaf.parse id s)
      | .branch rule => do
        let script := rule.script (reg.view id entry) (.descend s)
        let result ← script.exec (runChild (parse reg depth) entry)
        pure (result.claim id)
    Traced.emit (.left id result)
    return result

/-- Has a branch go on after one of its children. -/
def resume (reg : Registry) (depth id : Nat) (r : Resumption) : Traced Result := do
  let entry ← Traced.ofExcept (reg.entry id)
  Traced.emit (.resumed id entry.label r)
  match entry.work with
  | .leaf leaf => Traced.ofExcept (.error (.leafResumed leaf.label))
  | .branch rule =>
    let script := rule.script (reg.view id entry) (.resume r)
    let result ← script.exec (runChild (reg.parse depth) entry)
    let result := result.claim id
    Traced.emit (.left id result)
    return result

end Resync.Registry
