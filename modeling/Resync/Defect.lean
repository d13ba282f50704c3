import Resync.Output

namespace Resync

/-- A mistake in the construction of a grammar, as opposed to one in an input. Most defects are
    found when a grammar is assembled; an output of an unexpected type shows only in a run. -/
inductive Defect where
  /-- A branch without children. -/
  | noChildren (label : String)
  /-- A child's output does not have the type that its parent reads. -/
  | outputType (expected : Ty)
  /-- The output in a slot does not have the type that the sequence reads. -/
  | slotType (expected : Ty)
  /-- A safe spot over a branch. -/
  | safeSpotOverBranch (label : String)
  /-- A safe spot over a leaf that may match without consuming. -/
  | safeSpotNever (label : String)
  /-- A safe spot over a leaf that matches the empty input. -/
  | safeSpotAcceptsEmpty (label : String)
  /-- A leaf was asked to go on after one of its children. -/
  | leafResumed (label : String)
  /-- A deferred parser was used while it was being built. -/
  | deferredReentered
  /-- A recursive parser was used before its definition was complete. -/
  | recursionUndefined
  /-- A recursive definition that is nothing but the parser it defines. -/
  | recursionIsSelf
  /-- A name that is not in scope. -/
  | unboundName (name : String)
  /-- A child or slot that a branch does not have. -/
  | noSuchChild (index : Nat)
  /-- An identifier that no parser of the grammar has. -/
  | noSuchParser (id : Nat)

namespace Defect

/-- The wording of a defect. How a type is called is left to the caller. -/
def message (typeName : Ty → String) : Defect → String
  | noChildren label =>
    "branch: \"" ++ label ++ "\" has no children (a branch composes at least one parser)"
  | outputType expected =>
    "downcast: parser output is not a " ++ typeName expected ++
      " (child types must match the combinator)"
  | slotType expected =>
    "downcast: parser output is not a " ++ typeName expected ++
      " (slot types must match the children)"
  | safeSpotOverBranch label =>
    "safe_spot: \"" ++ label ++ "\" is a branch parser (only leaf parsers can be safe spots)"
  | safeSpotNever label =>
    "safe_spot: \"" ++ label ++
      "\" has a forbidden recoverer (it may match without consuming input)"
  | safeSpotAcceptsEmpty label =>
    "safe_spot: \"" ++ label ++ "\" matches empty input (safe spots must consume input)"
  | leafResumed label =>
    "resume: \"" ++ label ++ "\" is a leaf parser (only branches have children to resume)"
  | deferredReentered =>
    "lazy: factory used the parser it is building (use recursive for self-reference)"
  | recursionUndefined => "recursive: parser used before its definition finished"
  | recursionIsSelf =>
    "recursive: definition returned its own handle (it would never consume input)"
  | unboundName name => "reference: \"" ++ name ++ "\" is not in scope"
  | noSuchChild index => "branch: there is no child " ++ toString index
  | noSuchParser id => "grammar: there is no parser #" ++ toString id

end Defect

/-- Why a computation over a grammar has no result. -/
inductive Fault where
  /-- The grammar is defective. -/
  | defect (defect : Defect)
  /-- The computation was cut off before it had ended. -/
  | outOfFuel

/-- A computation in two parts has a value when both parts have one. -/
theorem Fault.bind_eq_ok_iff {α β : Type} {x : Except Fault α} {f : α → Except Fault β} {b : β} :
    (x >>= f) = .ok b ↔ ∃ a, x = .ok a ∧ f a = .ok b := by
  cases x <;> simp [bind, Except.bind]

end Resync
