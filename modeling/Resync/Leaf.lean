import Resync.Result
import Resync.Recoverer

namespace Resync

/-- A parser that reads input itself. It returns the cursor after its match and an output, or the
    error at the place where it failed. A leaf that consumes whatever it matches can be made a safe
    spot: reaching it commits the attempts around it, and recovery may resume at it. -/
structure Leaf where
  label : String
  type : Ty
  run : State → Except ParseError (State × type.Val)
  /-- How the waste before a match is found, if it can be found at all. -/
  recoverer : Option Recoverer
  /-- Whether the leaf is a safe spot. -/
  safeSpot : Bool

namespace Leaf

/-- The recoverer that the engine uses. A safe spot without one of its own is probed. -/
def effectiveRecoverer (leaf : Leaf) : Option Recoverer :=
  if leaf.safeSpot then some (leaf.recoverer.getD .step) else leaf.recoverer

/-- Parses as the occurrence `id`. A safe spot that matches raises the watermark to its end. -/
def parse (leaf : Leaf) (id : Nat) (s : State) : Result :=
  match leaf.run s with
  | .ok (stop, value) =>
    .success s (if leaf.safeSpot then stop.markSafeSpot else stop) ⟨leaf.type, value⟩
  | .error e => .failure s s ⟨leaf.type, leaf.type.placeholder⟩ (e.claim id)

/-- Whether the recoverer says that the leaf may match without consuming. -/
def neverAnchors (leaf : Leaf) : Bool :=
  match leaf.recoverer with
  | some (.fast waste) => waste (State.start (Input.text "")) = .never
  | _ => false

/-- Whether the leaf matches the empty input. -/
def acceptsEmpty (leaf : Leaf) : Bool :=
  match leaf.run (State.start (Input.text "")) with
  | .ok _ => true
  | .error _ => false

/-- The leaf as a safe spot. It is refused if it may match without consuming, which is told by its
    recoverer and by a trial on the empty input. -/
def toSafeSpot (leaf : Leaf) : Except Defect Leaf :=
  if leaf.neverAnchors then .error (.safeSpotNever leaf.label)
  else if leaf.acceptsEmpty then .error (.safeSpotAcceptsEmpty leaf.label)
  else .ok { leaf with safeSpot := true }

end Leaf

end Resync
