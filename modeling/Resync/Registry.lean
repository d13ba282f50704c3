import Resync.Graph

namespace Resync

/-- What an occurrence does. -/
inductive Work where
  | leaf (leaf : Leaf)
  | branch (rule : Rule)

/-- One occurrence of a parser. -/
structure Entry where
  /-- The place of the parser in the graph. -/
  place : Nat
  label : String
  work : Work
  /-- The identifier of the parent, and the position among its children. -/
  parent : Option (Nat × Nat)
  /-- The identifiers of the children. -/
  children : List Nat

/-- A grammar prepared for running: the occurrences of its parsers, each at the place that is its
    identifier. Walking the graph from its root, every occurrence gets an identifier, in the order
    in which the walk meets it, and remembers its parent and its children. A parser used in several
    places is registered once for each place. Only one that is met again below itself is not walked
    again: the identifier of the enclosing occurrence is used, which is what makes recursive
    grammars finite. -/
structure Registry where
  entries : List Entry

namespace Registry

/-- Registers the children of `parent` from position `index` on, given how one parser is registered.
    Returns the identifiers and the entries that were added, which are numbered from `next` on. -/
def registerChildren
    (register : (parent : Nat × Nat) → (next place : Nat) → Except Fault (Nat × List Entry))
    (parent : Nat) :
    (index next : Nat) → (places : List Nat) → Except Fault (List Nat × List Entry)
  | _, _, [] => .ok ([], [])
  | index, next, place :: places => do
    let (id, added) ← register (parent, index) next place
    let (ids, others) ← registerChildren register parent (index + 1) (next + added.length) places
    return (id :: ids, added ++ others)

/-- Registers the parser at a place and all below it. `walking` holds the branches that enclose it,
    so `depth` need not be larger than the graph. -/
def register (g : Graph) : (depth : Nat) → (walking : List (Nat × Nat)) →
    (parent : Option (Nat × Nat)) → (next place : Nat) → Except Fault (Nat × List Entry)
  | 0, _, _, _, _ => .error .outOfFuel
  | depth + 1, walking, parent, next, place => do
    let place ← g.resolve place
    match walking.lookup place with
    | some id => return (id, [])
    | none =>
      match g.nodes[place]? with
      | some (.leaf leaf) => return (next, [⟨place, leaf.label, .leaf leaf, parent, []⟩])
      | some (.branch label rule children) =>
        let registerBelow := fun parent => register g depth ((place, next) :: walking) (some parent)
        let (ids, below) ← registerChildren registerBelow next 0 (next + 1) children
        return (next, ⟨place, label, .branch rule, parent, ids⟩ :: below)
      | some (.forward _) | some .unused | none => .error (.defect (.noSuchParser place))

/-- Registers the root of a graph and every parser that can be reached from it. -/
def ofGraph (g : Graph) : Except Fault Registry := do
  let (_, entries) ← register g (g.nodes.length + 1) [] none 0 g.root
  return ⟨entries⟩

/-- The number of occurrences. -/
def size (reg : Registry) : Nat :=
  reg.entries.length

/-- The occurrence with an identifier. -/
def entry (reg : Registry) (id : Nat) : Except Defect Entry :=
  match reg.entries[id]? with
  | some entry => .ok entry
  | none => .error (.noSuchParser id)

def label (reg : Registry) (id : Nat) : String :=
  match reg.entries[id]? with
  | some entry => entry.label
  | none => ""

def parent? (reg : Registry) (id : Nat) : Option (Nat × Nat) :=
  reg.entries[id]?.bind (·.parent)

/-- The way from an occurrence to the root, at most `limit` steps of it: each ancestor with the
    position of the child through which the way comes. -/
def pathUp (reg : Registry) : (limit : Nat) → Nat → List (Nat × Nat)
  | 0, _ => []
  | limit + 1, id =>
    match reg.parent? id with
    | none => []
    | some (parent, index) => (parent, index) :: pathUp reg limit parent

/-- The way from an occurrence to the root. A parent has a smaller identifier than its children, so
    the way is not longer than the identifier. -/
def ancestors (reg : Registry) (id : Nat) : List (Nat × Nat) :=
  reg.pathUp id id

/-- Whether an occurrence is another one or lies below it. -/
def isWithin (reg : Registry) (id ancestor : Nat) : Bool :=
  id == ancestor || (reg.ancestors id).any fun step => step.1 == ancestor

/-- The recoverer of an occurrence, if it is a leaf that has one. -/
def recoverer? (reg : Registry) (id : Nat) : Option Recoverer :=
  match reg.entries[id]? with
  | some { work := .leaf leaf, .. } => leaf.effectiveRecoverer
  | _ => none

/-- The safe spots whose waste is computed, in the order of their identifiers. -/
def fastAnchors (reg : Registry) : List (Nat × (State → Waste)) :=
  reg.entries.zipIdx.filterMap fun (entry, id) =>
    match entry.work with
    | .leaf leaf =>
      match leaf.safeSpot, leaf.effectiveRecoverer with
      | true, some (.fast waste) => some (id, waste)
      | _, _ => none
    | .branch _ => none

/-- The safe spots that are probed, in the order of their identifiers. -/
def stepAnchors (reg : Registry) : List Nat :=
  reg.entries.zipIdx.filterMap fun (entry, id) =>
    match entry.work with
    | .leaf leaf =>
      match leaf.safeSpot, leaf.effectiveRecoverer with
      | true, some .step => some id
      | _, _ => none
    | .branch _ => none

end Registry

end Resync
