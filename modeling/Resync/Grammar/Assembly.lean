import Resync.Grammar
import Resync.Graph

namespace Resync

/-- A place of a graph under construction. -/
inductive Cell where
  | finished (node : Node)
  /-- A recursive parser whose definition is not complete. -/
  | undefined
  /-- A deferred parser that was not needed so far, with the names it may use. -/
  | pending (scope : List (String × Nat)) (definition : Grammar)
  /-- A deferred parser that is being built. -/
  | underway

/-- A graph under construction. The children of a branch are built before it, from left to right. A
    deferred parser is built when a safe spot is made of it or when the finished grammar is walked,
    in the order of the walk, and only once. -/
structure Assembly where
  cells : List Cell
  /-- How many deferred parsers have been built. -/
  deferredBuilds : Nat

/-- A finished grammar. -/
structure Assembled where
  graph : Graph
  /-- How many deferred parsers were built. -/
  deferredBuilds : Nat

namespace Assembly

/-- Adds a cell and returns its place. -/
def add (a : Assembly) (cell : Cell) : Nat × Assembly :=
  (a.cells.length, { a with cells := a.cells ++ [cell] })

def set (a : Assembly) (place : Nat) (cell : Cell) : Assembly :=
  { a with cells := a.cells.set place cell }

/-- Builds several grammars from left to right, given how one is built. -/
def buildAll (build : Grammar → Assembly → Except Fault (Nat × Assembly)) :
    List Grammar → Assembly → Except Fault (List Nat × Assembly)
  | [], a => .ok ([], a)
  | g :: gs, a => do
    let (place, a) ← build g a
    let (places, a) ← buildAll build gs a
    return (place :: places, a)

/-- Makes a safe spot of the finished parser at a place. -/
def promote (a : Assembly) (place : Nat) : Except Fault (Nat × Assembly) :=
  match a.cells[place]? with
  | some (.finished (.leaf leaf)) =>
    match leaf.toSafeSpot with
    | .ok leaf => .ok (a.add (.finished (.leaf leaf)))
    | .error defect => .error (.defect defect)
  | some (.finished (.branch label _ _)) => .error (.defect (.safeSpotOverBranch label))
  | _ => .error (.defect (.noSuchParser place))

mutual

/-- Builds a grammar, given the places of the names in scope, and returns its place. -/
def build : (fuel : Nat) → (scope : List (String × Nat)) → Grammar → Assembly →
    Except Fault (Nat × Assembly)
  | 0, _, _, _ => .error .outOfFuel
  | fuel + 1, scope, g, a =>
    match g with
    | .leaf leaf => .ok (a.add (.finished (.leaf leaf)))
    | .branch label rule children => do
      let (places, a) ← buildAll (build fuel scope) children a
      if places.isEmpty then .error (.defect (.noChildren label))
      else return a.add (.finished (.branch label rule places))
    | .safe g => do
      let (place, a) ← build fuel scope g a
      let (place, a) ← force fuel place a
      a.promote place
    | .named name =>
      match scope.lookup name with
      | some place => .ok (place, a)
      | none => .error (.defect (.unboundName name))
    | .sharing name definition body => do
      let (place, a) ← build fuel scope definition a
      build fuel ((name, place) :: scope) body a
    | .recursive name definition => do
      let (handle, a) := a.add .undefined
      let (place, a) ← build fuel ((name, handle) :: scope) definition a
      if place = handle then .error (.defect .recursionIsSelf)
      else return (handle, a.set handle (.finished (.forward place)))
    | .deferred definition => .ok (a.add (.pending scope definition))

/-- Finds the parser that does the work of a place, building what was deferred. -/
def force : (fuel : Nat) → Nat → Assembly → Except Fault (Nat × Assembly)
  | 0, _, _ => .error .outOfFuel
  | fuel + 1, place, a =>
    match a.cells[place]? with
    | some (.finished (.forward target)) => force fuel target a
    | some (.finished _) => .ok (place, a)
    | some .undefined => .error (.defect .recursionUndefined)
    | some .underway => .error (.defect .deferredReentered)
    | some (.pending scope definition) => do
      let begun := { a.set place .underway with deferredBuilds := a.deferredBuilds + 1 }
      let (target, a) ← build fuel scope definition begun
      force fuel target (a.set place (.finished (.forward target)))
    | none => .error (.defect (.noSuchParser place))

end

/-- Walks several places from left to right, given how one is walked. -/
def walkAll (walk : Nat → List Nat × Assembly → Except Fault (List Nat × Assembly)) :
    List Nat → List Nat × Assembly → Except Fault (List Nat × Assembly)
  | [], reached => .ok reached
  | place :: places, reached => do
    let reached ← walk place reached
    walkAll walk places reached

/-- Builds everything deferred that can be reached from a place, a parent before its children and
    the children from left to right. Keeps the places that were reached. -/
def walk (fuel : Nat) : (depth : Nat) → Nat → List Nat × Assembly →
    Except Fault (List Nat × Assembly)
  | 0, _, _ => .error .outOfFuel
  | depth + 1, place, (seen, a) => do
    let (place, a) ← force fuel place a
    if seen.contains place then return (seen, a)
    else
      match a.cells[place]? with
      | some (.finished (.branch _ _ children)) =>
        walkAll (walk fuel depth) children (place :: seen, a)
      | _ => return (place :: seen, a)

/-- What a cell has become in the end. -/
def finish : Cell → Node
  | .finished node => node
  | .undefined | .pending _ _ | .underway => .unused

end Assembly

/-- A grammar as a graph, or the first defect that its construction meets. Every step of the
    construction builds another part of the grammar or follows one of its forwarding cells, so the
    square of its size bounds their number. -/
def Grammar.assemble (g : Grammar) : Except Fault Assembled := do
  let fuel := (g.size + 1) * (g.size + 1)
  let (root, a) ← Assembly.build fuel [] g ⟨[], 0⟩
  let (_, a) ← Assembly.walk fuel (g.size + 1) root ([], a)
  return ⟨⟨a.cells.map Assembly.finish, root⟩, a.deferredBuilds⟩

end Resync
