import Resync.Leaf
import Resync.Rule

namespace Resync

/-- One parser of a graph. -/
inductive Node where
  | leaf (leaf : Leaf)
  | branch (label : String) (rule : Rule) (children : List Nat)
  /-- Stands for another parser. -/
  | forward (target : Nat)
  /-- A parser that was never needed, and so never built. -/
  | unused

/-- The parsers of a finished grammar in a row, with children named by their place in the row. A
    parser may be a child in several places and, through forwarding nodes, below itself. -/
structure Graph where
  nodes : List Node
  root : Nat

namespace Graph

/-- Follows forwarding nodes, at most `limit` of them, to the parser that does the work. -/
def follow (g : Graph) : (limit : Nat) → Nat → Except Fault Nat
  | limit, place =>
    match g.nodes[place]? with
    | none => .error (.defect (.noSuchParser place))
    | some (.forward target) =>
      match limit with
      | 0 => .error .outOfFuel
      | limit + 1 => follow g limit target
    | some _ => .ok place

/-- The place of the parser that does the work of `place`. Only a cycle of forwarding nodes is
    longer than the graph. -/
def resolve (g : Graph) (place : Nat) : Except Fault Nat :=
  g.follow g.nodes.length place

end Graph

end Resync
