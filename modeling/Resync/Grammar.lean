import Resync.Leaf
import Resync.Rule

namespace Resync

/-- A grammar as it is written down: leaves and branches, parsers shared under a name, parsers that
    refer to themselves, and parsers whose construction is deferred until they are needed.
    Assembling turns it into a graph. -/
inductive Grammar where
  | leaf (leaf : Leaf)
  | branch (label : String) (rule : Rule) (children : List Grammar)
  /-- A leaf as a safe spot. -/
  | safe (leaf : Grammar)
  /-- The parser of a name in scope. -/
  | named (name : String)
  /-- Builds one parser and shares it in the body under a name. -/
  | sharing (name : String) (definition body : Grammar)
  /-- A parser that is known to its own definition under a name. -/
  | recursive (name : String) (definition : Grammar)
  /-- A parser that is built when it is first needed. -/
  | deferred (definition : Grammar)

namespace Grammar

/-- The number of construction steps that a grammar takes. -/
def size : Grammar → Nat
  | leaf _ => 1
  | branch _ _ children => 1 + sizes children
  | safe g => 1 + g.size
  | named _ => 1
  | sharing _ definition body => 1 + definition.size + body.size
  | recursive _ definition => 1 + definition.size
  | deferred definition => 1 + definition.size
where
  sizes : List Grammar → Nat
    | [] => 0
    | g :: gs => g.size + sizes gs

end Grammar

end Resync
