import Resync.Grammar.Assembly
import Resync.Recovery.Rounds

namespace Resync

/-- A parser whose outputs have type `t`. -/
structure Parser (t : Ty) where
  grammar : Grammar

/-- A parser of a given output type that was walked once and is ready to run on any number of
    inputs. A run gives an output, which may be degraded, and all errors; the stricter form refuses
    any error. -/
structure Prepared (t : Ty) where
  registry : Registry
  /-- How many deferred parsers were built for it. -/
  deferredBuilds : Nat

/-- Assembles a parser and registers everything that can be reached from it. -/
def Parser.prepare {t : Ty} (parser : Parser t) : Except Fault (Prepared t) := do
  let assembled ← parser.grammar.assemble
  let registry ← Registry.ofGraph assembled.graph
  return ⟨registry, assembled.deferredBuilds⟩

namespace Prepared

variable {t : Ty} (p : Prepared t)

/-- The number of occurrences of parsers. -/
def nodeCount : Nat :=
  p.registry.size

/-- The numbers of safe spots whose waste is computed, and of those that are probed. -/
def anchorCounts : Nat × Nat :=
  (p.registry.fastAnchors.length, p.registry.stepAnchors.length)

/-- The label of the whole parser. -/
def label : String :=
  p.registry.label 0

/-- The leaf that the whole parser is, if it is one. -/
def leaf? : Option Leaf :=
  match p.registry.entries.head? with
  | some { work := .leaf leaf, .. } => some leaf
  | _ => none

def isLeaf : Bool :=
  p.leaf?.isSome

def isSafeSpot : Bool :=
  p.leaf?.any (·.safeSpot)

/-- A depth that parsers do not exceed which consume something before they recur: between two
    bytes, no occurrence can enclose itself. -/
def depthBound (input : Input) : Nat :=
  (p.registry.size + 1) * (input.size + 2)

def session (input : Input) : Session :=
  ⟨p.registry, p.depthBound input, input.maxErrors⟩

/-- Runs the parser and keeps the events of the run. -/
def trace (cache : WasteCache) (input : Input) : Traced (t.Val × List ParseError) := do
  let (output, errors) ← (p.session input).execute cache (State.start input)
  match output.as? t with
  | some value => return (value, errors)
  | none => Traced.ofExcept (.error (.outputType t))

/-- The output, degraded where there are errors, and the errors by position. -/
def run (input : Input) : Except Fault (t.Val × List ParseError) :=
  (p.trace .empty input).result

/-- The output, if there are no errors. -/
def parse (input : Input) : Except Fault (Except (List ParseError) t.Val) := do
  let (output, errors) ← p.run input
  return if errors.isEmpty then .ok output else .error errors

/-- The message of a parse that was refused. -/
def failureMessage (errors : List ParseError) : String :=
  "parsing failed with " ++ toString errors.length ++ " errors"

end Prepared

end Resync
