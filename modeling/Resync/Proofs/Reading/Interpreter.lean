import Resync.Graph
import Resync.Proofs.Registry.Labels

namespace Resync

/-- What went wrong, and where. -/
structure Mismatch where
  kind : ErrorKind
  message : String
  position : Nat

/-- What a parser makes of an input from an offset on. -/
structure Reading where
  stop : Nat
  output : Output
  mismatch : Option Mismatch
  /-- Whether a safe spot has matched on the way. -/
  cut : Bool

/-- What several readings in a row come to, of which only the last may be a failure. -/
structure Passage (α : Type) where
  collected : List α
  stop : Nat
  mismatch : Option Mismatch
  cut : Bool

/-- Reads an input from an offset on. -/
abbrev Reader : Type := Nat → Except Fault Reading

/-- The error without what it carries for reports and recovery. -/
def ParseError.mismatch (e : ParseError) : Mismatch :=
  ⟨e.kind, e.message, e.position⟩

/-- The output of a reading, which has to be of the type that is expected. -/
def Reading.value (r : Reading) (expected : Ty) : Except Fault expected.Val :=
  match r.output.as? expected with
  | some value => .ok value
  | none => .error (.defect (.outputType expected))

/-- A passage with one more reading in front of it. -/
def Passage.behind {α : Type} (p : Passage α) (a : α) (cut : Bool) : Passage α :=
  { p with collected := a :: p.collected, cut := cut || p.cut }

/-- A reading with a part in front of it that may have made a cut. -/
def Reading.behind (r : Reading) (cut : Bool) : Reading :=
  { r with cut := cut || r.cut }

/-- A passage as one reading. -/
def Passage.reading {α : Type} (p : Passage α) (output : Output) : Reading :=
  ⟨p.stop, output, p.mismatch, p.cut⟩

namespace Reader

/-- Reads one after the other, up to the first that fails. -/
def inOrder : List Reader → Nat → Except Fault (Passage Output)
  | [], pos => .ok ⟨[], pos, none, false⟩
  | reader :: readers, pos => do
    let r ← reader pos
    match r.mismatch with
    | some m => return ⟨[r.output], r.stop, some m, r.cut⟩
    | none =>
      let p ← inOrder readers r.stop
      return p.behind r.output r.cut

/-- The outputs that were collected, followed by empty slots for those that were not reached. -/
def slots (count : Nat) (outputs : List Output) : Slots :=
  ⟨outputs.map some ++ List.replicate (count - outputs.length) none⟩

/-- Combines outputs with those of a passage behind them. -/
def combine {result : Ty} (finish : Slots → Except Defect result.Val) (count : Nat)
    (outputs : List Output) (p : Passage Output) : Except Fault Reading := do
  let value ← (finish (slots count (outputs ++ p.collected))).mapError .defect
  return p.reading ⟨result, value⟩

/-- Reads all in order and combines the outputs. -/
def sequence {result : Ty} (finish : Slots → Except Defect result.Val) (readers : List Reader) :
    Reader := fun pos => do
  let p ← inOrder readers pos
  combine finish readers.length [] p

/-- The only reader there should be. -/
def only : List Reader → Reader
  | reader :: _ => reader
  | [] => fun _ => .error (.defect (.noSuchChild 0))

/-- Converts what was read. -/
def map (source result : Ty) (f : source.Val → result.Val) (reader : Reader) : Reader :=
  fun pos => do
    let r ← reader pos
    let value ← r.value source
    return { r with output := ⟨result, f value⟩ }

/-- Converts what was read, or rejects it where it began. -/
def tryMap (source result : Ty) (f : source.Val → Except String result.Val) (reader : Reader) :
    Reader := fun pos => do
  let r ← reader pos
  let value ← r.value source
  match f value with
  | .ok converted => return { r with output := ⟨result, converted⟩ }
  | .error message =>
    return { r with
      output := ⟨result, result.placeholder⟩
      mismatch := r.mismatch.or (some ⟨.semantic, message, pos⟩) }

/-- Reads the same again and again, at most `bound` times. An attempt that fails without a cut ends
    the repetition before it. -/
def repeated (item : Ty) (reader : Reader) : (bound : Nat) → Nat →
    Except Fault (Passage item.Val)
  | 0, _ => .error .outOfFuel
  | bound + 1, pos => do
    let r ← reader pos
    let value ← r.value item
    match r.mismatch with
    | some m => return if r.cut then ⟨[], r.stop, some m, true⟩ else ⟨[], pos, none, false⟩
    | none =>
      if r.stop = pos then
        return ⟨[], pos, some ⟨.semantic, "repeated parser consumed no input", pos⟩, r.cut⟩
      else
        let p ← repeated item reader bound r.stop
        return p.behind value r.cut

/-- Gives items with those of a passage behind them. -/
def list {item : Ty} (items : List item.Val) (p : Passage item.Val) : Except Fault Reading :=
  return p.reading ⟨.list item, items ++ p.collected⟩

/-- Repeats the only reader. Every item takes a byte at least, which bounds their number. -/
def many (item : Ty) (size : Nat) (reader : Reader) : Reader := fun pos => do
  let p ← repeated item reader (size - pos + 1) pos
  list [] p

/-- Tries one after the other, up to the first that succeeds or makes a cut. -/
def choice (result : Ty) (expected : String) : List Reader → Reader
  | [], pos =>
    return ⟨pos, ⟨result, result.placeholder⟩, some ⟨.syntactic, expected, pos⟩, false⟩
  | reader :: readers, pos => do
    let r ← reader pos
    let _ ← r.value result
    if r.mismatch.isNone || r.cut then return r else choice result expected readers pos

end Reader

/-- A leaf reads with a new cursor. -/
def Leaf.read (leaf : Leaf) (input : Input) (pos : Nat) : Reading :=
  match leaf.run { State.start input with pos } with
  | .ok (stop, value) => ⟨stop.pos, ⟨leaf.type, value⟩, none, leaf.safeSpot⟩
  | .error e => ⟨pos, ⟨leaf.type, leaf.type.placeholder⟩, some e.mismatch, false⟩

/-- How a branch is read, given how its children are. A script of free choice has no reading. -/
def Rule.reader (rule : Rule) (size : Nat) (labels : List String) (readers : List Reader) :
    Reader :=
  match rule with
  | sequence _ finish => Reader.sequence finish readers
  | map source result f => Reader.map source result f (Reader.only readers)
  | tryMap source result f => Reader.tryMap source result f (Reader.only readers)
  | many item => Reader.many item size (Reader.only readers)
  | firstSuccess result =>
    Reader.choice result ("expected \"" ++ " or ".intercalate labels ++ "\"") readers
  | bespoke _ _ => fun _ => .error .outOfFuel

/-- Reads an input from an offset on with the parser at a place. -/
def Graph.read (g : Graph) (input : Input) : (depth : Nat) → (place : Nat) → Reader
  | 0, _, _ => .error .outOfFuel
  | depth + 1, place, pos => do
    let place ← g.resolve place
    match g.nodes[place]? with
    | some (.leaf leaf) => return leaf.read input pos
    | some (.branch _ rule children) =>
      rule.reader input.size (children.map g.label) (children.map (g.read input depth)) pos
    | some (.forward _) | some .unused | none => .error (.defect (.noSuchParser place))

namespace Graph

variable {g : Graph} {input : Input} {depth place actual pos : Nat}

/-- Where a leaf does the work of a place, it reads with a new cursor. -/
theorem read_leaf {leaf : Leaf} (hresolve : g.resolve place = .ok actual)
    (hnode : g.nodes[actual]? = some (.leaf leaf)) :
    g.read input (depth + 1) place pos = .ok (leaf.read input pos) := by
  rw [read, hresolve]
  simp only [bind, Except.bind, hnode]
  rfl

/-- Where a branch does the work of a place, it is read by its rule from the readings of its
    children. -/
theorem read_branch {label : String} {rule : Rule} {children : List Nat}
    (hresolve : g.resolve place = .ok actual)
    (hnode : g.nodes[actual]? = some (.branch label rule children)) :
    g.read input (depth + 1) place pos =
      rule.reader input.size (children.map g.label) (children.map (g.read input depth)) pos := by
  rw [read, hresolve]
  simp only [bind, Except.bind, hnode]

end Graph

end Resync
