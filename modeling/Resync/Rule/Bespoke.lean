import Resync.Rule
import Resync.Diagnostic

namespace Resync.Rule

/-- The output of a child as plain data, read at a given type if there is one. -/
def readData (expected : Option Ty) (child : Result) : Script Data :=
  match expected with
  | some t => do
    let value ← Script.ofExcept (child.read t)
    return t.toData value
  | none => return child.output.toData

/-- The outcome with other data as its output. -/
def withData (r : Result) (d : Data) : Result :=
  r.withOutput ⟨.data, d⟩

/-- What a resumed pair has saved, if it is plain data. -/
def savedData? (r : Resumption) : Option Data :=
  match r.saved with
  | some (.output o) => o.as? .data
  | _ => none

/-- Two children in order. When the second fails, the pair saves the first output, as data or as
    text only; text is not found again on resumption. Like the other rules of this kind it does what
    no sequence, choice or repetition does, and gives plain data. -/
def pair (expected : Option Ty) (savesText : Bool) : Rule :=
  .bespoke .data fun view step =>
    match step with
    | .descend s => do
      Script.remark ("descend#" ++ toString view.id ++ "@" ++ toString s.pos)
      let first ← Script.child 0 s
      let a ← readData expected first
      if first.isOk then
        let second ← Script.child 1 first.stop
        let b ← readData none second
        let kept : Output := if savesText then ⟨.text, a.toText⟩ else ⟨.data, a⟩
        return {
          start := s, stop := second.stop, output := ⟨.data, .array [a, b]⟩
          error := second.error.map (·.save view.id (.output kept)) }
      else return withData first (.array [a, .null])
    | .resume r => do
      let a := savedData? r
      Script.remark
        ("resume#" ++ toString view.id ++ "[" ++ toString r.index ++ "]@" ++
          toString r.child.start.pos ++ " saved=" ++ (a.map Data.print).getD "-" ++ " again=false")
      return withData r.child (.array [a.getD .null, r.child.output.toData])

/-- Rejects whatever its child parsed. -/
def rejecting (expected : Option Ty) (message : String) : Rule :=
  .bespoke .data fun _ step =>
    match step with
    | .descend s => do
      let child ← Script.child 0 s
      let d ← readData expected child
      return { withData child d with error := some (s.semanticError message) }
    | .resume r => return withData r.child r.child.output.toData

/-- A child that may be missing, unless it was begun and crossed a safe spot. -/
def optional (expected : Option Ty) : Rule :=
  .bespoke .data fun _ step =>
    match step with
    | .descend s => do
      let child ← Script.child 0 s
      let d ← readData expected child
      if child.isOk || child.stop.crossedSafeSpotSince s then return withData child d
      else return .success s s ⟨.data, .null⟩
    | .resume r => return withData r.child r.child.output.toData

/-- A child that is parsed without moving the cursor. -/
def lookahead (expected : Option Ty) : Rule :=
  .bespoke .data fun _ step =>
    match step with
    | .descend s => do
      let child ← Script.child 0 s
      let d ← readData expected child
      return { withData child d with start := s, stop := s }
    | .resume r => return withData r.child r.child.output.toData

/-- Runs the children in order up to the first that fails and remarks on the extent of each. -/
def inspectChildren : List Nat → State → Script (State × Option ParseError)
  | [], s => return (s, none)
  | index :: indices, s => do
    let child ← Script.child index s
    Script.remark (Diagnostic.ofExtent child.start child.stop child.error)
    match child.error with
    | some e => return (child.stop, some e)
    | none => inspectChildren indices child.stop

/-- What a branch can see of itself, as data. -/
def viewData (view : View) : Data :=
  .object
    [("empty", .bool view.labels.isEmpty), ("id", .number view.id),
     ("labels", .array (view.labels.map .text)), ("len", .number view.labels.length)]

/-- Shows what it can see of itself, and remarks on its children. -/
def inspecting : Rule :=
  .bespoke .data fun view step =>
    match step with
    | .descend s => do
      let (stop, error) ← inspectChildren (List.range view.labels.length) s
      return { start := s, stop, output := ⟨.data, viewData view⟩, error }
    | .resume r => return withData r.child (.array [.number r.index, r.child.output.toData])

end Resync.Rule
