import Resync.Script
import Resync.Slots

namespace Resync

/-- What a branch does with its children: run them in sequence, convert the output of one, repeat
    one, or choose among several. A sequence and a repetition save what they have in the error that
    leaves them, so that they can go on from there when recovery resumes them; the other rules have
    nothing to keep. Each rule is given by its script. -/
inductive Rule where
  /-- Runs all children in order and combines their outputs. -/
  | sequence (result : Ty) (finish : Slots → Except Defect result.Val)
  /-- Converts the output of the only child. -/
  | map (source result : Ty) (f : source.Val → result.Val)
  /-- Converts the output of the only child, or rejects it. -/
  | tryMap (source result : Ty) (f : source.Val → Except String result.Val)
  /-- Repeats the only child until it fails. -/
  | many (item : Ty)
  /-- Takes the first child that succeeds. -/
  | firstSuccess (result : Ty)
  /-- Does what its script says. -/
  | bespoke (result : Ty) (script : View → Step → Script Result)

namespace Rule

section Sequence

variable (id : Nat) {result : Ty} (finish : Slots → Except Defect result.Val)

/-- A sequence that fails saves its start and its slots, and finishes with what it has. -/
def stopSequence (start stop : State) (slots : Slots) (e : ParseError) : Script Result := do
  let value ← Script.ofExcept (finish slots)
  return .failure start stop ⟨result, value⟩ (e.save id (.sequence start slots.outputs))

/-- Runs the children at the given positions, one after the other. -/
def fillSlots (start : State) : List Nat → Slots → State → Script Result
  | [], slots, s => do
    let value ← Script.ofExcept (finish slots)
    return .success start s ⟨result, value⟩
  | index :: indices, slots, s => do
    let child ← Script.child index s
    let slots ← Script.ofExcept (slots.put index child.output)
    match child.error with
    | some e => stopSequence id finish start child.stop slots e
    | none => fillSlots start indices slots child.stop

/-- What the sequence has saved, or a fresh start at the child. -/
def savedSequence (count : Nat) (r : Resumption) : State × Slots :=
  match r.saved with
  | some (.sequence start slots) => (start, ⟨slots⟩)
  | _ => (r.child.start, Slots.empty count)

/-- A resumed sequence puts the outcome of the child into its slot. It goes on with the children
    after it, or hands up its error. -/
def sequenceScript (count : Nat) : Step → Script Result
  | .descend s => fillSlots id finish s (List.range count) (Slots.empty count) s
  | .resume r => do
    let (start, slots) := savedSequence count r
    let slots ← Script.ofExcept (slots.put r.index r.child.output)
    match r.child.error with
    | some e => stopSequence id finish start r.child.stop slots e
    | none =>
      let indices := List.range' (r.index + 1) (count - (r.index + 1))
      fillSlots id finish start indices slots r.child.stop

end Sequence

/-- The outcome of the only child, run in a descent or handed over in a resumption. -/
def onlyChild : Step → Script Result
  | .descend s => Script.child 0 s
  | .resume r => return r.child

/-- Converts whatever the child gives, failed or not. -/
def mapScript (source result : Ty) (f : source.Val → result.Val) (step : Step) : Script Result := do
  let child ← onlyChild step
  let value ← Script.ofExcept (child.read source)
  return child.withOutput ⟨result, f value⟩

/-- Converts what the child gives. A rejected output of a successful child is an error at the start
    of the match; that of a failed child is only replaced. -/
def tryMapScript (source result : Ty) (f : source.Val → Except String result.Val) (step : Step) :
    Script Result := do
  let child ← onlyChild step
  let value ← Script.ofExcept (child.read source)
  match child.error, f value with
  | _, .ok converted => return child.withOutput ⟨result, converted⟩
  | some _, .error _ => return child.withOutput ⟨result, result.placeholder⟩
  | none, .error message =>
    return .failure child.start child.stop ⟨result, result.placeholder⟩
      (child.start.semanticError message)

/-- A repetition that fails saves its start and its items, which are also its output. -/
def stopRepetition (id : Nat) (item : Ty) (start stop : State) (items : List item.Val)
    (e : ParseError) : Result :=
  .failure start stop ⟨.list item, items⟩ (e.save id (.repetition start item items))

/-- What a repetition does that has collected `items` and stands at `s`. A failed attempt that
    crossed a safe spot is an item that was begun and propagates; any other ends the repetition. A
    match that consumes nothing is an error. The bound is one more than the bytes that remain. It
    relies on leaves that end where they start or further on, as the state after a match does: then
    every item takes a byte at least, and the bound is not reached. -/
def repeatItem (id : Nat) (item : Ty) (start : State) :
    Nat → List item.Val → State → Script Result
  | 0, _, _ => Script.fault .outOfFuel
  | bound + 1, items, s => do
    let child ← Script.child 0 s
    let value ← Script.ofExcept (child.read item)
    match child.error with
    | some e =>
      if child.stop.crossedSafeSpotSince s then
        return stopRepetition id item start child.stop items e
      else return .success start s ⟨.list item, items⟩
    | none =>
      if child.stop.pos = s.pos then
        return .failure start s ⟨.list item, items⟩
          (s.semanticError "repeated parser consumed no input")
      else repeatItem id item start bound (items ++ [value]) child.stop

/-- What the repetition has saved, or a fresh start at the child. -/
def savedRepetition (item : Ty) (r : Resumption) : State × List item.Val :=
  match r.saved with
  | some (.repetition start t items) =>
    if h : t = item then (start, h ▸ items) else (r.child.start, [])
  | _ => (r.child.start, [])

/-- A resumed repetition adds the outcome of the child to its items. It goes on behind it, or hands
    up its error. -/
def manyScript (id : Nat) (item : Ty) : Step → Script Result
  | .descend s => repeatItem id item s (s.remaining + 1) [] s
  | .resume r => do
    let (start, items) := savedRepetition item r
    let value ← Script.ofExcept (r.child.read item)
    let items := items ++ [value]
    match r.child.error with
    | some e => return stopRepetition id item start r.child.stop items e
    | none => repeatItem id item start (r.child.stop.remaining + 1) items r.child.stop

/-- Tries the children at the given positions. One that failed after crossing a safe spot is
    committed, and the rest is not tried. When all fail, the error names all labels. -/
def tryChildren (result : Ty) (labels : List String) (s : State) : List Nat → Script Result
  | [] =>
    return .failure s s ⟨result, result.placeholder⟩
      (s.syntaxError (" or ".intercalate labels))
  | index :: indices => do
    let child ← Script.child index s
    let _ ← Script.ofExcept (child.read result)
    if child.isOk || child.stop.crossedSafeSpotSince s then return child
    else tryChildren result labels s indices

/-- A resumed choice hands up the outcome of the child that it had chosen. -/
def firstSuccessScript (result : Ty) (view : View) : Step → Script Result
  | .descend s => tryChildren result view.labels s (List.range view.labels.length)
  | .resume r => do
    let _ ← Script.ofExcept (r.child.read result)
    return r.child

/-- What a branch under this rule does. -/
def script (rule : Rule) (view : View) (step : Step) : Script Result :=
  match rule with
  | sequence _ finish => sequenceScript view.id finish view.labels.length step
  | map source result f => mapScript source result f step
  | tryMap source result f => tryMapScript source result f step
  | many item => manyScript view.id item step
  | firstSuccess result => firstSuccessScript result view step
  | bespoke _ script => script view step

/-- A sequence that takes the given slots, in order, and combines what they hold. -/
def combine (requests : List (Nat × Ty)) (result : Ty)
    (f : Ty.Vals (requests.map Prod.snd) → result.Val) : Rule :=
  sequence result fun slots => (slots.takeAll requests).map f

/-- The type of the outputs of a branch under this rule. -/
def resultType : Rule → Ty
  | sequence result _ | map _ result _ | tryMap _ result _ | firstSuccess result
  | bespoke result _ => result
  | many item => .list item

end Rule

end Resync
