import Resync.Defect

namespace Resync

/-- The outputs of the children of a sequence, by position. A slot that no child has filled reads as
    the placeholder of whatever type is asked for. -/
structure Slots where
  outputs : List (Option Output)

namespace Slots

/-- Slots for a number of children, none of them filled. -/
def empty (count : Nat) : Slots :=
  ⟨List.replicate count none⟩

/-- Fills the slot of a child. -/
def put (slots : Slots) (index : Nat) (o : Output) : Except Defect Slots :=
  if index < slots.outputs.length then .ok ⟨slots.outputs.set index (some o)⟩
  else .error (.noSuchChild index)

/-- Takes the output out of a slot, or the placeholder if there is none. -/
def take (slots : Slots) (index : Nat) (t : Ty) : Except Defect (t.Val × Slots) :=
  match slots.outputs[index]? with
  | none => .error (.noSuchChild index)
  | some none => .ok (t.placeholder, slots)
  | some (some o) =>
    match o.as? t with
    | some value => .ok (value, ⟨slots.outputs.set index none⟩)
    | none => .error (.slotType t)

/-- Takes several outputs in the given order, each at the given type. -/
def takeAll : (requests : List (Nat × Ty)) → Slots → Except Defect (Ty.Vals (requests.map Prod.snd))
  | [], _ => .ok ()
  | (index, t) :: requests, slots => do
    let (value, slots) ← slots.take index t
    let values ← takeAll requests slots
    return (value, values)

end Slots

end Resync
