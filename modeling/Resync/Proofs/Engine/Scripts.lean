import Resync.Proofs.Engine.Steps
import Resync.Proofs.Traced.Ensures

namespace Resync.Rule

variable {run : Nat → State → Traced Result} {id : Nat} {start s : State} {child : Result}
  {e : ParseError}

section Sequence

variable {result : Ty} {finish : Slots → Except Defect result.Val} {index : Nat}
  {indices : List Nat} {slots slots' : Slots} {value : result.Val}

/-- All children have been run, and the outputs are combined into that of the sequence. -/
theorem exec_fillSlots_nil (hfinish : finish slots = .ok value) :
    ((fillSlots id finish start [] slots s).exec run).result =
      .ok (.success start s ⟨result, value⟩) := by
  rw [fillSlots, hfinish]
  rfl

/-- Behind a child that has succeeded the sequence goes on, with the output in the slot of the
    child. -/
theorem exec_fillSlots_of_success (hchild : (run index s).result = .ok child)
    (hput : slots.put index child.output = .ok slots') (hok : child.error = none) :
    ((fillSlots id finish start (index :: indices) slots s).exec run).result =
      ((fillSlots id finish start indices slots' child.stop).exec run).result := by
  rw [fillSlots, Script.exec_bind, Script.exec_child, Traced.bind_of_result_eq_ok hchild, hput, hok]
  rfl

/-- At a child that has failed the sequence saves its slots and finishes with them, so the
    placeholder of the child is read in its place. -/
theorem exec_fillSlots_of_failure (hchild : (run index s).result = .ok child)
    (hput : slots.put index child.output = .ok slots') (hfailed : child.error = some e)
    (hfinish : finish slots' = .ok value) :
    ((fillSlots id finish start (index :: indices) slots s).exec run).result =
      .ok (.failure start child.stop ⟨result, value⟩ (e.save id (.sequence start slots'.outputs))) := by
  rw [fillSlots, Script.exec_bind, Script.exec_child, Traced.bind_of_result_eq_ok hchild, hput,
    hfailed]
  change ((stopSequence id finish start child.stop slots' e).exec run).result = _
  rw [stopSequence, hfinish]
  rfl

end Sequence

section Repetition

variable {item : Ty} {items : List item.Val} {bound : Nat} {value : item.Val}

private theorem exec_repeatItem (hchild : (run 0 s).result = .ok child)
    (hread : child.read item = .ok value) :
    ((repeatItem id item start (bound + 1) items s).exec run).result =
      ((match child.error with
        | some e =>
          if child.stop.crossedSafeSpotSince s then
            return stopRepetition id item start child.stop items e
          else return .success start s ⟨.list item, items⟩
        | none =>
          if child.stop.pos = s.pos then
            return .failure start s ⟨.list item, items⟩
              (s.semanticError "repeated parser consumed no input")
          else repeatItem id item start bound (items ++ [value]) child.stop :
            Script Result).exec run).result := by
  rw [repeatItem, Script.exec_bind, Script.exec_child, Traced.bind_of_result_eq_ok hchild, hread]
  rfl

/-- Behind a match that has consumed something the repetition goes on, with one more item. -/
theorem exec_repeatItem_of_success (hchild : (run 0 s).result = .ok child)
    (hread : child.read item = .ok value) (hok : child.error = none)
    (hmoved : child.stop.pos ≠ s.pos) :
    ((repeatItem id item start (bound + 1) items s).exec run).result =
      ((repeatItem id item start bound (items ++ [value]) child.stop).exec run).result := by
  rw [exec_repeatItem hchild hread, hok]
  dsimp only
  rw [if_neg hmoved]

/-- A failure that has crossed a safe spot is handed up with the items, as the repetition is
    committed to it. -/
theorem exec_repeatItem_of_crossed (hchild : (run 0 s).result = .ok child)
    (hread : child.read item = .ok value) (hfailed : child.error = some e)
    (hcrossed : child.stop.crossedSafeSpotSince s = true) :
    ((repeatItem id item start (bound + 1) items s).exec run).result =
      .ok (stopRepetition id item start child.stop items e) := by
  rw [exec_repeatItem hchild hread, hfailed]
  dsimp only
  rw [if_pos hcrossed]
  rfl

/-- Any other failure ends the repetition with the items that it has, where the attempt began. -/
theorem exec_repeatItem_of_uncrossed (hchild : (run 0 s).result = .ok child)
    (hread : child.read item = .ok value) (hfailed : child.error = some e)
    (hcrossed : child.stop.crossedSafeSpotSince s = false) :
    ((repeatItem id item start (bound + 1) items s).exec run).result =
      .ok (.success start s ⟨.list item, items⟩) := by
  rw [exec_repeatItem hchild hread, hfailed]
  dsimp only
  rw [hcrossed, if_neg Bool.false_ne_true]
  rfl

end Repetition

section Choice

variable {result : Ty} {labels : List String} {index : Nat} {indices : List Nat}
  {value : result.Val}

private theorem exec_tryChildren (hchild : (run index s).result = .ok child)
    (hread : child.read result = .ok value) :
    ((tryChildren result labels s (index :: indices)).exec run).result =
      ((if child.isOk || child.stop.crossedSafeSpotSince s then return child
        else tryChildren result labels s indices : Script Result).exec run).result := by
  rw [tryChildren, Script.exec_bind, Script.exec_child, Traced.bind_of_result_eq_ok hchild, hread]
  rfl

/-- A child that has crossed a safe spot is taken, failed or not, as the choice is committed to
    it. -/
theorem exec_tryChildren_of_crossed (hchild : (run index s).result = .ok child)
    (hread : child.read result = .ok value) (hcrossed : child.stop.crossedSafeSpotSince s = true) :
    ((tryChildren result labels s (index :: indices)).exec run).result = .ok child := by
  rw [exec_tryChildren hchild hread, hcrossed, Bool.or_true, if_pos rfl]
  rfl

/-- A child that has failed otherwise is passed over, and the next one is tried from the same
    cursor. -/
theorem exec_tryChildren_of_uncrossed (hchild : (run index s).result = .ok child)
    (hread : child.read result = .ok value) (hfailed : child.error = some e)
    (hcrossed : child.stop.crossedSafeSpotSince s = false) :
    ((tryChildren result labels s (index :: indices)).exec run).result =
      ((tryChildren result labels s indices).exec run).result := by
  have hok : child.isOk = false := by
    rw [Result.isOk, hfailed]
    rfl
  rw [exec_tryChildren hchild hread, hok, hcrossed, Bool.or_false, if_neg Bool.false_ne_true]

end Choice

end Resync.Rule
