import Resync.Proofs.Engine.Cursors
import Resync.Proofs.Reading.Watermark
import Resync.Proofs.Traced.Goes

namespace Resync

/-- A way to run a parser from any cursor goes like a reader. -/
def Reader.Serves (reg : Registry) (input : Input) (run : State → Traced Result)
    (reader : Reader) : Prop :=
  ∀ s : State, s.Starts input → (run s).Goes (reader s.pos) (Reading.Tells reg s s)

namespace Rule

variable {reg : Registry} {input : Input} {run : Nat → State → Traced Result} {start s : State}
  {id : Nat}

/-- The error of a semantic step stands where the step says, with its message. -/
theorem mismatch_semanticError (hs : s.Starts input) (message : String) :
    (s.semanticError message).mismatch = ⟨.semantic, message, s.pos⟩ := by
  have hpos : min s.pos s.input.size = s.pos := by
    rw [hs.input_eq]
    exact Nat.min_eq_left hs.pos_le_size
  rw [State.semanticError, State.errorHere, ParseError.mismatch, hpos]

/-- The error of a leaf stands at its cursor, and says what was expected. -/
theorem mismatch_syntaxError (hs : s.Starts input) (label : String) :
    (s.syntaxError label).mismatch = ⟨.syntactic, "expected \"" ++ label ++ "\"", s.pos⟩ := by
  have hpos : min s.pos s.input.size = s.pos := by
    rw [hs.input_eq]
    exact Nat.min_eq_left hs.pos_le_size
  rw [State.syntaxError, State.errorHere, ParseError.mismatch, hpos]

section Sequence

variable {result : Ty} {finish : Slots → Except Defect result.Val}

/-- The next output goes into the slot behind those that were collected. -/
theorem put_slots {count : Nat} {collected : List Output} (h : collected.length < count)
    (o : Output) : (Reader.slots count collected).put collected.length o =
      .ok (Reader.slots count (collected ++ [o])) := by
  have hrest : count - collected.length = count - (collected.length + 1) + 1 := by omega
  unfold Slots.put Reader.slots
  dsimp only
  rw [if_pos (by simp only [List.length_append, List.length_map, List.length_replicate]; omega)]
  rw [List.set_append_right _ _ (by simp), List.length_map, Nat.sub_self, hrest,
    List.replicate_succ, List.set_cons_zero, List.map_append, List.length_append, List.append_assoc]
  rfl

/-- A sequence has something collected already when it goes on. Its reading is the same as if the
    output were still to come. -/
private theorem combine_behind (count : Nat) (outputs : List Output) (p : Passage Output)
    (o : Output) (cut : Bool) :
    Reader.combine finish count outputs (p.behind o cut) = (do
      let v ← Reader.combine finish count (outputs ++ [o]) p
      return v.behind cut) := by
  simp only [Reader.combine, bind_assoc, pure_bind, Passage.behind, Passage.reading, Reading.behind,
    List.append_assoc, List.singleton_append]

/-- Filling the slots from some child on is reading the rest in order, with what has been collected
    in front. -/
theorem goes_fillSlots {readers : List Reader} {count : Nat} (collected : List Output)
    (hcount : count = collected.length + readers.length)
    (hrun : ∀ index reader, readers[index]? = some reader →
      Reader.Serves reg input (run (collected.length + index)) reader) (hs : s.Starts input) :
    ((fillSlots id finish start (List.range' collected.length readers.length)
      (Reader.slots count collected) s).exec run).Goes
      (Reader.inOrder readers s.pos >>= Reader.combine finish count collected)
      (Reading.Tells reg start s) := by
  induction readers generalizing collected s with
  | nil =>
    change ((Script.ofExcept (finish (Reader.slots count collected)) >>= fun value =>
        pure (Result.success start s ⟨result, value⟩)).exec run).Goes
      ((finish (Reader.slots count (collected ++ []))).mapError .defect >>= fun value =>
        pure (Reading.mk s.pos ⟨result, value⟩ none false)) _
    rw [List.append_nil]
    refine Script.goes_ofExcept_bind fun value _ => ?_
    exact Traced.goes_pure (Reading.tells_stay hs rfl rfl rfl rfl rfl rfl)
  | cons reader readers ih =>
    rw [List.length_cons] at hcount
    rw [List.length_cons, List.range'_succ, fillSlots, Script.exec_bind, Script.exec_child,
      Reader.inOrder, bind_assoc]
    refine (hrun 0 reader rfl s hs).bind fun child r htells => ?_
    rw [put_slots (by omega)]
    cases herror : child.error with
    | some e =>
      have hmismatch : r.mismatch = some e.mismatch := by
        rw [← htells.mismatch_eq, herror]
        rfl
      rw [hmismatch, htells.output_eq]
      change ((stopSequence id finish start child.stop _ e).exec run).Goes _ _
      refine Script.goes_ofExcept_bind fun value _ => ?_
      exact Traced.goes_pure (htells.remade rfl rfl rfl rfl rfl rfl)
    | none =>
      change ((fillSlots id finish start _ _ child.stop).exec run).Goes _ _
      rw [htells.error_eq_none_iff.1 herror, htells.output_eq]
      dsimp only
      simp only [bind_assoc, pure_bind, combine_behind]
      rw [← bind_assoc, ← htells.stop_eq]
      have hlength : (collected ++ [r.output]).length = collected.length + 1 := by simp
      have hlater (index : Nat) (later : Reader) (hlater : readers[index]? = some later) :
          Reader.Serves reg input (run (collected.length + 1 + index)) later := by
        rw [Nat.add_assoc, Nat.add_comm 1]
        exact hrun (index + 1) later hlater
      rw [← hlength] at hlater ⊢
      have hrest := ih (collected ++ [r.output]) (by omega) hlater (htells.leads.starts hs)
      exact hrest.map_right fun _ v hv => hv.behind htells.leads htells.cut_iff

end Sequence

/-- A repetition has items already when it goes on. Its reading is the same as if the last one were
    still to come. -/
private theorem list_behind {item : Ty} (items : List item.Val) (p : Passage item.Val)
    (value : item.Val) (cut : Bool) :
    Reader.list items (p.behind value cut) = (do
      let v ← Reader.list (items ++ [value]) p
      return v.behind cut) := by
  simp only [Reader.list, pure_bind, Passage.behind, Passage.reading, Reading.behind,
    List.append_assoc, List.singleton_append]

/-- Repeating the child is reading it again and again. The induction is on the bound, and an attempt
    without a cut ends both. -/
theorem goes_repeatItem {item : Ty} {reader : Reader}
    (hrun : Reader.Serves reg input (run 0) reader) (bound : Nat) (items : List item.Val)
    (hs : s.Starts input) :
    ((repeatItem id item start bound items s).exec run).Goes
      (Reader.repeated item reader bound s.pos >>= Reader.list items)
      (Reading.Tells reg start s) := by
  induction bound generalizing items s with
  | zero => exact Traced.goes_fault
  | succ bound ih =>
    rw [repeatItem, Script.exec_bind, Script.exec_child, Reader.repeated, bind_assoc]
    refine (hrun s hs).bind fun child r htells => ?_
    rw [← htells.read_eq, bind_assoc]
    refine Script.goes_ofExcept_bind fun value _ => ?_
    have hcrossed := htells.leads.crossedSafeSpotSince hs
    have hitems : (⟨.list item, items⟩ : Output) = ⟨.list item, items ++ []⟩ := by
      rw [List.append_nil]
    cases herror : child.error with
    | some e =>
      have hmismatch : r.mismatch = some e.mismatch := by
        rw [← htells.mismatch_eq, herror]
        rfl
      rw [hmismatch]
      dsimp only
      rw [hcrossed]
      cases hcut : r.cut with
      | true => exact Traced.goes_pure (htells.remade rfl rfl hitems rfl rfl hcut.symm)
      | false =>
        exact Traced.goes_pure
          (htells.abandoned hs hcut (Reading.tells_stay hs rfl rfl hitems rfl rfl rfl))
    | none =>
      rw [htells.error_eq_none_iff.1 herror]
      dsimp only
      rw [htells.stop_eq]
      split
      · next hstill =>
        have huncut := htells.leads.eq_false_of_pos_eq (htells.stop_eq.trans hstill)
        exact Traced.goes_pure (htells.abandoned hs huncut (Reading.tells_stay hs rfl rfl hitems
          (congrArg some (mismatch_semanticError hs _)) rfl huncut))
      · next hmoved =>
        simp only [bind_assoc, pure_bind, list_behind]
        rw [← bind_assoc, ← htells.stop_eq]
        exact (ih (items ++ [value]) (htells.leads.starts hs)).map_right
          fun _ v hv => hv.behind htells.leads htells.cut_iff

/-- Trying the children is reading the first that succeeds or makes a cut. The induction is on those
    that are left to try. -/
theorem goes_tryChildren {result : Ty} {labels : List String} {readers : List Reader} (first : Nat)
    (hrun : ∀ index reader, readers[index]? = some reader →
      Reader.Serves reg input (run (first + index)) reader) (hs : s.Starts input) :
    ((tryChildren result labels s (List.range' first readers.length)).exec run).Goes
      (Reader.choice result ("expected \"" ++ " or ".intercalate labels ++ "\"") readers s.pos)
      (Reading.Tells reg s s) := by
  induction readers generalizing first with
  | nil => exact Traced.goes_pure (Reading.tells_stay hs rfl rfl rfl
      (congrArg some (mismatch_syntaxError hs _)) rfl rfl)
  | cons reader readers ih =>
    rw [List.length_cons, List.range'_succ, tryChildren, Script.exec_bind, Script.exec_child,
      Reader.choice]
    refine (hrun 0 reader rfl s hs).bind fun child r htells => ?_
    rw [← htells.read_eq]
    refine Script.goes_ofExcept_bind fun value _ => ?_
    have hok : child.isOk = r.mismatch.isNone := by
      rw [← htells.mismatch_eq, Result.isOk, Option.isNone_map]
    rw [hok, htells.leads.crossedSafeSpotSince hs]
    split
    · exact Traced.goes_pure (htells.remade htells.start_eq rfl htells.output_eq htells.mismatch_eq
        rfl rfl)
    · next hnone =>
      have huncut : r.cut = false := by
        cases hcut : r.cut with
        | false => rfl
        | true => exact absurd (by rw [hcut, Bool.or_true]) hnone
      have hlater (index : Nat) (later : Reader) (hlater : readers[index]? = some later) :
          Reader.Serves reg input (run (first + 1 + index)) later := by
        rw [Nat.add_assoc, Nat.add_comm 1]
        exact hrun (index + 1) later hlater
      exact (ih (first + 1) hlater).imp fun _ _ hr => htells.abandoned hs huncut hr

/-- A branch under a built-in rule that descends is read as its rule says, if its children are run
    as they are read. -/
theorem goes_script {rule : Rule} (hrule : rule.IsBuiltIn) (view : View) {readers : List Reader}
    (hlength : readers.length = view.labels.length)
    (hrun : ∀ index reader, readers[index]? = some reader →
      Reader.Serves reg input (run index) reader)
    (honly : Reader.Serves reg input (run 0) (Reader.only readers)) (hs : s.Starts input) :
    ((rule.script view (.descend s)).exec run).Goes
      (rule.reader input.size view.labels readers s.pos) (Reading.Tells reg s s) := by
  have hserves (index : Nat) (reader : Reader) (h : readers[index]? = some reader) :
      Reader.Serves reg input (run (0 + index)) reader := by
    rw [Nat.zero_add]
    exact hrun index reader h
  cases rule with
  | sequence result finish =>
    change ((fillSlots view.id finish s (List.range view.labels.length)
      (Reader.slots view.labels.length []) s).exec run).Goes _ _
    rw [List.range_eq_range', ← hlength]
    exact goes_fillSlots [] (Nat.zero_add _).symm hserves hs
  | map source result f =>
    change ((Script.child 0 s >>= _).exec run).Goes _ _
    rw [Script.exec_bind, Script.exec_child]
    refine (honly s hs).bind fun child r htells => ?_
    rw [← htells.read_eq]
    refine Script.goes_ofExcept_bind fun value _ => ?_
    exact Traced.goes_pure (htells.remade htells.start_eq rfl rfl htells.mismatch_eq rfl rfl)
  | tryMap source result f =>
    change ((Script.child 0 s >>= _).exec run).Goes _ _
    rw [Script.exec_bind, Script.exec_child]
    refine (honly s hs).bind fun child r htells => ?_
    rw [← htells.read_eq]
    refine Script.goes_ofExcept_bind fun value _ => ?_
    cases f value with
    | ok converted =>
      exact Traced.goes_pure (htells.remade htells.start_eq rfl rfl htells.mismatch_eq rfl rfl)
    | error message =>
      have hmismatch := htells.mismatch_eq
      cases herror : child.error with
      | some e =>
        rw [herror] at hmismatch
        refine Traced.goes_pure (htells.remade htells.start_eq rfl rfl ?_ rfl rfl)
        rw [← hmismatch]
        exact congrArg (Option.map _) herror
      | none =>
        rw [herror] at hmismatch
        refine Traced.goes_pure (htells.remade htells.start_eq rfl rfl ?_ rfl rfl)
        rw [← hmismatch, htells.start_eq]
        exact congrArg some (mismatch_semanticError hs message)
  | many item =>
    have hbound : s.remaining + 1 = input.size - s.pos + 1 := by
      rw [State.remaining, hs.input_eq]
    change ((repeatItem view.id item s (s.remaining + 1) [] s).exec run).Goes _ _
    rw [hbound]
    exact goes_repeatItem honly _ [] hs
  | firstSuccess result =>
    change ((tryChildren result view.labels s (List.range view.labels.length)).exec run).Goes _ _
    rw [List.range_eq_range', ← hlength]
    exact goes_tryChildren 0 hserves hs
  | bespoke result script => exact hrule.elim

end Rule

end Resync
