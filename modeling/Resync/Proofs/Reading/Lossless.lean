import Resync.Proofs.Leaf.Cursors
import Resync.Proofs.Leaf.Texts
import Resync.Proofs.Reading.Rules
import Resync.Proofs.Registry.Primitives

namespace Resync

namespace Output

/-- The texts of several outputs, one after the other, which is the text of their list. -/
def textOf (outputs : List Output) : String :=
  (Data.array (outputs.map toData)).toText

end Output

theorem Data.textOfItems_append (items others : List Data) :
    toText.textOfItems (items ++ others) =
      toText.textOfItems items ++ toText.textOfItems others := by
  induction items with
  | nil => rw [List.nil_append, toText.textOfItems, String.empty_append]
  | cons item items ih =>
    rw [List.cons_append, toText.textOfItems, toText.textOfItems, ih, String.append_assoc]

theorem Data.textOfItems_singleton (item : Data) : toText.textOfItems [item] = item.toText := by
  rw [toText.textOfItems, toText.textOfItems, String.append_empty]

theorem Output.textOf_concat (outputs : List Output) (o : Output) :
    textOf (outputs ++ [o]) = textOf outputs ++ o.toText := by
  rw [textOf, textOf, List.map_append, Data.toText, Data.toText, Data.textOfItems_append,
    List.map_singleton, Data.textOfItems_singleton]
  rfl

/-- The text of a list is that of its items, one after the other, so the text of one more item comes
    last. -/
theorem Output.toText_list_concat {item : Ty} (items : List item.Val) (value : item.Val) :
    (Output.mk (.list item) (items ++ [value])).toText =
      (Output.mk (.list item) items).toText ++ (Output.mk item value).toText := by
  change Data.toText.textOfItems ((items ++ [value]).map item.toData) = _
  rw [List.map_append, Data.textOfItems_append, List.map_singleton, Data.textOfItems_singleton]
  rfl

/-- An output that has the expected type is its value at that type. -/
theorem Output.eq_of_as?_eq_some {o : Output} {t : Ty} {value : t.Val} (h : o.as? t = some value) :
    o = ⟨t, value⟩ := by
  obtain ⟨type, found⟩ := o
  unfold as? at h
  split at h
  · next htype =>
    cases htype
    cases h
    rfl
  · cases h

theorem Result.output_eq_of_read {r : Result} {t : Ty} {value : t.Val} (h : r.read t = .ok value) :
    r.output = ⟨t, value⟩ := by
  unfold read at h
  split at h
  · next hvalue =>
    cases h
    exact Output.eq_of_as?_eq_some hvalue
  · cases h

/-- What a rule makes of the outputs of so many children has their texts, one after the other. -/
def Rule.KeepsText (count : Nat) : Rule → Prop
  | sequence result finish => ∀ outputs value, outputs.length = count →
      finish ⟨outputs.map some⟩ = .ok value →
        (Output.mk result value).toText = Output.textOf outputs
  | map source result f => ∀ value,
      (Output.mk result (f value)).toText = (Output.mk source value).toText
  | many _ | firstSuccess _ => True
  | tryMap _ _ _ | bespoke _ _ => False

/-- A leaf that reads scalars, or a branch that keeps texts. -/
def Node.KeepsText : Node → Prop
  | leaf found => ∃ primitive : Primitive, primitive.ReadsScalars ∧ found.IsOf primitive
  | branch _ rule children => rule.KeepsText children.length
  | forward _ | unused => True

def Graph.KeepsText (g : Graph) : Prop :=
  ∀ node ∈ g.nodes, node.KeepsText

/-- A success leads to a boundary, and the text of its output stands before that. -/
def Result.Conveys (r : Result) (start : State) (input : Input) : Prop :=
  r.isOk = true → r.stop.SitsOn input ∧ start.Spans r.stop r.output.toText.toList

variable {input : Input} {s start stop : State}

theorem Result.conveys_of_error {r : Result} {e : ParseError} (h : r.error = some e) :
    r.Conveys start input := by
  intro hok
  rw [isOk, h] at hok
  cases hok

/-- A success conveys the text behind its start if its output is what stands up to its end. -/
theorem Result.conveys_success {o : Output} (hstop : stop.SitsOn input)
    (h : start.Spans stop o.toText.toList) : (success s stop o).Conveys start input :=
  fun _ => ⟨hstop, h⟩

theorem Result.Conveys.claim {r : Result} (h : r.Conveys start input) (id : Nat) :
    (r.claim id).Conveys start input := by
  intro hok
  rw [Result.claim, isOk, Option.isNone_map] at hok
  exact h hok

/-- Terms under which children may be run from any boundary and convey the text behind it. -/
structure Script.Terms.Convey (terms : Terms) (input : Input) : Prop where
  ask : ∀ index {s : State}, s.SitsOn input → terms.ask index s
  answer : ∀ {index s r}, terms.answer index s r → r.Conveys s input
  fault : ∀ f, terms.fault f

namespace Rule

variable {terms : Script.Terms} {id : Nat}

/-- A sequence conveys what its children have conveyed so far and what the others convey, one text
    behind the other. The induction is on the children that are left. -/
theorem meets_fillSlots_conveys (h : terms.Convey input) {result : Ty}
    {finish : Slots → Except Defect result.Val} {count : Nat}
    (hfinish : (sequence result finish).KeepsText count) (left : Nat) (outputs : List Output)
    (hcount : outputs.length + left = count)
    (hspans : start.Spans s (Output.textOf outputs).toList) (hs : s.SitsOn input) :
    (fillSlots id finish start (List.range' outputs.length left) (Reader.slots count outputs)
      s).Meets terms fun r => r.Conveys start input := by
  induction left generalizing outputs s with
  | zero =>
    have hfull : Reader.slots count outputs = ⟨outputs.map some⟩ := by
      rw [Reader.slots, ← hcount, Nat.add_zero, Nat.sub_self, List.replicate_zero, List.append_nil]
    rw [hfull]
    apply Script.meets_ofExcept_bind fun _ _ => h.fault _
    intro value hvalue
    refine Result.conveys_success hs ?_
    rw [hfinish outputs value hcount hvalue]
    exact hspans
  | succ left ih =>
    rw [List.range'_succ]
    apply Script.meets_child_bind (h.ask _ hs)
    intro child hchild
    rw [put_slots (by omega)]
    apply Script.meets_ofExcept_bind fun _ _ => h.fault _
    intro filled hfilled
    cases hfilled
    cases herror : child.error with
    | some e => exact Script.meets_ofExcept_bind (fun _ _ => h.fault _) fun _ _ => nofun
    | none =>
      obtain ⟨hstop, hconveyed⟩ := h.answer hchild (by rw [Result.isOk, herror]; rfl)
      have hlength : (outputs ++ [child.output]).length = outputs.length + 1 := by simp
      have hnext := ih (s := child.stop) (outputs ++ [child.output]) (by omega) (by
        rw [Output.textOf_concat, String.toList_append]
        exact hspans.trans hconveyed) hstop
      rw [hlength] at hnext
      exact hnext

/-- A repetition conveys its items. The attempt that ends it leaves no trace, since the repetition
    ends where that attempt began. -/
theorem meets_repeatItem_conveys (h : terms.Convey input) {item : Ty} (bound : Nat)
    (items : List item.Val)
    (hspans : start.Spans s (Output.mk (.list item) items).toText.toList) (hs : s.SitsOn input) :
    (repeatItem id item start bound items s).Meets terms fun r => r.Conveys start input := by
  induction bound generalizing items s with
  | zero => exact h.fault _
  | succ bound ih =>
    apply Script.meets_child_bind (h.ask 0 hs)
    intro child hchild
    apply Script.meets_ofExcept_bind fun _ _ => h.fault _
    intro value hvalue
    cases herror : child.error with
    | some e =>
      dsimp only
      split
      · exact Result.conveys_of_error rfl
      · exact Result.conveys_success hs hspans
    | none =>
      obtain ⟨hstop, hconveyed⟩ := h.answer hchild (by rw [Result.isOk, herror]; rfl)
      dsimp only
      split
      · exact Result.conveys_of_error rfl
      · refine ih (items ++ [value]) ?_ hstop
        rw [Output.toText_list_concat, String.toList_append, ← Result.output_eq_of_read hvalue]
        exact hspans.trans hconveyed

/-- A choice conveys what its chosen child conveys. What it has tried in vain leaves no trace, as
    the next child goes on from the cursor before it. -/
theorem meets_tryChildren_conveys (h : terms.Convey input) {result : Ty} {labels : List String}
    (indices : List Nat) (hs : s.SitsOn input) :
    (tryChildren result labels s indices).Meets terms fun r => r.Conveys s input := by
  induction indices with
  | nil => exact Result.conveys_of_error rfl
  | cons index indices ih =>
    apply Script.meets_child_bind (h.ask index hs)
    intro child hchild
    apply Script.meets_ofExcept_bind fun _ _ => h.fault _
    intro value _
    split
    · exact h.answer hchild
    · exact ih

/-- A branch that keeps texts conveys the text behind the cursor if its children do, by cases on its
    rule. -/
theorem meets_script_conveys (h : terms.Convey input) {rule : Rule} {view : View}
    (hrule : rule.KeepsText view.labels.length) (hs : s.SitsOn input) :
    (rule.script view (.descend s)).Meets terms fun r => r.Conveys s input := by
  cases rule with
  | sequence result finish =>
    have hempty : Slots.empty view.labels.length = Reader.slots view.labels.length [] := rfl
    rw [script, sequenceScript, hempty, List.range_eq_range']
    exact meets_fillSlots_conveys h hrule _ [] (Nat.zero_add _) s.spans_refl hs
  | map source result f =>
    apply Script.meets_child_bind (h.ask 0 hs)
    intro child hchild
    apply Script.meets_ofExcept_bind fun _ _ => h.fault _
    intro value hvalue hok
    obtain ⟨hstop, hconveyed⟩ := h.answer hchild hok
    rw [Result.output_eq_of_read hvalue, ← hrule value] at hconveyed
    exact ⟨hstop, hconveyed⟩
  | tryMap source result f => exact hrule.elim
  | many item => exact meets_repeatItem_conveys h _ [] s.spans_refl hs
  | firstSuccess result => exact meets_tryChildren_conveys h _ hs
  | bespoke result script => exact hrule.elim

end Rule

/-- A leaf that reads scalars conveys them, on text as well as on raw bytes. -/
theorem Leaf.IsOf.conveys {leaf : Leaf} {primitive : Primitive} (hleaf : leaf.IsOf primitive)
    (hreads : primitive.ReadsScalars) (id : Nat) (hs : s.SitsOn input) :
    (leaf.parse id s).Conveys s input := by
  obtain ⟨safeSpot, rfl⟩ := hleaf
  unfold Leaf.parse
  cases hrun : primitive.leaf.run s with
  | error e => exact Result.conveys_of_error rfl
  | ok found =>
    obtain ⟨stop, value⟩ := found
    have hspans := Primitive.spans_run hreads hs hrun
    have hstop := ((primitive.advances (State.closedUnderMoves_sitsOn input)).stop hs hrun).1
    cases safeSpot with
    | true => exact Result.conveys_success hstop.markSafeSpot hspans.markSafeSpot
    | false => exact Result.conveys_success hstop hspans

namespace Registry

variable {reg : Registry} {g : Graph}

/-- Whoever is run from a boundary conveys the text behind it. -/
def conveying (input : Input) : Contract where
  enter _ _ s := s.SitsOn input
  leave _ s r := r.Conveys s input
  event _ := True
  fault _ := True

theorem convey_terms (depth : Nat) (entry : Entry) :
    ((conveying input).terms depth entry).Convey input where
  ask _ _ hs := Contract.terms_ask (fun _ _ => hs) fun _ => trivial
  answer hanswer := by
    obtain ⟨_, _, hleave⟩ := hanswer
    exact hleave
  fault _ := trivial

/-- A registry of a graph that keeps texts conveys at any depth, since its leaves do and its
    branches do if their children do. -/
theorem conveying_keptBy (hlaid : reg.LaidOut g) (hg : g.KeepsText) :
    (conveying input).KeptBy reg where
  exhausted _ := trivial
  missing _ _ := trivial
  entered _ := trivial
  left _ := trivial
  leaf {_ id _ _ _} hs hentry hwork := by
    have hnode := hg _ (List.mem_of_getElem? (hlaid.leaf_node hentry hwork))
    obtain ⟨primitive, hreads, hleaf⟩ := hnode
    exact hleaf.conveys hreads id hs
  branch {depth id s entry rule} hs hentry hwork := by
    obtain ⟨places, hnode, hchildren⟩ := hlaid.branch_node hentry hwork
    have hrule : rule.KeepsText (reg.view id entry).labels.length := by
      rw [view, List.length_map, hchildren.length_eq]
      exact hg _ (List.mem_of_getElem? hnode)
    exact (Rule.meets_script_conveys (convey_terms depth entry) hrule hs).imp
      fun _ hr => hr.claim id

/-- An occurrence of a graph that keeps texts conveys the text behind the cursor. -/
theorem conveys_parse (hlaid : reg.LaidOut g) (hg : g.KeepsText) {depth id : Nat} {r : Result}
    (hs : s.SitsOn input) (h : (reg.parse depth id s).result = .ok r) : r.Conveys s input :=
  ((conveying_keptBy hlaid hg).ensures_parse depth id s hs).value r h

end Registry

end Resync
