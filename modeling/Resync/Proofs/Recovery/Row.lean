import Resync.Proofs.Engine.Scripts
import Resync.Proofs.Recovery.Climb
import Resync.Proofs.Recovery.Completion
import Resync.Proofs.Registry.Row

namespace Resync

namespace Slots

/-- The character that a slot reads as: a placeholder, if no child has filled it. -/
def char? : Option Output → Option Char
  | none => some '\x00'
  | some o => o.as? .char

/-- Slots that read as the given characters. -/
def Shows (slots : Slots) (values : List Char) : Prop :=
  slots.outputs.map char? = values.map some

variable {slots : Slots} {values : List Char} {index : Nat}

theorem shows_empty (count : Nat) : (empty count).Shows (List.replicate count '\x00') := by
  rw [Shows, empty, List.map_replicate, List.map_replicate]
  rfl

/-- A character that is put into a slot is what the slot reads as, and the other slots read as
    before. -/
theorem Shows.put (h : slots.Shows values) (hindex : index < values.length) (c : Char) :
    ∃ slots', slots.put index ⟨.char, c⟩ = .ok slots' ∧ slots'.Shows (values.set index c) := by
  have hlength : slots.outputs.length = values.length := by
    simpa only [List.length_map] using congrArg List.length h
  refine ⟨⟨slots.outputs.set index (some ⟨.char, c⟩)⟩, if_pos (hlength ▸ hindex), ?_⟩
  rw [Shows, List.map_set, h, List.map_set, char?, Output.as?_self]

/-- Taking a character out of a slot changes no other slot. -/
theorem exists_take {c : Char} (h : slots.outputs[index]?.map char? = some (some c)) :
    ∃ slots', slots.take index .char = .ok (c, slots') ∧
      ∀ other, other ≠ index → slots'.outputs[other]? = slots.outputs[other]? := by
  obtain ⟨slot, hslot, hchar⟩ := Option.map_eq_some_iff.1 h
  rw [take, hslot]
  cases slot with
  | none =>
    cases hchar
    exact ⟨slots, rfl, fun _ _ => rfl⟩
  | some o =>
    have hread : o.as? .char = some c := hchar
    refine ⟨⟨slots.outputs.set index none⟩, ?_, fun other hother =>
      List.getElem?_set_ne (Ne.symm hother)⟩
    dsimp only
    rw [hread]

end Slots

namespace Row

open Primitive (landmark)

/-- The characters are taken out of different slots one after the other, so that each is still there
    when its turn comes. -/
theorem exists_takeAll {slots : Slots} {indices : List Nat} (hindices : indices.Nodup)
    {value : Nat → Char}
    (h : ∀ index ∈ indices, slots.outputs[index]?.map Slots.char? = some (some (value index))) :
    ∃ taken, slots.takeAll (indices.map fun i => (i, .char)) = .ok taken ∧
      collect indices taken = indices.map value := by
  induction indices generalizing slots with
  | nil => exact ⟨(), rfl, rfl⟩
  | cons index indices ih =>
    obtain ⟨hfresh, hindices⟩ := List.nodup_cons.1 hindices
    obtain ⟨slots', htake, hothers⟩ := Slots.exists_take (h index List.mem_cons_self)
    obtain ⟨taken, htaken, hcollect⟩ := ih hindices fun other hother => by
      rw [hothers other fun heq => hfresh (heq ▸ hother)]
      exact h other (List.mem_cons_of_mem _ hother)
    refine ⟨(value index, taken), ?_, congrArg (value index :: ·) hcollect⟩
    change (slots.take index .char >>= fun first => first.2.takeAll _ >>= _) = _
    rw [htake]
    change (slots'.takeAll _ >>= _) = _
    rw [htaken]
    rfl

/-- What slots read as that hold those scalars of a row that have been seen. -/
def shown (cs seen : List Char) : List Char :=
  cs.map fun c => if c ∈ seen then c else '\x00'

/-- The scalars of a row behind one of them. -/
def after (k : Char) (cs : List Char) : List Char :=
  cs.drop (cs.idxOf k + 1)

/-- Where a text has gaps that begins at `pos`, and what is due there: a text of junk, and scalars
    with more junk behind each of them, for a row of which `cs` is still to come. There is a gap in
    front of a scalar that stands behind junk or is not the next one of the row, and at the end if
    the row has not come to its end. -/
def gaps : (pos : Nat) → (junk cs : List Char) → List (Char × List Char) → List (Nat × Char)
  | _, _, [], _ => []
  | pos, _, c :: _, [] => [(pos, c)]
  | pos, junk, c :: cs, (k, more) :: parts =>
    let others := gaps (pos + Utf8.width junk + k.utf8Size) more (after k (c :: cs)) parts
    if junk = [] ∧ c = k then others else (pos, c) :: others

/-- The report of a gap. -/
def report (gap : Nat × Char) : Mismatch :=
  ⟨.syntactic, "expected \"" ++ String.singleton gap.2 ++ "\"", gap.1⟩

/-- A text of junk, and of scalars with more junk behind each of them. -/
def text (junk : List Char) (parts : List (Char × List Char)) : List Char :=
  junk ++ parts.flatMap fun (k, more) => k :: more

section Slots

variable {cs seen : List Char} {index : Nat} {c : Char}

/-- Before any landmark has been seen, all of them are shown as placeholders. -/
theorem shown_nil (cs : List Char) : shown cs [] = List.replicate cs.length '\x00' := by
  simp [shown]

theorem length_shown (cs seen : List Char) : (shown cs seen).length = cs.length :=
  List.length_map ..

/-- A place shows its landmark if that has been seen, and the placeholder otherwise. -/
theorem getElem?_shown (cs seen : List Char) (index : Nat) : (shown cs seen)[index]? =
    cs[index]?.map fun c => if c ∈ seen then c else '\x00' :=
  List.getElem?_map

/-- A placeholder in the slot of a scalar that has not been seen changes nothing. So a failed call
    leaves what the row shows. -/
theorem set_shown_of_not_mem (hc : cs[index]? = some c) (hseen : c ∉ seen) :
    (shown cs seen).set index '\x00' = shown cs seen := by
  refine List.ext_getElem? fun i => ?_
  rw [List.getElem?_set]
  split
  · next heq =>
    have hlt := (List.getElem?_eq_some_iff.1 hc).1
    rw [← heq, if_pos (by rwa [length_shown]), getElem?_shown, hc, Option.map_some, if_neg hseen]
  · rfl

/-- A scalar in its own slot has been seen. No other slot is of the same scalar, since the landmarks
    are distinct. -/
theorem set_shown (hcs : cs.Nodup) (hc : cs[index]? = some c) :
    (shown cs seen).set index c = shown cs (seen ++ [c]) := by
  have hlt := (List.getElem?_eq_some_iff.1 hc).1
  refine List.ext_getElem? fun i => ?_
  rw [List.getElem?_set, getElem?_shown, getElem?_shown]
  split
  · next heq =>
    subst heq
    rw [if_pos (by rwa [length_shown]), hc, Option.map_some, if_pos (by simp)]
  · next hne =>
    cases hother : cs[i]? with
    | none => rfl
    | some other =>
      have hdiffer : other ≠ c := fun heq =>
        hne ((List.getElem?_inj hlt hcs).1 (hc.trans (heq ▸ hother.symm)))
      simp [hdiffer]

/-- The row finishes with what its slots read as. -/
theorem finish_eq_ok {result : Ty} {f : List Char → result.Val} {slots : Slots} {values : List Char}
    (h : slots.Shows values) (hlength : values.length = cs.length) :
    finish cs result f slots = .ok (f values) := by
  have hread : ∀ index ∈ List.range cs.length,
      slots.outputs[index]?.map Slots.char? = some (some (values.getD index '\x00')) := by
    intro index hindex
    have hlt : index < values.length := hlength ▸ List.mem_range.1 hindex
    rw [← List.getElem?_map, h, List.getElem?_map, List.getD_eq_getElem?_getD,
      List.getElem?_eq_getElem hlt]
    rfl
  obtain ⟨taken, htaken, hcollect⟩ := exists_takeAll List.nodup_range hread
  have hvalues : (List.range cs.length).map (values.getD · '\x00') = values := by
    refine List.ext_getElem (by simp [hlength]) fun i _ hi => ?_
    rw [List.getElem_map, List.getElem_range, List.getD_eq_getElem?_getD,
      List.getElem?_eq_getElem hi, Option.getD_some]
  rw [finish, htaken, ← hvalues, ← hcollect]
  rfl

end Slots

section After

variable {k : Char} {ks cs : List Char} {index : Nat}

/-- What follows a scalar of a subsequence follows it in the row, so the rest of the text is one of
    the rest of the row. -/
theorem sublist_after (h : (k :: ks).Sublist cs) : ks.Sublist (after k cs) := by
  induction cs with
  | nil => cases h
  | cons c cs ih =>
    by_cases hck : c = k
    · subst hck
      rw [after, List.idxOf_cons_self]
      exact List.cons_sublist_cons.1 h
    · rw [after, List.idxOf_cons_ne _ hck]
      exact ih (h.of_cons_of_ne (Ne.symm hck))

/-- A scalar that is still to come has an index, and the rest of the row is behind it. -/
theorem exists_after (h : k ∈ cs.drop index) :
    ∃ m, index ≤ m ∧ cs[m]? = some k ∧ after k (cs.drop index) = cs.drop (m + 1) := by
  refine ⟨index + (cs.drop index).idxOf k, Nat.le_add_right .., ?_, ?_⟩
  · rw [← List.getElem?_drop]
    exact List.getElem?_idxOf h
  · rw [after, List.drop_drop]
    rfl

end After

section Anchors

variable {label : String} {cs : List Char} {result : Ty} {f : List Char → result.Val}
  {index : Nat} {c : Char}

/-- The leaf of a landmark has the number of its slot and one, as the row itself comes first. -/
theorem registry_spot (h : cs[index]? = some c) :
    (registry label cs result f).entries[index + 1]? = some (spot c index) := by
  rw [registry, List.getElem?_cons_succ, List.getElem?_map, List.getElem?_zipIdx, h]
  simp

/-- A leaf of the registry is that of a scalar of the row, since the only other occurrence is the
    row itself. -/
theorem exists_spot {id : Nat} {entry : Entry} {leaf : Leaf}
    (hentry : (registry label cs result f).entries[id]? = some entry)
    (hwork : entry.work = .leaf leaf) :
    ∃ index c, id = index + 1 ∧ cs[index]? = some c ∧ leaf = landmark c := by
  cases id with
  | zero =>
    cases hentry
    cases hwork
  | succ index =>
    cases hc : cs[index]? with
    | none =>
      rw [registry, List.getElem?_cons_succ, List.getElem?_map, List.getElem?_zipIdx, hc] at hentry
      cases hentry
    | some c =>
      rw [registry_spot hc] at hentry
      cases hentry
      cases hwork
      exact ⟨index, c, rfl, hc, rfl⟩

/-- The scalar that an occurrence can start with: that of its leaf. -/
def sought (cs : List Char) : Nat → Char → Bool
  | 0 => fun _ => false
  | index + 1 =>
    match cs[index]? with
    | some c => (· == c)
    | none => fun _ => false

/-- The leaf of a landmark is found by a search for its scalar. -/
theorem sought_spot (h : cs[index]? = some c) : sought cs (index + 1) = (· == c) := by
  rw [sought, h]

/-- Who seeks a scalar is the leaf of a landmark with that scalar, and there is at most one. -/
theorem sought_iff {id : Nat} {x : Char} :
    sought cs id x = true ↔ ∃ index, id = index + 1 ∧ cs[index]? = some x := by
  cases id with
  | zero => simp [sought]
  | succ index =>
    cases h : cs[index]? with
    | none => simp [sought, h]
    | some c => simp [sought_spot h, h, beq_iff_eq, @eq_comm _ x]

theorem recoverer?_ne_none (hc : cs[index]? = some c) :
    (registry label cs result f).recoverer? (index + 1) ≠ none := by
  rw [Registry.recoverer?_of_leaf (registry_spot hc) rfl]
  exact Option.some_ne_none _

/-- All leaves of a row are found by a search for their scalars. -/
theorem seeks : (registry label cs result f).Seeks (sought cs) where
  recoverer hentry hwork := by
    obtain ⟨index, c, rfl, hc, rfl⟩ := exists_spot hentry hwork
    rw [sought_spot hc]
    rfl
  starts hentry hwork := by
    obtain ⟨index, c, rfl, hc, rfl⟩ := exists_spot hentry hwork
    rw [sought_spot hc]
    exact Primitive.matchesScalar_landmark c

/-- Nobody seeks what is not in the row. -/
theorem sought_of_not_mem {x : Char} (hx : x ∉ cs) (id : Nat) : sought cs id x = false := by
  refine Bool.eq_false_iff.2 fun hsought => ?_
  obtain ⟨index, -, hindex⟩ := sought_iff.1 hsought
  exact hx (List.mem_of_getElem? hindex)

/-- Behind junk, the nearest anchor is the leaf of the scalar that stands there, as nobody seeks
    what is in the junk. It is so for every owner. -/
theorem nearest (hcs : cs.Nodup) (hc : cs[index]? = some c) {junk : List Char}
    (hjunk : ∀ x ∈ junk, x ∉ cs) (owner : Nat) :
    (registry label cs result f).Nearest (sought cs) owner junk c (index + 1) where
  asked := Registry.mem_bidders
    (Registry.mem_fastAnchors (registry_spot hc) rfl rfl rfl) owner
  passed id _ x hx := sought_of_not_mem (hjunk x hx) id
  found id _ := by
    have hlt := (List.getElem?_eq_some_iff.1 hc).1
    rw [sought_iff]
    constructor
    · rintro ⟨other, rfl, hother⟩
      rw [(List.getElem?_inj hlt hcs).1 (hc.trans hother.symm)]
    · rintro rfl
      exact ⟨index, rfl, hc⟩

end Anchors

section Steps

variable {label : String} {cs : List Char} {result : Ty} {f : List Char → result.Val}
  {index depth : Nat} {c : Char} {start s : State} {slots : Slots} {values : List Char}

/-- The row goes on with the scalar that has an index. -/
def fill (label : String) (cs : List Char) (result : Ty) (f : List Char → result.Val)
    (depth : Nat) (start : State) (index : Nat) (slots : Slots) (s : State) : Traced Result :=
  (Rule.fillSlots 0 (finish cs result f) start (List.range' index (cs.length - index)) slots s).exec
    (Registry.runChild ((registry label cs result f).parse depth) (root label cs result f))

theorem length_labels : ((registry label cs result f).view 0 (root label cs result f)).labels.length =
    cs.length := by
  simp [Registry.view, root]

/-- A row that is run begins with its first scalar and with empty slots. -/
theorem parse_row {r : Result}
    (hr : (fill label cs result f depth s 0 (Slots.empty cs.length) s).result = .ok r) :
    ((registry label cs result f).parse (depth + 1) 0 s).result = .ok (r.claim 0) := by
  have hroot : (registry label cs result f).entries[0]? = some (root label cs result f) := rfl
  refine Registry.result_parse_of_branch hroot rfl ?_
  change ((Rule.sequenceScript 0 (finish cs result f) _ (.descend s)).exec _).result = _
  rw [length_labels, Rule.sequenceScript, List.range_eq_range']
  exact hr

/-- A row that is resumed behind one of its scalars goes on with the next one. -/
theorem resume_row {target stop : State} {slots' : Slots} {r : Result}
    (hput : slots.put index ⟨.char, c⟩ = .ok slots')
    (hr : (fill label cs result f depth start (index + 1) slots' stop).result = .ok r) :
    ((registry label cs result f).resume depth 0
      ⟨index, .success target stop ⟨.char, c⟩, some (.sequence start slots.outputs)⟩).result =
        .ok (r.claim 0) := by
  have hroot : (registry label cs result f).entries[0]? = some (root label cs result f) := rfl
  refine Registry.result_resume_of_branch hroot rfl ?_
  change ((Rule.sequenceScript 0 (finish cs result f) _ (.resume _)).exec _).result = _
  rw [length_labels, Rule.sequenceScript]
  change ((Script.ofExcept (slots.put index ⟨.char, c⟩) >>= _ : Script Result).exec _).result = _
  rw [hput]
  exact hr

/-- Behind the last scalar the row is finished: its output is what the slots read as. -/
theorem fill_of_length_le (hindex : cs.length ≤ index) (hslots : slots.Shows values)
    (hlength : values.length = cs.length) :
    (fill label cs result f depth start index slots s).result =
      .ok (.success start s ⟨result, f values⟩) := by
  rw [fill, Nat.sub_eq_zero_of_le hindex]
  exact Rule.exec_fillSlots_nil (finish_eq_ok hslots hlength)

variable (hc : cs[index]? = some c)
include hc

/-- The child with the number of a slot is the leaf of its landmark. -/
theorem runs_spot :
    (Registry.runChild ((registry label cs result f).parse (depth + 1)) (root label cs result f)
      index s).result = .ok ((landmark c).parse (index + 1) s) := by
  have hchild : (root label cs result f).children[index]? = some (index + 1) := by
    rw [root, List.getElem?_range' (List.getElem?_eq_some_iff.1 hc).1, Nat.one_mul, Nat.add_comm]
  rw [Registry.runChild, hchild]
  exact Registry.result_parse_of_leaf (registry_spot hc) rfl

/-- To go on with a slot is to go through the slots from it on, one after the other, as the rule of
    a sequence does. -/
theorem fill_eq : fill label cs result f depth start index slots s =
    (Rule.fillSlots 0 (finish cs result f) start
      (index :: List.range' (index + 1) (cs.length - (index + 1))) slots s).exec
        (Registry.runChild ((registry label cs result f).parse depth) (root label cs result f)) := by
  have hlt := (List.getElem?_eq_some_iff.1 hc).1
  have hcount : cs.length - index = cs.length - (index + 1) + 1 := by omega
  rw [fill, hcount, List.range'_succ]

variable (hslots : slots.Shows values) (hlength : values.length = cs.length)
include hslots hlength

/-- A scalar that stands next fills its slot, and the row goes on behind it. -/
theorem exists_fill_hit {input : Input} {back : List Char} (hfaces : s.Faces input (c :: back)) :
    ∃ stop slots', stop.Faces input back ∧ stop.pos = s.pos + c.utf8Size ∧
      slots'.Shows (values.set index c) ∧
      (fill label cs result f (depth + 1) start index slots s).result =
        (fill label cs result f (depth + 1) start (index + 1) slots' stop).result := by
  have hlt := (List.getElem?_eq_some_iff.1 hc).1
  obtain ⟨stop, hparse, hstop, hpos, -⟩ := Primitive.exists_parse_landmark (index + 1) hfaces
  obtain ⟨slots', hput, hshows⟩ := hslots.put (hlength ▸ hlt) c
  refine ⟨stop, slots', hstop, hpos, hshows, ?_⟩
  rw [fill_eq hc]
  exact Rule.exec_fillSlots_of_success ((runs_spot hc).trans (congrArg _ hparse)) hput rfl

/-- Where another scalar stands, or none, the row fails with what its slots read as. The slots are
    saved in the error, and the one that is due holds a placeholder. -/
theorem exists_fill_miss {input : Input} (hs : s.Starts input) (hhead : s.scalars.head? ≠ some c)
    (hplaceholder : values.set index '\x00' = values) :
    ∃ (slots' : Slots) (e : ParseError) (r : Result), slots'.Shows values ∧
      e.saved = [(0, .sequence start slots'.outputs)] ∧
      (Result.failure start s ⟨result, f values⟩ e).FailsWith (index + 1) (String.singleton c) e ∧
      (fill label cs result f (depth + 1) start index slots s).result = .ok r ∧
      r.claim 0 = .failure start s ⟨result, f values⟩ e := by
  have hlt := (List.getElem?_eq_some_iff.1 hc).1
  have hparse := Primitive.parse_landmark_of_ne (index + 1) hhead
  obtain ⟨slots', hput, hshows⟩ := hslots.put (hlength ▸ hlt) '\x00'
  rw [hplaceholder] at hshows
  let e := ((s.syntaxError (String.singleton c)).claim (index + 1)).save 0
    (.sequence start slots'.outputs)
  refine ⟨slots', e.claim 0, .failure start s ⟨result, f values⟩ e, hshows, rfl,
    ⟨rfl, rfl, Rule.mismatch_syntaxError hs (String.singleton c)⟩, ?_, rfl⟩
  rw [fill_eq hc]
  exact Rule.exec_fillSlots_of_failure ((runs_spot hc).trans (congrArg _ hparse)) hput rfl
    (finish_eq_ok hshows hlength)

end Steps

/-- The climb from a leaf ends at the row, which goes on behind its scalar with the slots that were
    saved in the error. -/
theorem exists_climb {label : String} {cs : List Char} {result : Ty} {f : List Char → result.Val}
    (session : Session) (hreg : session.registry = registry label cs result f) {index : Nat}
    {k : Char} (hk : cs[index]? = some k) {input : Input} {start target : State} {slots : Slots}
    {values back : List Char} {p : Progress} (hslots : slots.Shows values)
    (hlength : values.length = cs.length) (htarget : target.Faces input (k :: back))
    (hsaved : p.salvage.lookup 0 = some (.sequence start slots.outputs)) :
    ∃ stop slots', stop.Faces input back ∧ stop.pos = target.pos + k.utf8Size ∧
      slots'.Shows (values.set index k) ∧
      ∀ r, (fill label cs result f session.depth start (index + 1) slots' stop).result = .ok r →
        (session.climb false ⟨index + 1, (landmark k).parse (index + 1) target, p⟩).result =
          .ok ⟨0, r.claim 0, (p.release 0).2⟩ := by
  have hlt := (List.getElem?_eq_some_iff.1 hk).1
  obtain ⟨stop, hparse, hstop, hpos, -⟩ := Primitive.exists_parse_landmark (index + 1) htarget
  obtain ⟨slots', hput, hshows⟩ := hslots.put (hlength ▸ hlt) k
  refine ⟨stop, slots', hstop, hpos, hshows, fun r hr => ?_⟩
  have hway : session.registry.ancestors (index + 1) = [(0, index)] := by
    rw [hreg, Registry.ancestors, Registry.pathUp, Registry.parent?, registry_spot hk]
    cases index <;> rfl
  have hroot : (session.registry.resume session.depth 0
      ⟨index, .success target stop ⟨.char, k⟩, p.salvage.lookup 0⟩).result = .ok (r.claim 0) := by
    rw [hreg, hsaved]
    exact resume_row hput hr
  rw [Session.climb, hway, hparse]
  exact Session.climbThrough_last hroot

/-- Where a row stands that goes on with the scalar at `index`: the scalars in `seen` fill their
    slots, and ahead are junk, and some of the scalars to come, with more junk behind each. -/
structure Stands (input : Input) (cs : List Char) (index : Nat) (seen junk : List Char)
    (parts : List (Char × List Char)) (slots : Slots) (s : State) : Prop where
  kept : (parts.map Prod.fst).Sublist (cs.drop index)
  unseen : ∀ c ∈ cs.drop index, c ∉ seen
  junk_foreign : ∀ x ∈ junk, x ∉ cs
  parts_foreign : ∀ part ∈ parts, ∀ x ∈ part.2, x ∉ cs
  shows : slots.Shows (shown cs seen)
  faces : s.Faces input (text junk parts)

section Standing

variable {input : Input} {cs seen junk more : List Char} {index : Nat} {k : Char}
  {parts : List (Char × List Char)} {slots : Slots} {s : State}

/-- A text goes on behind its first landmark with the junk that follows it. -/
theorem text_cons (junk : List Char) (k : Char) (more : List Char)
    (parts : List (Char × List Char)) :
    text junk ((k, more) :: parts) = junk ++ k :: text more parts := by
  simp [text]

/-- What the rest of a row begins with is the landmark that is due. -/
theorem getElem?_of_drop {c : Char} {rest : List Char} (h : cs.drop index = c :: rest) :
    cs[index]? = some c := by
  rw [← List.head?_drop, h]
  rfl

/-- The scalar that stands next has an index, and behind it the row goes on with the next index,
    whether it was due or others are missing in front of it. -/
theorem Stands.exists_next (h : Stands input cs index seen junk ((k, more) :: parts) slots s)
    (hcs : cs.Nodup) :
    ∃ m, cs[m]? = some k ∧ after k (cs.drop index) = cs.drop (m + 1) ∧
      ∀ {stop : State} {slots' : Slots}, stop.Faces input (text more parts) →
        slots'.Shows ((shown cs seen).set m k) →
          Stands input cs (m + 1) (seen ++ [k]) more parts slots' stop := by
  have hkept : (k :: parts.map Prod.fst).Sublist (cs.drop index) := h.kept
  obtain ⟨m, hle, hk, hafter⟩ := exists_after (hkept.subset List.mem_cons_self)
  -- the scalar itself does not come again, so it is seen now and not due behind its own index
  have hunseen : ∀ c ∈ cs.drop (m + 1), c ∉ seen ++ [k] := by
    intro c hc
    have hrest : cs.drop m = k :: cs.drop (m + 1) := by
      rw [List.drop_eq_getElem?_toList_append, hk]
      rfl
    have hfresh : k ∉ cs.drop (m + 1) :=
      (List.nodup_cons.1 (hrest ▸ hcs.sublist (List.drop_sublist m cs))).1
    have hcome : c ∈ cs.drop index := List.drop_subset_drop_left cs (Nat.le_succ_of_le hle) hc
    rw [List.mem_append, List.mem_singleton, not_or]
    exact ⟨h.unseen c hcome, fun heq => hfresh (heq ▸ hc)⟩
  refine ⟨m, hk, hafter, fun {stop slots'} hstop hshows => ?_⟩
  rw [set_shown hcs hk] at hshows
  exact {
    kept := hafter ▸ sublist_after hkept
    unseen := hunseen
    junk_foreign := h.parts_foreign _ List.mem_cons_self
    parts_foreign := fun other hother => h.parts_foreign other (List.mem_cons_of_mem _ hother)
    shows := hshows
    faces := hstop }

end Standing

section Running

variable {label : String} {cs : List Char} {result : Ty} {f : List Char → result.Val}
  {depth maxErrors index : Nat} {input : Input} {start s : State} {slots : Slots} {p : Progress}
  {junk seen rest : List Char} {parts : List (Char × List Char)} {c : Char} (d : Nat)
  (htext : input.binary = false) (hrest : cs.drop index = c :: rest)
  (hbehind : p.Behind (registry label cs result f) input s.pos)
  (hopen : p.errors.length + 1 < maxErrors)
include htext hrest hbehind hopen

/-- Where nothing follows but junk, the error at the scalar that is due is the last one: there is no
    anchor ahead, and it unwinds. -/
theorem exists_fill_lost (hstands : Stands input cs index seen junk [] slots s) :
    ∃ r, (fill label cs result f (d + 1) start index slots s).result = .ok r ∧
      Session.Completes ⟨registry label cs result f, depth + 1, maxErrors⟩ input p (r.claim 0)
        ⟨result, f (shown cs seen)⟩ [report (s.pos, c)] := by
  have hc := getElem?_of_drop hrest
  have hseen := hstands.unseen c (hrest ▸ List.mem_cons_self)
  have hfaces : s.Faces input junk := by
    simpa only [text, List.flatMap_nil, List.append_nil] using hstands.faces
  have hhead : s.scalars.head? ≠ some c := fun hhead =>
    hstands.junk_foreign c (List.mem_of_head? (hfaces.scalars_eq ▸ hhead)) (List.mem_of_getElem? hc)
  obtain ⟨slots', e, r, -, -, hfails, hfill, hclaim⟩ := exists_fill_miss hc hstands.shows
    (length_shown cs seen) hfaces.starts hhead (set_shown_of_not_mem hc hseen)
  refine ⟨r, hfill, ?_⟩
  have hmismatch : e.mismatch = report (s.pos, c) := hfails.mismatch_eq
  rw [hclaim, ← hmismatch]
  have howner (hnone : (registry label cs result f).recoverer? (index + 1) = none) (x : Char) :
      sought cs (index + 1) x = false := absurd hnone (recoverer?_ne_none hc)
  refine Session.completes_of_lost hfails hbehind (seeks.finds htext) htext howner (Nat.succ_pos _)
    hopen hfaces ?_
  -- nobody finds anything ahead, as all of it is junk
  intro id _ x hx
  exact sought_of_not_mem (hstands.junk_foreign x hx) id

/-- Where another scalar of the row stands, or the one that is due but behind some junk, the row is
    suspended with an error, and resumed behind that scalar. -/
theorem exists_fill_gap (hcs : cs.Nodup) {m : Nat} {k : Char} {more : List Char} {output : Output}
    {reports : List Mismatch} (hk : cs[m]? = some k) (hgap : ¬(junk = [] ∧ c = k))
    (hstands : Stands input cs index seen junk ((k, more) :: parts) slots s)
    (hgoes : ∀ stop slots' p', stop.Faces input (text more parts) →
      stop.pos = s.pos + Utf8.width junk + k.utf8Size →
      slots'.Shows ((shown cs seen).set m k) →
      p'.Behind (registry label cs result f) input stop.pos →
      p'.errors.length = p.errors.length + 1 →
        ∃ r, (fill label cs result f (depth + 1) start (m + 1) slots' stop).result = .ok r ∧
          Session.Completes ⟨registry label cs result f, depth + 1, maxErrors⟩ input p' (r.claim 0)
            output reports) :
    ∃ r, (fill label cs result f (d + 1) start index slots s).result = .ok r ∧
      Session.Completes ⟨registry label cs result f, depth + 1, maxErrors⟩ input p (r.claim 0) output
        (report (s.pos, c) :: reports) := by
  have hc := getElem?_of_drop hrest
  have hseen := hstands.unseen c (hrest ▸ List.mem_cons_self)
  have hfaces : s.Faces input (junk ++ k :: text more parts) := text_cons .. ▸ hstands.faces
  have hhead : s.scalars.head? ≠ some c := by
    rw [hfaces.scalars_eq]
    -- What stands first is junk, or a scalar that is not due.
    cases junk with
    | nil => exact fun heq => hgap ⟨rfl, (Option.some.inj heq).symm⟩
    | cons x junk =>
      intro heq
      cases heq
      exact hstands.junk_foreign c List.mem_cons_self (List.mem_of_getElem? hc)
  obtain ⟨slots', e, r, hshows, hsaved, hfails, hfill, hclaim⟩ := exists_fill_miss hc hstands.shows
    (length_shown cs seen) hfaces.starts hhead (set_shown_of_not_mem hc hseen)
  refine ⟨r, hfill, ?_⟩
  have hmismatch : e.mismatch = report (s.pos, c) := hfails.mismatch_eq
  rw [hclaim, ← hmismatch]
  have howner (hnone : (registry label cs result f).recoverer? (index + 1) = none) (x : Char) :
      sought cs (index + 1) x = false := absurd hnone (recoverer?_ne_none hc)
  have hnearest : (registry label cs result f).Nearest (sought cs) (index + 1) junk k (m + 1) :=
    nearest hcs hk hstands.junk_foreign (index + 1)
  refine Session.completes_of_nearest hfails hbehind (seeks.finds htext) htext howner
    (Nat.succ_pos _) hopen hfaces hnearest (registry_spot hk) rfl ?_
  intro target p' hregains
  have hsalvage : p'.salvage.lookup 0 = some (.sequence start slots'.outputs) :=
    hregains.lookup_of_mem (by simp [hsaved]) (by simp [hsaved])
  obtain ⟨stop, slots'', hstop, hpos, hshows', hclimb⟩ := exists_climb
    ⟨registry label cs result f, depth + 1, maxErrors⟩ rfl hk hshows (length_shown cs seen)
    hregains.faces hsalvage
  have hend : stop.pos = s.pos + Utf8.width junk + k.utf8Size := by
    rw [hpos, hregains.pos_eq]
    rfl
  have hahead : target.pos + 1 ≤ stop.pos := by
    have hsize := k.utf8Size_pos
    omega
  obtain ⟨r', hr', hcompletes⟩ := hgoes stop slots'' _ hstop hend hshows'
    (((hregains.behind.mono hahead).release 0).dropStale 0) hregains.length_errors
  exact ⟨r'.claim 0, _, hclimb r' hr', rfl, hcompletes⟩

end Running

/-- From any scalar of the row on, the text is run to its end, and the run is completed with the
    scalars that it has, and with a report for each of its gaps. -/
theorem exists_fill {label : String} {cs : List Char} {result : Ty} {f : List Char → result.Val}
    {depth maxErrors : Nat} {input : Input} (htext : input.binary = false) (hcs : cs.Nodup)
    (start : State) (parts : List (Char × List Char)) (d index : Nat) {slots : Slots} {s : State}
    {p : Progress} {junk seen : List Char} (hstands : Stands input cs index seen junk parts slots s)
    (hbehind : p.Behind (registry label cs result f) input s.pos)
    (hbudget : p.errors.length + (gaps s.pos junk (cs.drop index) parts).length < maxErrors) :
    ∃ r, (fill label cs result f (d + 1) start index slots s).result = .ok r ∧
      Session.Completes ⟨registry label cs result f, depth + 1, maxErrors⟩ input p (r.claim 0)
        ⟨result, f (shown cs (seen ++ parts.map Prod.fst))⟩
        ((gaps s.pos junk (cs.drop index) parts).map report) := by
  -- The depth is general, since a descent has less of it left than a resumption has.
  induction parts generalizing d index slots s p junk seen with
  | nil =>
    rw [List.map_nil, List.append_nil]
    cases hrest : cs.drop index with
    | nil =>
      exact ⟨_, fill_of_length_le (List.drop_eq_nil_iff.1 hrest) hstands.shows
        (length_shown cs seen), Session.completes_of_success hbehind rfl⟩
    | cons c rest =>
      rw [hrest] at hbudget
      exact exists_fill_lost d htext hrest hbehind hbudget hstands
  | cons part parts ih =>
    obtain ⟨k, more⟩ := part
    obtain ⟨m, hk, hafter, hnext⟩ := hstands.exists_next hcs
    have hcome : k ∈ cs.drop index := hstands.kept.subset List.mem_cons_self
    obtain ⟨c, rest, hrest⟩ := List.exists_cons_of_ne_nil (List.ne_nil_of_mem hcome)
    have hseen : seen ++ ((k, more) :: parts).map Prod.fst = seen ++ [k] ++ parts.map Prod.fst := by
      rw [List.append_assoc]
      rfl
    rw [hrest, gaps, ← hrest, hafter] at hbudget ⊢
    rw [hseen]
    by_cases hhit : junk = [] ∧ c = k
    · rw [if_pos hhit] at hbudget ⊢
      obtain ⟨rfl, rfl⟩ := hhit
      have hc := getElem?_of_drop hrest
      obtain rfl : index = m :=
        (List.getElem?_inj (List.getElem?_eq_some_iff.1 hc).1 hcs).1 (hc.trans hk.symm)
      obtain ⟨stop, slots', hstop, hpos, hshows, hfill⟩ := exists_fill_hit hc hstands.shows
        (length_shown cs seen) (text_cons .. ▸ hstands.faces)
      have hend : stop.pos = s.pos + Utf8.width [] + c.utf8Size := hpos
      rw [← hend] at hbudget ⊢
      obtain ⟨r, hr, hcompletes⟩ := ih d (index + 1) (hnext hstop hshows) (hbehind.mono (by omega))
        hbudget
      exact ⟨r, hfill.trans hr, hcompletes⟩
    · rw [if_neg hhit] at hbudget ⊢
      rw [List.length_cons] at hbudget
      refine exists_fill_gap d htext hrest hbehind (by omega) hcs hk hhit hstands
        fun stop slots' p' hstop hpos hshows hbehind' herrors => ?_
      rw [← hpos] at hbudget ⊢
      exact ih depth (m + 1) (hnext hstop hshows) hbehind' (by omega)

/-- There are at most as many gaps as scalars and one, which bounds the rounds of the run. -/
theorem length_gaps_le (pos : Nat) (junk cs : List Char) (parts : List (Char × List Char)) :
    (gaps pos junk cs parts).length ≤ (text junk parts).length + 1 := by
  induction parts generalizing pos junk cs with
  | nil => cases cs <;> simp [gaps]
  | cons part parts ih =>
    obtain ⟨k, more⟩ := part
    rw [text_cons, List.length_append, List.length_cons]
    cases cs with
    | nil => exact Nat.zero_le _
    | cons c cs =>
      have hothers := ih (pos + Utf8.width junk + k.utf8Size) more (after k (c :: cs))
      rw [gaps]
      split
      · omega
      · rw [List.length_cons]
        omega

/-- A row of distinct landmarks, run on a text that has some of them in order and anything else
    between them, gives just these landmarks, and placeholders in the place of the others. There is
    one report for each gap, where it begins and of the landmark that is due there, in the order of
    the text. -/
theorem recovers_exactly (label : String) (cs : List Char) (hne : cs ≠ []) (hcs : cs.Nodup)
    (result : Ty) (f : List Char → result.Val) (junk : List Char) (parts : List (Char × List Char))
    (hkept : (parts.map Prod.fst).Sublist cs) (hjunk : ∀ x ∈ junk, x ∉ cs)
    (hparts : ∀ part ∈ parts, ∀ x ∈ part.2, x ∉ cs) (maxErrors : Nat)
    (hbudget : (gaps 0 junk cs parts).length < maxErrors) :
    ∃ prepared errors, (parser label cs result f).prepare = .ok prepared ∧
      prepared.run ((Input.text (String.ofList (text junk parts))).withMaxErrors maxErrors) =
        .ok (f (shown cs (parts.map Prod.fst)), errors) ∧
      errors.map ParseError.mismatch = (gaps 0 junk cs parts).map report := by
  let input := (Input.text (String.ofList (text junk parts))).withMaxErrors maxErrors
  have hbytes : input.bytes = Utf8.encode (text junk parts) :=
    congrArg Utf8.encode String.toList_ofList
  have hfaces := State.faces_start hbytes
  have hdepth : ∃ depth, (cs.length + 1 + 1) * (input.size + 2) = depth + 2 :=
    Nat.exists_eq_add_of_le' (Nat.le_trans (by decide)
      (Nat.mul_le_mul (Nat.le_add_left 2 cs.length) (Nat.le_add_left 2 input.size)))
  obtain ⟨depth, hdepth⟩ := hdepth
  have hslots : (Slots.empty cs.length).Shows (shown cs []) := by
    rw [shown_nil]
    exact Slots.shows_empty cs.length
  have hfill : ∃ r, (fill label cs result f (depth + 1) (State.start input) 0
      (Slots.empty cs.length) (State.start input)).result = .ok r ∧
        Session.Completes ⟨registry label cs result f, depth + 2, maxErrors⟩ input (.initial .empty)
          (r.claim 0) ⟨result, f (shown cs ([] ++ parts.map Prod.fst))⟩
          ((gaps 0 junk (cs.drop 0) parts).map report) :=
    exists_fill rfl hcs _ parts _ 0
      ⟨hkept, fun _ _ => List.not_mem_nil, hjunk, hparts, hslots, hfaces⟩
      (Progress.Behind.initial _ input 0) ((Nat.zero_add _).symm ▸ hbudget)
  obtain ⟨r, hr, hcompletes⟩ := hfill
  have hrun : ((Session.mk (registry label cs result f) (depth + 2) maxErrors).run 0
      (State.start input)).result = .ok (r.claim 0) := parse_row hr
  have hreports : ((gaps 0 junk cs parts).map report).length ≤ input.size + 1 := by
    have hwidth := Utf8.length_le_width (text junk parts)
    have hcount := length_gaps_le 0 junk cs parts
    rw [List.length_map, Input.size, hbytes, Utf8.length_encode]
    omega
  obtain ⟨errors, hexecute, herrors⟩ := hcompletes.execute_eq_ok hrun hreports (Nat.succ_pos _)
  have hsize : (registry label cs result f).size = cs.length + 1 := by
    simp [Registry.size, registry]
  have hsession : (Prepared.mk (registry label cs result f) 0 : Prepared result).session input =
      ⟨registry label cs result f, depth + 2, maxErrors⟩ := by
    rw [Prepared.session, Prepared.depthBound, hsize, hdepth]
    rfl
  refine ⟨⟨registry label cs result f, 0⟩, errors, prepare_row label cs result f hne, ?_, herrors⟩
  exact Prepared.run_eq_ok (hsession ▸ hexecute)

/-- Two gaps of three landmarks: junk in front of the first one, and the second one missing. -/
theorem recovers_exactly_second_missing :
    ∃ prepared errors, (parser "seq" ['a', 'b', 'c'] (.list .char) id).prepare = .ok prepared ∧
      prepared.run ((Input.text "?ac!").withMaxErrors 3) = .ok (['a', '\x00', 'c'], errors) ∧
      errors.map ParseError.mismatch =
        [⟨.syntactic, "expected \"a\"", 0⟩, ⟨.syntactic, "expected \"b\"", 2⟩] :=
  recovers_exactly "seq" ['a', 'b', 'c'] (by decide) (by decide) (.list .char) id ['?']
    [('a', []), ('c', ['!'])] (by decide) (by simp) (by simp) 3 (by decide)

end Row

end Resync
