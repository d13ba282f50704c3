import Resync.Proofs.Bytes.Twins
import Resync.Proofs.Recovery.Asking
import Resync.Proofs.Recovery.Lockstep

namespace Resync

open Recoverer (wasteToOffset offsetOf? offsetOfList?)
open Session (proposedOffset)

namespace State.Twins

variable {input : Input} {s t : State}

/-- A search through the scalars ahead proposes the same place on a text and on its bytes, since the
    scalars ahead are the same and what it finds stands behind some of them. -/
theorem proposedOffset_search_eq (h : s.Twins input t) {search : List Char → Option Nat}
    (hsearch : ∀ {cs offset}, search cs = some offset →
      ∃ front back, cs = front ++ back ∧ offset = Utf8.width front) :
    proposedOffset (fun s => wasteToOffset s (search s.scalars)) s =
      proposedOffset (fun s => wasteToOffset s (search s.scalars)) t := by
  unfold proposedOffset
  dsimp only
  rw [← h.scalars_eq]
  cases hfound : search s.scalars with
  | none => rfl
  | some offset =>
    obtain ⟨front, back, hsplit, rfl⟩ := hsearch hfound
    have hmoved := h.moveBy_width hsplit
    have hs := h.left.moveByUnits_unitsTo hmoved.left (h.left.pos_le_moveBy _)
    have ht := h.right.moveByUnits_unitsTo hmoved.right (h.right.pos_le_moveBy _)
    exact congrArg Cached.anchor (hs.trans (hmoved.pos_eq.trans ht.symm))

private theorem proposedOffset_find_eq (h : s.Twins input t) (p : Char → Bool) :
    proposedOffset (fun s => wasteToOffset s (offsetOf? p s.scalars)) s =
      proposedOffset (fun s => wasteToOffset s (offsetOf? p s.scalars)) t :=
  h.proposedOffset_search_eq fun hfound => by
    obtain ⟨front, c, back, hsplit, -, hwidth⟩ := Recoverer.exists_append_of_offsetOf? hfound
    exact ⟨front, c :: back, hsplit, hwidth⟩

/-- The recoverer of a primitive leaf that reads scalars proposes the same place, by cases on the
    primitives: each of them searches for a scalar or for a text. -/
theorem proposedOffset_eq (h : s.Twins input t) {primitive : Primitive}
    (hreads : primitive.ReadsScalars) {waste : State → Waste}
    (hrecoverer : primitive.leaf.recoverer = some (.fast waste)) :
    proposedOffset waste s = proposedOffset waste t := by
  cases primitive with
  | char expected => cases hrecoverer; exact h.proposedOffset_find_eq _
  | satisfy label p => cases hrecoverer; exact h.proposedOffset_find_eq p
  | literal expected =>
    by_cases hempty : expected.isEmpty = true
    · rw [Primitive.leaf, if_pos hempty] at hrecoverer
      cases hrecoverer
      rfl
    · rw [Primitive.leaf, if_neg hempty] at hrecoverer
      cases hrecoverer
      have hsearch {cs : List Char} {offset : Nat}
          (hfound : offsetOfList? expected.toList cs = some offset) :
          ∃ front back, cs = front ++ back ∧ offset = Utf8.width front := by
        obtain ⟨front, back, hsplit, -, hwidth⟩ := Recoverer.exists_append_of_offsetOfList? hfound
        exact ⟨front, back, hsplit, hwidth⟩
      exact h.proposedOffset_search_eq hsearch
  | anyChar => cases hrecoverer; exact h.proposedOffset_find_eq _
  | digits => cases hrecoverer; rfl
  | someDigits => cases hrecoverer; exact h.proposedOffset_find_eq _
  | endOfInput => cases hrecoverer; rfl
  | upTo stop => cases hrecoverer; rfl
  | byte expected => exact hreads.elim
  | anyByte => exact hreads.elim

end State.Twins

/-- The wastes, on a text and on its bytes, of one place ahead of twins. -/
def State.Wastes (input : Input) (s t : State) (waste waste' : Nat) : Prop :=
  ∃ offset, input.IsBoundary offset ∧ s.pos ≤ offset ∧ waste = s.unitsTo (s.movedTo offset) ∧
    waste' = t.unitsTo (t.movedTo offset)

/-- Bids of the same anchor for the same place. -/
def State.Offers (input : Input) (s t : State) (bid bid' : Bid) : Prop :=
  bid.1 = bid'.1 ∧ s.Wastes input t bid.2 bid'.2

namespace State.Twins

variable {input : Input} {s t : State} (h : s.Twins input t)
include h

/-- Of two places the same one is the cheaper one on a text and on its bytes, as it is the nearer
    one on both. -/
theorem waste_lt_iff {waste waste' other other' : Nat} (hwaste : s.Wastes input t waste waste')
    (hother : s.Wastes input t other other') : waste < other ↔ waste' < other' := by
  obtain ⟨offset, hoffset, hle, rfl, rfl⟩ := hwaste
  obtain ⟨place, hplace, hle', rfl, rfl⟩ := hother
  rw [h.left.unitsTo_movedTo_lt_iff hoffset hle hplace hle',
    h.right.unitsTo_movedTo_lt_iff hoffset.raw (h.pos_eq ▸ hle) hplace.raw (h.pos_eq ▸ hle')]

/-- A place without waste is one without waste on both. -/
theorem waste_eq_zero_iff {waste waste' : Nat} (hwaste : s.Wastes input t waste waste') :
    waste = 0 ↔ waste' = 0 := by
  obtain ⟨offset, hoffset, hle, rfl, rfl⟩ := hwaste
  rw [h.left.unitsTo_movedTo_eq_zero_iff hoffset hle,
    h.right.unitsTo_movedTo_eq_zero_iff hoffset.raw (h.pos_eq ▸ hle), h.pos_eq]

/-- Both wastes lead to twins, so the anchor is resumed at the same place. -/
theorem moveByUnits_waste {waste waste' : Nat} (hwaste : s.Wastes input t waste waste') :
    (s.moveByUnits waste).Twins input (t.moveByUnits waste') := by
  obtain ⟨offset, hoffset, hle, rfl, rfl⟩ := hwaste
  refine ⟨h.left.moveByUnits _, h.right.moveByUnits _, ?_, ?_⟩
  · rw [h.left.moveByUnits_unitsTo_movedTo hoffset hle,
      h.right.moveByUnits_unitsTo_movedTo hoffset.raw (h.pos_eq ▸ hle)]
  · rw [moveByUnits_safeSpot, moveByUnits_safeSpot, h.safeSpot_eq]

variable {best best' : Option Bid} (hbest : Option.Rel (s.Offers input t) best best')
include hbest

/-- The better of two bids is the same on both, though their wastes differ: the later one is taken
    on both if its place is strictly nearer. -/
theorem rel_improve (anchor : Nat) {waste waste' : Option Nat}
    (hwaste : Option.Rel (s.Wastes input t) waste waste') :
    Option.Rel (s.Offers input t) (Bid.improve best anchor waste)
      (Bid.improve best' anchor waste') := by
  cases hwaste with
  | none => exact hbest
  | @some waste waste' hwaste =>
    cases hbest with
    | none => exact .some ⟨rfl, hwaste⟩
    | @some bid bid' hbid =>
      have hlt := h.waste_lt_iff hwaste hbid.2
      unfold Bid.improve
      dsimp only
      by_cases hcheaper : waste < bid.2
      · rw [if_pos hcheaper, if_pos (hlt.1 hcheaper)]
        exact .some ⟨rfl, hwaste⟩
      · rw [if_neg hcheaper, if_neg (mt hlt.2 hcheaper)]
        exact .some hbid

theorem isFree_eq : Bid.isFree best = Bid.isFree best' := by
  cases hbest with
  | none => rfl
  | some hbid =>
    have hzero := h.waste_eq_zero_iff hbid.2
    exact Bool.eq_iff_iff.2 (by simpa [Bid.isFree] using hzero)

end State.Twins

namespace Session

variable {reg : Registry} {g : Graph} {input : Input} {depth maxErrors : Nat} {here here' : State}
  {p q : Progress} {id : Nat} {waste : State → Waste}

/-- A proposed place lies ahead on a boundary, if it is proposed on one. -/
theorem boundary_of_proposedOffset (hhere : here.SitsOn input) {offset : Nat}
    (h : proposedOffset waste here = .anchor offset) :
    input.IsBoundary offset ∧ here.pos ≤ offset := by
  unfold proposedOffset at h
  split at h
  · next count _ =>
    cases h
    exact ⟨(hhere.moveByUnits count).boundary, hhere.pos_le_moveByUnits count⟩
  · cases h
  · cases h

/-- Answers that are the same place stand for corresponding wastes. If the anchor was tried there
    already, it has no waste on either. -/
theorem rel_wasteOf (tried : List (Nat × Nat)) (id : Nat) {answer : Cached}
    (hanswer : ∀ offset, answer = .anchor offset → input.IsBoundary offset ∧ here.pos ≤ offset) :
    Option.Rel (here.Wastes input here') (wasteOf tried id here answer)
      (wasteOf tried id here' answer) := by
  cases answer with
  | tooMuch => exact .none
  | anchor offset =>
    obtain ⟨hoffset, hle⟩ := hanswer offset rfl
    unfold wasteOf cachedOffset
    dsimp only
    by_cases htried : (id, offset) ∈ tried
    · rw [Option.filter_some_neg (by simpa using htried)]
      exact .none
    · rw [Option.filter_some_pos (by simpa using htried)]
      exact .some ⟨offset, hoffset, hle, rfl, rfl⟩

section Choosing

variable (hg : g.IsPrimitive Primitive.ReadsScalars) (hlaid : reg.LaidOut g)
include hg hlaid

/-- The anchors of leaves that read scalars compute their wastes, on any input. -/
private theorem computes_of_readsScalars (input : Input) : reg.Computes input :=
  hlaid.computes (hg.imp fun _ hreads => hreads.suits input)

variable (h : here.Twins input here')
include h

private theorem proposedOffset_eq_of_recoverer? (hid : reg.recoverer? id = some (.fast waste)) :
    proposedOffset waste here = proposedOffset waste here' := by
  obtain ⟨entry, leaf, hentry, hwork, heffective⟩ := Registry.exists_leaf_of_recoverer? hid
  obtain ⟨primitive, hreads, hleaf⟩ := hg.leaf (hlaid.leaf_node hentry hwork)
  rw [hleaf.effectiveRecoverer] at heffective
  exact h.proposedOffset_eq hreads heffective

/-- Both caches answer the same, or the same is proposed and remembered in both. -/
theorem consulted_alike (hp : input.bytewise.Knowledge p q)
    (hid : reg.recoverer? id = some (.fast waste)) :
    (consulted p id waste here).1 = (consulted q id waste here').1 ∧
      input.bytewise.Knowledge (consulted p id waste here).2 (consulted q id waste here').2 ∧
        ∀ offset, (consulted p id waste here).1 = .anchor offset →
          input.IsBoundary offset ∧ here.pos ≤ offset := by
  obtain ⟨hcache, hplaces⟩ := hp.cache
  unfold consulted
  rw [← hcache, ← h.pos_eq]
  cases hget : p.cache.get? id here.pos with
  | some answer =>
    refine ⟨rfl, hp, fun offset hoffset => ?_⟩
    obtain ⟨entry, hmem, -, -, rfl, hahead⟩ := WasteCache.exists_entry_of_get? hget
    exact ⟨hplaces entry hmem offset hoffset, hahead offset hoffset⟩
  | none =>
    have hproposed := proposedOffset_eq_of_recoverer? hg hlaid h hid
    dsimp only
    rw [← hproposed]
    refine ⟨rfl, hp.withCache ⟨by rw [hcache], fun entry hentry offset hoffset => ?_⟩,
      fun offset => boundary_of_proposedOffset h.left⟩
    obtain rfl | hold := WasteCache.mem_entries_insert hentry
    · exact (boundary_of_proposedOffset h.left hoffset).1
    · exact hplaces entry hold offset hoffset

/-- The same anchor answers with corresponding wastes, and what is remembered then is the same
    place. -/
theorem agree_fastWaste_alike (hp : input.bytewise.Knowledge p q)
    (hid : reg.recoverer? id = some (.fast waste)) :
    Traced.Agree (fun answer answer' : Option Nat × Progress =>
        Option.Rel (here.Wastes input here') answer.1 answer'.1 ∧
          input.bytewise.Knowledge answer.2 answer'.2)
      (fastWaste ⟨reg, depth, maxErrors⟩ p id waste here)
      (fastWaste ⟨reg, depth, maxErrors⟩ q id waste here') := by
  obtain ⟨hanswer, hknowledge, hplaces⟩ := consulted_alike hg hlaid h hp hid
  rw [fastWaste_eq, fastWaste_eq, ← hanswer, ← hp.tried]
  have hevent {label : String} {pos pos' : Nat} {w w' : Option Nat} {cached cached' : Bool} :
      (Event.estimated id label pos w cached).attempt? =
        (Event.estimated id label pos' w' cached').attempt? := rfl
  exact (Traced.agree_emit hevent).bind fun _ _ _ _ _ =>
    Traced.agree_pure ⟨rel_wasteOf p.tried id hplaces, hknowledge⟩

/-- Bids that correspond, with what is known then. -/
private def SameOffer (input : Input) (here here' : State)
    (choice choice' : Option Bid × Progress) : Prop :=
  Option.Rel (here.Offers input here') choice.1 choice'.1 ∧
    input.bytewise.Knowledge choice.2 choice'.2

private theorem agree_ownBid_alike (hp : input.bytewise.Knowledge p q) (owner : Option Nat) :
    Traced.Agree (SameOffer input here here') (ownBid ⟨reg, depth, maxErrors⟩ p owner here)
      (ownBid ⟨reg, depth, maxErrors⟩ q owner here') := by
  cases owner with
  | none => exact Traced.agree_pure ⟨.none, hp⟩
  | some id =>
    unfold ownBid
    dsimp only
    cases hrecoverer : reg.recoverer? id with
    | none => exact Traced.agree_pure ⟨.none, hp⟩
    | some recoverer =>
      obtain ⟨waste, rfl⟩ := (computes_of_readsScalars hg hlaid input).fast hrecoverer
      refine (agree_fastWaste_alike hg hlaid h hp hrecoverer).bind fun answer answer' _ _ hanswer => ?_
      obtain ⟨hwaste, hknown⟩ := hanswer
      exact Traced.agree_pure ⟨h.rel_improve .none id hwaste, hknown⟩

private theorem agree_askFast_alike (owner : Option Nat) (anchors : List (Nat × (State → Waste)))
    (hanchors : ∀ anchor ∈ anchors, reg.recoverer? anchor.1 = some (.fast anchor.2))
    {best best' : Option Bid} (hbest : Option.Rel (here.Offers input here') best best')
    (hp : input.bytewise.Knowledge p q) :
    Traced.Agree (SameOffer input here here')
      (askFast ⟨reg, depth, maxErrors⟩ owner here anchors best p)
      (askFast ⟨reg, depth, maxErrors⟩ owner here' anchors best' q) := by
  induction anchors generalizing best best' p q with
  | nil => exact Traced.agree_pure ⟨hbest, hp⟩
  | cons anchor anchors ih =>
    obtain ⟨id, waste⟩ := anchor
    have hrest := fun anchor hanchor => hanchors anchor (List.mem_cons_of_mem _ hanchor)
    rw [askFast, askFast, ← h.isFree_eq hbest]
    split
    · exact Traced.agree_pure ⟨hbest, hp⟩
    · split
      · exact ih hrest hbest hp
      · have hid := hanchors _ List.mem_cons_self
        refine (agree_fastWaste_alike hg hlaid h hp hid).bind fun answer answer' _ _ hanswer => ?_
        exact ih hrest (h.rel_improve hbest id hanswer.1) hanswer.2

/-- On a text and on its bytes the same anchor is chosen, at the same place: of two anchors the
    nearer one is the cheaper one on both. -/
theorem agree_chooseAnchor_alike (hp : input.bytewise.Knowledge p q) (owner : Option Nat) :
    Traced.Agree (input.bytewise.Choices here here')
      (chooseAnchor ⟨reg, depth, maxErrors⟩ p owner here)
      (chooseAnchor ⟨reg, depth, maxErrors⟩ q owner here') := by
  have hstep := (computes_of_readsScalars hg hlaid input).stepAnchors_eq_nil
  have hanchors : ∀ anchor ∈ reg.fastAnchors, reg.recoverer? anchor.1 = some (.fast anchor.2) :=
    fun _ hanchor => Registry.recoverer?_of_mem_fastAnchors hanchor
  refine (agree_ownBid_alike hg hlaid h hp owner).bind fun own own' _ _ hown => ?_
  refine (agree_askFast_alike hg hlaid h owner reg.fastAnchors hanchors hown.1 hown.2).bind
    fun fast fast' _ _ hfast => ?_
  obtain ⟨best, p⟩ := fast
  obtain ⟨best', q⟩ := fast'
  obtain ⟨hbest, hp⟩ := hfast
  rw [hstep]
  refine Traced.agree_pure ⟨?_, hp⟩
  cases hbest with
  | none => exact .none
  | some hbid => exact .some ⟨hbid.1, h.moveByUnits_waste hbid.2⟩

end Choosing

end Session

end Resync
