import Resync.Proofs.Leaf.Scalars
import Resync.Proofs.Recovery.Survey

namespace Resync

namespace Bid

variable {waste : Nat → Option Nat} {ids : List Nat} {best : Option Bid} {anchor least : Nat}

/-- An anchor that is cheaper than all others has made the best bid once it has been asked. Whether
    it was asked first or last does not matter, as nobody has the same waste. -/
theorem cheapest_eq_some (hanchor : waste anchor = some least)
    (hothers : ∀ id ∈ ids, id ≠ anchor → ∀ count, waste id = some count → least < count)
    (hbest : best = some (anchor, least) ∨
      anchor ∈ ids ∧ ∀ bid, best = some bid → least < bid.2) :
    cheapest waste ids best = some (anchor, least) := by
  induction ids generalizing best with
  | nil => exact hbest.resolve_right fun hpending => List.not_mem_nil hpending.1
  | cons id ids ih =>
    rw [cheapest_cons]
    apply ih fun other hother => hothers other (List.mem_cons_of_mem _ hother)
    by_cases hid : id = anchor
    · subst hid
      left
      rw [hanchor]
      obtain rfl | ⟨-, hworse⟩ := hbest
      · exact if_neg (Nat.lt_irrefl least)
      · cases best with
        | none => rfl
        | some bid => exact if_pos (hworse bid rfl)
    · have hcostly := hothers id List.mem_cons_self hid
      obtain rfl | ⟨hpending, hworse⟩ := hbest
      · left
        cases hwaste : waste id with
        | none => rfl
        | some count => exact if_neg (Nat.not_lt.2 (Nat.le_of_lt (hcostly count hwaste)))
      · refine .inr ⟨(List.mem_cons.1 hpending).resolve_left (Ne.symm hid), fun bid hbid => ?_⟩
        obtain hold | ⟨count, hcount, rfl⟩ := improve_eq_some hbid
        · exact hworse bid hold
        · exact hcostly count hcount

end Bid

namespace Registry

/-- Every leaf is found by a search for the scalars that it can start with. The waste of an anchor
    is then the number of scalars in front of the first one that it seeks. -/
structure Seeks (reg : Registry) (sought : Nat → Char → Bool) : Prop where
  recoverer : ∀ {id : Nat} {entry : Entry} {leaf : Leaf}, reg.entries[id]? = some entry →
    entry.work = .leaf leaf → leaf.effectiveRecoverer = some (.find (sought id))
  starts : ∀ {id : Nat} {entry : Entry} {leaf : Leaf}, reg.entries[id]? = some entry →
    entry.work = .leaf leaf → Primitive.MatchesScalar leaf (sought id)

/-- Leaves are found by a search for the scalars that they can start with, or not at all. -/
structure Finds (reg : Registry) (input : Input) (sought : Nat → Char → Bool) : Prop where
  searchable : reg.Searchable input
  recoverer : ∀ {id : Nat} {recoverer : Recoverer}, reg.recoverer? id = some recoverer →
    recoverer = .find (sought id) ∨ recoverer = .never ∧ ∀ c, sought id c = false
  starts : ∀ {id : Nat} {entry : Entry} {leaf : Leaf}, reg.entries[id]? = some entry →
    entry.work = .leaf leaf → ∀ {s : State} {c : Char}, s.scalars.head? = some c →
      sought id c = true → leaf.Accepts s

/-- The occurrences that are asked for a bid when `owner` has failed, in order. -/
def bidders (reg : Registry) (owner : Nat) : List Nat :=
  owner :: (reg.fastAnchors.map Prod.fst).filter (· != owner)

/-- When `owner` has failed, one anchor alone finds what it seeks behind `front`, where nothing is
    found by anyone. -/
structure Nearest (reg : Registry) (sought : Nat → Char → Bool) (owner : Nat) (front : List Char)
    (c : Char) (anchor : Nat) : Prop where
  asked : anchor ∈ reg.bidders owner
  passed : ∀ id ∈ reg.bidders owner, ∀ x ∈ front, sought id x = false
  found : ∀ id ∈ reg.bidders owner, (sought id c = true ↔ id = anchor)

variable {reg : Registry} {sought : Nat → Char → Bool} {input : Input} {id owner anchor : Nat}
  {front back : List Char} {c : Char}

/-- Every safe spot whose waste is computed is asked, whoever has failed: as the owner, or among the
    others. -/
theorem mem_bidders {waste : State → Waste} (h : (id, waste) ∈ reg.fastAnchors) (owner : Nat) :
    id ∈ reg.bidders owner := by
  by_cases howner : id = owner
  · exact howner ▸ List.mem_cons_self
  · refine List.mem_cons_of_mem _ (List.mem_filter.2 ⟨List.mem_map_of_mem h, ?_⟩)
    exact bne_iff_ne.2 howner

/-- On a text, leaves that are found by a search are searchable: they match where they find what
    they seek, and nowhere before. -/
theorem Seeks.searchable (h : reg.Seeks sought) (htext : input.binary = false) :
    reg.Searchable input where
  positional hentry hwork := (h.starts hentry hwork).positional
  exact hentry hwork hfast := by
    cases (h.recoverer hentry hwork).symm.trans hfast
    exact .inr fun s hs => (h.starts hentry hwork).exactAt_find htext hs

/-- A recoverer of such a registry is the search for what its occurrence seeks. -/
theorem Seeks.recoverer?_eq (h : reg.Seeks sought) {recoverer : Recoverer}
    (hid : reg.recoverer? id = some recoverer) : recoverer = .find (sought id) := by
  obtain ⟨entry, leaf, hentry, hwork, hrecoverer⟩ := exists_leaf_of_recoverer? hid
  cases (h.recoverer hentry hwork).symm.trans hrecoverer
  rfl

/-- Leaves that are all found by a search are in particular found by a search or not at all. -/
theorem Seeks.finds (h : reg.Seeks sought) (htext : input.binary = false) :
    reg.Finds input sought where
  searchable := h.searchable htext
  recoverer hid := .inl (h.recoverer?_eq hid)
  starts hentry hwork _ _ hhead hsought := (h.starts hentry hwork _).2 ⟨_, hhead, hsought⟩

/-- Nobody has to be probed where all leaves are found by a search. -/
theorem Finds.stepAnchors_eq_nil (h : reg.Finds input sought) : reg.stepAnchors = [] := by
  refine List.eq_nil_iff_forall_not_mem.2 fun id hid => ?_
  obtain hfind | ⟨hnever, -⟩ := h.recoverer (recoverer?_of_mem_stepAnchors hid)
  · cases hfind
  · cases hnever

/-- Before the nearest anchor nothing is found, and the others find nothing where it does. So it is
    found behind `front`, and everybody else further behind or nowhere. -/
theorem Nearest.findIdx? (h : reg.Nearest sought owner front c anchor)
    (hid : id ∈ reg.bidders owner) :
    (front ++ c :: back).findIdx? (sought id) =
      if id = anchor then some front.length
      else (back.findIdx? (sought id)).map (· + (front.length + 1)) := by
  have hfront : front.findIdx? (sought id) = none :=
    List.findIdx?_eq_none_iff.2 (h.passed id hid)
  rw [List.findIdx?_append, hfront, Option.none_or, List.findIdx?_cons]
  by_cases heq : id = anchor
  · rw [if_pos heq, if_pos ((h.found id hid).2 heq), Option.map_some, Nat.zero_add]
  · rw [if_neg heq, if_neg fun hfound => heq ((h.found id hid).1 hfound), Option.map_map]
    congr 1
    funext count
    exact Nat.add_right_comm ..

/-- The nearest anchor makes the best bid, and the waste is the length of what stands in front of
    it. -/
theorem Nearest.cheapest_eq (h : reg.Nearest sought owner front c anchor) :
    Bid.cheapest (fun id => (front ++ c :: back).findIdx? (sought id)) (reg.bidders owner) none =
      some (anchor, front.length) := by
  refine Bid.cheapest_eq_some ?_ (fun id hid hne count hcount => ?_)
    (.inr ⟨h.asked, fun _ hbid => nomatch hbid⟩)
  · rw [h.findIdx? h.asked, if_pos rfl]
  · rw [h.findIdx? hid, if_neg hne] at hcount
    obtain ⟨_, -, rfl⟩ := Option.map_eq_some_iff.1 hcount
    omega

end Registry

namespace Session

variable {reg : Registry} {sought : Nat → Char → Bool} {depth maxErrors : Nat} {input : Input}
  {here : State} {p : Progress} {id owner : Nat}

/-- The waste of a search is the number of scalars in front of the one that is found. The place has
    to be new to the anchor, as there is no waste where it was tried before. -/
theorem wasteOf_find (htext : input.binary = false) (hhere : here.SitsOn input)
    {tried : List (Nat × Nat)} (htried : ∀ attempt ∈ tried, attempt.2 < here.pos)
    (seeks : Char → Bool) :
    wasteOf tried id here (proposedOffset
        (fun s => Recoverer.wasteToOffset s (Recoverer.offsetOf? seeks s.scalars)) here) =
      here.scalars.findIdx? seeks := by
  unfold proposedOffset
  dsimp only
  rw [Recoverer.offsetOf?_eq_findIdx?]
  cases hfound : here.scalars.findIdx? seeks with
  | none => rfl
  | some count =>
    have hlt := (List.findIdx?_eq_some_iff_getElem.1 hfound).1
    have huntried : (id, (here.moveByUnits count).pos) ∉ tried := fun hmem =>
      Nat.not_lt.2 (hhere.pos_le_moveByUnits count) (htried _ hmem)
    rw [Option.map_some, Recoverer.wasteToOffset, wasteTo, ← hhere.moveByUnits_eq_moveBy htext hlt,
      hhere.unitsTo_moveByUnits htext (Nat.le_of_lt hlt)]
    dsimp only [wasteOf, cachedOffset]
    rw [Option.filter_some, if_pos (by simpa using huntried), Option.map_some, State.unitsTo,
      hhere.movedTo_pos (hhere.moveByUnits count).boundary, ← State.unitsTo,
      hhere.unitsTo_moveByUnits htext (Nat.le_of_lt hlt)]

section Choosing

variable (hreg : reg.Finds input sought) (htext : input.binary = false) (hhere : here.SitsOn input)
  (hp : p.cache.Truthful reg input) (htried : ∀ attempt ∈ p.tried, attempt.2 < here.pos)
include hreg htext hhere htried

/-- What an anchor answers is how many scalars stand in front of what it seeks, and no waste if it
    is not there. -/
theorem wasteOf_answer {answers : Nat → Cached} (hanswers : reg.Surveyed input here.pos answers)
    {recoverer : Recoverer} (hid : reg.recoverer? id = some recoverer) :
    wasteOf p.tried id here (answers id) = here.scalars.findIdx? (sought id) := by
  have hanswer {waste : State → Waste} (hfast : reg.recoverer? id = some (.fast waste)) :
      answers id = proposedOffset waste here :=
    (hanswers.answers hfast).unique (hreg.searchable.answers_proposedOffset hhere hfast)
  obtain rfl | ⟨rfl, hnever⟩ := hreg.recoverer hid
  · rw [hanswer hid]
    exact wasteOf_find htext hhere htried (sought id)
  · rw [hanswer hid, List.findIdx?_eq_none_iff.2 fun c _ => hnever c]
    rfl

include hp

/-- The cheapest bid is chosen of the owner and all other anchors. An owner that cannot be found
    itself seeks nothing, so that it makes no bid. -/
theorem yields_chooseAnchor_find (depth maxErrors : Nat)
    (howner : reg.recoverer? owner = none → ∀ c, sought owner c = false) :
    ∃ cache : WasteCache, cache.Truthful reg input ∧
      (chooseAnchor ⟨reg, depth + 1, maxErrors⟩ p (some owner) here).Yields
        (Bid.cheapest (fun id => here.scalars.findIdx? (sought id)) (reg.bidders owner) none,
          { p with cache }) := by
  obtain ⟨answers, hanswers⟩ := Registry.exists_surveyed reg input here.pos
  obtain ⟨cache, hcache, hchosen⟩ :=
    yields_chooseAnchor hreg.searchable hhere hanswers hp depth maxErrors (some owner)
  refine ⟨cache, hcache, ?_⟩
  have hasked : cheapestAnswer p.tried here answers (reg.asked (some owner)) none =
      Bid.cheapest (fun id => here.scalars.findIdx? (sought id)) (reg.asked (some owner)) none := by
    refine Bid.cheapest_congr fun id hid => ?_
    obtain ⟨recoverer, hrecoverer⟩ :=
      Option.isSome_iff_exists.1 (Registry.isSome_recoverer?_of_mem_asked hid)
    exact wasteOf_answer hreg htext hhere htried hanswers hrecoverer
  have hothers : (fun id => some owner != some id) = (fun id => id != owner) := by
    funext id
    rw [Bool.eq_iff_iff, bne_iff_ne, bne_iff_ne, Ne, Option.some.injEq, ne_comm]
  rw [hasked, Registry.asked, hreg.stepAnchors_eq_nil, List.filter_nil, List.append_nil, hothers]
    at hchosen
  rw [Registry.bidders]
  cases hid : reg.recoverer? owner with
  | some recoverer =>
    rw [Option.filter_some_pos (by rw [hid]; rfl)] at hchosen
    exact hchosen
  | none =>
    rw [Option.filter_some_neg (by rw [hid]; decide)] at hchosen
    rw [Bid.cheapest_cons, List.findIdx?_eq_none_iff.2 fun c _ => howner hid c]
    exact hchosen

end Choosing

end Session

end Resync
