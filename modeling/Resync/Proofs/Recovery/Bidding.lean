import Mathlib.Data.List.Induction
import Resync.Proofs.Recovery.Survey

namespace Resync

namespace Bid

variable {waste : Nat → Option Nat} {ids : List Nat} {best : Option Bid}

/-- A bid has the least waste of all that are asked, and less than those asked before. Being asked
    earlier is what decides between equal wastes. -/
def IsFirstLeast (waste : Nat → Option Nat) (ids : List Nat) (bid : Bid) : Prop :=
  ∃ before after, ids = before ++ bid.1 :: after ∧ waste bid.1 = some bid.2 ∧
    (∀ id ∈ before, ∀ count, waste id = some count → bid.2 < count) ∧
    ∀ id ∈ after, ∀ count, waste id = some count → bid.2 ≤ count

/-- Nobody who is asked has a smaller waste than the first least one, before it or after it. -/
theorem IsFirstLeast.le {bid : Bid} (h : IsFirstLeast waste ids bid) {id count : Nat}
    (hid : id ∈ ids) (hcount : waste id = some count) : bid.2 ≤ count := by
  obtain ⟨before, after, rfl, hbid, hbefore, hafter⟩ := h
  obtain hid | hid := List.mem_append.1 hid
  · exact Nat.le_of_lt (hbefore id hid count hcount)
  · obtain rfl | hid := List.mem_cons.1 hid
    · exact Nat.le_of_eq (Option.some.inj (hbid.symm.trans hcount))
    · exact hafter id hid count hcount

/-- One more to be asked does not change the choice unless it is strictly cheaper. Someone without a
    waste changes nothing either, so the hypothesis is about the wastes that there are. -/
theorem IsFirstLeast.concat {bid : Bid} (h : IsFirstLeast waste ids bid) {id : Nat}
    (hid : ∀ count, waste id = some count → bid.2 ≤ count) :
    IsFirstLeast waste (ids ++ [id]) bid := by
  obtain ⟨before, after, rfl, hbid, hbefore, hafter⟩ := h
  refine ⟨before, after ++ [id], by rw [List.append_assoc, List.cons_append], hbid, hbefore, ?_⟩
  intro other hother count hcount
  obtain hother | hother := List.mem_append.1 hother
  · exact hafter other hother count hcount
  · cases List.mem_singleton.1 hother
    exact hid count hcount

/-- The last to be asked is chosen if it is strictly cheaper than all others. This is the other half
    of one more being asked, and the only way in which the choice moves. -/
theorem isFirstLeast_last {id count : Nat} (hcount : waste id = some count)
    (hcheaper : ∀ other ∈ ids, ∀ dearer, waste other = some dearer → count < dearer) :
    IsFirstLeast waste (ids ++ [id]) (id, count) :=
  ⟨ids, [], rfl, hcount, hcheaper, fun _ hother => absurd hother List.not_mem_nil⟩

/-- There is no best bid after an answer exactly if there was none and the answer has no waste. -/
theorem improve_eq_none_iff {id : Nat} {found : Option Nat} :
    improve best id found = none ↔ best = none ∧ found = none := by
  cases best with
  | none => cases found <;> simp [improve]
  | some bid =>
    cases found with
    | none => simp [improve]
    | some count =>
      rw [improve]
      split <;> simp

/-- Nothing is chosen exactly if nobody has a waste. A best bid that is there from the start is
    never given up. -/
theorem cheapest_eq_none_iff :
    cheapest waste ids best = none ↔ best = none ∧ ∀ id ∈ ids, waste id = none := by
  induction ids generalizing best with
  | nil => simp [cheapest]
  | cons id ids ih =>
    rw [cheapest_cons, ih, improve_eq_none_iff, List.forall_mem_cons, and_assoc]

/-- The best bid is the first one with the least waste. The induction adds those who are asked at
    the end, since each one is compared with the best of those before it. -/
theorem isFirstLeast_of_cheapest {bid : Bid} (h : cheapest waste ids none = some bid) :
    IsFirstLeast waste ids bid := by
  induction ids using List.reverseRecOn generalizing bid with
  | nil => cases h
  | append_singleton ids id ih =>
    rw [cheapest_append, cheapest_cons] at h
    change improve _ id (waste id) = some bid at h
    cases hwaste : waste id with
    | none =>
      rw [hwaste, improve] at h
      exact (ih h).concat fun count hcount => by simp [hwaste] at hcount
    | some count =>
      rw [hwaste] at h
      cases hbest : cheapest waste ids none with
      | none =>
        rw [hbest] at h
        cases h
        refine isFirstLeast_last hwaste fun other hother dearer hdearer => ?_
        rw [(cheapest_eq_none_iff.1 hbest).2 other hother] at hdearer
        cases hdearer
      | some best =>
        have hfirst := ih hbest
        rw [hbest, improve] at h
        split at h
        · next hlt =>
          cases h
          exact isFirstLeast_last hwaste fun other hother dearer hdearer =>
            Nat.lt_of_lt_of_le hlt (hfirst.le hother hdearer)
        · next hge =>
          cases h
          refine hfirst.concat fun count' hcount' => ?_
          cases hwaste.symm.trans hcount'
          exact Nat.not_lt.1 hge

/-- Whoever has bidden need not be asked again: its waste is not strictly smaller than the best one,
    which it has helped to make. The hypothesis allows an owner that has no waste. -/
theorem cheapest_filter_bidden {owner : Nat}
    (h : ∀ count, waste owner = some count → ∃ bid, best = some bid ∧ bid.2 ≤ count) :
    cheapest waste (ids.filter (some owner != some ·)) best = cheapest waste ids best := by
  induction ids generalizing best with
  | nil => rfl
  | cons id ids ih =>
    by_cases howner : owner = id
    · subst howner
      have hkept : improve best owner (waste owner) = best := by
        cases hwaste : waste owner with
        | none => rfl
        | some count =>
          obtain ⟨bid, rfl, hle⟩ := h count hwaste
          exact if_neg (Nat.not_lt.2 hle)
      rw [List.filter_cons_of_neg (by simp), cheapest_cons, hkept]
      exact ih h
    · rw [List.filter_cons_of_pos (by simpa using howner), cheapest_cons, cheapest_cons]
      refine ih fun count hcount => ?_
      obtain ⟨bid, rfl, hle⟩ := h count hcount
      cases waste id with
      | none => exact ⟨bid, rfl, hle⟩
      | some other =>
        rw [improve]
        split
        · next hlt => exact ⟨_, rfl, Nat.le_of_lt (Nat.lt_of_lt_of_le hlt hle)⟩
        · exact ⟨bid, rfl, hle⟩

end Bid

namespace Registry

variable {reg : Registry}

/-- All whose wastes are compared when an owner has failed, in order: the owner itself, the safe
    spots whose waste is computed, and those that are probed. -/
def compared (reg : Registry) (owner : Option Nat) : List Nat :=
  owner.toList ++ (reg.fastAnchors.map Prod.fst ++ reg.stepAnchors)

/-- The owner is asked only once, and not at all without a recoverer, which makes no difference: it
    need not be told apart whether it comes first, or again in its own list. -/
theorem cheapest_asked {waste : Nat → Option Nat}
    (h : ∀ id, reg.recoverer? id = none → waste id = none) (owner : Option Nat) :
    Bid.cheapest waste (reg.asked owner) none = Bid.cheapest waste (reg.compared owner) none := by
  rw [asked, compared, ← List.filter_append, Bid.cheapest_append, Bid.cheapest_append]
  cases owner with
  | none =>
    refine Bid.cheapest_filter fun id _ hskipped => ?_
    cases hskipped
  | some id =>
    have hown : Bid.cheapest waste ((some id).filter fun id => (reg.recoverer? id).isSome).toList
        none = Bid.cheapest waste (some id).toList none := by
      cases hrecoverer : reg.recoverer? id with
      | none =>
        rw [Option.filter_some_neg (by rw [hrecoverer]; decide)]
        refine (Bid.cheapest_of_forall_none fun other hother => ?_).symm
        cases List.mem_singleton.1 hother
        exact h id hrecoverer
      | some recoverer => rw [Option.filter_some_pos (by rw [hrecoverer]; rfl)]
    rw [hown]
    refine Bid.cheapest_filter_bidden fun count hcount => ⟨(id, count), ?_, Nat.le_refl _⟩
    rw [Option.toList_some, Bid.cheapest_cons, hcount]
    rfl

/-- Nobody is asked twice: the owner is left out of the lists, which are ordered by identifiers and
    have no occurrence in common. -/
theorem nodup_asked (reg : Registry) (owner : Option Nat) : (reg.asked owner).Nodup := by
  have hfast : (reg.fastAnchors.map Prod.fst).Nodup :=
    (pairwise_fastAnchors reg).imp fun hlt => Nat.ne_of_lt hlt
  have hstep : reg.stepAnchors.Nodup := (pairwise_stepAnchors reg).imp fun hlt => Nat.ne_of_lt hlt
  refine List.nodup_append.2 ⟨?_, List.nodup_append.2 ⟨hfast.filter _, hstep.filter _, ?_⟩, ?_⟩
  · cases owner.filter fun id => (reg.recoverer? id).isSome <;> simp
  · rintro id hid other hother rfl
    obtain ⟨waste, hwaste⟩ := exists_recoverer?_of_mem_fastAnchors (List.mem_filter.1 hid).1
    cases hwaste.symm.trans (recoverer?_of_mem_stepAnchors (List.mem_filter.1 hother).1)
  · rintro id hid other hother rfl
    obtain ⟨rfl, -⟩ := Option.filter_eq_some_iff.1 (Option.mem_toList.1 hid)
    rw [← List.filter_append] at hother
    simp at hother

end Registry

/-- What a probe comes to that gives an answer. -/
def Cached.toProbe : Cached → Probe
  | anchor offset => .found offset
  | tooMuch => .exhausted

/-- What an occurrence answers from a cursor if nothing is remembered of it: what its recoverer
    proposes, or what probing without a limit comes to. -/
structure Registry.Replies (reg : Registry) (here : State) (id : Nat) (answer : Cached) : Prop where
  proposed : ∀ {waste : State → Waste}, reg.recoverer? id = some (.fast waste) →
    answer = Session.proposedOffset waste here
  probed : ∀ {entry : Entry} {leaf : Leaf}, reg.entries[id]? = some entry →
    entry.work = .leaf leaf → reg.recoverer? id = some .step →
    leaf.Verdict none here.ahead answer.toProbe

/-- Every occurrence has an answer from every cursor, also one that is no leaf, for which the answer
    is that it parses nowhere. -/
theorem Registry.exists_replies (reg : Registry) (here : State) (id : Nat) :
    ∃ answer, reg.Replies here id answer := by
  cases hrecoverer : reg.recoverer? id with
  | none => exact ⟨.tooMuch, fun hfast => by simp [hrecoverer] at hfast,
      fun _ _ hstep => by simp [hrecoverer] at hstep⟩
  | some recoverer =>
    cases recoverer with
    | fast waste =>
      refine ⟨Session.proposedOffset waste here, fun hfast => ?_,
        fun _ _ hstep => by simp [hrecoverer] at hstep⟩
      cases hrecoverer.symm.trans hfast
      rfl
    | step =>
      obtain ⟨entry, leaf, hentry, hwork, -⟩ := exists_leaf_of_recoverer? hrecoverer
      obtain ⟨probe, -, hverdict⟩ := Session.yields_probe 0 0 hentry hwork none here.ahead
      have hprobe : ∃ answer : Cached, answer.toProbe = probe := by
        cases probe with
        | found offset => exact ⟨.anchor offset, rfl⟩
        | exhausted => exact ⟨.tooMuch, rfl⟩
        | cut =>
          obtain ⟨_, hlimit, -⟩ := hverdict
          cases hlimit
      obtain ⟨answer, rfl⟩ := hprobe
      refine ⟨answer, fun hfast => by simp [hrecoverer] at hfast, ?_⟩
      intro entry' leaf' hentry' hwork' _
      cases hentry.symm.trans hentry'
      cases hwork.symm.trans hwork'
      exact hverdict

/-- The same is known of some occurrences at a position, and anchors were tried at the same
    places. -/
structure Progress.AgreesOn (p q : Progress) (pos : Nat) (ids : List Nat) : Prop where
  tried : q.tried = p.tried
  get? : ∀ id ∈ ids, q.cache.get? id pos = p.cache.get? id pos

namespace Progress.AgreesOn

variable {p q : Progress} {pos id : Nat} {ids : List Nat}

theorem refl (p : Progress) (pos : Nat) (ids : List Nat) : p.AgreesOn p pos ids :=
  ⟨rfl, fun _ _ => rfl⟩

/-- Whoever has been asked need not be agreed on any more. What is remembered of it may differ from
    then on. -/
theorem tail (h : p.AgreesOn q pos (id :: ids)) : p.AgreesOn q pos ids :=
  ⟨h.tried, fun other hother => h.get? other (List.mem_cons_of_mem _ hother)⟩

/-- What is remembered of an occurrence that was asked does not concern those that are still to be
    asked. It has to be another occurrence than theirs, which is why nobody may be asked twice. -/
theorem remember (h : p.AgreesOn q pos (id :: ids)) (hid : id ∉ ids) (answer : Cached) :
    p.AgreesOn (q.remember id pos answer) pos ids := by
  refine ⟨h.tried, fun other hother => ?_⟩
  have hne : other ≠ id := by
    rintro rfl
    exact hid hother
  exact (WasteCache.get?_insert_of_ne hne).trans (h.tail.get? other hother)

end Progress.AgreesOn

namespace Session

/-- Asks one occurrence by itself, without a bid that it would have to improve on. -/
def askAlone (session : Session) (p : Progress) (id : Nat) (here : State) :
    Traced (Option Nat × Progress) :=
  match session.registry.recoverer? id with
  | none => return (none, p)
  | some (.fast waste) => session.fastWaste p id waste here
  | some .step => session.stepWaste p id here none

/-- The waste that an occurrence answers with when it is asked by itself, given what it answers if
    nothing is remembered of it. -/
def wasteAlone (reg : Registry) (p : Progress) (here : State) (answers : Nat → Cached) (id : Nat) :
    Option Nat :=
  if (reg.recoverer? id).isSome then
    wasteOf p.tried id here ((p.cache.get? id here.pos).getD (answers id))
  else none

variable {reg : Registry} {here : State} {p q : Progress} {answers : Nat → Cached} {id : Nat}
  {ids : List Nat}

/-- No waste goes beyond the end of the input. A probe whose limit is as large as that leaves
    nothing out. -/
theorem wasteAlone_le {count : Nat} (h : wasteAlone reg p here answers id = some count) :
    count ≤ here.input.units here.pos here.input.size := by
  obtain ⟨-, hwaste⟩ := Option.ite_none_right_eq_some.1 h
  obtain ⟨offset, -, rfl⟩ := Option.map_eq_some_iff.1 hwaste
  exact here.input.units_le_units_size _ _

/-- An occurrence whose turn it is has the waste that it would have by itself, as what is known of
    it is the same as at the beginning. -/
theorem wasteOf_eq_wasteAlone (hq : p.AgreesOn q here.pos (id :: ids)) {recoverer : Recoverer}
    (hid : reg.recoverer? id = some recoverer) :
    wasteOf q.tried id here ((q.cache.get? id here.pos).getD (answers id)) =
      wasteAlone reg p here answers id := by
  rw [wasteAlone, hid, Option.isSome_some, if_pos rfl, hq.tried, hq.get? id List.mem_cons_self]

section Asking

variable (hanswers : ∀ id, reg.Replies here id (answers id)) (depth maxErrors : Nat)
include hanswers

/-- A computed waste depends on nothing that was asked before. The answer is remembered, and so the
    agreement goes on with those who are asked later. -/
theorem yields_fastWaste_alone (hq : p.AgreesOn q here.pos (id :: ids)) (hnew : id ∉ ids)
    {waste : State → Waste} (hid : reg.recoverer? id = some (.fast waste)) :
    ∃ q', (fastWaste ⟨reg, depth, maxErrors⟩ q id waste here).Yields
        (wasteAlone reg p here answers id, q') ∧ p.AgreesOn q' here.pos ids := by
  rw [← wasteOf_eq_wasteAlone hq hid, (hanswers id).proposed hid]
  unfold fastWaste
  cases q.cache.get? id here.pos with
  | some answer => exact ⟨q, yields_appraise_with _ q _ _ _ _, hq.tail⟩
  | none => exact ⟨_, yields_appraise_with _ _ _ _ _ _, hq.remember hnew _⟩

/-- Probing depends on nothing that was asked before either, and under a limit that leads no further
    than to the end it misses only what is no better than the limit. -/
theorem yields_stepWaste_alone (hhere : here.Scanned) (hq : p.AgreesOn q here.pos (id :: ids))
    (hnew : id ∉ ids) (hid : reg.recoverer? id = some .step) (limit : Option Nat) :
    ∃ (waste : Option Nat) (q' : Progress),
      (stepWaste ⟨reg, depth + 1, maxErrors⟩ q id here limit).Yields (waste, q') ∧
      p.AgreesOn q' here.pos ids ∧
      (waste = wasteAlone reg p here answers id ∨ ∃ bound, limit = some bound ∧ waste = none ∧
        (bound ≤ here.input.units here.pos here.input.size →
          ∀ count, wasteAlone reg p here answers id = some count → bound ≤ count)) := by
  rw [← wasteOf_eq_wasteAlone hq hid]
  unfold stepWaste
  cases q.cache.get? id here.pos with
  | some answer => exact ⟨_, q, yields_appraise_with _ q _ _ _ _, hq.tail, .inl rfl⟩
  | none =>
    obtain ⟨entry, leaf, hentry, hwork, -⟩ := Registry.exists_leaf_of_recoverer? hid
    have hfull := (hanswers id).probed hentry hwork hid
    obtain ⟨probe, hprobe, hverdict⟩ := yields_probe depth maxErrors hentry hwork limit here.ahead
    rw [Option.getD_none]
    obtain rfl | ⟨bound, rfl, rfl, hfar⟩ := hverdict.eq_or_cut hfull
    · cases hanswer : answers id with
      | anchor offset =>
        rw [hanswer] at hprobe
        exact ⟨_, _, hprobe.bind (yields_appraise_with _ _ _ _ (.anchor offset) _),
          hq.remember hnew _, .inl rfl⟩
      | tooMuch =>
        rw [hanswer] at hprobe
        exact ⟨_, _, hprobe.bind (yields_appraise_with _ _ _ _ .tooMuch _),
          hq.remember hnew _, .inl rfl⟩
    · refine ⟨none, q, hprobe.bind ⟨rfl, rfl⟩, hq.tail, .inr ⟨bound, rfl, rfl, ?_⟩⟩
      intro hbound count hcount
      obtain ⟨offset, hoffset, rfl⟩ := Option.map_eq_some_iff.1 hcount
      cases hanswer : answers id with
      | tooMuch =>
        rw [hanswer] at hoffset
        cases hoffset
      | anchor found =>
        rw [hanswer] at hoffset hfar
        obtain ⟨hfound, -⟩ := Option.filter_eq_some_iff.1 hoffset
        cases hfound
        obtain ⟨i, t, hi, ht, rfl⟩ := hfar _ rfl
        exact hhere.le_unitsTo_of_ahead ht hi hbound

/-- However far an anchor is probed, the best bid after it is the same. The limit is the best waste,
    and a probe that stops there would have found nothing that is strictly cheaper. -/
theorem yields_stepWaste_improve (hhere : here.Scanned) (hq : p.AgreesOn q here.pos (id :: ids))
    (hnew : id ∉ ids) (hid : reg.recoverer? id = some .step) {best : Option Bid}
    (hbest : ∀ bid, best = some bid → bid.2 ≤ here.input.units here.pos here.input.size) :
    ∃ (waste : Option Nat) (q' : Progress),
      (stepWaste ⟨reg, depth + 1, maxErrors⟩ q id here (best.map Prod.snd)).Yields (waste, q') ∧
      p.AgreesOn q' here.pos ids ∧
      Bid.improve best id waste = Bid.improve best id (wasteAlone reg p here answers id) := by
  obtain ⟨waste, q', hyields, hq', hwaste⟩ := yields_stepWaste_alone hanswers depth maxErrors hhere
    hq hnew hid (best.map Prod.snd)
  refine ⟨waste, q', hyields, hq', ?_⟩
  obtain rfl | ⟨bound, hbound, rfl, hfar⟩ := hwaste
  · rfl
  · obtain ⟨bid, rfl, rfl⟩ := Option.map_eq_some_iff.1 hbound
    cases hcount : wasteAlone reg p here answers id with
    | none => rfl
    | some count => exact (improve_of_le hbound (hfar (hbest bid rfl) count hcount)).symm

/-- By itself every occurrence gives its waste, whatever it is: with a recoverer that computes, by
    probing to the end, or none at all. One level of depth is enough, as recoverers belong to
    leaves. -/
theorem yields_askAlone (hhere : here.Scanned) (id : Nat) :
    ∃ q, (askAlone ⟨reg, depth + 1, maxErrors⟩ p id here).Yields
      (wasteAlone reg p here answers id, q) := by
  have hp : p.AgreesOn p here.pos [id] := .refl p here.pos [id]
  unfold askAlone
  dsimp only
  cases hid : reg.recoverer? id with
  | none =>
    rw [wasteAlone, hid]
    exact ⟨p, Traced.yields_pure _⟩
  | some recoverer =>
    cases recoverer with
    | fast waste =>
      obtain ⟨q, hyields, -⟩ :=
        yields_fastWaste_alone hanswers (depth + 1) maxErrors hp List.not_mem_nil hid
      exact ⟨q, hyields⟩
    | step =>
      obtain ⟨waste, q, hyields, -, rfl | ⟨_, hlimit, -⟩⟩ := yields_stepWaste_alone hanswers depth
        maxErrors hhere hp List.not_mem_nil hid none
      · exact ⟨q, hyields⟩
      · cases hlimit

/-- Whoever is asked once gives its waste when it is its turn. Those who wait are agreed on with the
    beginning, and nobody waits twice, which are the two parts of what is kept up while asking in
    turn. -/
theorem inTurn_alone (hhere : here.Scanned) (p : Progress) :
    InTurn ⟨reg, depth + 1, maxErrors⟩ here (wasteAlone reg p here answers)
      fun ids q => p.AgreesOn q here.pos ids ∧ ids.Nodup where
  skip hknown := ⟨hknown.1.tail, (List.nodup_cons.1 hknown.2).2⟩
  fast := by
    rintro id ids q compute ⟨hq, hnodup⟩ hid
    obtain ⟨hnew, hnodup⟩ := List.nodup_cons.1 hnodup
    obtain ⟨q', hasked, hq'⟩ := yields_fastWaste_alone hanswers (depth + 1) maxErrors hq hnew hid
    exact ⟨q', hasked, hq', hnodup⟩
  step := by
    rintro id ids q best ⟨hq, hnodup⟩ hid hbest
    obtain ⟨hnew, hnodup⟩ := List.nodup_cons.1 hnodup
    obtain ⟨found, q', hasked, hq', hfound⟩ := yields_stepWaste_improve hanswers depth maxErrors
      hhere hq hnew hid fun bid hbid => wasteAlone_le (hbest bid hbid)
    exact ⟨found, q', hasked, ⟨hq', hnodup⟩, hfound⟩

/-- The wastes by themselves decide the choice. That a bid without waste ends the asking, and that
    no probe goes beyond the best bid, changes nothing of it. -/
theorem yields_chooseAnchor_alone (hhere : here.Scanned) (owner : Option Nat) :
    ∃ q, (chooseAnchor ⟨reg, depth + 1, maxErrors⟩ p owner here).Yields
      (Bid.cheapest (wasteAlone reg p here answers) (reg.asked owner) none, q) := by
  obtain ⟨q, hchosen, -⟩ :=
    (inTurn_alone hanswers depth maxErrors hhere p).yields_chooseAnchor owner
      ⟨.refl p here.pos _, reg.nodup_asked owner⟩
  exact ⟨q, hchosen⟩

end Asking

/-- Whatever the cache holds and wherever anchors were tried, each occurrence has a waste or none
    when it is asked by itself, and the choice is none if none of them has a waste, and else the
    first one with the least waste, in the order of the owner, the anchors whose waste is computed,
    and those that are probed. -/
theorem chooses_first_least {session : Session} (hdepth : 0 < session.depth) (p : Progress)
    {here : State} (hhere : here.Scanned) :
    ∃ wastes : Nat → Option Nat,
      (∀ id, ∃ q, (session.askAlone p id here).result = .ok (wastes id, q)) ∧
      ∀ owner, ∃ choice q, (session.chooseAnchor p owner here).result = .ok (choice, q) ∧
        (choice = none ↔ ∀ id ∈ session.registry.compared owner, wastes id = none) ∧
        ∀ bid, choice = some bid →
          Bid.IsFirstLeast wastes (session.registry.compared owner) bid := by
  obtain ⟨reg, depth, maxErrors⟩ := session
  obtain ⟨depth, rfl⟩ := Nat.exists_eq_add_one_of_ne_zero (Nat.ne_of_gt hdepth)
  obtain ⟨answers, hanswers⟩ := Classical.axiomOfChoice (reg.exists_replies here)
  refine ⟨wasteAlone reg p here answers, fun id => ?_, fun owner => ?_⟩
  · obtain ⟨q, hyields⟩ := yields_askAlone (p := p) hanswers depth maxErrors hhere id
    exact ⟨q, hyields.result⟩
  · obtain ⟨q, hyields⟩ := yields_chooseAnchor_alone (p := p) hanswers depth maxErrors hhere owner
    have hmissing (id : Nat) (hid : reg.recoverer? id = none) :
        wasteAlone reg p here answers id = none := by
      rw [wasteAlone, hid]
      rfl
    rw [Registry.cheapest_asked hmissing owner] at hyields
    exact ⟨_, q, hyields.result, Bid.cheapest_eq_none_iff.trans (and_iff_right rfl),
      fun bid hbid => Bid.isFirstLeast_of_cheapest hbid⟩

/-- Two safe spots that are searched for, and one that is probed. -/
def rivals : Registry where
  entries :=
    [⟨0, ";", .leaf { (Primitive.char ';').leaf with safeSpot := true }, none, []⟩,
      ⟨1, ",", .leaf { (Primitive.char ',').leaf with safeSpot := true }, none, []⟩,
      ⟨2, "!", .leaf { (Primitive.char '!').leaf with recoverer := some .step, safeSpot := true },
        none, []⟩]

/-- The cheapest of them was tried, and the first one is remembered where the second one is. -/
def biased : Progress where
  cache := ⟨true, [⟨0, 0, .anchor 3⟩]⟩
  errors := []
  salvage := []
  tried := [(2, 2)]

/-- One unit is skipped for the anchor that comes second and for the one that is probed. Without the
    attempt the first one would have been chosen, as nothing has to be skipped for it. -/
theorem chooses_first_least_biased :
    0 < (⟨rivals, 1, 10⟩ : Session).depth ∧ (State.start (Input.text "é!,;")).Scanned ∧
      ∃ wastes : Nat → Option Nat,
        (∀ id, ∃ q, ((⟨rivals, 1, 10⟩ : Session).askAlone biased id
          (State.start (Input.text "é!,;"))).result = .ok (wastes id, q)) ∧
        Bid.IsFirstLeast wastes (rivals.compared none) (0, 2) := by
  have hdepth : 0 < (⟨rivals, 1, 10⟩ : Session).depth := by decide
  have hhere := State.scanned_start (Input.text "é!,;")
  obtain ⟨wastes, halone, hchoice⟩ := chooses_first_least hdepth biased hhere
  obtain ⟨choice, q, hresult, -, hfirst⟩ := hchoice none
  have hchosen : (chooseAnchor ⟨rivals, 1, 10⟩ biased none
      (State.start (Input.text "é!,;"))).result.map Prod.fst = .ok (some (0, 2)) := by rfl
  rw [hresult] at hchosen
  cases hchosen
  exact ⟨hdepth, hhere, wastes, halone, hfirst _ rfl⟩

end Session

end Resync
