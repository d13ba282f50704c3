import Resync.Proofs.Recovery.Answers

namespace Resync

namespace Bid

variable {waste : Nat → Option Nat} {ids : List Nat} {best : Option Bid} {anchor least : Nat}

/-- The best bid when some more anchors have been asked, given the waste of each. -/
def cheapest (waste : Nat → Option Nat) (ids : List Nat) (best : Option Bid) : Option Bid :=
  ids.foldl (fun best id => improve best id (waste id)) best

/-- The first of the anchors is compared with the best bid so far, and then the others. -/
theorem cheapest_cons (id : Nat) :
    cheapest waste (id :: ids) best = cheapest waste ids (improve best id (waste id)) := rfl

/-- Anchors may be asked in parts, with the best bid of the first part to begin the second with. -/
theorem cheapest_append (others : List Nat) :
    cheapest waste (ids ++ others) best = cheapest waste others (cheapest waste ids best) :=
  List.foldl_append

theorem improve_of_isFree (h : isFree best = true) (id : Nat) (w : Option Nat) :
    improve best id w = best := by
  cases best with
  | none => cases h
  | some bid =>
    cases w with
    | none => rfl
    | some count =>
      have hfree : bid.2 = 0 := beq_iff_eq.1 h
      exact if_neg (by omega)

/-- A bid without waste remains the best. So it makes no difference whether anyone else is asked. -/
theorem cheapest_of_isFree (h : isFree best = true) : cheapest waste ids best = best := by
  induction ids with
  | nil => rfl
  | cons id ids ih =>
    rw [cheapest_cons, improve_of_isFree h]
    exact ih

/-- Anchors that have no waste to offer leave the best bid as it is. -/
theorem cheapest_of_forall_none (h : ∀ id ∈ ids, waste id = none) :
    cheapest waste ids best = best := by
  induction ids with
  | nil => rfl
  | cons id ids ih =>
    rw [cheapest_cons, h id List.mem_cons_self]
    exact ih fun other hother => h other (List.mem_cons_of_mem _ hother)

/-- Only the wastes of those that are asked matter to the best bid. -/
theorem cheapest_congr {waste' : Nat → Option Nat} (h : ∀ id ∈ ids, waste id = waste' id) :
    cheapest waste ids best = cheapest waste' ids best := by
  induction ids generalizing best with
  | nil => rfl
  | cons id ids ih =>
    rw [cheapest_cons, cheapest_cons, h id List.mem_cons_self]
    exact ih fun other hother => h other (List.mem_cons_of_mem _ hother)

/-- Anchors without a bid may as well not be asked, so those that cannot match need not be run. -/
theorem cheapest_filter {p : Nat → Bool} (h : ∀ id ∈ ids, p id = false → waste id = none) :
    cheapest waste (ids.filter p) best = cheapest waste ids best := by
  induction ids generalizing best with
  | nil => rfl
  | cons id ids ih =>
    have hrest := fun other hother => h other (List.mem_cons_of_mem _ hother)
    cases hp : p id with
    | true =>
      rw [List.filter_cons_of_pos hp, cheapest_cons, cheapest_cons]
      exact ih hrest
    | false =>
      rw [List.filter_cons_of_neg (by rw [hp]; decide), cheapest_cons, h id List.mem_cons_self hp]
      exact ih hrest

/-- The best bid is the one that there was, or that of an anchor which has been asked. -/
theorem mem_of_cheapest_eq_some (h : cheapest waste ids best = some (anchor, least)) :
    best = some (anchor, least) ∨ anchor ∈ ids ∧ waste anchor = some least := by
  induction ids generalizing best with
  | nil => exact .inl h
  | cons id ids ih =>
    rw [cheapest_cons] at h
    obtain hbest | ⟨hmem, hwaste⟩ := ih h
    · obtain hold | ⟨count, hcount, hbid⟩ := improve_eq_some hbest
      · exact .inl hold
      · cases hbid
        exact .inr ⟨List.mem_cons_self, hcount⟩
    · exact .inr ⟨List.mem_cons_of_mem _ hmem, hwaste⟩

/-- The best bid, if there is one, is the waste of the anchor that made it. -/
def Backed (waste : Nat → Option Nat) (best : Option Bid) : Prop :=
  ∀ bid, best = some bid → waste bid.1 = some bid.2

theorem backed_none : Backed waste none := fun _ hbid => nomatch hbid

/-- The better of two bids is backed, if the first one is. -/
theorem Backed.improve (h : Backed waste best) (id : Nat) :
    Backed waste (improve best id (waste id)) := by
  intro bid hbid
  obtain hold | ⟨count, hcount, rfl⟩ := improve_eq_some hbid
  · exact h bid hold
  · exact hcount

/-- The best of all bids is backed: its waste is that of the anchor which makes it. -/
theorem Backed.cheapest (h : Backed waste best) (ids : List Nat) :
    Backed waste (cheapest waste ids best) := by
  rintro ⟨anchor, least⟩ hbid
  obtain hold | ⟨-, hwaste⟩ := mem_of_cheapest_eq_some hbid
  · exact h _ hold
  · exact hwaste

end Bid

namespace Registry

/-- The occurrences that are asked when an owner has failed, in order: the owner itself if it can be
    found, the safe spots whose waste is computed, and those that are probed. -/
def asked (reg : Registry) (owner : Option Nat) : List Nat :=
  (owner.filter fun id => (reg.recoverer? id).isSome).toList ++
    ((reg.fastAnchors.map Prod.fst).filter (owner != some ·) ++
      reg.stepAnchors.filter (owner != some ·))

/-- Each anchor is given what it answers at an offset. -/
def Surveyed (reg : Registry) (input : Input) (pos : Nat) (answers : Nat → Cached) : Prop :=
  ∀ id, (reg.recoverer? id).isSome = true → reg.Answers input id pos (answers id)

variable {reg : Registry} {input : Input} {pos : Nat}

/-- There is a family of answers of all anchors at a place. -/
theorem exists_surveyed (reg : Registry) (input : Input) (pos : Nat) :
    ∃ answers, reg.Surveyed input pos answers := by
  have hanswer (id : Nat) : ∃ answer, (reg.recoverer? id).isSome = true →
      reg.Answers input id pos answer := by
    cases hid : reg.recoverer? id with
    | none => exact ⟨.tooMuch, fun hsome => nomatch hsome⟩
    | some recoverer =>
      obtain ⟨answer, hanswer⟩ := exists_answers hid pos
      exact ⟨answer, fun _ => hanswer⟩
  exact ⟨fun id => (hanswer id).choose, fun id => (hanswer id).choose_spec⟩

/-- What an anchor is surveyed with is its answer, if it has a recoverer. -/
theorem Surveyed.answers {answers : Nat → Cached} (h : reg.Surveyed input pos answers) {id : Nat}
    {recoverer : Recoverer} (hid : reg.recoverer? id = some recoverer) :
    reg.Answers input id pos (answers id) :=
  h id (by rw [hid]; rfl)

/-- Whoever is asked is an anchor, because it stands in one of the two lists, or is the owner and
    has a recoverer. -/
theorem isSome_recoverer?_of_mem_asked {owner : Option Nat} {id : Nat} (h : id ∈ reg.asked owner) :
    (reg.recoverer? id).isSome = true := by
  obtain hown | hothers := List.mem_append.1 h
  · exact (Option.filter_eq_some_iff.1 (Option.mem_toList.1 hown)).2
  obtain hfast | hstep := List.mem_append.1 hothers
  · obtain ⟨waste, hwaste⟩ := exists_recoverer?_of_mem_fastAnchors (List.mem_filter.1 hfast).1
    rw [hwaste]
    rfl
  · rw [recoverer?_of_mem_stepAnchors (List.mem_filter.1 hstep).1]
    rfl

end Registry

namespace Session

/-- What is known while anchors are asked in turn, given those that are still to be asked. When the
    next of them has been asked, it is known of the others, and the best bid is as if that anchor had
    given its waste. -/
structure InTurn (session : Session) (here : State) (waste : Nat → Option Nat)
    (known : List Nat → Progress → Prop) : Prop where
  skip : ∀ {id ids p}, known (id :: ids) p → known ids p
  fast : ∀ {id ids p compute}, known (id :: ids) p →
    session.registry.recoverer? id = some (.fast compute) →
    ∃ q, (session.fastWaste p id compute here).Yields (waste id, q) ∧ known ids q
  step : ∀ {id ids p best}, known (id :: ids) p → session.registry.recoverer? id = some .step →
    Bid.Backed waste best →
    ∃ found q, (session.stepWaste p id here (best.map Prod.snd)).Yields (found, q) ∧ known ids q ∧
      Bid.improve best id found = Bid.improve best id (waste id)

namespace InTurn

variable {session : Session} {here : State} {waste : Nat → Option Nat}
  {known : List Nat → Progress → Prop} {p : Progress} {ids later : List Nat} {best : Option Bid}

/-- Nobody has to be asked for the rest to be in turn. -/
theorem skipAll (h : InTurn session here waste known) (hp : known (ids ++ later) p) :
    known later p := by
  induction ids with
  | nil => exact hp
  | cons id ids ih => exact ih (h.skip hp)

/-- The bid of the owner is its waste, if it is an anchor at all. -/
theorem yields_ownBid (h : InTurn session here waste known) (owner : Option Nat)
    (hp : known ((owner.filter fun id => (session.registry.recoverer? id).isSome).toList ++ later)
      p) :
    ∃ q, (session.ownBid p owner here).Yields
        (Bid.cheapest waste
          (owner.filter fun id => (session.registry.recoverer? id).isSome).toList none, q) ∧
      known later q := by
  cases owner with
  | none => exact ⟨p, Traced.yields_pure _, hp⟩
  | some id =>
    unfold ownBid
    dsimp only
    cases hid : session.registry.recoverer? id with
    | none =>
      rw [Option.filter_some_neg (by rw [hid]; decide)] at hp ⊢
      exact ⟨p, Traced.yields_pure _, hp⟩
    | some recoverer =>
      rw [Option.filter_some_pos (by rw [hid]; rfl)] at hp ⊢
      cases recoverer with
      | fast compute =>
        obtain ⟨q, hasked, hq⟩ := h.fast hp hid
        exact ⟨q, hasked.bind (Traced.yields_pure _), hq⟩
      | step =>
        obtain ⟨found, q, hasked, hq, hfound⟩ := h.step hp hid Bid.backed_none
        refine ⟨q, hasked.bind ?_, hq⟩
        rw [Option.toList_some, Bid.cheapest_cons, ← hfound]
        exact Traced.yields_pure _

/-- Fast anchors are asked one after the other, and the owner is passed over as it has been asked
    already. -/
theorem yields_askFast (h : InTurn session here waste known) (owner : Option Nat)
    {anchors : List (Nat × (State → Waste))}
    (hanchors : ∀ anchor ∈ anchors, session.registry.recoverer? anchor.1 = some (.fast anchor.2))
    (hp : known ((anchors.map Prod.fst).filter (owner != some ·) ++ later) p) :
    ∃ q, (session.askFast owner here anchors best p).Yields
        (Bid.cheapest waste ((anchors.map Prod.fst).filter (owner != some ·)) best, q) ∧
      known later q := by
  induction anchors generalizing best p with
  | nil => exact ⟨p, Traced.yields_pure _, hp⟩
  | cons anchor anchors ih =>
    obtain ⟨id, compute⟩ := anchor
    have hrest := fun anchor hanchor => hanchors anchor (List.mem_cons_of_mem _ hanchor)
    rw [askFast]
    by_cases hfree : Bid.isFree best = true
    · rw [if_pos hfree, Bid.cheapest_of_isFree hfree]
      exact ⟨p, Traced.yields_pure _, h.skipAll hp⟩
    rw [if_neg hfree]
    rw [List.map_cons] at hp ⊢
    by_cases howner : owner = some id
    · rw [List.filter_cons_of_neg (by simp [howner])] at hp ⊢
      rw [if_pos howner]
      exact ih hrest hp
    · rw [List.filter_cons_of_pos (by simpa using howner)] at hp ⊢
      rw [if_neg howner]
      obtain ⟨q, hasked, hq⟩ := h.fast hp (hanchors _ List.mem_cons_self)
      obtain ⟨q', hnext, hq'⟩ := ih hrest hq
      exact ⟨q', hasked.bind hnext, hq'⟩

/-- Step anchors are asked only with waste less than the best bid so far. An anchor that is not run
    further could not have been cheaper. -/
theorem yields_askStep (h : InTurn session here waste known) (owner : Option Nat)
    {anchors : List Nat}
    (hanchors : ∀ anchor ∈ anchors, session.registry.recoverer? anchor = some .step)
    (hbest : Bid.Backed waste best) (hp : known (anchors.filter (owner != some ·) ++ later) p) :
    ∃ q, (session.askStep owner here anchors best p).Yields
        (Bid.cheapest waste (anchors.filter (owner != some ·)) best, q) ∧
      known later q := by
  induction anchors generalizing best p with
  | nil => exact ⟨p, Traced.yields_pure _, hp⟩
  | cons id anchors ih =>
    have hrest := fun anchor hanchor => hanchors anchor (List.mem_cons_of_mem _ hanchor)
    rw [askStep]
    by_cases hfree : Bid.isFree best = true
    · rw [if_pos hfree, Bid.cheapest_of_isFree hfree]
      exact ⟨p, Traced.yields_pure _, h.skipAll hp⟩
    rw [if_neg hfree]
    by_cases howner : owner = some id
    · rw [List.filter_cons_of_neg (by simp [howner])] at hp ⊢
      rw [if_pos howner]
      exact ih hrest hbest hp
    · rw [List.filter_cons_of_pos (by simpa using howner)] at hp ⊢
      rw [if_neg howner]
      obtain ⟨found, q, hasked, hq, hfound⟩ := h.step hp (hanchors id List.mem_cons_self) hbest
      have hbacked : Bid.Backed waste (Bid.improve best id found) := by
        rw [hfound]
        exact hbest.improve id
      obtain ⟨q', hnext, hq'⟩ := ih hrest hbacked hq
      refine ⟨q', ?_, hq'⟩
      rw [Bid.cheapest_cons, ← hfound]
      exact hasked.bind hnext

/-- The choice is made by the wastes of those that are asked, in order: the owner, the fast anchors,
    and the step anchors. -/
theorem yields_chooseAnchor (h : InTurn session here waste known) (owner : Option Nat)
    (hp : known (session.registry.asked owner) p) :
    ∃ q, (session.chooseAnchor p owner here).Yields
        (Bid.cheapest waste (session.registry.asked owner) none, q) ∧
      known [] q := by
  obtain ⟨q, hown, hq⟩ := h.yields_ownBid owner hp
  obtain ⟨q', hfast, hq'⟩ := h.yields_askFast owner
    (fun _ hanchor => Registry.recoverer?_of_mem_fastAnchors hanchor) hq
  rw [← List.append_nil (List.filter _ _)] at hq'
  obtain ⟨q'', hstep, hq''⟩ := h.yields_askStep owner
    (fun _ hanchor => Registry.recoverer?_of_mem_stepAnchors hanchor)
    ((Bid.backed_none.cheapest _).cheapest _) hq'
  refine ⟨q'', ?_, hq''⟩
  rw [Registry.asked, Bid.cheapest_append, Bid.cheapest_append]
  exact hown.bind (hfast.bind hstep)

end InTurn

variable {reg : Registry} {input : Input} {here : State} {p : Progress} {id : Nat}
  {answers : Nat → Cached}

/-- The best bid by the answers of some anchors, where none is resumed that was tried. -/
def cheapestAnswer (tried : List (Nat × Nat)) (here : State) (answers : Nat → Cached)
    (ids : List Nat) (best : Option Bid) : Option Bid :=
  Bid.cheapest (fun id => wasteOf tried id here (answers id)) ids best

variable (hsearch : reg.Searchable input) (hhere : here.SitsOn input)
  (hanswers : reg.Surveyed input here.pos answers) (hp : p.cache.Truthful reg input)
include hsearch hhere hanswers hp

/-- A fast anchor gives its answer, whether it is computed or remembered, and it is remembered
    then. -/
theorem yields_fastWaste_answer (depth maxErrors : Nat) {waste : State → Waste}
    (hid : reg.recoverer? id = some (.fast waste)) :
    ∃ cache : WasteCache, cache.Truthful reg input ∧
      (fastWaste ⟨reg, depth, maxErrors⟩ p id waste here).Yields
        (wasteOf p.tried id here (answers id), { p with cache }) := by
  rw [(hanswers.answers hid).unique (hsearch.answers_proposedOffset hhere hid)]
  exact yields_fastWaste depth maxErrors hsearch hhere hp hid

omit hp in
/-- Whatever has been cached so far, each anchor gives its answer when it is its turn. What is
    remembered is true of the input, so it is the same answer. -/
theorem inTurn_surveyed (depth maxErrors : Nat) (p : Progress) :
    InTurn ⟨reg, depth + 1, maxErrors⟩ here (fun id => wasteOf p.tried id here (answers id))
      fun _ q => ∃ cache : WasteCache, cache.Truthful reg input ∧ q = { p with cache } where
  skip hknown := hknown
  fast := by
    rintro id ids _ compute ⟨cache, hcache, rfl⟩ hid
    obtain ⟨cache', hcache', hasked⟩ := yields_fastWaste_answer (p := { p with cache }) hsearch
      hhere hanswers hcache (depth + 1) maxErrors hid
    exact ⟨_, hasked, cache', hcache', rfl⟩
  step := by
    rintro id ids _ best ⟨cache, hcache, rfl⟩ hid -
    obtain ⟨found, cache', hcache', hasked, hfound⟩ := yields_stepWaste (p := { p with cache })
      depth maxErrors hsearch hhere hcache hid (hanswers.answers hid) best
    exact ⟨found, _, hasked, ⟨cache', hcache', rfl⟩, hfound⟩

/-- The cheapest answer is chosen of those that are asked. -/
theorem yields_chooseAnchor (depth maxErrors : Nat) (owner : Option Nat) :
    ∃ cache : WasteCache, cache.Truthful reg input ∧
      (chooseAnchor ⟨reg, depth + 1, maxErrors⟩ p owner here).Yields
        (cheapestAnswer p.tried here answers (reg.asked owner) none, { p with cache }) := by
  obtain ⟨_, hchosen, cache, hcache, rfl⟩ :=
    (inTurn_surveyed hsearch hhere hanswers depth maxErrors p).yields_chooseAnchor owner
      ⟨p.cache, hp, rfl⟩
  exact ⟨cache, hcache, hchosen⟩

end Session

end Resync
