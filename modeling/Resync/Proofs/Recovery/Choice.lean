import Resync.Proofs.Recovery.Upkeep

namespace Resync

namespace Upkeep

variable {u : Upkeep} {session : Session} {p : Progress} {here : State} {id : Nat}

/-- What asking an anchor changes: only the cache, which is kept up. Errors, salvage and attempts
    are as they were. -/
structure Surveyed (u : Upkeep) (p p' : Progress) : Prop where
  keeps : u.Keeps p'
  tried : p'.tried = p.tried
  salvage : p'.salvage = p.salvage
  errors : p'.errors = p.errors

/-- An answer, and what is known after it. -/
def Answered (u : Upkeep) (p : Progress) (here : State) (id : Nat)
    (answer : Option Nat × Progress) : Prop :=
  u.Surveyed p answer.2 ∧ ∀ waste, answer.1 = some waste → u.Counts p.tried here id waste

/-- A bid of an anchor that can be resumed. -/
def Offers (u : Upkeep) (session : Session) (tried : List (Nat × Nat)) (here : State)
    (best : Option Bid) : Prop :=
  ∀ bid, best = some bid →
    (session.registry.recoverer? bid.1).isSome ∧ u.Counts tried here bid.1 bid.2

/-- The best bid so far, and what is known after it. -/
def Bidden (u : Upkeep) (session : Session) (p : Progress) (here : State)
    (choice : Option Bid × Progress) : Prop :=
  u.Surveyed p choice.2 ∧ u.Offers session p.tried here choice.1

theorem surveyed_refl (h : u.Keeps p) : u.Surveyed p p :=
  ⟨h, rfl, rfl, rfl⟩

/-- Asking one anchor after the other changes nothing but the cache either. -/
theorem Surveyed.trans {p' p'' : Progress} (h : u.Surveyed p p') (h' : u.Surveyed p' p'') :
    u.Surveyed p p'' :=
  ⟨h'.keeps, h'.tried.trans h.tried, h'.salvage.trans h.salvage, h'.errors.trans h.errors⟩

/-- An answer may be remembered if a cursor can stand at the place that it names. -/
theorem Keeps.surveyed_remember (h : u.Keeps p) {pos : Nat} {answer : Cached}
    (hanswer : ∀ offset, answer = .anchor offset → ∃ s, u.cursor s ∧ s.pos = offset) :
    u.Surveyed p (p.remember id pos answer) :=
  ⟨h.remember hanswer, rfl, rfl, rfl⟩

/-- The best bid is one that can be resumed if the older bid was and the new waste counts up to a
    place where the anchor was not tried. -/
theorem Offers.improve {tried : List (Nat × Nat)} {best : Option Bid}
    (h : u.Offers session tried here best) (hid : (session.registry.recoverer? id).isSome)
    {waste : Option Nat} (hwaste : ∀ count, waste = some count → u.Counts tried here id count) :
    u.Offers session tried here (Bid.improve best id waste) := by
  intro bid hbid
  obtain hold | ⟨count, hcount, rfl⟩ := Bid.improve_eq_some hbid
  · exact h bid hold
  · exact ⟨hid, hwaste count hcount⟩

section Asking

variable (h : u.KeptByAsking session) (hhere : u.cursor here)
include h hhere

/-- A waste that an appraisal comes to counts the units up to a place ahead where the anchor was not
    tried. A place that was tried gives none. -/
theorem ensures_appraise {offset : Option Nat} {cached : Bool}
    (hoffset : ∀ pos, offset = some pos → u.Ahead here pos) :
    (session.appraise p id here offset cached).Ensures u.event u.fault fun waste =>
      ∀ count, waste = some count → u.Counts p.tried here id count := by
  refine (Traced.ensures_emit (h.estimated _ _ _ _ hhere)).bind
    fun _ _ _ => Traced.ensures_pure fun count hcount => ?_
  obtain ⟨pos, hpos, rfl⟩ := Option.map_eq_some_iff.1 hcount
  obtain ⟨hpos, huntried⟩ := Option.filter_eq_some_iff.1 hpos
  refine ⟨pos, hoffset pos hpos, ?_, rfl⟩
  simpa using huntried

/-- An appraisal with the progress that goes along, which is how anchors are asked: first the answer
    is remembered, and then its waste is found. -/
theorem ensures_appraise_with {p' : Progress} (hp : u.Surveyed p p') {offset : Option Nat}
    {cached : Bool} (hoffset : ∀ pos, offset = some pos → u.Ahead here pos) :
    (do let w ← session.appraise p' id here offset cached; return (w, p') :
      Traced (Option Nat × Progress)).Ensures u.event u.fault (u.Answered p here id) := by
  refine (ensures_appraise h hhere hoffset).bind fun w _ hw => Traced.ensures_pure ⟨hp, ?_⟩
  rw [← hp.tried]
  exact hw

omit h hhere in
/-- A remembered place was put in by someone who could stand there, and it is not behind the
    position, since the cache does not answer with such places. -/
theorem Keeps.ahead_of_get? (hp : u.Keeps p) {answer : Cached}
    (hget : p.cache.get? id here.pos = some answer) :
    ∀ pos, Session.cachedOffset answer = some pos → u.Ahead here pos := by
  intro pos hpos
  obtain ⟨entry, hmem, _, _, hanswer, hle⟩ := WasteCache.exists_entry_of_get? hget
  cases answer with
  | tooMuch => cases hpos
  | anchor offset =>
    cases hpos
    exact ⟨hp.cached entry hmem _ hanswer, fun _ => hle _ rfl⟩

/-- A recoverer proposes a place that is reached by a move from here, so it lies ahead. -/
theorem ahead_of_proposedOffset {waste : State → Waste} {pos : Nat}
    (hpos : Session.proposedOffset waste here = .anchor pos) : u.Ahead here pos := by
  unfold Session.proposedOffset at hpos
  split at hpos
  · next count _ =>
    cases hpos
    exact ⟨⟨_, h.moved count hhere, rfl⟩, fun hsize => (State.moveByUnits_pos_bounds hsize _).1⟩
  · cases hpos
  · cases hpos

/-- Asking an anchor whose waste is computed keeps up what is known, and any waste leads to a place
    ahead. -/
theorem ensures_fastWaste (hp : u.Keeps p) (waste : State → Waste) :
    (session.fastWaste p id waste here).Ensures u.event u.fault (u.Answered p here id) := by
  unfold Session.fastWaste
  cases hget : p.cache.get? id here.pos with
  | some answer =>
    exact ensures_appraise_with h hhere (surveyed_refl hp) (hp.ahead_of_get? hget)
  | none =>
    have hahead : ∀ pos, Session.proposedOffset waste here = .anchor pos → u.Ahead here pos :=
      fun pos => ahead_of_proposedOffset h hhere
    refine ensures_appraise_with h hhere
      (hp.surveyed_remember fun pos hpos => (hahead pos hpos).cursor) fun pos hpos => hahead pos ?_
    cases hproposed : Session.proposedOffset waste here with
    | anchor offset =>
      rw [hproposed] at hpos
      cases hpos
      rfl
    | tooMuch =>
      rw [hproposed] at hpos
      cases hpos

omit hhere in
/-- A place that is found by probing is that of one of the states that were tried, and the anchor
    has been run at it. The induction is on the states that are left. -/
theorem ensures_probe (hid : (session.registry.recoverer? id).isSome) {limit : Option Nat}
    {states : List State} (hstates : ∀ s ∈ states, u.cursor s) :
    (session.probe id limit states).Ensures u.event u.fault fun probe =>
      ∀ offset, probe = .found offset → ∃ s ∈ states, s.pos = offset := by
  induction states generalizing limit with
  | nil =>
    unfold Session.probe
    exact Traced.ensures_pure fun _ hoffset => nomatch hoffset
  | cons s states ih =>
    have hrun := h.run hid (hstates s List.mem_cons_self)
    have hrest (limit : Option Nat) :
        (session.probe id limit states).Ensures u.event u.fault fun probe =>
          ∀ offset, probe = .found offset → ∃ t ∈ s :: states, t.pos = offset := by
      refine (ih fun t ht => hstates t (List.mem_cons_of_mem _ ht)).imp
        fun probe _ hprobe offset hoffset => ?_
      obtain ⟨t, ht, hpos⟩ := hprobe offset hoffset
      exact ⟨t, List.mem_cons_of_mem _ ht, hpos⟩
    have hfound : ∀ offset, Probe.found s.pos = .found offset →
        ∃ t ∈ s :: states, t.pos = offset := by
      intro offset hoffset
      cases hoffset
      exact ⟨s, List.mem_cons_self, rfl⟩
    match limit with
    | some 0 =>
      unfold Session.probe
      exact Traced.ensures_pure fun _ hoffset => nomatch hoffset
    | some (limit + 1) =>
      unfold Session.probe
      apply hrun.bind
      intro result _ _
      split
      · exact Traced.ensures_pure hfound
      · exact hrest (some limit)
    | none =>
      unfold Session.probe
      apply hrun.bind
      intro result _ _
      split
      · exact Traced.ensures_pure hfound
      · exact hrest none

/-- All states that are probed can be stood at and lie ahead. -/
theorem forall_mem_ahead : ∀ s ∈ here.ahead, u.cursor s ∧ u.Ahead here s.pos := by
  have hkept : ∀ s ∈ here.ahead, u.cursor s ∧ s.input = here.input ∧
      (here.pos ≤ here.input.size → here.pos ≤ s.pos ∧ s.pos ≤ s.input.size) := by
    refine State.forall_mem_ahead ⟨hhere, rfl, fun hsize => ⟨Nat.le_refl _, hsize⟩⟩ ?_
    intro s hs
    refine ⟨h.moved 1 hs.1, by rw [State.moveByUnits_input, hs.2.1], ?_⟩
    intro hsize
    obtain ⟨hle, hend⟩ := hs.2.2 hsize
    have hmoved := State.moveByUnits_pos_bounds hend 1
    rw [State.moveByUnits_input]
    exact ⟨Nat.le_trans hle hmoved.1, hmoved.2⟩
  intro s hs
  obtain ⟨hcursor, -, hle⟩ := hkept s hs
  exact ⟨hcursor, ⟨s, hcursor, rfl⟩, fun hsize => (hle hsize).1⟩

/-- Asking an anchor by probing keeps up what is known. A probe that was cut short gives no waste
    and is not remembered. -/
theorem ensures_stepWaste (hp : u.Keeps p) (hid : (session.registry.recoverer? id).isSome)
    (limit : Option Nat) :
    (session.stepWaste p id here limit).Ensures u.event u.fault (u.Answered p here id) := by
  unfold Session.stepWaste
  cases hget : p.cache.get? id here.pos with
  | some answer =>
    exact ensures_appraise_with h hhere (surveyed_refl hp) (hp.ahead_of_get? hget)
  | none =>
    have hahead := forall_mem_ahead h hhere
    apply (ensures_probe h hid fun s hs => (hahead s hs).1).bind
    intro probe _ hprobe
    cases probe with
    | found offset =>
      obtain ⟨s, hs, rfl⟩ := hprobe offset rfl
      have hplace := (hahead s hs).2
      refine ensures_appraise_with h hhere (hp.surveyed_remember fun pos hpos => ?_)
        fun pos hpos => ?_
      · cases hpos
        exact hplace.cursor
      · cases hpos
        exact hplace
    | exhausted =>
      refine ensures_appraise_with h hhere (hp.surveyed_remember fun pos hpos => ?_)
        fun pos hpos => ?_
      · cases hpos
      · cases hpos
    | cut =>
      refine (Traced.ensures_emit (h.estimated _ _ _ _ hhere)).bind
        fun _ _ _ => Traced.ensures_pure ⟨surveyed_refl hp, fun _ hwaste => nomatch hwaste⟩

/-- The bid of the failing parser can be resumed like any other one, if it has a recoverer at
    all. -/
theorem ensures_ownBid (hp : u.Keeps p) (owner : Option Nat) :
    (session.ownBid p owner here).Ensures u.event u.fault (u.Bidden session p here) := by
  have hnone : u.Bidden session p here (none, p) := ⟨surveyed_refl hp, fun _ hbid => nomatch hbid⟩
  cases owner with
  | none => exact Traced.ensures_pure hnone
  | some id =>
    rw [Session.ownBid]
    cases hrecoverer : session.registry.recoverer? id with
    | none => exact Traced.ensures_pure hnone
    | some recoverer =>
      have hid : (session.registry.recoverer? id).isSome := by rw [hrecoverer]; rfl
      have hbid (answer : Option Nat × Progress) (hanswer : u.Answered p here id answer) :
          u.Bidden session p here (Bid.improve none id answer.1, answer.2) :=
        ⟨hanswer.1, hnone.2.improve hid hanswer.2⟩
      cases recoverer with
      | fast waste =>
        exact (ensures_fastWaste h hhere hp waste).bind fun answer _ hanswer =>
          Traced.ensures_pure (hbid answer hanswer)
      | step =>
        exact (ensures_stepWaste h hhere hp hid none).bind fun answer _ hanswer =>
          Traced.ensures_pure (hbid answer hanswer)

/-- Asking the safe spots whose waste is computed, one after the other, the best bid stays one that
    can be resumed. -/
theorem ensures_askFast (owner : Option Nat) (anchors : List (Nat × (State → Waste)))
    (hanchors : ∀ anchor ∈ anchors, (session.registry.recoverer? anchor.1).isSome)
    {best : Option Bid} {p' : Progress} (hp : u.Surveyed p p')
    (hbest : u.Offers session p.tried here best) :
    (session.askFast owner here anchors best p').Ensures u.event u.fault
      (u.Bidden session p here) := by
  induction anchors generalizing best p' with
  | nil => exact Traced.ensures_pure ⟨hp, hbest⟩
  | cons anchor anchors ih =>
    obtain ⟨id, waste⟩ := anchor
    have hrest := fun anchor hanchor => hanchors anchor (List.mem_cons_of_mem _ hanchor)
    unfold Session.askFast
    split
    · exact Traced.ensures_pure ⟨hp, hbest⟩
    · split
      · exact ih hrest hp hbest
      · apply (ensures_fastWaste h hhere hp.keeps waste).bind
        intro answer _ hanswer
        obtain ⟨hsurveyed, hwaste⟩ := hanswer
        rw [hp.tried] at hwaste
        exact ih hrest (hp.trans hsurveyed)
          (hbest.improve (hanchors _ List.mem_cons_self) hwaste)

/-- The same for those that are probed, each below the best waste so far. One that is cut short
    there has no bid, and changes nothing. -/
theorem ensures_askStep (owner : Option Nat) (anchors : List Nat)
    (hanchors : ∀ anchor ∈ anchors, (session.registry.recoverer? anchor).isSome)
    {best : Option Bid} {p' : Progress} (hp : u.Surveyed p p')
    (hbest : u.Offers session p.tried here best) :
    (session.askStep owner here anchors best p').Ensures u.event u.fault
      (u.Bidden session p here) := by
  induction anchors generalizing best p' with
  | nil => exact Traced.ensures_pure ⟨hp, hbest⟩
  | cons id anchors ih =>
    have hid := hanchors id List.mem_cons_self
    have hrest := fun anchor hanchor => hanchors anchor (List.mem_cons_of_mem _ hanchor)
    unfold Session.askStep
    split
    · exact Traced.ensures_pure ⟨hp, hbest⟩
    · split
      · exact ih hrest hp hbest
      · apply (ensures_stepWaste h hhere hp.keeps hid _).bind
        intro answer _ hanswer
        obtain ⟨hsurveyed, hwaste⟩ := hanswer
        rw [hp.tried] at hwaste
        exact ih hrest (hp.trans hsurveyed) (hbest.improve hid hwaste)

/-- The anchor that is chosen has a recoverer, and its waste leads to a place ahead where it was not
    tried. Choosing changes nothing but the cache. -/
theorem ensures_chooseAnchor (hp : u.Keeps p) (owner : Option Nat) :
    (session.chooseAnchor p owner here).Ensures u.event u.fault (u.Bidden session p here) := by
  have hfast : ∀ anchor ∈ session.registry.fastAnchors,
      (session.registry.recoverer? anchor.1).isSome := by
    intro anchor hanchor
    rw [Registry.recoverer?_of_mem_fastAnchors hanchor]
    rfl
  have hstep : ∀ anchor ∈ session.registry.stepAnchors,
      (session.registry.recoverer? anchor).isSome := by
    intro anchor hanchor
    rw [Registry.recoverer?_of_mem_stepAnchors hanchor]
    rfl
  apply (ensures_ownBid h hhere hp owner).bind
  intro own _ hown
  apply (ensures_askFast h hhere owner _ hfast hown.1 hown.2).bind
  intro fast _ hfast
  exact ensures_askStep h hhere owner _ hstep hfast.1 hfast.2

end Asking

end Upkeep

end Resync
