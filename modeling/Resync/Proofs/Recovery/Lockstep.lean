import Resync.Proofs.Engine.Likeness
import Resync.Proofs.Recovery.Progress
import Resync.Recovery.Rounds

namespace Resync

open Session (searchFrom)

namespace Likeness

/-- What two runs know corresponds. -/
structure Knowledge (like : Likeness) (p q : Progress) : Prop where
  cache : like.cache p.cache q.cache
  errors : List.Forall₂ like.Errors p.errors q.errors
  salvage : like.Entries p.salvage q.salvage
  tried : p.tried = q.tried

variable {like : Likeness} {p q : Progress} {e f : ParseError}

namespace Knowledge

/-- At the beginning both runs know the same, if their caches correspond. -/
theorem initial {cache cache' : WasteCache} (h : like.cache cache cache') :
    like.Knowledge (.initial cache) (.initial cache') :=
  ⟨h, .nil, .nil, rfl⟩

theorem markTried (h : like.Knowledge p q) (anchor pos : Nat) :
    like.Knowledge (p.markTried anchor pos) (q.markTried anchor pos) :=
  ⟨h.cache, h.errors, h.salvage, congrArg ((anchor, pos) :: ·) h.tried⟩

/-- What is remembered may change in both runs, as long as it corresponds. -/
theorem withCache (h : like.Knowledge p q) {cache cache' : WasteCache}
    (hcache : like.cache cache cache') :
    like.Knowledge { p with cache } { q with cache := cache' } :=
  ⟨hcache, h.errors, h.salvage, h.tried⟩

theorem keep (h : like.Knowledge p q) (id : Nat) {data data' : Saved}
    (hdata : like.Saves data data') : like.Knowledge (p.keep id data) (q.keep id data') :=
  ⟨h.cache, h.errors, (h.salvage.filter (· != id)).cons id hdata, h.tried⟩

/-- Both runs keep what corresponds for the same branches, one after the other. -/
theorem keepAll (h : like.Knowledge p q) {entries entries' : List (Nat × Saved)}
    (hentries : like.Entries entries entries') :
    like.Knowledge (p.keepAll entries) (q.keepAll entries') := by
  induction hentries generalizing p q with
  | nil => exact h
  | @cons entry entry' entries entries' hentry _ ih =>
    obtain ⟨id, data⟩ := entry
    obtain ⟨id', data'⟩ := entry'
    obtain ⟨rfl, hdata⟩ := hentry
    exact ih (h.keep id hdata)

/-- A mismatch is known in both runs or in none, because errors that correspond have the same
    position and the same message. -/
theorem knows_eq (h : like.Knowledge p q) (he : like.Errors e f) : p.knows e = q.knows f := by
  have herrors := h.errors
  rw [Progress.knows, Progress.knows]
  generalize p.errors = known, q.errors = known' at herrors
  induction herrors with
  | nil => rfl
  | cons hfirst _ ih => rw [List.any_cons, List.any_cons, hfirst.sameMismatch_eq he, ih]

/-- Errors that correspond are listed in both runs, or in none of them. -/
theorem record (h : like.Knowledge p q) (he : like.Errors e f) :
    like.Knowledge (p.record e) (q.record f) := by
  have hkept := h.keepAll he.saved
  rw [Progress.record_eq, Progress.record_eq, hkept.knows_eq he.withoutSaved]
  split
  · exact hkept
  · exact ⟨hkept.cache, List.rel_append h.errors (.cons he.withoutSaved .nil), hkept.salvage,
      hkept.tried⟩

/-- Both runs hand out what corresponds, and know what corresponds after that. -/
theorem release (h : like.Knowledge p q) (id : Nat) :
    Option.Rel like.Saves (p.release id).1 (q.release id).1 ∧
      like.Knowledge (p.release id).2 (q.release id).2 :=
  ⟨h.salvage.lookup id, h.cache, h.errors, h.salvage.filter (· != id), h.tried⟩

/-- Reporting errors that correspond makes no attempt, and comes to what corresponds. -/
theorem agree_report (h : like.Knowledge p q) (he : like.Errors e f) :
    Traced.Agree like.Knowledge (p.report e) (q.report f) :=
  Traced.Yields.agree (a := p.record e) (b := q.record f) ⟨rfl, rfl⟩ ⟨rfl, rfl⟩ (h.record he)

end Knowledge

/-- Bids of the same anchor that lead to corresponding cursors. -/
def Bids (like : Likeness) (here here' : State) (bid bid' : Bid) : Prop :=
  bid.1 = bid'.1 ∧ like.cursor (here.moveByUnits bid.2) (here'.moveByUnits bid'.2)

/-- Choices that correspond, with what is known then. -/
def Choices (like : Likeness) (here here' : State) (choice choice' : Option Bid × Progress) :
    Prop :=
  Option.Rel (like.Bids here here') choice.1 choice'.1 ∧ like.Knowledge choice.2 choice'.2

/-- The same anchor has been resumed, or none, with what is known then. -/
def Finds (like : Likeness) (found found' : Option (Nat × Result) × Progress) : Prop :=
  Option.Rel (fun anchor anchor' => anchor.1 = anchor'.1 ∧ like.Outcomes anchor.2 anchor'.2)
    found.1 found'.1 ∧ like.Knowledge found.2 found'.2

/-- Two climbs have come to the same place, with what corresponds. -/
structure Summits (like : Likeness) (summit summit' : Summit) : Prop where
  id : summit.id = summit'.id
  result : like.Outcomes summit.result summit'.result
  progress : like.Knowledge summit.progress summit'.progress

/-- Climbs that begin at the same occurrence with outcomes that correspond. -/
theorem summits_at {id id' : Nat} {r r' : Result} (hid : id = id') (hr : like.Outcomes r r')
    (hp : like.Knowledge p q) : like.Summits ⟨id, r, p⟩ ⟨id', r', q⟩ :=
  ⟨hid, hr, hp⟩

/-- Errors that correspond still do when they are sorted by position. Sorting looks at nothing but
    the positions, which are the same, so it moves errors that correspond to the same place. -/
theorem rel_sortErrors {errors errors' : List ParseError}
    (h : List.Forall₂ like.Errors errors errors') :
    List.Forall₂ like.Errors (sortErrors errors) (sortErrors errors') := by
  obtain ⟨pairs, hpairs, rfl, rfl⟩ : ∃ pairs : List (ParseError × ParseError),
      (∀ pair ∈ pairs, like.Errors pair.1 pair.2) ∧ pairs.map Prod.fst = errors ∧
        pairs.map Prod.snd = errors' := by
    induction h with
    | nil => exact ⟨[], fun _ hpair => (nomatch hpair), rfl, rfl⟩
    | @cons e f _ _ hef _ ih =>
      obtain ⟨pairs, hpairs, rfl, rfl⟩ := ih
      exact ⟨(e, f) :: pairs, List.forall_mem_cons.2 ⟨hef, hpairs⟩, rfl, rfl⟩
  -- Both are sorted as the pairs are, since the errors of a pair stand at one position.
  let before (e f : ParseError) : Bool := e.position ≤ f.position
  let sorted := pairs.mergeSort fun a b => before a.1 b.1
  have hleft : sortErrors (pairs.map Prod.fst) = sorted.map Prod.fst :=
    (List.map_mergeSort (f := Prod.fst) fun _ _ _ _ => rfl).symm
  have hright : sortErrors (pairs.map Prod.snd) = sorted.map Prod.snd := by
    refine (List.map_mergeSort fun a ha b hb => ?_).symm
    change decide _ = decide _
    rw [like.position_eq (hpairs a ha).report, like.position_eq (hpairs b hb).report]
  rw [hleft, hright, List.forall₂_map_left_iff, List.forall₂_map_right_iff, List.forall₂_same]
  exact fun pair hpair => hpairs pair ((List.mergeSort_perm _ _).mem_iff.1 hpair)

end Likeness

/-- Two sessions over which the same anchors stand in the same place and everything that a run is
    made of is done alike: parsing, resuming, and choosing an anchor. Whole runs are then alike
    without following them again. -/
structure Session.Lockstep (x y : Session) (like : Likeness) : Prop where
  ancestors : ∀ id, x.registry.ancestors id = y.registry.ancestors id
  label : ∀ id, x.registry.label id = y.registry.label id
  size : x.registry.size = y.registry.size
  maxErrors : x.maxErrors = y.maxErrors
  run : ∀ id {s t}, like.cursor s t → Traced.Agree like.Outcomes (x.run id s) (y.run id t)
  resume : ∀ id index {r r' saved saved'}, like.Outcomes r r' →
    Option.Rel like.Saves saved saved' → Traced.Agree like.Outcomes
      (x.registry.resume x.depth id ⟨index, r, saved⟩)
      (y.registry.resume y.depth id ⟨index, r', saved'⟩)
  choose : ∀ owner {p q here here'}, like.Knowledge p q → like.cursor here here' →
    Traced.Agree (like.Choices here here') (x.chooseAnchor p owner here)
      (y.chooseAnchor q owner here')
  search : ∀ {r r' e f}, like.Outcomes r r' → like.Errors e f →
    like.cursor (searchFrom r e) (searchFrom r' f)

namespace Session.Lockstep

variable {x y : Session} {like : Likeness} {p q : Progress} {here here' : State}
  (h : x.Lockstep y like)
include h

/-- The same occurrences lie below the same others, as they have the same ancestors. -/
theorem isWithin_eq (id ancestor : Nat) :
    x.registry.isWithin id ancestor = y.registry.isWithin id ancestor := by
  rw [Registry.isWithin, Registry.isWithin, h.ancestors]

/-- The budget is spent in both runs or in none. -/
theorem isSpent_eq (hp : like.Knowledge p q) : x.isSpent p = y.isSpent q := by
  rw [isSpent, isSpent, h.maxErrors, hp.errors.length_eq]

theorem dropStale (hp : like.Knowledge p q) (stop : Nat) :
    like.Knowledge (p.dropStale x.registry stop) (q.dropStale y.registry stop) := by
  refine ⟨hp.cache, hp.errors, ?_, hp.tried⟩
  have hfilter := hp.salvage.filter (x.registry.isWithin stop)
  rw [Progress.dropStale, Progress.dropStale]
  simp only [← h.isWithin_eq]
  exact hfilter

/-- The same branches go on, and hand up what corresponds. So both climbs stop at the same branch,
    or none of them does. -/
theorem agree_climbThrough (unwinding : Bool) (way : List (Nat × Nat)) {summit summit' : Summit}
    (hsummit : like.Summits summit summit') :
    Traced.Agree like.Summits (x.climbThrough unwinding way summit)
      (y.climbThrough unwinding way summit') := by
  induction way generalizing summit summit' with
  | nil => exact Traced.agree_pure hsummit
  | cons step way ih =>
    obtain ⟨parent, index⟩ := step
    obtain ⟨hsaved, hreleased⟩ := hsummit.progress.release parent
    rw [climbThrough, climbThrough]
    refine (h.resume parent index hsummit.result hsaved).bind fun r r' _ _ hr => ?_
    dsimp only
    rw [← hr.isOk_eq]
    split
    · exact Traced.agree_pure ⟨rfl, hr, hreleased⟩
    · exact ih ⟨rfl, hr, hreleased⟩

/-- Climbs from the same occurrence go the same way. -/
theorem agree_climb (unwinding : Bool) {summit summit' : Summit}
    (hsummit : like.Summits summit summit') :
    Traced.Agree like.Summits (x.climb unwinding summit) (y.climb unwinding summit') := by
  rw [climb, climb, ← hsummit.id, ← h.ancestors]
  exact h.agree_climbThrough unwinding _ hsummit

/-- Giving up is the same in both runs, wherever their searches began. -/
theorem agree_giveUp {summit summit' : Summit} (hsummit : like.Summits summit summit') :
    Traced.Agree like.Summits (x.giveUp here summit) (y.giveUp here' summit') := by
  have hevent : (Event.gaveUp here.pos).attempt? = (Event.gaveUp here'.pos).attempt? := rfl
  exact (Traced.agree_emit hevent).bind fun _ _ _ _ _ => h.agree_climb true hsummit

/-- The same anchors are tried at the same places, until the same one is found or both runs give
    up. -/
theorem agree_resynchronise (hhere : like.cursor here here') (owner : Option Nat) (attempts : Nat)
    (hp : like.Knowledge p q) :
    Traced.Agree like.Finds (x.resynchronise owner here attempts p)
      (y.resynchronise owner here' attempts q) := by
  induction attempts generalizing p q with
  | zero => exact Traced.agree_fault _
  | succ attempts ih =>
    rw [resynchronise, resynchronise]
    refine (h.choose owner hp hhere).bind fun choice choice' _ _ hchoice => ?_
    obtain ⟨best, p⟩ := choice
    obtain ⟨best', q⟩ := choice'
    obtain ⟨hbids, hp⟩ := hchoice
    cases hbids with
    | none => exact Traced.agree_pure ⟨.none, hp⟩
    | @some bid bid' hbid =>
      obtain ⟨anchor, waste⟩ := bid
      obtain ⟨anchor', waste'⟩ := bid'
      obtain ⟨rfl, htarget⟩ := hbid
      dsimp only
      rw [← h.label, ← like.pos_eq htarget]
      have htried := hp.markTried anchor (here.moveByUnits waste).pos
      refine (Traced.agree_emit rfl).bind fun _ _ _ _ _ => ?_
      refine (h.run anchor htarget).bind fun r r' _ _ hr => ?_
      rw [← hr.isOk_eq]
      split
      · exact Traced.agree_pure ⟨.some ⟨rfl, hr⟩, htried⟩
      · have hviolation := (Likeness.raise_errors htarget .semantic
          (brokenPromise (x.registry.label anchor))).claim anchor
        refine (htried.agree_report hviolation).bind fun p q _ _ hreported => ?_
        rw [← h.isSpent_eq hreported]
        split
        · exact Traced.agree_pure ⟨.none, hreported⟩
        · exact ih hreported

/-- The rounds of both runs are alike. The induction is on the bound of the rounds, which is the
    same for both. -/
theorem agree_rounds (attempts limit : Nat) {summit summit' : Summit}
    (hsummit : like.Summits summit summit') :
    Traced.Agree like.Summits (x.rounds attempts limit summit)
      (y.rounds attempts limit summit') := by
  induction limit generalizing summit summit' with
  | zero => exact Traced.agree_fault _
  | succ limit ih =>
    rw [rounds, rounds]
    obtain ⟨hnone, hnone'⟩ | ⟨e, f, hsome, hsome', he⟩ := hsummit.result.error_cases
    · rw [hnone, hnone']
      exact Traced.agree_pure hsummit
    · rw [hsome, hsome']
      dsimp only
      have hhere := h.search hsummit.result he
      have hunwinds : like.Outcomes { summit.result with error := some e.withoutSaved }
          { summit'.result with error := some f.withoutSaved } :=
        ⟨hsummit.result.start, hsummit.result.stop, hsummit.result.output, .some he.withoutSaved⟩
      refine (hsummit.progress.agree_report he).bind fun p q _ _ hp => ?_
      rw [← h.isSpent_eq hp, ← Likeness.atEnd_eq hhere, ← like.owner_eq he.report]
      split
      · exact h.agree_giveUp (Likeness.summits_at hsummit.id hunwinds hp)
      · refine (h.agree_resynchronise hhere e.owner attempts hp).bind
          fun found found' _ _ hfinds => ?_
        obtain ⟨found, p⟩ := found
        obtain ⟨found', q⟩ := found'
        obtain ⟨hanchor, hp⟩ := hfinds
        cases hanchor with
        | none => exact h.agree_giveUp (Likeness.summits_at hsummit.id hunwinds hp)
        | @some anchor anchor' hanchor =>
          obtain ⟨anchor, r⟩ := anchor
          obtain ⟨anchor', r'⟩ := anchor'
          obtain ⟨rfl, hr⟩ := hanchor
          refine (h.agree_climb false (Likeness.summits_at rfl hr hp)).bind
            fun next next' _ _ hnext => ?_
          refine ih ⟨hnext.id, hnext.result, ?_⟩
          rw [← hnext.id]
          exact h.dropStale hnext.progress next.id

/-- Whole runs from corresponding cursors try the same anchors at the same places in the same order,
    and give the same output and errors that correspond. -/
theorem agree_execute {cache cache' : WasteCache} (hcache : like.cache cache cache') {s t : State}
    (hs : like.cursor s t) :
    Traced.Agree (fun result result' : Output × List ParseError =>
        result.1 = result'.1 ∧ List.Forall₂ like.Errors result.2 result'.2)
      (x.execute cache s) (y.execute cache' t) := by
  have hbound : x.attemptBound s.input = y.attemptBound t.input := by
    rw [attemptBound, attemptBound, h.size, like.size_eq hs]
  rw [execute, execute, ← hbound]
  refine (h.run 0 hs).bind fun r r' _ _ hr => ?_
  refine (h.agree_rounds _ _ (Likeness.summits_at rfl hr (.initial hcache))).bind
    fun summit summit' _ _ hsummit => ?_
  exact Traced.agree_pure
    ⟨hsummit.result.output, Likeness.rel_sortErrors hsummit.progress.errors⟩

end Session.Lockstep

end Resync
