import Resync.Proofs.Recovery.Attempts

namespace Resync

namespace Session

open Registry (boundaries)

variable {reg : Registry} {input : Input} {here : State} {p : Progress} {id : Nat}

/-- What was tried in a run, while fewer sites are left than rounds or attempts. -/
structure Spares (reg : Registry) (input : Input) (tried : List (Nat × Nat)) (limit : Nat) :
    Prop where
  nodup : tried.Nodup
  subset : tried ⊆ reg.sites input
  room : (reg.sites input).length < tried.length + limit

/-- While there are sites to spare, the limit is not reached. -/
theorem Spares.limit_ne_zero {tried : List (Nat × Nat)} {limit : Nat}
    (h : Spares reg input tried limit) : limit ≠ 0 := by
  rintro rfl
  have hlength := h.nodup.length_le_of_subset h.subset
  have hroom := h.room
  omega

/-- An attempt that is made takes up a site that was free, so there is one less to spare, and the
    limit may be one less too. -/
theorem Spares.of_tries {x : Traced (Option (Nat × Result) × Progress)}
    {tried tried' : List (Nat × Nat)} {limit : Nat} {found : Option (Nat × Result) × Progress}
    (h : Spares reg input tried (limit + 1)) (htried : tried' = tried)
    (hx : x.Tries (reg.sites input) tried' fun found => found.2.tried)
    (hfound : x.result = .ok found)
    (hmore : ∃ more, found.2.tried = more ++ tried' ∧ (found.1.isSome → more ≠ []))
    (hsome : found.1.isSome) : Spares reg input found.2.tried limit := by
  subst htried
  obtain ⟨more, hmore, hne⟩ := hmore
  have hlength := List.length_pos_of_ne_nil (hne hsome)
  have hroom := h.room
  have hafter := hx.after found hfound
  refine ⟨?_, ?_, ?_⟩
  · rw [hafter]
    exact hx.fresh h.nodup
  · rw [hafter]
    exact List.append_subset.2
      ⟨fun site hsite => hx.sites site (List.mem_reverse.1 hsite), h.subset⟩
  · rw [hmore, List.length_append]
    omega

/-- Weighing an answer is not cut off, whatever is remembered with it. -/
theorem ended_appraise_with (session : Session) (p : Progress) (offset : Option Nat)
    (cached : Bool) :
    (do let w ← session.appraise p id here offset cached; return (w, p) :
      Traced (Option Nat × Progress)).Ended := by
  have happraise : (session.appraise p id here offset cached).Ended :=
    (Traced.ended_emit _).bind fun _ _ => Traced.ended_pure _
  exact happraise.bind fun _ _ => Traced.ended_pure _

/-- A fast anchor computes its answer without running, so no depth is needed. -/
theorem ended_fastWaste (session : Session) (p : Progress) (waste : State → Waste) :
    (session.fastWaste p id waste here).Ended := by
  unfold fastWaste
  split
  · exact ended_appraise_with session p _ _
  · exact ended_appraise_with session _ _ _

theorem ends_fastWaste (maxErrors : Nat) (p : Progress) (waste : State → Waste) :
    Traced.Ends fun depth => fastWaste ⟨reg, depth, maxErrors⟩ p id waste here :=
  ⟨0, ended_fastWaste _ p waste, fun _ _ => rfl⟩

section

variable (hends : reg.EndsOn input) (maxErrors : Nat)
include hends

theorem ends_run (id : Nat) {s : State} (hs : s.SitsOn input) :
    Traced.Ends fun depth => run ⟨reg, depth, maxErrors⟩ id s := by
  obtain ⟨depth, hended⟩ := hends.parse id hs
  exact Registry.ends_parse hended

/-- An anchor is probed at one state after the other, and each of the runs ends at some depth. One
    depth is enough for all of them. -/
theorem ends_probe (limit : Option Nat) {states : List State}
    (hstates : ∀ s ∈ states, s.SitsOn input) :
    Traced.Ends fun depth => probe ⟨reg, depth, maxErrors⟩ id limit states := by
  induction states generalizing limit with
  | nil => exact (Traced.ended_pure Probe.exhausted).ends
  | cons s states ih =>
    have hrest := fun t ht => hstates t (List.mem_cons_of_mem _ ht)
    have hrun := ends_run hends maxErrors id (hstates s List.mem_cons_self)
    match limit with
    | some 0 => exact (Traced.ended_pure Probe.cut).ends
    | some (limit + 1) =>
      simp only [probe]
      apply hrun.bind
      intro result _
      cases result.isOk with
      | true => exact (Traced.ended_pure (Probe.found s.pos)).ends
      | false => exact ih (some limit) hrest
    | none =>
      simp only [probe]
      apply hrun.bind
      intro result _
      cases result.isOk with
      | true => exact (Traced.ended_pure (Probe.found s.pos)).ends
      | false => exact ih none hrest

/-- A step anchor is probed at the states up to the end of the input, which are finitely many. -/
theorem ends_stepWaste (hhere : here.SitsOn input) (p : Progress) (limit : Option Nat) :
    Traced.Ends fun depth => stepWaste ⟨reg, depth, maxErrors⟩ p id here limit := by
  have hahead := State.forall_mem_ahead (P := (·.SitsOn input)) hhere fun hs => hs.moveByUnits 1
  simp only [stepWaste]
  cases p.cache.get? id here.pos with
  | some answer => exact ⟨0, ended_appraise_with _ p _ _, fun _ _ => rfl⟩
  | none =>
    apply (ends_probe hends maxErrors limit hahead).bind
    intro probe _
    cases probe with
    | found offset => exact ⟨0, ended_appraise_with _ _ _ _, fun _ _ => rfl⟩
    | exhausted => exact ⟨0, ended_appraise_with _ _ _ _, fun _ _ => rfl⟩
    | cut =>
      exact ⟨0, Traced.Ended.bind (Traced.ended_emit _) fun _ _ => Traced.ended_pure _,
        fun _ _ => rfl⟩

/-- The owner of an error is asked first, by computing or by probing, and both end. -/
theorem ends_ownBid (hhere : here.SitsOn input) (p : Progress) (owner : Option Nat) :
    Traced.Ends fun depth => ownBid ⟨reg, depth, maxErrors⟩ p owner here := by
  cases owner with
  | none => exact (Traced.ended_pure (none, p)).ends
  | some id =>
    simp only [ownBid]
    cases reg.recoverer? id with
    | none => exact (Traced.ended_pure (none, p)).ends
    | some recoverer =>
      cases recoverer with
      | fast waste =>
        exact (ends_fastWaste maxErrors p waste).bind fun answer _ => (Traced.ended_pure _).ends
      | step =>
        exact (ends_stepWaste hends maxErrors hhere p none).bind
          fun answer _ => (Traced.ended_pure _).ends

omit hends in
theorem ends_askFast (owner : Option Nat) (anchors : List (Nat × (State → Waste)))
    (best : Option Bid) (p : Progress) :
    Traced.Ends fun depth => askFast ⟨reg, depth, maxErrors⟩ owner here anchors best p := by
  induction anchors generalizing best p with
  | nil => exact (Traced.ended_pure (best, p)).ends
  | cons anchor anchors ih =>
    simp only [askFast]
    split
    · exact (Traced.ended_pure (best, p)).ends
    · split
      · exact ih best p
      · exact (ends_fastWaste maxErrors p anchor.2).bind fun answer _ => ih _ _

/-- Step anchors are probed one after the other, and each of them ends. -/
theorem ends_askStep (hhere : here.SitsOn input) (owner : Option Nat) (anchors : List Nat)
    (best : Option Bid) (p : Progress) :
    Traced.Ends fun depth => askStep ⟨reg, depth, maxErrors⟩ owner here anchors best p := by
  induction anchors generalizing best p with
  | nil => exact (Traced.ended_pure (best, p)).ends
  | cons anchor anchors ih =>
    simp only [askStep]
    split
    · exact (Traced.ended_pure (best, p)).ends
    · split
      · exact ih best p
      · exact (ends_stepWaste hends maxErrors hhere p _).bind fun answer _ => ih _ _

/-- A choice asks finitely many anchors: the owner and those of the two lists. -/
theorem ends_chooseAnchor (hhere : here.SitsOn input) (p : Progress) (owner : Option Nat) :
    Traced.Ends fun depth => chooseAnchor ⟨reg, depth, maxErrors⟩ p owner here := by
  apply (ends_ownBid hends maxErrors hhere p owner).bind
  intro own _
  obtain ⟨best, p⟩ := own
  apply (ends_askFast maxErrors owner reg.fastAnchors best p).bind
  intro fast _
  obtain ⟨best, p⟩ := fast
  exact ends_askStep hends maxErrors hhere owner reg.stepAnchors best p

end

section

variable (hends : reg.EndsOn input) (hkeeps : reg.KeepsBoundaries input) (maxErrors : Nat)
include hends hkeeps

/-- Each attempt takes up a site that was free, so there is always one attempt more than is
    needed, and the search is not cut off by their number. The induction is on the attempts that
    are left. -/
theorem ends_resynchronise (hhere : here.SitsOn input) (owner : Option Nat) (attempts : Nat)
    (hp : (boundaries input).Keeps p) (hspares : Spares reg input p.tried attempts) :
    Traced.Ends fun depth =>
      resynchronise ⟨reg, depth, maxErrors⟩ owner here attempts p := by
  induction attempts generalizing p with
  | zero => exact absurd rfl hspares.limit_ne_zero
  | succ attempts ih =>
    simp only [resynchronise]
    apply (ends_chooseAnchor hends maxErrors hhere p owner).bind
    intro choice hchoice
    obtain ⟨depth, hchoice⟩ := hchoice
    obtain ⟨hsurveyed, hoffers⟩ := (Upkeep.ensures_chooseAnchor
      (hkeeps.keptBy depth maxErrors).anchors.toKeptByAsking hhere hp owner).value choice hchoice
    obtain ⟨best, chosen⟩ := choice
    cases best with
    | none => exact (Traced.ended_pure (none, chosen)).ends
    | some bid =>
      obtain ⟨anchor, waste⟩ := bid
      obtain ⟨hnew, hsite⟩ := attempt_of_offers hhere hoffers
      apply (Traced.ended_emit _).ends.bind
      intro _ _
      apply (ends_run hends maxErrors anchor (hhere.moveByUnits waste)).bind
      intro result _
      split
      · exact (Traced.ended_pure _).ends
      · refine Traced.Ends.bind (Traced.Ended.ends (Traced.Ended.bind (Traced.ended_emit _)
          fun _ _ => Traced.ended_pure _)) fun reported hreported => ?_
        refine Traced.Ends.ite (c := isSpent ⟨reg, 0, maxErrors⟩ reported)
          (fun _ => (Traced.ended_pure (none, reported)).ends) fun _ => ?_
        have htried : reported.tried = (anchor, (here.moveByUnits waste).pos) :: p.tried := by
          obtain ⟨_, hreported⟩ := hreported
          cases hreported
          rw [Progress.record_tried, ← hsurveyed.tried]
          rfl
        have hkept : (boundaries input).Keeps reported := by
          obtain ⟨_, hreported⟩ := hreported
          cases hreported
          exact (hsurveyed.keeps.markTried _ _).record trivial
            fun _ hentry => absurd hentry List.not_mem_nil
        apply ih hkept
        rw [htried]
        refine ⟨List.nodup_cons.2 ⟨hnew, hspares.nodup⟩,
          List.cons_subset.2 ⟨hsite, hspares.subset⟩, ?_⟩
        have hroom := hspares.room
        rw [List.length_cons]
        omega

/-- A climb resumes one branch after the other, and each of them ends. The induction is on the
    way. -/
theorem ends_climbThrough (unwinding : Bool) (way : List (Nat × Nat)) {summit : Summit}
    (hway : reg.IsWay summit.id way) (hsummit : summit.result.All (·.SitsOn input))
    (hp : (boundaries input).Keeps summit.progress) :
    Traced.Ends fun depth => climbThrough ⟨reg, depth, maxErrors⟩ unwinding way summit := by
  induction way generalizing summit with
  | nil => exact (Traced.ended_pure summit).ends
  | cons step way ih =>
    obtain ⟨parent, index⟩ := step
    obtain ⟨hparent, hway⟩ := hway
    obtain ⟨hsaved, hreleased⟩ := hp.release parent
    have hall : (Resumption.mk index summit.result (summit.progress.release parent).1).All
        (·.SitsOn input) := ⟨hsummit, hsaved⟩
    obtain ⟨enough, hended⟩ := hends.resume parent hall
    simp only [climbThrough]
    apply (Registry.ends_resume hended).bind
    intro result hresult
    obtain ⟨depth, hresult⟩ := hresult
    split
    · exact (Traced.ended_pure _).ends
    · exact ih hway (hkeeps.resume hall hresult) hreleased

/-- A climb goes through the ancestors of an occurrence, of which there are finitely many. -/
theorem ends_climb (unwinding : Bool) (summit : Summit)
    (hsummit : summit.result.All (·.SitsOn input)) (hp : (boundaries input).Keeps summit.progress) :
    Traced.Ends fun depth => climb ⟨reg, depth, maxErrors⟩ unwinding summit :=
  ends_climbThrough hends hkeeps maxErrors unwinding _ (Registry.isWay_ancestors _) hsummit hp

/-- Each round but the last takes up a site that was free, so there is always one round more than is
    needed. -/
theorem ends_rounds (attempts limit : Nat) (hattempts : (reg.sites input).length < attempts)
    (summit : Summit) (hsummit : summit.result.All (·.SitsOn input))
    (hp : (boundaries input).Keeps summit.progress)
    (hspares : Spares reg input summit.progress.tried limit) :
    Traced.Ends fun depth => rounds ⟨reg, depth, maxErrors⟩ attempts limit summit := by
  induction limit generalizing summit with
  | zero => exact absurd rfl hspares.limit_ne_zero
  | succ limit ih =>
    simp only [rounds]
    cases herror : summit.result.error with
    | none => exact (Traced.ended_pure summit).ends
    | some e =>
      have hhere := Registry.sitsOn_searchFrom hsummit herror
      refine Traced.Ends.bind (Traced.Ended.ends (Traced.Ended.bind (Traced.ended_emit _)
        fun _ _ => Traced.ended_pure _)) fun reported hreported => ?_
      have hkept : (boundaries input).Keeps reported ∧ reported.tried = summit.progress.tried := by
        obtain ⟨_, hreported⟩ := hreported
        cases hreported
        exact ⟨hp.record trivial (hsummit.error e herror).saved, Progress.record_tried _ _⟩
      obtain ⟨hkept, htried⟩ := hkept
      have hgiveUp {q : Progress} (hq : (boundaries input).Keeps q) :
          Traced.Ends fun depth => giveUp ⟨reg, depth, maxErrors⟩ (searchFrom summit.result e)
            ⟨summit.id, { summit.result with error := some e.withoutSaved }, q⟩ := by
        have hstripped : (boundaries input).outcome summit.id
            { summit.result with error := some e.withoutSaved } :=
          (hkeeps.keptBy 0 maxErrors).stripped hsummit herror
        exact (Traced.ended_emit _).ends.bind fun _ _ =>
          ends_climb hends hkeeps maxErrors true ⟨summit.id, _, q⟩ hstripped hq
      refine Traced.Ends.ite
        (c := (searchFrom summit.result e).atEnd || isSpent ⟨reg, 0, maxErrors⟩ reported)
        (fun _ => hgiveUp hkept) fun _ => ?_
      have hroom : Spares reg input reported.tried attempts := by
        rw [htried]
        exact ⟨hspares.nodup, hspares.subset, by omega⟩
      have hsearch := ends_resynchronise hends hkeeps maxErrors hhere e.owner attempts hkept hroom
      refine hsearch.bind fun found hfound => ?_
      obtain ⟨depth, hfound⟩ := hfound
      have hresynced := Upkeep.resynced_of_result_eq_ok (hkeeps.keptBy depth maxErrors) hkept hhere
        hfound
      have htries := tries_resynchronise hkeeps depth maxErrors hhere hkept e.owner attempts
      obtain ⟨found, q⟩ := found
      cases found with
      | none => exact hgiveUp hresynced.keeps
      | some found =>
        obtain ⟨anchor, result⟩ := found
        obtain ⟨-, hresult, -⟩ := hresynced.anchor _ _ rfl
        have hclimb := ends_climb hends hkeeps maxErrors false ⟨anchor, result, q⟩ hresult
          hresynced.keeps
        refine hclimb.bind fun next hnext => ?_
        obtain ⟨depth', hnext⟩ := hnext
        have hkept' := Upkeep.ensures_climb (hkeeps.keptBy depth' maxErrors) false
          ⟨anchor, result, q⟩ hresult hresynced.keeps
        have hclimbed := hkept'.value next hnext
        -- the attempt of this round has taken up a site, so one round less is enough for the rest
        have hspares' : Spares reg input next.progress.tried limit := by
          rw [hclimbed.tried]
          exact hspares.of_tries htried htries hfound hresynced.tried rfl
        exact ih ⟨next.id, next.result, _⟩ hclimbed.outcome (hclimbed.keeps.dropStale _ _) hspares'

/-- Recovery ends. If single parses and resumptions end, so does a run of any input under any error
    budget, whatever recoverers propose. -/
theorem ends_execute (cache : WasteCache) (hcache : cache.entries = []) :
    Traced.Ends fun depth => execute ⟨reg, depth, maxErrors⟩ cache (State.start input) := by
  have hstart := State.start_sitsOn input
  have hbound : (reg.sites input).length < attemptBound ⟨reg, 0, maxErrors⟩ input := by
    have hrecovering : reg.recovering.length ≤ reg.size := by
      have hfilter := List.length_filter_le (fun id => (reg.recoverer? id).isSome)
        (List.range reg.size)
      rwa [List.length_range] at hfilter
    have hproduct := Nat.mul_le_mul_right (input.size + 1) hrecovering
    rw [Registry.length_sites, attemptBound]
    exact Nat.lt_of_le_of_lt hproduct (Nat.lt_add_of_pos_right (by decide))
  apply (ends_run hends maxErrors 0 hstart).bind
  intro result hresult
  obtain ⟨depth, hresult⟩ := hresult
  have hsummit : result.All (·.SitsOn input) := hkeeps.parse hstart hresult
  have hknown : (boundaries input).Keeps (.initial cache) := Upkeep.keeps_initial hcache
  have hspares : Spares reg input [] (attemptBound ⟨reg, 0, maxErrors⟩ input) := by
    refine ⟨List.nodup_nil, List.nil_subset _, ?_⟩
    rw [List.length_nil, Nat.zero_add]
    exact hbound
  have hrounds := ends_rounds hends hkeeps maxErrors _ _ hbound ⟨0, result, .initial cache⟩
    hsummit hknown hspares
  exact hrounds.bind fun summit _ => (Traced.ended_pure _).ends

/-- Recovery ends if single parses and resumptions do, whatever recoverers propose, on any input and
    under any error budget. No anchor is resumed twice at one offset, so there are at most as many
    attempts as there are occurrences with a recoverer and offsets up to the end. -/
theorem recovery_ends :
    (∀ depth, (execute ⟨reg, depth, maxErrors⟩ .empty (State.start input)).attempts.Nodup ∧
      (execute ⟨reg, depth, maxErrors⟩ .empty (State.start input)).attempts.length ≤
        reg.recovering.length * (input.size + 1)) ∧
    Traced.Ends fun depth => execute ⟨reg, depth, maxErrors⟩ .empty (State.start input) := by
  have hempty : WasteCache.empty.entries = [] := rfl
  constructor
  · intro depth
    obtain ⟨hnodup, hsites⟩ := attempts_execute hkeeps depth maxErrors .empty hempty
    refine ⟨hnodup, ?_⟩
    rw [← Registry.length_sites]
    exact hnodup.length_le_of_subset hsites
  · exact ends_execute hends hkeeps maxErrors .empty hempty

end

/-- A leaf whose recoverer takes every place for a match. -/
def hastyLeaf : Leaf :=
  { (Primitive.char 'z').leaf with recoverer := some (.fast fun _ => .units 0), safeSpot := true }

/-- A pair of a leaf and a hasty one. -/
def hastyPair : Registry where
  entries :=
    [⟨0, "map2", .branch (.combine [(0, .char), (1, .char)] .text fun (a, b, ()) =>
        String.ofList [a, b]), none, [1, 2]⟩,
      ⟨1, "a", .leaf (Primitive.char 'a').leaf, some (0, 0), []⟩,
      ⟨2, "z", .leaf hastyLeaf, some (0, 1), []⟩]

/-- The example parses alike at all cursors that are closed under moves. -/
private theorem hastyPair_advances {P : State → Prop} {input : Input}
    (hP : State.ClosedUnderMoves P input) : hastyPair.Advances P where
  leaf {id _ leaf} hentry hwork := by
    match id, hentry with
    | 0, hentry => cases hentry; cases hwork
    | 1, hentry => cases hentry; cases hwork; exact (Primitive.char 'a').advances hP
    | 2, hentry =>
      cases hentry
      cases hwork
      have hz := (Primitive.char 'z').advances hP
      exact ⟨hz.stop, hz.error⟩
  branch {id _ rule} hentry hwork := by
    match id, hentry with
    | 0, hentry => cases hentry; cases hwork; exact trivial
    | 1, hentry => cases hentry; cases hwork
    | 2, hentry => cases hentry; cases hwork

/-- In the example every child comes after its parent, so the descent ends. -/
private theorem hastyPair_descends : hastyPair.Descends := by
  decide

/-- The hasty leaf is tried once in vain, and the run ends. -/
theorem recovery_ends_hastyPair :
    (execute ⟨hastyPair, 4, 10⟩ .empty (State.start (Input.text "xy"))).attempts = [(2, 0)] ∧
    Traced.Ends fun depth =>
      execute ⟨hastyPair, depth, 10⟩ .empty (State.start (Input.text "xy")) := by
  have hP := State.closedUnderMoves_sitsOn (Input.text "xy")
  have hadvances := hastyPair_advances hP
  exact ⟨by rfl, (recovery_ends (hadvances.endsOn hastyPair_descends) hadvances.keepsBoundaries
    10).2⟩

end Session

end Resync
