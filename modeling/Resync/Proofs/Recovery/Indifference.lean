import Resync.Proofs.Engine.Indifference
import Resync.Proofs.Recovery.Listing
import Resync.Proofs.Registry.Anchors

namespace Resync

open Traced (Rebudgets rebudgets_pure rebudgets_fault rebudgets_emit)

/-- Errors under another budget are in the same order, as the budget is no part of their places. -/
theorem sortErrors_map_withMaxErrors (errors : List ParseError) (maxErrors : Nat) :
    sortErrors (errors.map (·.withMaxErrors maxErrors)) =
      (sortErrors errors).map (·.withMaxErrors maxErrors) := by
  refine (List.map_mergeSort fun e _ f _ => ?_).symm
  rfl

/-- A report lists the same error under any budget. -/
theorem Progress.rebudgets_report (p : Progress) (e : ParseError) (maxErrors : Nat) :
    Rebudgets maxErrors (·.withMaxErrors maxErrors) (p.report e)
      ((p.withMaxErrors maxErrors).report (e.withMaxErrors maxErrors)) := by
  refine (rebudgets_emit (.reported e.withoutSaved)).bind fun _ => rebudgets_pure ?_
  exact p.record_withMaxErrors e maxErrors

namespace Session

variable {session : Session} {maxErrors : Nat}

section Asking

/-- An offset is as many units away under any budget, and was tried or not. -/
theorem rebudgets_appraise (p : Progress) (anchor : Nat) (here : State) (offset : Option Nat)
    (cached : Bool) :
    Rebudgets maxErrors id (session.appraise p anchor here offset cached)
      (session.appraise (p.withMaxErrors maxErrors) anchor (here.withMaxErrors maxErrors) offset
        cached) := by
  have hunits (offset : Nat) : (here.withMaxErrors maxErrors).unitsTo
      ((here.withMaxErrors maxErrors).movedTo offset) = here.unitsTo (here.movedTo offset) := by
    rw [State.movedTo_withMaxErrors, State.unitsTo_withMaxErrors]
  unfold appraise
  simp only [hunits]
  exact (rebudgets_emit (.estimated anchor _ here.pos _ cached)).bind fun _ => rebudgets_pure rfl

/-- An anchor whose waste is computed gives the same answer, remembered or not, since its recoverer
    reads the content and the cache holds offsets. -/
theorem rebudgets_fastWaste (p : Progress) (anchor : Nat) {waste : State → Waste}
    (hwaste : (Recoverer.fast waste).IgnoresBudget) (here : State) :
    Rebudgets maxErrors (Prod.map id (·.withMaxErrors maxErrors))
      (session.fastWaste p anchor waste here)
      (session.fastWaste (p.withMaxErrors maxErrors) anchor waste
        (here.withMaxErrors maxErrors)) := by
  have hcache : (p.withMaxErrors maxErrors).cache.get? anchor (here.withMaxErrors maxErrors).pos =
      p.cache.get? anchor here.pos := rfl
  have hproposed : proposedOffset waste (here.withMaxErrors maxErrors) =
      proposedOffset waste here := by
    unfold proposedOffset
    rw [hwaste here maxErrors]
    cases waste here with
    | units count =>
      dsimp only
      rw [State.moveByUnits_withMaxErrors]
      rfl
    | tooMuch => rfl
    | never => rfl
  unfold fastWaste
  rw [hcache, hproposed]
  cases p.cache.get? anchor here.pos with
  | some answer =>
    exact (rebudgets_appraise p anchor here _ true).bind fun _ => rebudgets_pure rfl
  | none =>
    exact (rebudgets_appraise (p.remember anchor here.pos (proposedOffset waste here)) anchor here _
      false).bind fun _ => rebudgets_pure rfl

variable (h : session.registry.IgnoresBudget)
include h

/-- An anchor that is run parses the same and comes to the same outcome, as its leaf does not read
    the budget. -/
theorem rebudgets_run (anchor : Nat) (s : State) :
    Rebudgets maxErrors (·.withMaxErrors maxErrors) (session.run anchor s)
      (session.run anchor (s.withMaxErrors maxErrors)) :=
  h.rebudgets_parse session.depth anchor s

/-- Probing stops at the same state, since the anchor parses at the same ones. The induction is on
    the states that are left. -/
theorem rebudgets_probe (anchor : Nat) (limit : Option Nat) (states : List State) :
    Rebudgets maxErrors id (session.probe anchor limit states)
      (session.probe anchor limit (states.map (·.withMaxErrors maxErrors))) := by
  induction states generalizing limit with
  | nil =>
    cases limit with
    | none => exact rebudgets_pure rfl
    | some limit => cases limit <;> exact rebudgets_pure rfl
  | cons s states ih =>
    have hstep (rest : Option Nat) : Rebudgets maxErrors id
        (session.run anchor s >>= fun result =>
          if result.isOk then pure (Probe.found s.pos) else session.probe anchor rest states)
        (session.run anchor (s.withMaxErrors maxErrors) >>= fun result =>
          if result.isOk then pure (Probe.found s.pos)
          else session.probe anchor rest (states.map (·.withMaxErrors maxErrors))) := by
      refine (rebudgets_run h anchor s).bind fun result => ?_
      rw [Result.isOk_withMaxErrors]
      split
      · exact rebudgets_pure rfl
      · exact ih rest
    cases limit with
    | none => exact hstep none
    | some limit =>
      cases limit with
      | zero => exact rebudgets_pure rfl
      | succ limit => exact hstep (some limit)

/-- An anchor that is probed gives the same answer, remembered, found or cut short at the same
    limit. -/
theorem rebudgets_stepWaste (p : Progress) (anchor : Nat) (here : State) (limit : Option Nat) :
    Rebudgets maxErrors (Prod.map id (·.withMaxErrors maxErrors))
      (session.stepWaste p anchor here limit)
      (session.stepWaste (p.withMaxErrors maxErrors) anchor (here.withMaxErrors maxErrors)
        limit) := by
  have hcache : (p.withMaxErrors maxErrors).cache.get? anchor (here.withMaxErrors maxErrors).pos =
      p.cache.get? anchor here.pos := rfl
  unfold stepWaste
  rw [hcache, State.ahead_withMaxErrors]
  cases p.cache.get? anchor here.pos with
  | some answer =>
    exact (rebudgets_appraise p anchor here _ true).bind fun _ => rebudgets_pure rfl
  | none =>
    refine (rebudgets_probe h anchor limit here.ahead).bind fun probed => ?_
    cases probed with
    | found offset =>
      exact (rebudgets_appraise (p.remember anchor here.pos (.anchor offset)) anchor here _
        false).bind fun _ => rebudgets_pure rfl
    | exhausted =>
      exact (rebudgets_appraise (p.remember anchor here.pos .tooMuch) anchor here none
        false).bind fun _ => rebudgets_pure rfl
    | cut =>
      exact (rebudgets_emit (.estimated anchor _ here.pos none false)).bind
        fun _ => rebudgets_pure rfl

/-- The owner of an error makes the same bid under any budget. -/
theorem rebudgets_ownBid (p : Progress) (owner : Option Nat) (here : State) :
    Rebudgets maxErrors (Prod.map id (·.withMaxErrors maxErrors)) (session.ownBid p owner here)
      (session.ownBid (p.withMaxErrors maxErrors) owner (here.withMaxErrors maxErrors)) := by
  cases owner with
  | none => exact rebudgets_pure rfl
  | some anchor =>
    unfold ownBid
    dsimp only
    cases hrecoverer : session.registry.recoverer? anchor with
    | none => exact rebudgets_pure rfl
    | some recoverer =>
      obtain ⟨entry, leaf, hentry, hwork, hleaf⟩ := Registry.exists_leaf_of_recoverer? hrecoverer
      have hignores := (h.leaf hentry hwork).effectiveRecoverer hleaf
      cases recoverer with
      | fast waste =>
        exact (rebudgets_fastWaste p anchor hignores here).bind fun _ => rebudgets_pure rfl
      | step => exact (rebudgets_stepWaste h p anchor here none).bind fun _ => rebudgets_pure rfl

omit h in
/-- Fast anchors are asked in the same order and give the same answers, so the best bid is the
    same. -/
theorem rebudgets_askFast (owner : Option Nat) (here : State)
    {anchors : List (Nat × (State → Waste))}
    (hanchors : ∀ anchor ∈ anchors, (Recoverer.fast anchor.2).IgnoresBudget) (best : Option Bid)
    (p : Progress) :
    Rebudgets maxErrors (Prod.map id (·.withMaxErrors maxErrors))
      (session.askFast owner here anchors best p)
      (session.askFast owner (here.withMaxErrors maxErrors) anchors best
        (p.withMaxErrors maxErrors)) := by
  induction anchors generalizing best p with
  | nil => exact rebudgets_pure rfl
  | cons anchor anchors ih =>
    obtain ⟨hanchor, hrest⟩ := List.forall_mem_cons.1 hanchors
    rw [askFast, askFast]
    split
    · exact rebudgets_pure rfl
    · split
      · exact ih hrest best p
      · refine (rebudgets_fastWaste p anchor.1 hanchor here).bind fun asked => ?_
        exact ih hrest _ asked.2

/-- Step anchors are probed up to the same waste, so the best bid is the same. -/
theorem rebudgets_askStep (owner : Option Nat) (here : State) (anchors : List Nat)
    (best : Option Bid) (p : Progress) :
    Rebudgets maxErrors (Prod.map id (·.withMaxErrors maxErrors))
      (session.askStep owner here anchors best p)
      (session.askStep owner (here.withMaxErrors maxErrors) anchors best
        (p.withMaxErrors maxErrors)) := by
  induction anchors generalizing best p with
  | nil => exact rebudgets_pure rfl
  | cons anchor anchors ih =>
    rw [askStep, askStep]
    split
    · exact rebudgets_pure rfl
    · split
      · exact ih best p
      · exact (rebudgets_stepWaste h p anchor here _).bind fun asked => ih _ asked.2

/-- The same anchor is chosen under any budget, with the same waste, as neither bids nor recoverers
    read it. -/
theorem rebudgets_chooseAnchor (p : Progress) (owner : Option Nat) (here : State) :
    Rebudgets maxErrors (Prod.map id (·.withMaxErrors maxErrors))
      (session.chooseAnchor p owner here)
      (session.chooseAnchor (p.withMaxErrors maxErrors) owner (here.withMaxErrors maxErrors)) := by
  have hfast : ∀ anchor ∈ session.registry.fastAnchors,
      (Recoverer.fast anchor.2).IgnoresBudget := by
    intro anchor hanchor
    obtain ⟨entry, leaf, hentry, hwork, hleaf⟩ :=
      Registry.exists_leaf_of_recoverer? (Registry.recoverer?_of_mem_fastAnchors hanchor)
    exact (h.leaf hentry hwork).effectiveRecoverer hleaf
  refine (rebudgets_ownBid h p owner here).bind fun own => ?_
  refine (rebudgets_askFast owner here hfast own.1 own.2).bind fun asked => ?_
  exact rebudgets_askStep h owner here session.registry.stepAnchors asked.1 asked.2

end Asking

/-- No error that a run reports or returns carries what branches have saved: it is taken out before
    the error is listed. This needs nothing of the grammar. -/
theorem ensures_execute_bare (session : Session) (start : State) :
    (session.execute .empty start).Ensures (fun event => ∀ e, event.reported? = some e → e.saved = [])
      (fun _ => True) fun out => ∀ e ∈ out.2, e.saved = [] := by
  let bare : Upkeep :=
    { outcome := fun _ _ => True
      saved := fun _ _ => True
      error := fun e => e.saved = []
      cursor := fun _ => True
      summit := fun _ => True
      event := fun event => ∀ e, event.reported? = some e → e.saved = []
      fault := fun _ => True }
  have hquiet {x : Traced Result} (hx : x.IsQuiet) :
      x.Ensures bare.event bare.fault fun _ => True := by
    refine ⟨fun event hevent e he => ?_, fun _ _ => trivial, fun _ _ => trivial⟩
    rw [hx event hevent] at he
    cases he
  have hkept : bare.KeptBy session :=
    { exhausted := trivial
      run := fun _ _ => hquiet Registry.isQuiet_parse
      resume := fun _ _ _ => hquiet Registry.isQuiet_resume
      root := trivial
      summit := fun _ => trivial
      moved := fun _ _ => trivial
      search := fun _ _ => trivial
      reports := fun _ _ => ⟨rfl, fun _ _ => trivial⟩
      stripped := fun _ _ => trivial
      violation := fun _ _ _ _ => rfl
      reported := fun he f hf => by
        cases hf
        exact he
      estimated := fun _ _ _ _ _ => nofun
      gaveUp := fun _ => nofun }
  have hempty : WasteCache.empty.entries = [] := rfl
  have hrun := Upkeep.ensures_execute hkept (fun _ _ _ => nofun) hempty (s := start) trivial
  exact hrun.imp fun out _ hout => hout.2

/-- What the search for an anchor has come to, with all cursors under another error budget. -/
def foundWithMaxErrors (found : Option (Nat × Result) × Progress) (maxErrors : Nat) :
    Option (Nat × Result) × Progress :=
  (found.1.map (Prod.map id (·.withMaxErrors maxErrors)), found.2.withMaxErrors maxErrors)

/-- Errors are counted, and the number that ends the recovery is the session's own, not the one that
    cursors show. -/
theorem isSpent_withMaxErrors (p : Progress) :
    session.isSpent (p.withMaxErrors maxErrors) = session.isSpent p := by
  rw [isSpent, isSpent, Progress.withMaxErrors, List.length_map]

/-- The search for an anchor begins at the same place under any budget. -/
theorem searchFrom_withMaxErrors (r : Result) (e : ParseError) :
    searchFrom (r.withMaxErrors maxErrors) (e.withMaxErrors maxErrors) =
      (searchFrom r e).withMaxErrors maxErrors := by
  have hkind : (e.withMaxErrors maxErrors).kind = e.kind := rfl
  unfold searchFrom
  rw [hkind]
  cases e.kind with
  | syntactic => exact r.stop.movedTo_withMaxErrors maxErrors e.position
  | semantic => rfl

variable (h : session.registry.IgnoresBudget)
include h

/-- The same anchors are tried, until the same one is found or the errors are as many as the session
    allows. -/
theorem rebudgets_resynchronise (owner : Option Nat) (here : State) (attempts : Nat)
    (p : Progress) :
    Rebudgets maxErrors (foundWithMaxErrors · maxErrors)
      (session.resynchronise owner here attempts p)
      (session.resynchronise owner (here.withMaxErrors maxErrors) attempts
        (p.withMaxErrors maxErrors)) := by
  induction attempts generalizing p with
  | zero => exact rebudgets_fault _
  | succ attempts ih =>
    rw [resynchronise, resynchronise]
    refine (rebudgets_chooseAnchor h p owner here).bind fun choice => ?_
    obtain ⟨_ | ⟨anchor, waste⟩, chosen⟩ := choice
    · exact rebudgets_pure rfl
    · dsimp only [Prod.map, id]
      rw [State.moveByUnits_withMaxErrors]
      refine (rebudgets_emit (.anchored anchor _ (here.moveByUnits waste).pos)).bind fun _ => ?_
      refine (rebudgets_run h anchor (here.moveByUnits waste)).bind fun result => ?_
      rw [Result.isOk_withMaxErrors]
      split
      · exact rebudgets_pure rfl
      · have hreport := Progress.rebudgets_report
          (chosen.markTried anchor (here.moveByUnits waste).pos)
          (((here.moveByUnits waste).semanticError
            (brokenPromise (session.registry.label anchor))).claim anchor) maxErrors
        refine hreport.bind fun reported => ?_
        rw [isSpent_withMaxErrors]
        split
        · exact rebudgets_pure rfl
        · exact ih reported

/-- The branches on the way are resumed with what they have saved, and climbs stop at the same
    place. -/
theorem rebudgets_climb (unwinding : Bool) (summit : Summit) :
    Rebudgets maxErrors (·.withMaxErrors maxErrors) (session.climb unwinding summit)
      (session.climb unwinding (summit.withMaxErrors maxErrors)) := by
  have hthrough (way : List (Nat × Nat)) (summit : Summit) :
      Rebudgets maxErrors (·.withMaxErrors maxErrors) (session.climbThrough unwinding way summit)
        (session.climbThrough unwinding way (summit.withMaxErrors maxErrors)) := by
    induction way generalizing summit with
    | nil => exact rebudgets_pure rfl
    | cons step way ih =>
      obtain ⟨parent, index⟩ := step
      have hrelease : (summit.withMaxErrors maxErrors).progress.release parent =
          ((summit.progress.release parent).1.map (·.withMaxErrors maxErrors),
            (summit.progress.release parent).2.withMaxErrors maxErrors) :=
        summit.progress.release_withMaxErrors maxErrors parent
      rw [climbThrough, climbThrough, hrelease]
      let resumption : Resumption :=
        ⟨index, summit.result, (summit.progress.release parent).1⟩
      refine (h.rebudgets_resume session.depth parent resumption).bind fun result => ?_
      rw [Result.isOk_withMaxErrors]
      split
      · exact rebudgets_pure rfl
      · exact ih ⟨parent, result, (summit.progress.release parent).2⟩
  exact hthrough _ summit

/-- A run gives up at the same place, and its error unwinds in the same way. -/
theorem rebudgets_giveUp (here : State) (summit : Summit) :
    Rebudgets maxErrors (·.withMaxErrors maxErrors) (session.giveUp here summit)
      (session.giveUp (here.withMaxErrors maxErrors) (summit.withMaxErrors maxErrors)) :=
  (rebudgets_emit (.gaveUp here.pos)).bind fun _ => rebudgets_climb h true summit

/-- The search of a round finds the same anchor, or nothing, as long as the session allows the same
    number of errors. -/
theorem rebudgets_seek (start : State) (summit : Summit) (e : ParseError) :
    Rebudgets maxErrors (foundWithMaxErrors · maxErrors) (session.seek start summit e)
      (session.seek start (summit.withMaxErrors maxErrors) (e.withMaxErrors maxErrors)) := by
  have hrecord : (summit.withMaxErrors maxErrors).progress.record (e.withMaxErrors maxErrors) =
      (summit.progress.record e).withMaxErrors maxErrors :=
    summit.progress.record_withMaxErrors e maxErrors
  have hhere : searchFrom (summit.withMaxErrors maxErrors).result (e.withMaxErrors maxErrors) =
      (searchFrom summit.result e).withMaxErrors maxErrors :=
    searchFrom_withMaxErrors summit.result e
  unfold seek
  rw [hrecord, hhere, State.atEnd_withMaxErrors, isSpent_withMaxErrors]
  split
  · exact rebudgets_pure rfl
  · exact rebudgets_resynchronise h e.owner _ _ _

/-- The rounds of a run are the same under any budget that cursors show, as long as the session
    allows the same number of errors. -/
theorem rebudgets_rounds (start : State) (limit : Nat) (summit : Summit) :
    Rebudgets maxErrors (·.withMaxErrors maxErrors)
      (session.rounds (session.attemptBound start.input) limit summit)
      (session.rounds (session.attemptBound start.input) limit
        (summit.withMaxErrors maxErrors)) := by
  induction limit generalizing summit with
  | zero => exact rebudgets_fault _
  | succ limit ih =>
    cases herror : summit.result.error with
    | none =>
      have hsame : (summit.withMaxErrors maxErrors).result.error = none :=
        congrArg (Option.map _) herror
      rw [rounds, rounds, herror, hsame]
      exact rebudgets_pure rfl
    | some e =>
      have hshown : (summit.withMaxErrors maxErrors).result.error =
          some (e.withMaxErrors maxErrors) := congrArg (Option.map _) herror
      rw [rounds_of_error herror, rounds_of_error hshown]
      refine (rebudgets_emit (.reported e.withoutSaved)).bind fun _ => ?_
      refine (rebudgets_seek h start summit e).bind fun found => ?_
      obtain ⟨_ | ⟨anchor, leaf⟩, p⟩ := found
      · have hhere : searchFrom (summit.withMaxErrors maxErrors).result (e.withMaxErrors maxErrors) =
            (searchFrom summit.result e).withMaxErrors maxErrors :=
          searchFrom_withMaxErrors summit.result e
        dsimp only [foundWithMaxErrors, Option.map]
        rw [hhere]
        exact rebudgets_giveUp h _
          ⟨summit.id, { summit.result with error := some e.withoutSaved }, p⟩
      · refine (rebudgets_climb h false ⟨anchor, leaf, p⟩).bind fun next => ?_
        have hsettle : session.settle (next.withMaxErrors maxErrors) =
            (session.settle next).withMaxErrors maxErrors := by
          have hdrop := next.progress.dropStale_withMaxErrors maxErrors session.registry next.id
          exact congrArg (Summit.mk next.id (next.result.withMaxErrors maxErrors)) hdrop
        rw [hsettle]
        exact ih (session.settle next)

/-- A whole run is the same, event by event, whatever budget its cursors show, as long as the session
    allows the same number of errors. It gives the same output, and the same errors. -/
theorem rebudgets_execute (cache : WasteCache) (start : State) :
    Rebudgets maxErrors (Prod.map id (List.map (·.withMaxErrors maxErrors)))
      (session.execute cache start)
      (session.execute cache (start.withMaxErrors maxErrors)) := by
  refine (rebudgets_run h 0 start).bind fun result => ?_
  refine (rebudgets_rounds h start _ ⟨0, result, .initial cache⟩).bind fun summit => ?_
  refine rebudgets_pure (Prod.ext rfl ?_)
  exact sortErrors_map_withMaxErrors summit.progress.errors maxErrors

/-- Runs whose cursors show different budgets have the same events, but for that, list the same
    errors and come to the same result, as long as the session allows the same number of errors. No
    error that is listed carries anything, so the budget is not seen in any of them. -/
theorem execute_withMaxErrors (start : State) (maxErrors : Nat) :
    (session.execute .empty (start.withMaxErrors maxErrors)).events =
        (session.execute .empty start).events.map (·.withMaxErrors maxErrors) ∧
      (session.execute .empty (start.withMaxErrors maxErrors)).listed =
        (session.execute .empty start).listed ∧
      (session.execute .empty (start.withMaxErrors maxErrors)).result =
        (session.execute .empty start).result := by
  have hrun : Rebudgets maxErrors _ _ _ := rebudgets_execute h .empty start
  have hbare := session.ensures_execute_bare start
  refine ⟨hrun.events, ?_, ?_⟩
  · have hreported : ∀ event ∈ (session.execute .empty start).events,
        (event.withMaxErrors maxErrors).reported? = event.reported? := by
      intro event hevent
      cases event with
      | reported e =>
        have hsaved : e.saved = [] := hbare.event _ hevent e rfl
        exact congrArg some (ParseError.withMaxErrors_of_saved_eq_nil hsaved maxErrors)
      | _ => rfl
    unfold Traced.listed listing
    rw [hrun.events, List.filterMap_map]
    exact congrArg (List.foldl enlist []) (List.filterMap_congr hreported)
  · rw [hrun.result]
    cases hresult : (session.execute .empty start).result with
    | error fault => rfl
    | ok out =>
      have hsame : out.2.map (·.withMaxErrors maxErrors) = out.2.map id :=
        List.map_congr_left fun e he =>
          ParseError.withMaxErrors_of_saved_eq_nil (hbare.value out hresult e he) maxErrors
      rw [List.map_id] at hsame
      exact congrArg Except.ok (Prod.ext rfl hsame)

end Session

end Resync
