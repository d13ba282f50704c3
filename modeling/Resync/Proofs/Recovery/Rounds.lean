import Resync.Proofs.Recovery.Choice

namespace Resync

namespace Session

/-- A run up to its last outcome. -/
def summit (session : Session) (cache : WasteCache) (s : State) : Traced Summit := do
  let result ← session.run 0 s
  let bound := session.attemptBound s.input
  session.rounds bound bound ⟨0, result, .initial cache⟩

/-- A run is its last summit, with the errors put in order. So it is enough to follow a run from
    summit to summit. -/
theorem execute_eq (session : Session) (cache : WasteCache) (s : State) :
    session.execute cache s = session.summit cache s >>= fun summit =>
      pure (summit.result.output, sortErrors summit.progress.errors) :=
  (bind_assoc ..).symm

end Session

namespace Upkeep

variable {u : Upkeep} {session : Session} {p : Progress} {here : State} {id : Nat}

/-- What resuming the cheapest anchor comes to. An anchor that is found has been tried. -/
structure Resynced (u : Upkeep) (session : Session) (p : Progress)
    (found : Option (Nat × Result) × Progress) : Prop where
  keeps : u.Keeps found.2
  salvage : found.2.salvage = p.salvage
  tried : ∃ more, found.2.tried = more ++ p.tried ∧ (found.1.isSome → more ≠ [])
  anchor : ∀ anchor result, found.1 = some (anchor, result) →
    (session.registry.recoverer? anchor).isSome ∧ u.outcome anchor result ∧ result.isOk = true

section Recovering

variable (h : u.KeptBy session)
include h

omit h in
/-- Reporting an error keeps up what holds of errors and of saved data, and comes to what recording
    it comes to. -/
theorem ensures_report (hreported : ∀ {e}, u.error e → u.event (.reported e)) (hp : u.Keeps p)
    {e : ParseError} (he : u.error e.withoutSaved)
    (hsaved : ∀ entry ∈ e.saved, u.saved entry.1 entry.2) :
    (p.report e).Ensures u.event u.fault fun p' => u.Keeps p' ∧ p' = p.record e := by
  have hrecorded := hp.record he hsaved
  apply (Traced.ensures_emit (hreported he)).bind
  intro _ _ _
  exact Traced.ensures_pure ⟨hrecorded, rfl⟩

omit h in
/-- Looking for an anchor and resuming it keeps up what anchors keep up. The event of a resumed
    anchor has to be allowed where the anchor is tried. -/
theorem ensures_resynchronise (h : u.KeptByAnchors session)
    (hanchored : ∀ {s} id label, u.cursor s → u.event (.anchored id label s.pos))
    (hp : u.Keeps p) (hhere : u.cursor here) (owner : Option Nat) (attempts : Nat) :
    (session.resynchronise owner here attempts p).Ensures u.event u.fault
      (u.Resynced session p) := by
  induction attempts generalizing p with
  | zero => exact Traced.ensures_fault h.exhausted
  | succ attempts ih =>
    unfold Session.resynchronise
    apply (ensures_chooseAnchor h.toKeptByAsking hhere hp owner).bind
    intro choice _ hchoice
    obtain ⟨best, chosen⟩ := choice
    obtain ⟨hsurveyed, hoffers⟩ := hchoice
    cases best with
    | none =>
      exact Traced.ensures_pure ⟨hsurveyed.keeps, hsurveyed.salvage,
        ⟨[], hsurveyed.tried, fun hnone => nomatch hnone⟩, fun _ _ hnone => nomatch hnone⟩
    | some bid =>
      obtain ⟨anchor, waste⟩ := bid
      have hanchor := (hoffers _ rfl).1
      have htarget := h.moved waste hhere
      refine (Traced.ensures_emit (hanchored _ _ htarget)).bind
        fun _ _ _ => (h.run hanchor htarget).bind fun result _ hresult => ?_
      split
      · next hok =>
        refine Traced.ensures_pure ⟨hsurveyed.keeps.markTried _ _, hsurveyed.salvage,
          ⟨[_], congrArg _ hsurveyed.tried, fun _ => List.cons_ne_nil _ _⟩, ?_⟩
        intro other r hfound
        cases hfound
        exact ⟨hanchor, hresult, hok⟩
      · have hviolation := h.violation anchor (session.registry.label anchor) hanchor htarget
        have hmarked := hsurveyed.keeps.markTried anchor (here.moveByUnits waste).pos
        have hreport := ensures_report h.reported hmarked
          (e := (State.semanticError _ _).claim anchor) hviolation
          fun _ hentry => absurd hentry List.not_mem_nil
        refine hreport.bind fun reported _ hreported => ?_
        obtain ⟨hkeeps, rfl⟩ := hreported
        have hsalvage (message : String) :
            ((chosen.markTried anchor (here.moveByUnits waste).pos).record
              (((here.moveByUnits waste).semanticError message).claim anchor)).salvage =
              p.salvage :=
          (Progress.record_salvage_of_saved_eq_nil rfl).trans hsurveyed.salvage
        have htried (message : String) :
            ((chosen.markTried anchor (here.moveByUnits waste).pos).record
              (((here.moveByUnits waste).semanticError message).claim anchor)).tried =
              (anchor, (here.moveByUnits waste).pos) :: p.tried :=
          (Progress.record_tried _ _).trans (congrArg _ hsurveyed.tried)
        split
        · exact Traced.ensures_pure ⟨hkeeps, hsalvage _,
            ⟨[_], htried _, fun _ => List.cons_ne_nil _ _⟩, fun _ _ hnone => nomatch hnone⟩
        · refine (ih hkeeps).imp fun found _ hfound =>
            ⟨hfound.keeps, hfound.salvage.trans (hsalvage _), ?_, hfound.anchor⟩
          obtain ⟨more, hmore, -⟩ := hfound.tried
          rw [htried, List.append_cons] at hmore
          exact ⟨_, hmore, fun _ => List.append_ne_nil_of_right_ne_nil _ (List.cons_ne_nil _ _)⟩

/-- The same upkeep, of whatever events. -/
def anyEvents (u : Upkeep) : Upkeep :=
  { u with event := fun _ => True }

/-- What is kept up stays so when events are left out of it. -/
theorem KeptBy.anyEvents : u.anyEvents.KeptBy session where
  exhausted := h.exhausted
  run hid hs := (h.run hid hs).imp_event fun _ _ => trivial
  resume hparent hr hsaved := (h.resume hparent hr hsaved).imp_event fun _ _ => trivial
  root := h.root
  summit := h.summit
  moved := h.moved
  search := h.search
  reports := h.reports
  stripped := h.stripped
  violation := h.violation
  reported _ := trivial
  estimated _ _ _ _ _ := trivial
  gaveUp _ := trivial

/-- What is found by resuming the cheapest anchor has the upkept properties, whatever events there
    are. -/
theorem resynced_of_result_eq_ok (hp : u.Keeps p) (hhere : u.cursor here) {owner : Option Nat}
    {attempts : Nat} {found : Option (Nat × Result) × Progress}
    (hfound : (session.resynchronise owner here attempts p).result = .ok found) :
    u.Resynced session p found := by
  have hresynced := (ensures_resynchronise h.anyEvents.anchors (fun _ _ _ => trivial)
    (hp.withEvent _) hhere owner attempts).value found hfound
  exact ⟨hresynced.keeps.withEvent u.event, hresynced.salvage, hresynced.tried, hresynced.anchor⟩

/-- What a climb comes to. It reaches the end of its way unless a branch stops it. -/
structure Climbed (u : Upkeep) (unwinding : Bool) (way : List (Nat × Nat)) (summit next : Summit) :
    Prop where
  outcome : u.outcome next.id next.result
  keeps : u.Keeps next.progress
  tried : next.progress.tried = summit.progress.tried
  arrives : unwinding = true ∨ next.result.isOk = true → next.id = Registry.wayEnd summit.id way

/-- A climb keeps up what the resumptions on its way do. The induction is on the way: each step
    hands the outcome of a child to its branch. -/
theorem ensures_climbThrough (unwinding : Bool) (way : List (Nat × Nat)) {summit : Summit}
    (hway : session.registry.IsWay summit.id way) (houtcome : u.outcome summit.id summit.result)
    (hkeeps : u.Keeps summit.progress) :
    (session.climbThrough unwinding way summit).Ensures u.event u.fault
      (u.Climbed unwinding way summit) := by
  induction way generalizing summit with
  | nil => exact Traced.ensures_pure ⟨houtcome, hkeeps, rfl, fun _ => rfl⟩
  | cons step way ih =>
    obtain ⟨parent, index⟩ := step
    obtain ⟨hparent, hway⟩ := hway
    obtain ⟨hsaved, hreleased⟩ := hkeeps.release parent
    unfold Session.climbThrough
    apply (h.resume hparent houtcome hsaved).bind
    intro result _ hresult
    split
    · next hstop =>
      refine Traced.ensures_pure ⟨hresult, hreleased, rfl, fun hgo => ?_⟩
      simp only [Bool.and_eq_true, Bool.not_eq_true'] at hstop
      simp [hstop.1, hstop.2] at hgo
    · exact (ih hway hresult hreleased).imp fun next _ hnext =>
        ⟨hnext.outcome, hnext.keeps, hnext.tried, hnext.arrives⟩

/-- What a whole run comes to: the outcome of an occurrence where climbs end. -/
structure Finished (u : Upkeep) (summit : Summit) : Prop where
  outcome : u.outcome summit.id summit.result
  keeps : u.Keeps summit.progress
  summit : u.summit summit.id

/-- A climb through all ancestors keeps up what resumptions do, and ends at the root or at an
    ancestor with a new error. -/
theorem ensures_climb (unwinding : Bool) (summit : Summit)
    (houtcome : u.outcome summit.id summit.result) (hkeeps : u.Keeps summit.progress) :
    (session.climb unwinding summit).Ensures u.event u.fault
      (u.Climbed unwinding (session.registry.ancestors summit.id) summit) :=
  ensures_climbThrough h unwinding _ (Registry.isWay_ancestors _) houtcome hkeeps

/-- Giving up keeps up what resumptions do, and ends at the root. -/
theorem ensures_giveUp (hhere : u.cursor here) (summit : Summit)
    (houtcome : u.outcome summit.id summit.result) (hkeeps : u.Keeps summit.progress) :
    (session.giveUp here summit).Ensures u.event u.fault
      (u.Climbed true (session.registry.ancestors summit.id) summit) := by
  have hclimb := ensures_climb h true summit houtcome hkeeps
  exact (Traced.ensures_emit (h.gaveUp hhere)).bind fun _ _ _ => hclimb

/-- Round after round is kept up. A run ends with a summit that succeeded, where its output is an
    outcome of an occurrence that climbs end at, or by giving up. -/
theorem ensures_rounds (hanchored : ∀ {s} id label, u.cursor s →
    u.event (.anchored id label s.pos)) (attempts limit : Nat) (summit : Summit)
    (houtcome : u.outcome summit.id summit.result) (hkeeps : u.Keeps summit.progress)
    (hsummit : summit.result.isOk = true → u.summit summit.id) :
    (session.rounds attempts limit summit).Ensures u.event u.fault u.Finished := by
  induction limit generalizing summit with
  | zero => exact Traced.ensures_fault h.exhausted
  | succ limit ih =>
    unfold Session.rounds
    cases herror : summit.result.error with
    | none =>
      exact Traced.ensures_pure ⟨houtcome, hkeeps, hsummit (by rw [Result.isOk, herror]; rfl)⟩
    | some e =>
      obtain ⟨hreport, hsaved⟩ := h.reports houtcome herror
      have hhere := h.search houtcome herror
      have hgiveUp {p : Progress} (hp : u.Keeps p) :
          (session.giveUp (Session.searchFrom summit.result e)
            ⟨summit.id, { summit.result with error := some e.withoutSaved }, p⟩).Ensures u.event
            u.fault u.Finished := by
        have hgave := ensures_giveUp h hhere ⟨summit.id, _, p⟩ (h.stripped houtcome herror) hp
        refine hgave.imp fun next _ hnext => ?_
        have harrived := hnext.arrives (.inl rfl)
        exact ⟨hnext.outcome, hnext.keeps, harrived ▸ h.summit houtcome⟩
      apply (ensures_report h.reported hkeeps hreport hsaved).bind
      intro p _ hp
      dsimp only
      split
      · exact hgiveUp hp.1
      · apply (ensures_resynchronise h.anchors hanchored hp.1 hhere _ _).bind
        intro found _ hfound
        obtain ⟨found, p⟩ := found
        cases found with
        | none => exact hgiveUp hfound.keeps
        | some found =>
          obtain ⟨anchor, result⟩ := found
          obtain ⟨-, hresult, -⟩ := hfound.anchor _ _ rfl
          have hclimb := ensures_climb h false ⟨anchor, result, p⟩ hresult hfound.keeps
          refine hclimb.bind fun next _ hnext => ?_
          have hsummit' : next.result.isOk = true → u.summit next.id := fun hok =>
            hnext.arrives (.inr hok) ▸ h.summit hresult
          exact ih ⟨next.id, next.result, _⟩ hnext.outcome (hnext.keeps.dropStale _ _) hsummit'

/-- What is true at the beginning is true at the last summit of a run, if parses, resumptions and
    anchors keep it up. Nothing has to be assumed of the answers, as none are remembered at
    first. -/
theorem ensures_summit (hanchored : ∀ {s} id label, u.cursor s →
    u.event (.anchored id label s.pos)) {cache : WasteCache} (hcache : cache.entries = [])
    {s : State} (hs : u.cursor s) :
    (session.summit cache s).Ensures u.event u.fault u.Finished := by
  have hdescent := h.run (.inl rfl) hs
  apply hdescent.bind
  intro result _ hresult
  have hinitial : u.Keeps (.initial cache) := keeps_initial hcache
  exact ensures_rounds h hanchored _ _ ⟨0, result, .initial cache⟩ hresult hinitial fun _ => h.root

/-- What single parses and resumptions keep up, a whole run keeps up. Its output is that of an
    occurrence where climbs end. -/
theorem ensures_execute (hanchored : ∀ {s} id label, u.cursor s →
    u.event (.anchored id label s.pos)) {cache : WasteCache} (hcache : cache.entries = [])
    {s : State} (hs : u.cursor s) :
    (session.execute cache s).Ensures u.event u.fault fun out =>
      (∃ id r, u.summit id ∧ u.outcome id r ∧ out.1 = r.output) ∧ ∀ e ∈ out.2, u.error e := by
  rw [Session.execute_eq]
  apply (ensures_summit h hanchored hcache hs).bind
  intro summit _ hsummit
  refine Traced.ensures_pure ⟨⟨_, _, hsummit.summit, hsummit.outcome, rfl⟩, fun e he => ?_⟩
  exact hsummit.keeps.errors e ((List.mergeSort_perm _ _).mem_iff.1 he)

end Recovering

end Upkeep

end Resync
