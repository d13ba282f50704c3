import Resync.Proofs.Engine.Forwarding
import Resync.Proofs.Recovery.Listing
import Resync.Proofs.Recovery.Salvage
import Resync.Proofs.Typing.Safety

namespace Resync

/-- Recovery has not ended yet. -/
def Event.IsOngoing : Event → Prop
  | gaveUp _ => False
  | _ => True

theorem Event.IsParsing.isOngoing {event : Event} (h : event.IsParsing) : event.IsOngoing := by
  cases event with
  | gaveUp pos => exact h
  | _ => exact trivial

namespace Registry

/-- What happens when an error unwinds along a way: each branch on it is resumed once, with the
    outcome of the one below it, which fails with the error, and leaves with that error itself. What
    comes out in the end is the last outcome, unless a defect shows before. -/
inductive Unwinds (reg : Registry) (e : ParseError) :
    List (Nat × Nat) → Result → List Event → Except Fault Result → Prop
  | arrive {r : Result} : Unwinds reg e [] r [] (.ok r)
  | step {way : List (Nat × Nat)} {parent index : Nat} {r result : Result} {saved : Option Saved}
      {events : List Event} {out : Except Fault Result} :
      r.HandsUp e → result.HandsUp e → Unwinds reg e way result events out →
      Unwinds reg e ((parent, index) :: way) r
        (.resumed parent (reg.label parent) ⟨index, r, saved⟩ :: .left parent result :: events) out
  | cut {way : List (Nat × Nat)} {parent index : Nat} {r : Result} {saved : Option Saved}
      {d : Defect} : r.HandsUp e →
      Unwinds reg e ((parent, index) :: way) r
        [.resumed parent (reg.label parent) ⟨index, r, saved⟩] (.error (.defect d))

variable {reg : Registry} {e : ParseError} {way : List (Nat × Nat)} {r : Result}
  {events : List Event} {out : Except Fault Result}

/-- Nothing but resumptions and their ends is left behind when an error unwinds: no parser is
    entered, no anchor is tried, and nothing is reported. -/
theorem Unwinds.of_mem (h : reg.Unwinds e way r events out) {event : Event} (hevent : event ∈ events) :
    (∃ branch label resumption, event = .resumed branch label resumption) ∨
      ∃ branch result, event = .left branch result := by
  induction h with
  | arrive => cases hevent
  | step _ _ _ ih =>
    obtain rfl | hevent := List.mem_cons.1 hevent
    · exact .inl ⟨_, _, _, rfl⟩
    obtain rfl | hevent := List.mem_cons.1 hevent
    · exact .inr ⟨_, _, rfl⟩
    · exact ih hevent
  | cut _ =>
    cases List.mem_singleton.1 hevent
    exact .inl ⟨_, _, _, rfl⟩

/-- Only a defect keeps the unwinding from its end. It runs no parser, so no depth is needed. -/
theorem Unwinds.eq_defect_of_error {f : Fault} (h : reg.Unwinds e way r events out)
    (hout : out = .error f) : ∃ d, f = .defect d := by
  induction h with
  | arrive => cases hout
  | step _ _ _ ih => exact ih hout
  | cut _ =>
    cases hout
    exact ⟨_, rfl⟩

/-- The ancestors of an occurrence are met from its parent on, each one above the one before. In
    particular none is met twice. -/
theorem LaidOut.pairwise_way {g : Graph} (h : reg.LaidOut g) {id : Nat} (hway : reg.IsWay id way) :
    way.Pairwise fun step above => above.1 < step.1 := by
  induction way generalizing id with
  | nil => exact .nil
  | cons step way ih =>
    obtain ⟨-, hway⟩ := hway
    exact .cons (h.lt_of_mem_way hway) (ih hway)

end Registry

/-- What holds of all outcomes in a run: they belong to occurrences, and their errors have owners. -/
def Upkeep.owned (reg : Registry) : Upkeep where
  outcome id r := id < reg.size ∧ r.IsClaimed
  saved _ _ := True
  error _ := True
  cursor _ := True
  summit _ := True
  event _ := True
  fault _ := True

/-- What is kept up while recovery goes on. -/
def Upkeep.ongoing : Upkeep where
  outcome _ _ := True
  saved _ _ := True
  error _ := True
  cursor _ := True
  summit _ := True
  event e := e.IsOngoing
  fault _ := True

namespace Session

variable {session : Session} {start : State} {cache : WasteCache} {summit last : Summit}
  {e : ParseError} {p : Progress} {g : Graph}

/-- Every outcome of a run is owned by an occurrence of the registry, and so is what is kept. Parses
    claim what they return, and an error that is owned keeps its owner. -/
theorem owned_keptBy (hlaid : session.registry.LaidOut g) :
    (Upkeep.owned session.registry).KeptBy session where
  exhausted := trivial
  run {id _} hid _ := by
    refine ⟨fun _ _ => trivial, fun _ _ => trivial, fun _ hr => ⟨?_, Registry.isClaimed_parse hr⟩⟩
    obtain rfl | hrecoverer := hid
    · obtain ⟨entry, hentry, -⟩ := hlaid.root
      exact (List.getElem?_eq_some_iff.1 hentry).1
    · obtain ⟨recoverer, hrecoverer⟩ := Option.isSome_iff_exists.1 hrecoverer
      obtain ⟨entry, leaf, hentry, -⟩ := Registry.exists_leaf_of_recoverer? hrecoverer
      exact (List.getElem?_eq_some_iff.1 hentry).1
  resume hparent _ _ := by
    obtain ⟨-, entry, hentry, -⟩ := hlaid.hangs hparent
    have hlt := (List.getElem?_eq_some_iff.1 hentry).1
    refine ⟨fun _ _ => trivial, fun _ _ => trivial, fun _ hr => ?_⟩
    exact ⟨hlt, Registry.isClaimed_resume hr⟩
  root := trivial
  summit _ := trivial
  moved _ _ := trivial
  search _ _ := trivial
  reports _ _ := ⟨trivial, fun _ _ => trivial⟩
  stripped {_ _ e} hr he := by
    refine ⟨hr.1, fun e' he' => ?_⟩
    cases he'
    exact hr.2 e he
  violation _ _ _ _ := trivial
  reported _ := trivial
  estimated _ _ _ _ _ := trivial
  gaveUp _ := trivial

/-- Looking for anchors is what a run does before it gives up. -/
theorem ongoing_keptByAnchors (session : Session) : Upkeep.ongoing.KeptByAnchors session where
  exhausted := trivial
  run _ _ := ⟨fun _ hevent => (Registry.isParsing_of_mem_parse hevent).isOngoing, fun _ _ => trivial,
    fun _ _ => trivial⟩
  moved _ _ := trivial
  violation _ _ _ _ := trivial
  reported _ := trivial
  estimated _ _ _ _ _ := trivial

theorem isOngoing_of_mem_seek {event : Event}
    (h : event ∈ (session.seek start summit e).events) : event.IsOngoing := by
  have hkeeps : Upkeep.ongoing.Keeps (summit.progress.record e) :=
    { cached := fun _ _ offset _ => ⟨{ start with pos := offset }, trivial, rfl⟩
      errors := fun _ _ => trivial
      salvage := fun _ _ => trivial }
  exact (Upkeep.ensures_seek (ongoing_keptByAnchors session) (fun _ _ _ => trivial) hkeeps
    trivial).event event h

theorem isOngoing_of_mem_climb {event : Event} {unwinding : Bool}
    (h : event ∈ (session.climb unwinding summit).events) : event.IsOngoing := by
  have hthrough (way : List (Nat × Nat)) (summit : Summit) :
      (session.climbThrough unwinding way summit).Ensures Event.IsOngoing (fun _ => True)
        fun _ => True := by
    induction way generalizing summit with
    | nil => exact Traced.ensures_pure trivial
    | cons step way ih =>
      have hresume {r : Resumption} : (session.registry.resume session.depth step.1 r).Ensures
          Event.IsOngoing (fun _ => True) fun _ => True := by
        refine ⟨fun event hevent => ?_, fun _ _ => trivial, fun _ _ => trivial⟩
        obtain hparsing | ⟨label, rfl⟩ := Registry.isParsing_of_mem_resume hevent
        · exact hparsing.isOngoing
        · exact trivial
      refine hresume.bind fun result _ _ => ?_
      split
      · exact Traced.ensures_pure trivial
      · exact ih _
  exact (hthrough _ _).event event h

/-- Unwinding goes all the way, each branch forwarding the failure, and leaves the list of errors as
    it is. The induction is on the way: a failure handed up is a failure of the next branch. -/
theorem unwinds_climbThrough (hlaid : session.registry.LaidOut g)
    (hg : g.HasBuiltInRules) (howner : e.owner.isSome) {way : List (Nat × Nat)}
    (hway : session.registry.IsWay summit.id way) (hfails : summit.result.HandsUp e) :
    ∃ out, session.registry.Unwinds e way summit.result
        (session.climbThrough true way summit).events out ∧
      (session.climbThrough true way summit).result.map
          (fun next => (next.result, next.progress.errors)) =
        out.map fun r => (r, summit.progress.errors) := by
  induction way generalizing summit with
  | nil => exact ⟨_, .arrive, rfl⟩
  | cons step way ih =>
    obtain ⟨parent, index⟩ := step
    obtain ⟨hparent, hway⟩ := hway
    obtain ⟨entry, rule, hentry, hwork⟩ := hlaid.exists_rule_of_parent hparent
    have hlabel : entry.label = session.registry.label parent := by
      rw [Registry.label, hentry]
    rw [climbThrough_cons]
    obtain ⟨result, hresult, hresume⟩ | ⟨d, hresume⟩ := Registry.resume_of_failed hentry hwork
      (hlaid.rule_isBuiltIn hg hentry hwork) hfails howner session.depth index
      (summit.progress.salvage.lookup parent)
    · have hok : (session.registry.resume session.depth parent
          ⟨index, summit.result, summit.progress.salvage.lookup parent⟩).result = .ok result := by
        rw [hresume]
      have habove (next : Summit) (hid : next.id = parent) (hnext : next.result = result) :=
        ih (hid ▸ hway) (hnext ▸ hresult)
      obtain ⟨out, hunwinds, hout⟩ :=
        habove ⟨parent, result, (summit.progress.release parent).2⟩ rfl rfl
      refine ⟨out, ?_, ?_⟩
      · rw [Traced.bind_of_result_eq_ok hok, hresume, hlabel]
        exact .step hfails hresult hunwinds
      · rw [Traced.bind_of_result_eq_ok hok]
        exact hout
    · have herror : (session.registry.resume session.depth parent
          ⟨index, summit.result, summit.progress.salvage.lookup parent⟩).result =
            .error (.defect d) := by
        rw [hresume]
      refine ⟨.error (.defect d), ?_, ?_⟩
      · rw [Traced.bind_of_result_eq_error herror, hresume, hlabel]
        exact .cut hfails
      · rw [Traced.bind_of_result_eq_error herror]
        rfl

/-- A run gives up at a summit: no anchor is resumed after its error. -/
structure LastRound (session : Session) (start : State) (cache : WasteCache) (last : Summit)
    (e : ParseError) (p : Progress) : Prop where
  reaches : session.Reaches start cache last
  error : last.result.error = some e
  found : (session.seek start last e).result = .ok (none, p)

/-- The summit that unwinds. What the error carries has been taken from it. -/
def stranded (last : Summit) (e : ParseError) (p : Progress) : Summit :=
  ⟨last.id, { last.result with error := some e.withoutSaved }, p⟩

/-- The rest of a run that gives up, with the errors that are listed before. -/
structure Abandons (session : Session) (start : State) (cache : WasteCache)
    (known : List ParseError) (rest : Traced Summit) (before : List Event) (last : Summit)
    (e : ParseError) (p : Progress) : Prop where
  lastRound : session.LastRound start cache last e p
  ongoing : ∀ event ∈ before, event.IsOngoing
  listed : listing known before = p.errors
  eq : rest =
    ⟨before ++ (session.giveUp (searchFrom last.result e) (stranded last e p)).events,
      (session.giveUp (searchFrom last.result e) (stranded last e p)).result⟩

/-- What went before a run gives up belongs to it as well, if it is ongoing. -/
theorem Abandons.prepend {known : List ParseError} {rest : Traced Summit}
    {before taken : List Event}
    (h : session.Abandons start cache (listing known taken) rest before last e p)
    (hongoing : ∀ event ∈ taken, event.IsOngoing) :
    session.Abandons start cache known ⟨taken ++ rest.events, rest.result⟩ (taken ++ before)
      last e p where
  lastRound := h.lastRound
  ongoing event hevent := (List.mem_append.1 hevent).elim (hongoing event) (h.ongoing event)
  listed := by
    rw [listing_append]
    exact h.listed
  eq := by
    rw [h.eq, List.append_assoc]

/-- How a round begins: the error is reported, and an anchor is looked for. -/
def opening (session : Session) (start : State) (summit : Summit) (e : ParseError) : List Event :=
  .reported e.withoutSaved :: (session.seek start summit e).events

/-- The opening of a round, the report and the search, does not give up. -/
theorem isOngoing_of_mem_opening {event : Event} (h : event ∈ session.opening start summit e) :
    event.IsOngoing := by
  obtain rfl | h := List.mem_cons.1 h
  · exact trivial
  · exact isOngoing_of_mem_seek h

/-- What the opening of a round lists is the error that it begins with, and those of the anchors
    that fail. -/
theorem listing_opening {found : Option (Nat × Result) × Progress}
    (h : (session.seek start summit e).result = .ok found) :
    listing summit.progress.errors (session.opening start summit e) = found.2.errors :=
  (lists_seek start summit e found h).symm

/-- A round after its opening: it gives up where no anchor is found, and climbs from the one that is
    found. -/
theorem rounds_of_seek {found : Option (Nat × Result) × Progress}
    (herror : summit.result.error = some e)
    (hfound : (session.seek start summit e).result = .ok found) (limit : Nat) :
    let rest := match found with
      | (some (anchor, leaf), p) =>
        session.climb false ⟨anchor, leaf, p⟩ >>= fun next =>
          session.rounds (session.attemptBound start.input) limit (session.settle next)
      | (none, p) =>
        session.giveUp (searchFrom summit.result e) (stranded summit e p)
    session.rounds (session.attemptBound start.input) (limit + 1) summit =
      ⟨session.opening start summit e ++ rest.events, rest.result⟩ := by
  have hreport : (Traced.emit (.reported e.withoutSaved)).result = .ok () := rfl
  rw [rounds_of_error herror, Traced.bind_of_result_eq_ok hreport,
    Traced.bind_of_result_eq_ok hfound]
  rfl

/-- Recovery goes on to the end of a run, or until it gives up. The induction is on the rounds: the
    first one goes on or gives up, and what follows does so too. -/
theorem rounds_ongoing_or_abandons (hreach : session.Reaches start cache summit) (limit : Nat) :
    (∀ event ∈ (session.rounds (session.attemptBound start.input) limit summit).events,
        event.IsOngoing) ∨
      ∃ before last e p, session.Abandons start cache summit.progress.errors
        (session.rounds (session.attemptBound start.input) limit summit) before last e p := by
  induction limit generalizing summit with
  | zero => exact .inl fun _ hevent => absurd hevent List.not_mem_nil
  | succ limit ih =>
    cases herror : summit.result.error with
    | none =>
      rw [rounds, herror]
      exact .inl fun _ hevent => absurd hevent List.not_mem_nil
    | some e =>
      cases hseek : (session.seek start summit e).result with
      | error fault =>
        have hreport : (Traced.emit (.reported e.withoutSaved)).result = .ok () := rfl
        rw [rounds_of_error herror, Traced.bind_of_result_eq_ok hreport,
          Traced.bind_of_result_eq_error hseek]
        exact .inl fun _ => isOngoing_of_mem_opening
      | ok found =>
        obtain ⟨found, p⟩ := found
        have hopening := listing_opening hseek
        rw [rounds_of_seek herror hseek]
        cases found with
        | none =>
          exact .inr ⟨_, summit, e, p, ⟨hreach, herror, hseek⟩,
            fun _ => isOngoing_of_mem_opening, hopening, rfl⟩
        | some found =>
          obtain ⟨anchor, leaf⟩ := found
          have hclimbs : ∀ event ∈ session.opening start summit e ++
              (session.climb false ⟨anchor, leaf, p⟩).events, event.IsOngoing := fun event hevent =>
            (List.mem_append.1 hevent).elim isOngoing_of_mem_opening isOngoing_of_mem_climb
          dsimp only
          cases hclimb : (session.climb false ⟨anchor, leaf, p⟩).result with
          | error fault =>
            rw [Traced.bind_of_result_eq_error hclimb]
            exact .inl hclimbs
          | ok next =>
            rw [Traced.bind_of_result_eq_ok hclimb, ← List.append_assoc]
            have hquiet := session.ensures_climb_quiet false ⟨anchor, leaf, p⟩
            have herrors : (session.settle next).progress.errors =
                listing summit.progress.errors (session.opening start summit e ++
                  (session.climb false ⟨anchor, leaf, p⟩).events) := by
              rw [listing_append, hopening, listing_of_quiet hquiet.event]
              exact hquiet.value next hclimb
            obtain hongoing | ⟨before, last, f, q, habandons⟩ :=
              ih (.climb hreach ⟨herror, hseek⟩ hclimb)
            · exact .inl fun event hevent =>
                (List.mem_append.1 hevent).elim (hclimbs event) (hongoing event)
            · rw [herrors] at habandons
              exact .inr ⟨_, last, f, q, habandons.prepend hclimbs⟩

/-- A whole run goes on to its end, or gives up once, at a summit that it reaches and for whose
    error no anchor is found. -/
theorem summit_ongoing_or_abandons (session : Session) (cache : WasteCache) (start : State) :
    (∀ event ∈ (session.summit cache start).events, event.IsOngoing) ∨
      ∃ before last e p,
        session.Abandons start cache [] (session.summit cache start) before last e p := by
  have hdescent : ∀ event ∈ (session.run 0 start).events, event.IsOngoing := fun _ hevent =>
    (Registry.isParsing_of_mem_parse hevent).isOngoing
  have hquiet : listing [] (session.run 0 start).events = [] :=
    listing_of_quiet Registry.isQuiet_parse
  rw [summit]
  cases hrun : (session.run 0 start).result with
  | error fault =>
    rw [Traced.bind_of_result_eq_error hrun]
    exact .inl hdescent
  | ok result =>
    rw [Traced.bind_of_result_eq_ok hrun]
    have hreach : session.Reaches start cache ⟨0, result, .initial cache⟩ := .descent hrun
    obtain hongoing | ⟨before, last, e, p, habandons⟩ :=
      rounds_ongoing_or_abandons hreach (session.attemptBound start.input)
    · exact .inl fun event hevent =>
        (List.mem_append.1 hevent).elim (hdescent event) (hongoing event)
    · change session.Abandons start cache [] _ before last e p at habandons
      rw [← hquiet] at habandons
      exact .inr ⟨_, last, e, p, habandons.prepend hdescent⟩

/-- A list has one split at an element without a property that all others have. So a run that gives
    up does so at one place. -/
private theorem split_unique {α : Type} {P : α → Prop} {before before' after after' : List α}
    {a a' : α} (h : before ++ a :: after = before' ++ a' :: after') (ha : ¬ P a)
    (hbefore' : ∀ b ∈ before', P b) (hafter' : ∀ b ∈ after', P b) :
    before = before' ∧ a = a' ∧ after = after' := by
  obtain ⟨between, rfl, hrest⟩ | ⟨between, rfl, hrest⟩ := List.append_eq_append_iff.1 h
  · cases between with
    | nil => simpa using hrest
    | cons b between =>
      obtain ⟨rfl, -⟩ := List.cons.inj hrest
      exact absurd (hbefore' a (by simp)) ha
  · cases between with
    | nil => simpa [eq_comm] using hrest
    | cons b between =>
      obtain ⟨rfl, rfl⟩ := List.cons.inj hrest
      exact absurd (hafter' a (by simp)) ha

/-- What the last summit leaves to be done: the error unwinds from it to the root, by what the climb
    from there does. -/
theorem LastRound.unwinds (h : session.LastRound start .empty last e p)
    (hlaid : session.registry.LaidOut g) (hg : g.HasBuiltInRules) :
    last.id < session.registry.size ∧
      ∃ out, session.registry.Unwinds e (session.registry.ancestors last.id)
          (stranded last e p).result (session.climb true (stranded last e p)).events out ∧
        (session.climb true (stranded last e p)).result.map
            (fun next => (next.result, next.progress.errors)) =
          out.map fun r => (r, p.errors) := by
  have hempty : WasteCache.empty.entries = [] := rfl
  obtain ⟨⟨hid, hclaimed⟩, -⟩ :=
    (owned_keptBy hlaid).reaches (Upkeep.keeps_initial hempty) trivial h.reaches
  have hway : session.registry.IsWay (stranded last e p).id (session.registry.ancestors last.id) :=
    Registry.isWay_ancestors last.id
  have hfails : (stranded last e p).result.HandsUp e := ⟨e.withoutSaved, rfl, rfl⟩
  exact ⟨hid, unwinds_climbThrough hlaid hg (hclaimed e h.error) hway hfails⟩

/-- Where occurrences have types, a run shows no defect, at any depth and under any budget. -/
theorem result_execute_ne_defect {reg : Registry} {types : List Ty} (htypes : reg.HasTypes types)
    (hlaid : reg.LaidOut g) (depth maxErrors : Nat) (start : State) (d : Defect) :
    (execute ⟨reg, depth, maxErrors⟩ .empty start).result ≠ .error (.defect d) := by
  obtain ⟨entry, hentry, -⟩ := hlaid.root
  have hroot : 0 < types.length := by
    rw [← htypes.length_eq]
    exact (List.getElem?_eq_some_iff.1 hentry).1
  have hsafe := htypes.ensures_execute hlaid (List.getElem?_eq_getElem hroot) depth maxErrors start
  exact fun hresult => nomatch hsafe.fault _ hresult

/-- A run over built-in branches gives up at most once, at a summit for whose error no anchor is
    found. No parser is entered from there on, no anchor is asked and nothing is listed: the error
    unwinds along the ancestors of the summit up to the root, and the run returns what the root makes
    of it. Where occurrences have types, no defect comes in between. -/
theorem giving_up_unwinds {g : Graph} (hg : g.HasBuiltInRules) {reg : Registry}
    (hreg : Registry.ofGraph g = .ok reg) (depth maxErrors : Nat) (start : State)
    {before after : List Event} {pos : Nat}
    (hevents : (execute ⟨reg, depth, maxErrors⟩ .empty start).events =
      before ++ .gaveUp pos :: after) :
    let session : Session := ⟨reg, depth, maxErrors⟩
    let run := session.execute .empty start
    (∀ event ∈ before ++ after, event.IsOngoing) ∧
      (∀ event ∈ after, (∃ branch label resumption, event = .resumed branch label resumption) ∨
        ∃ branch result, event = .left branch result) ∧
      ∃ last e p out, session.LastRound start .empty last e p ∧
        pos = (searchFrom last.result e).pos ∧
        listing [] before = p.errors ∧ run.listed = p.errors ∧
        ((reg.ancestors last.id).Pairwise fun step above => above.1 < step.1) ∧
        (∀ step ∈ reg.ancestors last.id, step.1 < last.id) ∧
        Registry.wayEnd last.id (reg.ancestors last.id) = 0 ∧
        reg.Unwinds e (reg.ancestors last.id) (stranded last e p).result after out ∧
        run.result = out.map (fun r => (r.output, sortErrors p.errors)) ∧
        ∀ types, reg.HasTypes types → ∃ r, out = .ok r := by
  intro session run
  have hlaid := Registry.laidOut_ofGraph hreg
  have hway := reg.isWay_ancestors
  have hexecute : run = ⟨(session.summit .empty start).events,
      (session.summit .empty start).result.map
        fun summit => (summit.result.output, sortErrors summit.progress.errors)⟩ :=
    (execute_eq ..).trans (Traced.bind_pure_eq ..)
  have hsummit : (session.summit .empty start).events = before ++ .gaveUp pos :: after := by
    rw [← hevents]
    exact (congrArg Traced.events hexecute).symm
  obtain hongoing | ⟨before', last, e, p, hround, hbefore, hlisted, heq⟩ :=
    summit_ongoing_or_abandons session .empty start
  · have hgone := hongoing (.gaveUp pos) (hsummit ▸ by simp)
    exact hgone.elim
  obtain ⟨hid, out, hunwinds, hout⟩ := hround.unwinds hlaid hg
  have hclimb : ∀ event ∈ (session.climb true (stranded last e p)).events, event.IsOngoing :=
    fun _ => isOngoing_of_mem_climb
  rw [heq] at hsummit
  obtain ⟨rfl, hpos, rfl⟩ := split_unique hsummit.symm id hbefore hclimb
  have hresult : run.result = out.map fun r => (r.output, sortErrors p.errors) := by
    have hread := congrArg (Except.map fun pair => (pair.1.output, sortErrors pair.2)) hout
    rw [hexecute, heq]
    exact (LawfulFunctor.comp_map _ _ (session.climb true _).result).trans
      (hread.trans (LawfulFunctor.comp_map _ _ out).symm)
  have hplace : pos = (searchFrom last.result e).pos := Event.gaveUp.inj hpos
  -- nothing is reported behind the place where the run gives up
  have hrun : run.listed = p.errors := by
    have hquiet := session.ensures_giveUp_quiet (searchFrom last.result e) (stranded last e p)
    rw [listed_execute, Traced.listed, heq, listing_append, hlisted, listing_of_quiet hquiet.event]
  have hsafe : ∀ types, reg.HasTypes types → ∃ r, out = .ok r := by
    intro types htypes
    cases out with
    | ok r => exact ⟨r, rfl⟩
    | error f =>
      obtain ⟨d, rfl⟩ := hunwinds.eq_defect_of_error rfl
      exact absurd hresult (result_execute_ne_defect htypes hlaid depth maxErrors start d)
  have hancestors := hway last.id
  refine ⟨?_, fun event => hunwinds.of_mem, last, e, p, out, hround, hplace, hlisted, hrun,
    hlaid.pairwise_way hancestors, hlaid.lt_of_mem_way hancestors, hlaid.wayEnd_ancestors hid,
    hunwinds, hresult, hsafe⟩
  intro event hevent
  obtain hbefore' | hafter := List.mem_append.1 hevent
  · exact hbefore event hbefore'
  · exact hclimb event hafter

/-- Digits in brackets, of which the last ones are never closed. -/
def Bracketed.unclosed : State := State.start (Input.text "[1][x[2")

/-- Recovery ends in the brackets that are not closed. The repetition and the pair above them are
    resumed with the error, and keep the digits of both brackets. -/
theorem giving_up_unwinds_unclosed :
    let run := Bracketed.session.execute .empty Bracketed.unclosed
    run.events[33]? = some (.gaveUp 7) ∧ run.events.length = 38 ∧
      run.result.toOption.map Prod.fst = some ⟨.list .text, ["1", "2"]⟩ ∧
      ∃ last e p out, Bracketed.session.LastRound Bracketed.unclosed .empty last e p ∧
        p.errors.length = 2 ∧
        Bracketed.registry.Unwinds e (Bracketed.registry.ancestors last.id)
          (stranded last e p).result (run.events.drop 34) out := by
  intro run
  have hat : run.events[33]? = some (.gaveUp 7) := by rfl
  have hevents := Traced.events_eq_of_getElem? hat
  have hlength : run.listed.length = 2 := by rfl
  have hreg : Registry.ofGraph Bracketed.graph = .ok Bracketed.registry := by rfl
  obtain ⟨-, -, last, e, p, out, hround, -, -, hlisted, -, -, -, hunwinds, -⟩ :=
    giving_up_unwinds (fun hnode => (Bracketed.isBuiltIn.branch hnode).1) hreg 5 10
      Bracketed.unclosed hevents
  exact ⟨hat, by rfl, by rfl, last, e, p, out, hround, hlisted ▸ hlength, hunwinds⟩

end Session

end Resync
