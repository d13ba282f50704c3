import Resync.Proofs.Assembly.Indifference
import Resync.Proofs.Recovery.Climb
import Resync.Proofs.Recovery.Indifference

namespace Resync

namespace Session

/-- The same session under another error budget. -/
def within (session : Session) (maxErrors : Nat) : Session :=
  { session with maxErrors }

variable (session : Session) (maxErrors : Nat)

theorem registry_within : (session.within maxErrors).registry = session.registry := rfl

/-- A budget is spent when as many errors are listed as it allows. -/
theorem isSpent_within (p : Progress) :
    (session.within maxErrors).isSpent p = decide (maxErrors ≤ p.errors.length) := rfl

theorem probe_within (id : Nat) (limit : Option Nat) (states : List State) :
    (session.within maxErrors).probe id limit states = session.probe id limit states := by
  induction states generalizing limit with
  | nil => rcases limit with _ | _ | limit <;> rfl
  | cons s states ih =>
    rcases limit with _ | _ | limit
    · simp only [probe, ih]
      rfl
    · rfl
    · simp only [probe, ih]
      rfl

/-- The answer of a step anchor does not depend on the budget. -/
theorem stepWaste_within (p : Progress) (id : Nat) (here : State) (limit : Option Nat) :
    (session.within maxErrors).stepWaste p id here limit = session.stepWaste p id here limit := by
  simp only [stepWaste, probe_within]
  rfl

theorem askFast_within (owner : Option Nat) (here : State) (anchors : List (Nat × (State → Waste)))
    (best : Option Bid) (p : Progress) :
    (session.within maxErrors).askFast owner here anchors best p =
      session.askFast owner here anchors best p := by
  induction anchors generalizing best p with
  | nil => rfl
  | cons anchor anchors ih =>
    simp only [askFast, ih]
    rfl

theorem askStep_within (owner : Option Nat) (here : State) (anchors : List Nat)
    (best : Option Bid) (p : Progress) :
    (session.within maxErrors).askStep owner here anchors best p =
      session.askStep owner here anchors best p := by
  induction anchors generalizing best p with
  | nil => rfl
  | cons anchor anchors ih => simp only [askStep, ih, stepWaste_within]

/-- Anchors are asked and chosen whatever the budget is, since only the number of errors listed is
    compared with it. -/
theorem chooseAnchor_within (p : Progress) (owner : Option Nat) (here : State) :
    (session.within maxErrors).chooseAnchor p owner here = session.chooseAnchor p owner here := by
  simp only [chooseAnchor, ownBid, askFast_within, askStep_within, stepWaste_within]
  rfl

/-- Branches go on whatever the budget is. An error that comes up in a climb ends it, and is looked
    at in the next round. -/
theorem climb_within (unwinding : Bool) (summit : Summit) :
    (session.within maxErrors).climb unwinding summit = session.climb unwinding summit := by
  have hthrough (way : List (Nat × Nat)) (summit : Summit) :
      (session.within maxErrors).climbThrough unwinding way summit =
        session.climbThrough unwinding way summit := by
    induction way generalizing summit with
    | nil => rfl
    | cons step way ih =>
      simp only [climbThrough, ih]
      rfl
  exact hthrough ..

/-- Giving up is the same whatever the budget is. -/
theorem giveUp_within (here : State) (summit : Summit) :
    (session.within maxErrors).giveUp here summit = session.giveUp here summit := by
  simp only [giveUp, climb_within]

/-- A number of errors that no run exceeds: each round begins with one, and makes so many attempts
    that may fail. -/
def errorBound (input : Input) : Nat :=
  session.attemptBound input * (session.attemptBound input + 1)

variable {session}

/-- The search for an anchor lists an error for each attempt at most, which bounds the errors of a
    round. The induction is on the attempts that are left. -/
theorem length_errors_resynchronise {owner : Option Nat} {here : State} {attempts : Nat}
    {p : Progress} {found : Option (Nat × Result) × Progress}
    (h : (session.resynchronise owner here attempts p).result = .ok found) :
    found.2.errors.length ≤ p.errors.length + attempts := by
  induction attempts generalizing p with
  | zero => cases h
  | succ attempts ih =>
    obtain ⟨choice, hchoice, h⟩ := Traced.result_bind_eq_ok_iff.1 h
    have hsame := (session.ensures_chooseAnchor_quiet p owner here).value choice hchoice
    obtain ⟨_ | ⟨anchor, waste⟩, chosen⟩ := choice
    · cases h
      exact hsame ▸ Nat.le_add_right _ _
    · obtain ⟨_, -, h⟩ := Traced.result_bind_eq_ok_iff.1 h
      obtain ⟨result, -, h⟩ := Traced.result_bind_eq_ok_iff.1 h
      split at h
      · cases h
        exact hsame ▸ Nat.le_add_right _ _
      · obtain ⟨reported, hreported, h⟩ := Traced.result_bind_eq_ok_iff.1 h
        have hlength := length_errors_report hreported
        change reported.errors.length ≤ chosen.errors.length + 1 at hlength
        rw [hsame] at hlength
        split at h
        · cases h
          change reported.errors.length ≤ _
          omega
        · have hrest := ih h
          omega

end Session

namespace Traced

variable {α β : Type}

/-- A computation goes like another one to the end, which is fine then, or up to some event, after
    which it ends in a way of its own, in view of the errors that are listed there. -/
inductive Curtails (fine : α → Prop) (ends : List ParseError → Traced α → Prop)
    (known : List ParseError) : (full limited : Traced α) → Prop
  | spared {full : Traced α} (h : ∀ a, full.result = .ok a → fine a) :
      Curtails fine ends known full full
  | cut {full ending : Traced α} {before after : List Event} (hfull : full.events = before ++ after)
      (h : ends (listing known before) ending) :
      Curtails fine ends known full ⟨before ++ ending.events, ending.result⟩

variable {fine : α → Prop} {ends : List ParseError → Traced α → Prop} {fine' : β → Prop}
  {ends' : List ParseError → Traced β → Prop} {known : List ParseError}
  {errors : α → List ParseError} {x y : Traced α} {f g : α → Traced β}

/-- What a computation comes to without being cut off may be stated more weakly. -/
theorem Curtails.imp {fine₂ : α → Prop} {full limited : Traced α}
    (h : full.Curtails fine ends known limited) (himp : ∀ a, fine a → fine₂ a) :
    full.Curtails fine₂ ends known limited := by
  obtain hspared | ⟨hfull, hcut⟩ := h
  · exact .spared fun a ha => himp a (hspared a ha)
  · exact .cut hfull hcut

/-- A computation may be cut off before its first event, if what takes its place may end it. -/
theorem curtails_of_ends {full ending : Traced α} (h : ends known ending) :
    full.Curtails fine ends known ending := by
  have hcut : full.Curtails fine ends known ⟨[] ++ ending.events, ending.result⟩ := .cut rfl h
  exact hcut

/-- Only the part where it is cut off makes a difference. Either the first part is cut off, and the
    second is not begun as before, or the first is the same and the second may be cut off. -/
theorem Curtails.bind (h : x.Curtails fine ends known y) (hx : x.Lists known errors)
    (hfine : ∀ a, x.result = .ok a → fine a → (f a).Curtails fine' ends' (errors a) (g a))
    (hends : ∀ listed ending, ends listed ending → ends' listed (ending >>= g)) :
    (x >>= f).Curtails fine' ends' known (y >>= g) := by
  obtain hfine' | ⟨hfull, hcut⟩ := h
  · cases hresult : x.result with
    | error fault =>
      rw [bind_of_result_eq_error hresult, bind_of_result_eq_error hresult]
      exact .spared fun _ hb => nomatch hb
    | ok a =>
      rw [bind_of_result_eq_ok hresult, bind_of_result_eq_ok hresult]
      have hnext := hfine a hresult (hfine' a hresult)
      rw [hx a hresult] at hnext
      generalize f a = full at hnext ⊢
      generalize g a = limited at hnext ⊢
      obtain hspared | ⟨hfull, hcut⟩ := hnext
      · exact .spared hspared
      · rw [← listing_append] at hcut
        rw [← List.append_assoc]
        exact .cut (by rw [hfull, List.append_assoc]) hcut
  · next ending before after =>
    have hevents : ∃ rest, (x >>= f).events = before ++ rest := by
      cases hresult : x.result with
      | error fault =>
        rw [bind_of_result_eq_error hresult]
        exact ⟨after, hfull⟩
      | ok a =>
        rw [bind_of_result_eq_ok hresult, hfull]
        exact ⟨_, List.append_assoc ..⟩
    have hlimited : (⟨before ++ ending.events, ending.result⟩ : Traced α) >>= g =
        ⟨before ++ (ending >>= g).events, (ending >>= g).result⟩ := by
      obtain ⟨events, result⟩ := ending
      cases result with
      | error fault => rfl
      | ok a => exact congrArg (Traced.mk · _) (List.append_assoc ..)
    obtain ⟨rest, hrest⟩ := hevents
    rw [hlimited]
    exact .cut hrest (hends _ _ hcut)

/-- What goes before belongs to both computations, and its errors are listed in both. -/
theorem Lists.curtails_bind (hx : x.Lists known errors)
    (h : ∀ a, x.result = .ok a → (f a).Curtails fine' ends' (errors a) (g a)) :
    (x >>= f).Curtails fine' ends' known (x >>= g) := by
  have hspared : x.Curtails (fun _ => True) (fun _ _ => False) known x :=
    .spared fun _ _ => trivial
  exact hspared.bind hx (fun a ha _ => h a ha) fun _ _ hnever => hnever.elim

/-- What lists nothing may go before both computations, and leaves the errors as they are. -/
theorem IsQuiet.curtails_bind (hx : x.IsQuiet)
    (h : ∀ a, x.result = .ok a → (f a).Curtails fine' ends' known (g a)) :
    (x >>= f).Curtails fine' ends' known (x >>= g) := by
  have hlists : x.Lists known fun _ => known := hx.lists fun _ _ => rfl
  exact hlists.curtails_bind h

end Traced

namespace Session

variable {session : Session} {maxErrors unspent : Nat}

/-- The search for an anchor ends with as many errors as the budget allows, but at least one. -/
def StopsAt (maxErrors : Nat) (listed : List ParseError)
    (ending : Traced (Option (Nat × Result) × Progress)) : Prop :=
  ∃ spent : Progress, ending = pure (none, spent) ∧ spent.errors = listed ∧
    listed.length = max 1 maxErrors

/-- While an anchor is looked for, the budget is not reached, or it is reached after one that fails.
    In the second case no other anchor is tried. -/
theorem resynchronise_within (owner : Option Nat) (here : State) (attempts : Nat) (p : Progress)
    (hfew : p.errors.length < maxErrors) (hroom : p.errors.length + attempts < unspent) :
    ((session.within unspent).resynchronise owner here attempts p).Curtails
      (fun found => found.2.errors.length < maxErrors) (StopsAt maxErrors) p.errors
      ((session.within maxErrors).resynchronise owner here attempts p) := by
  induction attempts generalizing p with
  | zero => exact .spared fun _ hfound => nomatch hfound
  | succ attempts ih =>
    have hchoose := session.ensures_chooseAnchor_quiet p owner here
    have hlists : (session.chooseAnchor p owner here).Lists p.errors (·.2.errors) :=
      Traced.IsQuiet.lists hchoose.event hchoose.value
    simp only [resynchronise, chooseAnchor_within, registry_within]
    refine hlists.curtails_bind fun choice hchoice => ?_
    have hsame := hchoose.value choice hchoice
    obtain ⟨_ | ⟨anchor, waste⟩, chosen⟩ := choice
    · refine .spared fun found hfound => ?_
      cases hfound
      exact hsame ▸ hfew
    · refine (Traced.isQuiet_emit rfl).curtails_bind fun _ _ => ?_
      refine Registry.isQuiet_parse.curtails_bind fun result _ => ?_
      split
      · refine .spared fun found hfound => ?_
        cases hfound
        exact hsame ▸ hfew
      · refine (lists_report (chosen.markTried anchor _) _).curtails_bind fun reported hreported => ?_
        have hlength := length_errors_report hreported
        change reported.errors.length ≤ chosen.errors.length + 1 at hlength
        rw [hsame] at hlength
        have hunspent : ¬ unspent ≤ reported.errors.length := by omega
        simp only [isSpent_within, decide_eq_true_eq, if_neg hunspent]
        split
        · next hspent =>
          have hlast : reported.errors.length = max 1 maxErrors := by omega
          exact Traced.curtails_of_ends ⟨reported, rfl, rfl, hlast⟩
        · next hspent => exact ih reported (Nat.not_le.1 hspent) (by omega)

/-- A round lists one error to begin with, and one for each attempt at most. -/
theorem length_errors_seek {start : State} {summit : Summit} {e : ParseError}
    {found : Option (Nat × Result) × Progress}
    (h : (session.seek start summit e).result = .ok found) :
    found.2.errors.length ≤
      summit.progress.errors.length + (session.attemptBound start.input + 1) := by
  have hrecord := length_enlist_le summit.progress.errors e.withoutSaved
  rw [← Progress.record_errors] at hrecord
  unfold seek at h
  split at h
  · cases h
    exact Nat.le_trans hrecord (by omega)
  · have hfound := length_errors_resynchronise h
    omega

/-- A round may reach the budget with the error that it begins with, or while it looks for an
    anchor. In both cases nothing is found, and the run is about to give up. -/
theorem seek_within (start : State) (summit : Summit) (e : ParseError)
    (hfew : summit.progress.errors.length < max 1 maxErrors)
    (hroom : summit.progress.errors.length + (session.attemptBound start.input + 1) < unspent) :
    ((session.within unspent).seek start summit e).Curtails
      (fun found => found.2.errors.length ≤ max 1 maxErrors ∧
        (found.1.isSome → found.2.errors.length < max 1 maxErrors))
      (StopsAt maxErrors) (enlist summit.progress.errors e.withoutSaved)
      ((session.within maxErrors).seek start summit e) := by
  have hlength := length_enlist_le summit.progress.errors e.withoutSaved
  have hpos := List.length_pos_iff.2 (enlist_ne_nil summit.progress.errors e.withoutSaved)
  rw [← Progress.record_errors] at hlength hpos ⊢
  unfold seek
  by_cases hend : (searchFrom summit.result e).atEnd = true
  · simp only [hend, Bool.true_or, if_true]
    refine .spared fun found hfound => ?_
    cases hfound
    exact ⟨by dsimp only; omega, nofun⟩
  · have hunspent : ¬ unspent ≤ (summit.progress.record e).errors.length := by omega
    simp only [hend, isSpent_within, Bool.false_or, decide_eq_true_eq, if_neg hunspent]
    split
    · exact Traced.curtails_of_ends ⟨_, rfl, rfl, by omega⟩
    · next hspent =>
      have hfew' := Nat.not_le.1 hspent
      have hroom : (summit.progress.record e).errors.length + session.attemptBound start.input <
          unspent := by omega
      refine (resynchronise_within e.owner _ _ _ hfew' hroom).imp fun found hfound => ?_
      omega

/-- A run gives up at an error, with as many errors as the budget allows, but at least one. -/
def GivesUpAt (session : Session) (maxErrors : Nat) (listed : List ParseError)
    (ending : Traced Summit) : Prop :=
  ∃ here summit, ending = session.giveUp here summit ∧ summit.result.error.isSome ∧
    summit.progress.errors = listed ∧ listed.length = max 1 maxErrors

/-- A round under a budget. Only the search for an anchor looks at it, so the report before it and
    the climb behind it are those of the session without one. -/
theorem rounds_within_of_error {start : State} {summit : Summit} {e : ParseError}
    (herror : summit.result.error = some e) (limit : Nat) :
    (session.within maxErrors).rounds (session.attemptBound start.input) (limit + 1) summit =
      Traced.emit (.reported e.withoutSaved) >>= fun _ =>
        (session.within maxErrors).seek start summit e >>= fun found =>
          match found with
          | (some (anchor, leaf), p) =>
            session.climb false ⟨anchor, leaf, p⟩ >>= fun next =>
              (session.within maxErrors).rounds (session.attemptBound start.input) limit
                (session.settle next)
          | (none, p) =>
            session.giveUp (searchFrom summit.result e)
              ⟨summit.id, { summit.result with error := some e.withoutSaved }, p⟩ := by
  refine (rounds_of_error herror limit).trans ?_
  simp only [climb_within, giveUp_within]
  rfl

/-- Up to where the budget is reached, it makes no difference to the rounds of a run. The induction
    is on the rounds, and the errors that are listed so far are carried along. -/
theorem rounds_within (start : State) (limit : Nat) (summit : Summit)
    (hfew : summit.progress.errors.length < max 1 maxErrors)
    (hroom : summit.progress.errors.length + limit * (session.attemptBound start.input + 1) <
      unspent) :
    ((session.within unspent).rounds (session.attemptBound start.input) limit summit).Curtails
      (fun next => next.progress.errors.length ≤ max 1 maxErrors) (session.GivesUpAt maxErrors)
      summit.progress.errors
      ((session.within maxErrors).rounds (session.attemptBound start.input) limit summit) := by
  induction limit generalizing summit with
  | zero => exact .spared fun _ hnext => nomatch hnext
  | succ limit ih =>
    cases herror : summit.result.error with
    | none =>
      have hdone (n : Nat) : (session.within n).rounds (session.attemptBound start.input)
          (limit + 1) summit = pure summit := by rw [rounds, herror]
      rw [hdone, hdone]
      refine .spared fun next hnext => ?_
      cases hnext
      exact Nat.le_of_lt hfew
    | some e =>
      rw [Nat.succ_mul] at hroom
      rw [rounds_within_of_error herror, rounds_within_of_error herror]
      have hemit : (Traced.emit (.reported e.withoutSaved)).Lists summit.progress.errors
          fun _ => enlist summit.progress.errors e.withoutSaved := fun _ _ => rfl
      refine hemit.curtails_bind fun _ _ => ?_
      refine (seek_within start summit e hfew (by omega)).bind (lists_seek start summit e)
        (fun found hfound hfine => ?_) fun listed ending hstop => ?_
      · have hlength := length_errors_seek hfound
        obtain ⟨_ | ⟨anchor, leaf⟩, p⟩ := found
        · refine .spared fun next hnext => ?_
          rw [(session.ensures_giveUp_quiet _ _).value next hnext]
          exact hfine.1
        · have hclimb := session.ensures_climb_quiet false ⟨anchor, leaf, p⟩
          have hquiet : (session.climb false ⟨anchor, leaf, p⟩).IsQuiet := hclimb.event
          refine hquiet.curtails_bind fun next hnext => ?_
          have hsame : (session.settle next).progress.errors = p.errors :=
            hclimb.value next hnext
          change p.errors.length ≤ _ + (session.attemptBound start.input + 1) at hlength
          have hnext := ih (session.settle next) (hsame ▸ hfine.2 rfl) (by rw [hsame]; omega)
          rwa [hsame] at hnext
      · obtain ⟨spent, rfl, hlisted, hlength⟩ := hstop
        exact ⟨_, _, pure_bind .., rfl, hlisted, hlength⟩

variable (session maxErrors) in

/-- Up to where the budget is reached, it makes no difference to a run. There the run gives up, and
    the errors that it has listed are as many as allowed, or the one that is listed in any case. -/
theorem summit_within (cache : WasteCache) (start : State)
    (hunspent : session.errorBound start.input < unspent) :
    ((session.within unspent).summit cache start).Curtails
      (fun next => next.progress.errors.length ≤ max 1 maxErrors) (session.GivesUpAt maxErrors) []
      ((session.within maxErrors).summit cache start) := by
  have hquiet : (session.run 0 start).IsQuiet := Registry.isQuiet_parse
  refine hquiet.curtails_bind fun result _ => ?_
  refine rounds_within start _ ⟨0, result, .initial cache⟩ ?_ ?_
  · change 0 < max 1 maxErrors
    omega
  · change 0 + session.errorBound start.input < unspent
    omega

/-- Giving up at an error is not cut off. It hands a failure from branch to branch, and built-in
    branches run no child for it. -/
theorem ended_giveUp
    (hrule : ∀ {id : Nat} {entry : Entry} {rule : Rule},
      session.registry.entries[id]? = some entry → entry.work = .branch rule → rule.IsBuiltIn)
    (here : State) {summit : Summit} (hfailed : summit.result.error.isSome) :
    (session.giveUp here summit).Ended :=
  (Traced.ended_emit _).bind fun _ _ => ended_climbThrough_of_failed hrule hfailed

/-- A run that the budget cuts off: it has listed as many errors as it may, which are the first ones
    of the run without a budget, and gives up. -/
structure CutOff (session : Session) (maxErrors : Nat) (listed : List ParseError)
    (limited : Traced (Output × List ParseError)) (here : State) (summit : Summit) : Prop where
  failed : summit.result.error.isSome
  errors : summit.progress.errors = listed.take (max 1 maxErrors)
  length : (listed.take (max 1 maxErrors)).length = max 1 maxErrors
  listed_eq : limited.listed = listed.take (max 1 maxErrors)
  result : limited.result = (session.giveUp here summit).result.map fun next =>
    (next.result.output, sortErrors next.progress.errors)

/-- A run that is cut off fails only where the branches fail that are to finish: in the climb that
    the last error makes to the root. -/
theorem CutOff.giveUp_eq_error {listed : List ParseError}
    {limited : Traced (Output × List ParseError)} {here : State} {summit : Summit} {fault : Fault}
    (h : session.CutOff maxErrors listed limited here summit)
    (hfault : limited.result = .error fault) :
    (session.giveUp here summit).result = .error fault := by
  have hresult := h.result.symm.trans hfault
  cases hgiveUp : (session.giveUp here summit).result with
  | ok next =>
    rw [hgiveUp] at hresult
    cases hresult
  | error fault' =>
    rw [hgiveUp] at hresult
    cases hresult
    rfl

/-- A run under a budget is the run without one, which has no more errors than the budget allows, or
    it is cut off. Both begin at the same state, so they differ in the number that the session
    allows, and not in what their cursors show. -/
theorem execute_within {start : State} (hunspent : session.errorBound start.input < unspent)
    {out : Output × List ParseError}
    (hout : ((session.within unspent).execute .empty start).result = .ok out) (maxErrors : Nat) :
    let full := (session.within unspent).execute .empty start
    let limited := (session.within maxErrors).execute .empty start
    (limited = full ∧ full.listed.length ≤ max 1 maxErrors) ∨
      ∃ here summit, session.CutOff maxErrors full.listed limited here summit := by
  obtain ⟨last, hlast, hlisted, -⟩ := execute_eq_ok hout
  have hcurtails := session.summit_within maxErrors .empty start hunspent
  dsimp only
  generalize hfull : (session.within unspent).summit .empty start = full at hcurtails hlast
  generalize hlimited : (session.within maxErrors).summit .empty start = limited at hcurtails
  obtain hspared | ⟨hevents, here, summit, rfl, hfailed, herrors, hlength⟩ := hcurtails
  · refine .inl ⟨?_, hlisted ▸ hspared last hlast⟩
    rw [execute_eq, execute_eq, hfull, hlimited]
  · next before after =>
    have hgiveUp := session.ensures_giveUp_quiet here summit
    have hprefix : listing [] before <+:
        ((session.within unspent).execute .empty start).listed := by
      rw [listed_execute, hfull, Traced.listed, hevents, listing_append]
      exact prefix_listing _ _
    rw [List.prefix_iff_eq_take, hlength] at hprefix
    refine .inr ⟨here, summit, hfailed, herrors.trans hprefix, hprefix ▸ hlength, ?_, ?_⟩
    · rw [← hprefix, listed_execute, hlimited, Traced.listed, listing_append]
      exact listing_of_quiet hgiveUp.event
    · rw [execute_eq, hlimited, Traced.bind_pure_eq]

/-- The errors that are listed under a budget are the first ones of those that are listed without.
    There is one at least if there is any, as an error is listed before the budget is looked at. -/
theorem listed_within {start : State} (hunspent : session.errorBound start.input < unspent)
    {out : Output × List ParseError}
    (hout : ((session.within unspent).execute .empty start).result = .ok out) (maxErrors : Nat) :
    ((session.within maxErrors).execute .empty start).listed =
      ((session.within unspent).execute .empty start).listed.take (max 1 maxErrors) := by
  obtain ⟨hsame, hfew⟩ | ⟨here, summit, hcut⟩ := execute_within hunspent hout maxErrors
  · rw [hsame, List.take_of_length_le hfew]
  · exact hcut.listed_eq

/-- A run that lists fewer errors than are allowed is not cut off: it is the run without a budget,
    event by event and in its result. -/
theorem execute_within_of_length_lt {start : State}
    (hunspent : session.errorBound start.input < unspent) {out : Output × List ParseError}
    (hout : ((session.within unspent).execute .empty start).result = .ok out)
    (hfew : ((session.within unspent).execute .empty start).listed.length < maxErrors) :
    (session.within maxErrors).execute .empty start =
      (session.within unspent).execute .empty start := by
  obtain ⟨hsame, -⟩ | ⟨here, summit, hcut⟩ := execute_within hunspent hout maxErrors
  · exact hsame
  · have hlength := hcut.length
    rw [List.length_take] at hlength
    omega

/-- The run from a state whose input asks for an error budget. The budget is a part of the input, so
    the session allows that number of errors, and every cursor of the run shows it. -/
def budgeted (session : Session) (start : State) (maxErrors : Nat) :
    Traced (Output × List ParseError) :=
  (session.within maxErrors).execute .empty (start.withMaxErrors maxErrors)

/-- Where nothing reads the budget, cursors may show any other one: the run has the same events, but
    for that, lists the same errors and comes to the same result. -/
theorem budgeted_shown (h : session.registry.IgnoresBudget) (start : State)
    (maxErrors shown : Nat) :
    let run := (session.within maxErrors).execute .empty (start.withMaxErrors shown)
    (session.budgeted start maxErrors).events = run.events.map (·.withMaxErrors maxErrors) ∧
      (session.budgeted start maxErrors).listed = run.listed ∧
      (session.budgeted start maxErrors).result = run.result := by
  have hwithin : (session.within maxErrors).registry.IgnoresBudget := h
  exact execute_withMaxErrors hwithin (start.withMaxErrors shown) maxErrors

/-- A run of a typed parser under a budget returns something if it returns something without one:
    no defect can stop it, and no climb of an error that unwinds is cut off. -/
theorem budgeted_eq_ok {start : State} (hunspent : session.errorBound start.input < unspent)
    {out : Output × List ParseError}
    (hout : (session.budgeted start unspent).result = .ok out) (maxErrors : Nat) {t : Ty}
    {parser : Parser t} {prepared : Prepared t} (ht : parser.grammar.HasType [] t)
    (hprepare : parser.prepare = .ok prepared) (hregistry : session.registry = prepared.registry) :
    ∃ output errors, output.type = t ∧
      (session.budgeted start maxErrors).result = .ok (output, errors) := by
  have hignores : session.registry.IgnoresBudget := hregistry ▸ ht.ignoresBudget.prepare hprepare
  obtain ⟨-, -, hresult⟩ := budgeted_shown hignores start maxErrors unspent
  obtain ⟨g, types, hlaid, htypes, hroot⟩ := Prepared.exists_hasTypes ht hprepare
  rw [← hregistry] at hlaid htypes
  have hensures :=
    htypes.ensures_execute hlaid hroot session.depth maxErrors (start.withMaxErrors unspent)
  have hroom : session.errorBound (start.withMaxErrors unspent).input < unspent := hunspent
  rw [hresult]
  cases hlimited :
      ((session.within maxErrors).execute .empty (start.withMaxErrors unspent)).result with
  | ok found => exact ⟨found.1, found.2, hensures.value found hlimited, rfl⟩
  | error fault =>
    exfalso
    obtain ⟨hsame, -⟩ | ⟨here, summit, hcut⟩ := execute_within hroom hout maxErrors
    · rw [hsame] at hlimited
      cases hout.symm.trans hlimited
    · have hadvances := htypes.advances (State.closedUnderMoves_reached start.input)
      have hgiveUp := hcut.giveUp_eq_error hlimited
      rw [hensures.fault fault hlimited] at hgiveUp
      exact ended_giveUp hadvances.branch here hcut.failed hgiveUp

end Session

/-- A prepared parser on an input that asks for a budget makes the run from its start under it, with
    the session allowing as many errors as the input asks for. -/
theorem Prepared.run_withMaxErrors {t : Ty} (p : Prepared t) (input : Input) (maxErrors : Nat) :
    p.run (input.withMaxErrors maxErrors) =
      ((p.session input).budgeted (State.start input) maxErrors).result >>= fun out =>
        match out.1.as? t with
        | some value => .ok (value, out.2)
        | none => .error (.defect (.outputType t)) := by
  unfold run trace
  rw [Traced.result_bind]
  change ((p.session input).budgeted (State.start input) maxErrors).result >>= _ = _
  congr 1
  funext out
  obtain ⟨output, errors⟩ := out
  dsimp only
  cases output.as? t <;> rfl

namespace Session

variable {session : Session} {maxErrors unspent : Nat}

/-- A parser of one leaf, which fails with the budget as its message. -/
def telling : Registry where
  entries :=
    [{ place := 0, label := "telling", parent := none, children := []
       work := .leaf
        { label := "telling", type := .unit, recoverer := none, safeSpot := false
          run := fun s => .error (s.semanticError (toString s.input.maxErrors)) } }]

/-- Runs are told apart by a leaf that reads the budget, so what is listed under one budget need not
    be listed under another one. -/
example :
    let session : Session := ⟨telling, 1, 10⟩
    let start := State.start (Input.text "x")
    session.errorBound start.input < 100 ∧
      (session.budgeted start 100).listed.map (·.message) = ["100"] ∧
      (session.budgeted start 1).listed.map (·.message) = ["1"] := by decide +kernel

end Session

end Resync
