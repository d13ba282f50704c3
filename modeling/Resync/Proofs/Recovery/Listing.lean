import Resync.Proofs.Engine.Events
import Resync.Proofs.Recovery.Reach

namespace Resync

/-- Puts an error at the end of a list, unless the same mismatch is in the list. -/
def enlist (known : List ParseError) (e : ParseError) : List ParseError :=
  if known.any (·.sameMismatch e) then known else known ++ [e]

/-- The error that has reached the recovery, if the event says so. -/
def Event.reported? : Event → Option ParseError
  | reported e => some e
  | _ => none

/-- What is listed after some events, given what was listed before. The list of a run can be read
    off its events, because nothing but reports touches it. -/
def listing (known : List ParseError) (events : List Event) : List ParseError :=
  (events.filterMap Event.reported?).foldl enlist known

/-- The distinct errors of a computation, in the order in which they were found. -/
def Traced.listed {α : Type} (x : Traced α) : List ParseError :=
  listing [] x.events

variable {known : List ParseError} {events : List Event}

/-- A list with an error put into it is not empty, whether the error was new or not. -/
theorem enlist_ne_nil (known : List ParseError) (e : ParseError) : enlist known e ≠ [] := by
  unfold enlist
  split
  · next hany =>
    rintro rfl
    cases hany
  · exact List.append_ne_nil_of_right_ne_nil _ (List.cons_ne_nil _ _)

/-- An error is put at the end of a list, behind all others. -/
theorem prefix_enlist (known : List ParseError) (e : ParseError) : known <+: enlist known e := by
  unfold enlist
  split
  · exact List.prefix_rfl
  · exact List.prefix_append _ _

theorem length_enlist_le (known : List ParseError) (e : ParseError) :
    (enlist known e).length ≤ known.length + 1 := by
  unfold enlist
  split
  · exact Nat.le_succ _
  · simp

theorem listing_append (known : List ParseError) (before after : List Event) :
    listing known (before ++ after) = listing (listing known before) after := by
  rw [listing, List.filterMap_append, List.foldl_append]
  rfl

/-- What is listed stays listed, in its place. The list only grows. -/
theorem prefix_listing (known : List ParseError) (events : List Event) :
    known <+: listing known events := by
  unfold listing
  generalize events.filterMap Event.reported? = errors
  induction errors generalizing known with
  | nil => exact List.prefix_rfl
  | cons e errors ih => exact (prefix_enlist known e).trans (ih (enlist known e))

/-- A list that is not empty stays so. -/
theorem listing_ne_nil (h : known ≠ []) (events : List Event) : listing known events ≠ [] := by
  intro hnil
  have hprefix := prefix_listing known events
  rw [hnil] at hprefix
  exact h (List.prefix_nil.1 hprefix)

/-- No mismatch is listed twice, if none was at the beginning. -/
theorem pairwise_listing (hknown : known.Pairwise fun e f => e.sameMismatch f = false)
    (events : List Event) :
    (listing known events).Pairwise fun e f => e.sameMismatch f = false := by
  unfold listing
  generalize events.filterMap Event.reported? = errors
  induction errors generalizing known with
  | nil => exact hknown
  | cons e errors ih =>
    refine ih ?_
    unfold enlist
    split
    · exact hknown
    · next hnew =>
      refine List.pairwise_append.2 ⟨hknown, List.pairwise_singleton _ _, fun f hf e' he' => ?_⟩
      rw [List.mem_singleton.1 he', ← Bool.not_eq_true]
      exact fun hsame => hnew (List.any_eq_true.2 ⟨f, hf, hsame⟩)

theorem listing_of_quiet (h : ∀ event ∈ events, event.reported? = none) :
    listing known events = known := by
  rw [listing, List.filterMap_eq_nil_iff.2 h]
  rfl

theorem listing_reported (known : List ParseError) (e : ParseError) :
    listing known [.reported e] = enlist known e := rfl

/-- A run puts an error into its list in the way in which the list is read off the events. What the
    error carries is kept for branches, and is no part of the list. -/
theorem Progress.record_errors (p : Progress) (e : ParseError) :
    (p.record e).errors = enlist p.errors e.withoutSaved := by
  rw [record_eq, knows, (keepAll_frame e.saved).2.1]
  unfold enlist
  split
  · exact (keepAll_frame e.saved).2.1
  · rfl

namespace Traced

variable {α β : Type}

/-- Nothing is reported. -/
def IsQuiet (x : Traced α) : Prop :=
  ∀ event ∈ x.events, event.reported? = none

/-- The errors that belong to the result are those that are listed after the events. -/
def Lists (x : Traced α) (known : List ParseError) (errors : α → List ParseError) : Prop :=
  ∀ a, x.result = .ok a → errors a = listing known x.events

variable {x : Traced α} {f : α → Traced β} {errors : α → List ParseError}
  {errors' : β → List ParseError}

/-- What reports nothing and has the errors that were known before lists them. -/
theorem lists_pure {a : α} (h : errors a = known) : (pure a : Traced α).Lists known errors := by
  intro b hb
  cases hb
  exact h

/-- A fault has no result whose errors would have to be listed. -/
theorem lists_fault (f : Fault) : (fault f : Traced α).Lists known errors :=
  fun _ ha => nomatch ha

/-- A computation without reports lists what was known before, if its result has just that. -/
theorem IsQuiet.lists (hx : x.IsQuiet) (h : ∀ a, x.result = .ok a → errors a = known) :
    x.Lists known errors := by
  intro a ha
  rw [listing_of_quiet hx]
  exact h a ha

/-- The second part of a computation lists behind what the first part has listed. -/
theorem Lists.bind (hx : x.Lists known errors)
    (hf : ∀ a, x.result = .ok a → (f a).Lists (errors a) errors') :
    (x >>= f).Lists known errors' := by
  intro b hb
  obtain ⟨a, ha, hb⟩ := result_bind_eq_ok_iff.1 hb
  rw [events_bind_of_result_eq_ok ha, listing_append, ← hx a ha]
  exact hf a ha b hb

theorem IsQuiet.lists_bind (hx : x.IsQuiet)
    (hf : ∀ a, x.result = .ok a → (f a).Lists known errors') : (x >>= f).Lists known errors' := by
  have hlists : x.Lists known fun _ => known := hx.lists fun _ _ => rfl
  exact hlists.bind hf

theorem isQuiet_emit {event : Event} (h : event.reported? = none) : (emit event).IsQuiet := by
  intro other hother
  rw [List.mem_singleton.1 hother]
  exact h

end Traced

theorem Event.IsParsing.reported?_eq_none {event : Event} (h : event.IsParsing) :
    event.reported? = none := by
  cases event with
  | entered | left | noted => rfl
  | _ => exact h.elim

namespace Registry

variable {reg : Registry} {depth id : Nat}

/-- Nothing is reported while an occurrence is run: errors are reported when they reach the
    recovery. -/
theorem isQuiet_parse {s : State} : (reg.parse depth id s).IsQuiet :=
  fun _ hevent => (isParsing_of_mem_parse hevent).reported?_eq_none

/-- Nothing is reported while a branch goes on. -/
theorem isQuiet_resume {r : Resumption} : (reg.resume depth id r).IsQuiet := by
  intro event hevent
  obtain hparsing | ⟨label, rfl⟩ := isParsing_of_mem_resume hevent
  · exact hparsing.reported?_eq_none
  · rfl

end Registry

/-- What is kept up while nothing is reported. -/
def Upkeep.quiet : Upkeep where
  outcome _ _ := True
  saved _ _ := True
  error _ := True
  cursor _ := True
  summit _ := True
  event e := e.reported? = none
  fault _ := True

namespace Session

variable {session : Session} {p : Progress} {here : State}

/-- Choosing an anchor reports nothing, and leaves the list as it is. -/
theorem ensures_chooseAnchor_quiet (p : Progress) (owner : Option Nat) (here : State) :
    (session.chooseAnchor p owner here).Ensures (·.reported? = none) (fun _ => True)
      fun choice => choice.2.errors = p.errors := by
  have hasking : Upkeep.quiet.KeptByAsking session :=
    { run := fun _ _ => ⟨Registry.isQuiet_parse, fun _ _ => trivial, fun _ _ => trivial⟩
      moved := fun _ _ => trivial
      estimated := fun _ _ _ _ _ => rfl }
  have hkeeps : Upkeep.quiet.Keeps p :=
    { cached := fun _ _ offset _ => ⟨{ here with pos := offset }, trivial, rfl⟩
      errors := fun _ _ => trivial
      salvage := fun _ _ => trivial }
  exact (Upkeep.ensures_chooseAnchor hasking trivial hkeeps owner).imp
    fun _ _ hchoice => hchoice.1.errors

/-- A report lists its error, and has the list as a part of its result. -/
theorem lists_report (p : Progress) (e : ParseError) :
    (p.report e).Lists p.errors Progress.errors := by
  intro p' hp'
  cases hp'
  exact p.record_errors e

/-- A report lists at most one error, and none if the mismatch is known. -/
theorem length_errors_report {p p' : Progress} {e : ParseError}
    (h : (p.report e).result = .ok p') : p'.errors.length ≤ p.errors.length + 1 := by
  cases h
  rw [Progress.record_errors]
  exact length_enlist_le _ _

/-- Looking for an anchor to resume lists the anchors that fail where they were proposed, and
    nothing else. -/
theorem lists_resynchronise (owner : Option Nat) (here : State) (attempts : Nat) (p : Progress) :
    (session.resynchronise owner here attempts p).Lists p.errors (·.2.errors) := by
  induction attempts generalizing p with
  | zero => exact Traced.lists_fault _
  | succ attempts ih =>
    have hchoose := session.ensures_chooseAnchor_quiet p owner here
    have hlists : (session.chooseAnchor p owner here).Lists p.errors (·.2.errors) :=
      Traced.IsQuiet.lists hchoose.event hchoose.value
    unfold resynchronise
    refine hlists.bind fun choice _ => ?_
    obtain ⟨_ | ⟨anchor, waste⟩, chosen⟩ := choice
    · exact Traced.lists_pure rfl
    · refine (Traced.isQuiet_emit rfl).lists_bind fun _ _ => ?_
      refine Registry.isQuiet_parse.lists_bind fun result _ => ?_
      split
      · exact Traced.lists_pure rfl
      · refine (lists_report _ _).bind fun reported _ => ?_
        split
        · exact Traced.lists_pure rfl
        · exact ih reported

/-- The search of a round lists behind the error that the round begins with. -/
theorem lists_seek (start : State) (summit : Summit) (e : ParseError) :
    (session.seek start summit e).Lists (enlist summit.progress.errors e.withoutSaved)
      (·.2.errors) := by
  rw [← Progress.record_errors]
  unfold seek
  split
  · exact Traced.lists_pure rfl
  · exact lists_resynchronise _ _ _ _

/-- Climbing reports nothing and leaves the list as it is. -/
theorem ensures_climbThrough_quiet (unwinding : Bool) (way : List (Nat × Nat)) (summit : Summit) :
    (session.climbThrough unwinding way summit).Ensures (·.reported? = none) (fun _ => True)
      fun next => next.progress.errors = summit.progress.errors := by
  induction way generalizing summit with
  | nil => exact Traced.ensures_pure rfl
  | cons step way ih =>
    have hresume {r : Resumption} : (session.registry.resume session.depth step.1 r).Ensures
        (·.reported? = none) (fun _ => True) fun _ => True :=
      ⟨Registry.isQuiet_resume, fun _ _ => trivial, fun _ _ => trivial⟩
    refine hresume.bind fun result _ _ => ?_
    split
    · exact Traced.ensures_pure rfl
    · exact ih _

/-- Climbing reports nothing: an error that comes up on the way is reported by the next round. -/
theorem ensures_climb_quiet (unwinding : Bool) (summit : Summit) :
    (session.climb unwinding summit).Ensures (·.reported? = none) (fun _ => True)
      fun next => next.progress.errors = summit.progress.errors :=
  ensures_climbThrough_quiet ..

/-- Giving up reports nothing, as the error that unwinds has been reported. -/
theorem ensures_giveUp_quiet (here : State) (summit : Summit) :
    (session.giveUp here summit).Ensures (·.reported? = none) (fun _ => True)
      fun next => next.progress.errors = summit.progress.errors := by
  have hemit : (Traced.emit (.gaveUp here.pos)).Ensures (·.reported? = none) (fun _ => True)
      fun _ => True := Traced.ensures_emit rfl
  exact hemit.bind fun _ _ _ => ensures_climb_quiet true summit

/-- What the last summit of some rounds knows as errors is what they have listed, behind what was
    known at the beginning. -/
theorem lists_rounds (start : State) (limit : Nat) (summit : Summit) :
    (session.rounds (session.attemptBound start.input) limit summit).Lists summit.progress.errors
      (·.progress.errors) := by
  induction limit generalizing summit with
  | zero => exact Traced.lists_fault _
  | succ limit ih =>
    cases herror : summit.result.error with
    | none =>
      rw [rounds, herror]
      exact Traced.lists_pure rfl
    | some e =>
      have hemit : (Traced.emit (.reported e.withoutSaved)).Lists summit.progress.errors
          fun _ => enlist summit.progress.errors e.withoutSaved := fun _ _ => rfl
      rw [rounds_of_error herror]
      refine hemit.bind fun _ _ => (lists_seek start summit e).bind fun found _ => ?_
      obtain ⟨_ | ⟨anchor, leaf⟩, p⟩ := found
      · have hgiveUp := session.ensures_giveUp_quiet (searchFrom summit.result e)
          ⟨summit.id, { summit.result with error := some e.withoutSaved }, p⟩
        exact Traced.IsQuiet.lists hgiveUp.event hgiveUp.value
      · have hclimb := session.ensures_climb_quiet false ⟨anchor, leaf, p⟩
        have hlists : (session.climb false ⟨anchor, leaf, p⟩).Lists p.errors (·.progress.errors) :=
          Traced.IsQuiet.lists hclimb.event hclimb.value
        exact hlists.bind fun next _ => ih (session.settle next)

/-- What the last summit of a run knows as errors is what the run has listed. -/
theorem lists_summit (cache : WasteCache) (start : State) :
    (session.summit cache start).Lists [] (·.progress.errors) := by
  have hquiet : (session.run 0 start).IsQuiet := Registry.isQuiet_parse
  exact hquiet.lists_bind fun result _ => lists_rounds start _ ⟨0, result, .initial cache⟩

/-- A run lists what it does up to its last summit. Sorting the errors comes after that. -/
theorem listed_execute (cache : WasteCache) (start : State) :
    (session.execute cache start).listed = (session.summit cache start).listed := by
  rw [execute_eq, Traced.bind_pure_eq]
  rfl

/-- A run lists an error exactly if its descent has failed: only then there is a round, and every
    round lists one or has one listed already. -/
theorem listed_ne_nil_iff {cache : WasteCache} {start : State} {root : Result}
    (hroot : (session.run 0 start).result = .ok root) :
    (session.execute cache start).listed ≠ [] ↔ root.error.isSome := by
  have hquiet : (session.run 0 start).IsQuiet := Registry.isQuiet_parse
  have hevents : (session.execute cache start).listed = listing []
      (session.rounds (session.attemptBound start.input) (session.attemptBound start.input)
        ⟨0, root, .initial cache⟩).events := by
    rw [listed_execute, Traced.listed, summit, Traced.events_bind_of_result_eq_ok hroot,
      listing_append, listing_of_quiet hquiet]
  rw [hevents]
  cases herror : root.error with
  | none =>
    have hdone : session.rounds (session.attemptBound start.input)
        (session.attemptBound start.input) ⟨0, root, .initial cache⟩ =
          pure ⟨0, root, .initial cache⟩ := by
      unfold attemptBound
      rw [rounds]
      dsimp only
      rw [herror]
    rw [hdone]
    exact iff_of_false (fun h => h rfl) Bool.false_ne_true
  | some e =>
    have hround : (session.rounds (session.attemptBound start.input)
        (session.attemptBound start.input) ⟨0, root, .initial cache⟩).events =
          [.reported e.withoutSaved] ++ _ := congrArg Traced.events (rounds_of_error herror _)
    rw [hround, listing_append, listing_reported]
    exact iff_of_true (listing_ne_nil (enlist_ne_nil [] e.withoutSaved) _) rfl

/-- A run that returns something has come to a last summit, whose errors are the list of the run.
    They are returned in the order of their positions. -/
theorem execute_eq_ok {cache : WasteCache} {start : State} {out : Output × List ParseError}
    (h : (session.execute cache start).result = .ok out) :
    ∃ summit, (session.summit cache start).result = .ok summit ∧
      (session.execute cache start).listed = summit.progress.errors ∧
      out = (summit.result.output, sortErrors summit.progress.errors) := by
  rw [execute_eq] at h
  obtain ⟨summit, hsummit, hout⟩ := Traced.result_bind_eq_ok_iff.1 h
  cases hout
  refine ⟨summit, hsummit, ?_, rfl⟩
  rw [listed_execute]
  exact (lists_summit cache start summit hsummit).symm

end Session

end Resync
