import Resync.Proofs.Recovery.Climb
import Resync.Proofs.Recovery.Reach
import Resync.Proofs.Recovery.Survey

namespace Resync

/-- Every attempt is followed at once by a run of the anchor from the place that was proposed, which
    succeeds. -/
def Event.AttemptsSucceed (events : List Event) : Prop :=
  ∀ before after anchor label pos, events = before ++ .anchored anchor label pos :: after →
    ∃ s result rest, after = .entered anchor s :: .left anchor result :: rest ∧ s.pos = pos ∧
      result.isOk = true

namespace Traced

variable {α β : Type} {x : Traced α} {goal : α → Prop}

/-- A computation whose attempts succeed, with a result that meets a goal. -/
structure Succeeds (x : Traced α) (goal : α → Prop) : Prop where
  attempts : Event.AttemptsSucceed x.events
  value : ∀ a, x.result = .ok a → goal a

/-- A computation without attempts has none that fails, and its value is all there is to show. -/
theorem succeeds_of_attempts_eq_nil (h : x.attempts = []) (hvalue : ∀ a, x.result = .ok a → goal a) :
    x.Succeeds goal := by
  refine ⟨fun before after anchor label pos hevents => ?_, hvalue⟩
  have hmem : (anchor, pos) ∈ x.attempts := by
    rw [attempts, hevents]
    exact List.mem_filterMap.2 ⟨_, List.mem_append_right _ List.mem_cons_self, rfl⟩
  rw [h] at hmem
  cases hmem

theorem succeeds_pure {a : α} (h : goal a) : (pure a : Traced α).Succeeds goal := by
  refine succeeds_of_attempts_eq_nil rfl fun b hb => ?_
  cases hb
  exact h

theorem Yields.succeeds {a : α} (h : x.Yields a) (ha : goal a) : x.Succeeds goal := by
  refine succeeds_of_attempts_eq_nil h.attempts fun b hb => ?_
  cases h.result.symm.trans hb
  exact ha

/-- A computation that makes no attempts has none that fails. What it ensures of its value is left
    to be used. -/
theorem Ensures.succeeds {onFault : Fault → Prop}
    (h : x.Ensures (fun e => e.attempt? = none) onFault goal) : x.Succeeds goal :=
  succeeds_of_attempts_eq_nil h.attempts_eq_nil h.value

/-- Attempts succeed in one computation after the other, if the later one may use what the former
    has come to. -/
theorem Succeeds.bind {f : α → Traced β} {goal' : β → Prop} (hx : x.Succeeds goal)
    (hf : ∀ a, x.result = .ok a → goal a → (f a).Succeeds goal') : (x >>= f).Succeeds goal' := by
  cases hresult : x.result with
  | error fault =>
    rw [bind_of_result_eq_error hresult]
    exact ⟨hx.attempts, fun _ hb => nomatch hb⟩
  | ok a =>
    have hnext := hf a hresult (hx.value a hresult)
    rw [bind_of_result_eq_ok hresult]
    refine ⟨fun before after anchor label pos hevents => ?_, hnext.value⟩
    obtain ⟨more, rfl, hmore⟩ | ⟨_ | ⟨e, more⟩, hfirst, hmore⟩ :=
      List.append_eq_append_iff.1 hevents
    · exact hnext.attempts more after anchor label pos hmore
    · exact hnext.attempts [] after anchor label pos hmore.symm
    · obtain ⟨rfl, rfl⟩ := List.cons.inj hmore
      obtain ⟨s, result, rest, rfl, hs⟩ := hx.attempts before more anchor label pos hfirst
      exact ⟨s, result, rest ++ (f a).events, rfl, hs⟩

end Traced

namespace Session

open Registry (boundaries)

variable {reg : Registry} {input : Input} {here : State} {p : Progress}

/-- An anchor that is run where it matches succeeds, which is all that an attempt asks for. -/
theorem succeeds_attempt (depth maxErrors : Nat) {anchor : Nat} {entry : Entry} {leaf : Leaf}
    (hentry : reg.entries[anchor]? = some entry) (hwork : entry.work = .leaf leaf) (label : String)
    (haccepts : leaf.Accepts here) :
    (Traced.emit (.anchored anchor label here.pos) >>= fun _ =>
      run ⟨reg, depth + 1, maxErrors⟩ anchor here).Succeeds fun result => result.isOk = true := by
  have hok := (Leaf.isOk_parse_iff anchor).2 haccepts
  rw [run, Registry.parse_of_leaf hentry hwork]
  refine ⟨fun before after other label' pos hevents => ?_, fun result hresult => ?_⟩
  · obtain _ | ⟨first, _ | ⟨second, _ | ⟨third, before⟩⟩⟩ := before
    · cases hevents
      exact ⟨_, _, [], rfl, rfl, hok⟩
    · cases hevents
    · cases hevents
    · cases before <;> cases hevents
  · cases hresult
    exact hok

/-- The waste of an anchor leads to a place at which it matches, if its answer is true and has not
    been crossed off by an earlier attempt. -/
theorem accepts_of_wasteOf (hsearch : reg.Searchable input) (hhere : here.SitsOn input) {id : Nat}
    {answer : Cached} (hanswer : reg.Answers input id here.pos answer)
    {tried : List (Nat × Nat)} {waste : Nat} (hwaste : wasteOf tried id here answer = some waste) :
    ∃ entry leaf, reg.entries[id]? = some entry ∧ entry.work = .leaf leaf ∧
      leaf.Accepts (here.moveByUnits waste) := by
  obtain ⟨entry, leaf, hentry, hwork, habstains, hfirst⟩ := hanswer
  refine ⟨entry, leaf, hentry, hwork, ?_⟩
  cases answer with
  | tooMuch => cases hwaste
  | anchor offset =>
    have hsearches : ¬ leaf.Abstains input := fun hleaf => nomatch habstains hleaf
    obtain ⟨hle, ⟨s, hs, rfl, haccepts⟩, -⟩ := hfirst hsearches
    obtain ⟨named, hnamed, rfl⟩ := Option.map_eq_some_iff.1 hwaste
    cases (Option.filter_eq_some_iff.1 hnamed).1
    refine hsearch.positional hentry hwork s _ hs (hhere.moveByUnits _) ?_ haccepts
    rw [hhere.moveByUnits_unitsTo_movedTo hs.boundary hle]

section Rounds

variable (hsearch : reg.Searchable input)
include hsearch

/-- The first anchor that is resumed succeeds, and what is remembered then is what anchors answer.
    No attempt is ever followed by another one for the same error. -/
theorem succeeds_resynchronise (depth maxErrors : Nat) (hhere : here.SitsOn input)
    (hp : p.cache.Truthful reg input) (owner : Option Nat) (attempts : Nat) :
    (resynchronise ⟨reg, depth + 1, maxErrors⟩ owner here attempts p).Succeeds
      fun found => found.2.cache.Truthful reg input := by
  cases attempts with
  | zero => exact Traced.succeeds_of_attempts_eq_nil rfl fun _ hfound => nomatch hfound
  | succ attempts =>
    obtain ⟨answers, hanswers⟩ := Registry.exists_surveyed reg input here.pos
    obtain ⟨cache, hcache, hchosen⟩ :=
      yields_chooseAnchor hsearch hhere hanswers hp depth maxErrors owner
    have hchoice : (chooseAnchor ⟨reg, depth + 1, maxErrors⟩ p owner here).Succeeds
        (· = (cheapestAnswer p.tried here answers (reg.asked owner) none, { p with cache })) :=
      hchosen.succeeds rfl
    unfold resynchronise
    apply hchoice.bind
    rintro choice - rfl
    cases hbest : cheapestAnswer p.tried here answers (reg.asked owner) none with
    | none => exact Traced.succeeds_pure hcache
    | some bid =>
      obtain ⟨anchor, waste⟩ := bid
      obtain hnone | ⟨hmem, hwaste⟩ := Bid.mem_of_cheapest_eq_some hbest
      · cases hnone
      obtain ⟨entry, leaf, hentry, hwork, haccepts⟩ := accepts_of_wasteOf hsearch hhere
        (hanswers anchor (Registry.isSome_recoverer?_of_mem_asked hmem)) hwaste
      dsimp only
      rw [← bind_assoc]
      refine (succeeds_attempt depth maxErrors hentry hwork _ haccepts).bind fun result _ hok => ?_
      rw [if_pos hok]
      exact Traced.succeeds_pure hcache

variable (hkeeps : reg.KeepsBoundaries input)
include hkeeps

/-- The search after an error succeeds at once, or nothing is resumed because there is no anchor
    ahead, no input or no budget. -/
theorem succeeds_seek (depth maxErrors : Nat) (start : State) {summit : Summit} {e : ParseError}
    (hhere : (searchFrom summit.result e).SitsOn input)
    (hp : (boundaries input).Keeps (summit.progress.record e))
    (hcache : (summit.progress.record e).cache.Truthful reg input) :
    (seek ⟨reg, depth + 1, maxErrors⟩ start summit e).Succeeds fun found =>
      found.2.cache.Truthful reg input ∧ (boundaries input).Keeps found.2 ∧
        ∀ anchor leaf, found.1 = some (anchor, leaf) → leaf.All (·.SitsOn input) := by
  unfold seek
  split
  · exact Traced.succeeds_pure
      ⟨hcache, hp, fun _ _ hfound => absurd hfound.symm (Option.some_ne_none _)⟩
  · have hresumed := succeeds_resynchronise hsearch depth maxErrors hhere hcache e.owner
      (attemptBound ⟨reg, depth + 1, maxErrors⟩ start.input)
    refine ⟨hresumed.attempts, fun found hfound => ?_⟩
    have hresynced := Upkeep.resynced_of_result_eq_ok (hkeeps.keptBy (depth + 1) maxErrors) hp hhere
      hfound
    exact ⟨hresumed.value found hfound, hresynced.keeps,
      fun anchor leaf hanchor => (hresynced.anchor anchor leaf hanchor).2.1⟩

/-- The rounds of a run have no attempt that fails, as each begins with true answers and ends with
    true answers. -/
theorem succeeds_rounds (depth maxErrors : Nat) {start : State} (limit : Nat) (summit : Summit)
    (hsummit : summit.result.All (·.SitsOn input)) (hp : (boundaries input).Keeps summit.progress)
    (hcache : summit.progress.cache.Truthful reg input) :
    (rounds ⟨reg, depth + 1, maxErrors⟩
      (attemptBound ⟨reg, depth + 1, maxErrors⟩ start.input) limit summit).Succeeds
        fun _ => True := by
  have hkept := hkeeps.keptBy (depth + 1) maxErrors
  induction limit generalizing summit with
  | zero => exact Traced.succeeds_of_attempts_eq_nil rfl fun _ _ => trivial
  | succ limit ih =>
    cases herror : summit.result.error with
    | none =>
      unfold rounds
      rw [herror]
      exact Traced.succeeds_pure trivial
    | some e =>
      have hhere := Registry.sitsOn_searchFrom hsummit herror
      have hrecorded : (boundaries input).Keeps (summit.progress.record e) :=
        hp.record trivial (hsummit.error e herror).saved
      have hknown : (summit.progress.record e).cache.Truthful reg input := by
        rw [Progress.record_cache]
        exact hcache
      have hseek := succeeds_seek hsearch hkeeps depth maxErrors start hhere hrecorded hknown
      have hreport : (Traced.emit (.reported e.withoutSaved)).Succeeds fun _ => True :=
        Traced.succeeds_of_attempts_eq_nil rfl fun _ _ => trivial
      rw [rounds_of_error herror]
      refine hreport.bind fun _ _ _ => hseek.bind fun found _ hfound => ?_
      obtain ⟨_ | ⟨anchor, leaf⟩, q⟩ := found
      · exact ((Upkeep.ensures_giveUp hkept hhere ⟨summit.id, _, q⟩
          (hkept.stripped hsummit herror) hfound.2.1).imp fun _ _ _ => trivial).succeeds
      · obtain ⟨htruthful, hkeeps', hleaf⟩ := hfound
        refine (Upkeep.ensures_climb hkept false ⟨anchor, leaf, q⟩ (hleaf _ _ rfl)
          hkeeps').succeeds.bind fun next hnext hclimbed => ?_
        refine ih _ hclimbed.outcome (hclimbed.keeps.dropStale _ _) ?_
        have hsame := cache_climbThrough hnext
        change next.progress.cache.Truthful reg input
        rw [hsame]
        exact htruthful

/-- No anchor that is proposed in a run fails, if the grammar is searchable and keeps to boundaries
    and no answers are remembered at first. -/
theorem attempts_succeed (depth maxErrors : Nat) {cache : WasteCache}
    (hcache : cache.entries = []) :
    Event.AttemptsSucceed (execute ⟨reg, depth, maxErrors⟩ cache (State.start input)).events := by
  cases depth with
  | zero => exact (Traced.succeeds_of_attempts_eq_nil rfl fun _ _ => trivial).attempts
  | succ depth =>
    have hdescent := (hkeeps.keptBy (depth + 1) maxErrors).run (.inl rfl) (State.start_sitsOn input)
    have hrun : (execute ⟨reg, depth + 1, maxErrors⟩ cache (State.start input)).Succeeds
        fun _ => True := by
      refine hdescent.succeeds.bind fun result _ hresult => ?_
      refine (succeeds_rounds hsearch hkeeps depth maxErrors _ ⟨0, result, .initial cache⟩ hresult
        (Upkeep.keeps_initial hcache) (.of_entries_eq_nil hcache)).bind fun _ _ _ => ?_
      exact Traced.succeeds_pure trivial
    exact hrun.attempts

end Rounds

end Session

end Resync
