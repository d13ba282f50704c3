import Resync.Proofs.Engine.Forward
import Resync.Proofs.Recovery.Attempts
import Resync.Proofs.Recovery.Lockstep
import Resync.Proofs.Recovery.Survey
import Resync.Proofs.Registry.Changes

namespace Resync

/-- What corresponds in two runs on one input that parse alike: cursors and errors are the same and
    stand on boundaries, and what is remembered in each run is what its anchors answer. -/
def Input.unison (input : Input) (reg other : Registry) : Likeness where
  cursor s t := s = t ∧ s.SitsOn input
  report e f := e.withoutSaved = f.withoutSaved ∧ input.IsBoundary e.position
  cache c d := c.Truthful reg input ∧ d.Truthful other input
  pos_eq h := congrArg State.pos h.1
  safeSpot_eq h := congrArg State.safeSpot h.1
  size_eq h := congrArg (·.input.size) h.1
  raise kind message h := by
    obtain ⟨rfl, hs⟩ := h
    refine ⟨rfl, ?_⟩
    rw [hs.position_errorHere]
    exact hs.boundary
  claim id h := ⟨congrArg (·.claim id) h.1, h.2⟩
  carry _ _ h := h
  message_eq {e f} h := show e.withoutSaved.message = f.withoutSaved.message by rw [h.1]
  position_eq {e f} h := show e.withoutSaved.position = f.withoutSaved.position by rw [h.1]
  owner_eq {e f} h := show e.withoutSaved.owner = f.withoutSaved.owner by rw [h.1]

namespace Input.Unison

variable {input : Input} {reg other : Registry} {e f : ParseError} {r r' : Result}

/-- What branches save corresponds if it is the same, with all cursors on boundaries. -/
theorem saves_iff {data data' : Saved} :
    (input.unison reg other).Saves data data' ↔ data = data' ∧ data.All (·.SitsOn input) := by
  constructor
  · rintro (⟨⟨rfl, hs⟩, slots⟩ | ⟨⟨rfl, hs⟩, item, items⟩ | o)
    · exact ⟨rfl, hs⟩
    · exact ⟨rfl, hs⟩
    · exact ⟨rfl, trivial⟩
  · rintro ⟨rfl, hs⟩
    cases data with
    | sequence start slots =>
      have hstart : (input.unison reg other).cursor start start := ⟨rfl, hs⟩
      exact .sequence hstart slots
    | repetition start item items =>
      have hstart : (input.unison reg other).cursor start start := ⟨rfl, hs⟩
      exact .repetition hstart item items
    | output o => exact .output o

/-- What is handed out for a branch in one run and in the other is the same. -/
theorem eq_of_rel_saves {saved saved' : Option Saved}
    (h : Option.Rel (input.unison reg other).Saves saved saved') :
    saved = saved' ∧ ∀ data, saved = some data → data.All (·.SitsOn input) := by
  cases h with
  | none =>
    refine ⟨rfl, fun data hdata => ?_⟩
    cases hdata
  | some hsame =>
    obtain ⟨rfl, hall⟩ := saves_iff.1 hsame
    exact ⟨rfl, fun data hdata => Option.some.inj hdata ▸ hall⟩

/-- What is kept for branches corresponds if it is the same, with all cursors on boundaries. -/
theorem entries_iff {entries entries' : List (Nat × Saved)} :
    (input.unison reg other).Entries entries entries' ↔
      entries = entries' ∧ ∀ entry ∈ entries, entry.2.All (·.SitsOn input) := by
  constructor
  · intro h
    induction h with
    | nil => exact ⟨rfl, fun _ hentry => nomatch hentry⟩
    | @cons entry entry' entries entries' hentry _ ih =>
      obtain ⟨id, data⟩ := entry
      obtain ⟨id', data'⟩ := entry'
      obtain ⟨rfl, hdata⟩ := hentry
      obtain ⟨rfl, hall⟩ := saves_iff.1 hdata
      obtain ⟨rfl, hrest⟩ := ih
      exact ⟨rfl, List.forall_mem_cons.2 ⟨hall, hrest⟩⟩
  · rintro ⟨rfl, hall⟩
    exact List.forall₂_same.2 fun entry hentry => ⟨rfl, saves_iff.2 ⟨rfl, hall entry hentry⟩⟩

/-- Errors correspond if they are the same, with all cursors on boundaries. So the lists of errors
    are the same. -/
theorem errors_iff :
    (input.unison reg other).Errors e f ↔ e = f ∧ e.All (·.SitsOn input) := by
  constructor
  · rintro ⟨⟨hreport, hboundary⟩, hsaved⟩
    obtain ⟨hsame, hall⟩ := entries_iff.1 hsaved
    have hstart := State.start_sitsOn input
    refine ⟨?_, ⟨_, hstart.movedTo hboundary, hstart.movedTo_pos hboundary⟩, hall⟩
    calc e = { e.withoutSaved with saved := e.saved } := rfl
      _ = { f.withoutSaved with saved := f.saved } := by rw [hreport, hsame]
  · rintro ⟨rfl, ⟨s, hs, hpos⟩, hall⟩
    exact ⟨⟨rfl, hpos ▸ hs.boundary⟩, entries_iff.2 ⟨rfl, hall⟩⟩

/-- Outcomes correspond if they are the same, with all cursors on boundaries. So the outputs are the
    same. -/
theorem outcomes_iff :
    (input.unison reg other).Outcomes r r' ↔ r = r' ∧ r.All (·.SitsOn input) := by
  constructor
  · intro h
    obtain ⟨start, stop, output, error⟩ := r
    obtain ⟨start', stop', output', error'⟩ := r'
    obtain ⟨⟨rfl, hstart⟩, ⟨rfl, hstop⟩, rfl, herror⟩ := h
    cases herror with
    | none => exact ⟨rfl, hstart, hstop, fun _ he => nomatch he⟩
    | some he =>
      obtain ⟨rfl, hall⟩ := errors_iff.1 he
      refine ⟨rfl, hstart, hstop, fun e he => ?_⟩
      cases he
      exact hall
  · rintro ⟨rfl, hr⟩
    refine ⟨⟨rfl, hr.start⟩, ⟨rfl, hr.stop⟩, rfl, ?_⟩
    cases herror : r.error with
    | none => exact .none
    | some e => exact .some (errors_iff.2 ⟨rfl, hr.error e herror⟩)

end Input.Unison

namespace Registry

/-- Wherever anchors are asked, those of both registries have the same answers, and the same one is
    the cheapest. -/
def AnswersLike (reg other : Registry) (input : Input) : Prop :=
  ∀ pos, ∃ answers, reg.Surveyed input pos answers ∧ other.Surveyed input pos answers ∧
    ∀ tried here owner, Session.cheapestAnswer tried here answers (reg.asked owner) none =
      Session.cheapestAnswer tried here answers (other.asked owner) none

/-- A registry answers like itself, which is the case of two caches over one registry. -/
theorem AnswersLike.rfl {reg : Registry} {input : Input} : reg.AnswersLike reg input := by
  intro pos
  obtain ⟨answers, hanswers⟩ := exists_surveyed reg input pos
  exact ⟨answers, hanswers, hanswers, fun _ _ _ => Eq.refl _⟩

end Registry

namespace Session

open Input.Unison

variable {reg other : Registry} {input : Input} {here here' : State} {p q : Progress}

section Unison

variable (hsearch : reg.Searchable input) (hother : other.Searchable input)
  (hanswers : reg.AnswersLike other input)
include hsearch hother hanswers

/-- The same anchor is chosen with the same waste, since both runs choose the cheapest of the same
    answers. How much of them was computed, probed or remembered does not matter. -/
theorem agree_chooseAnchor (depth maxErrors : Nat)
    (hhere : (input.unison reg other).cursor here here')
    (hknown : (input.unison reg other).Knowledge p q) (owner : Option Nat) :
    Traced.Agree ((input.unison reg other).Choices here here')
      (chooseAnchor ⟨reg, depth + 1, maxErrors⟩ p owner here)
      (chooseAnchor ⟨other, depth + 1, maxErrors⟩ q owner here') := by
  obtain ⟨rfl, hsits⟩ := hhere
  obtain ⟨answers, hsurveyed, hsurveyed', hsame⟩ := hanswers here.pos
  obtain ⟨hp, hq⟩ := hknown.cache
  obtain ⟨cache, hcache, hchosen⟩ :=
    yields_chooseAnchor hsearch hsits hsurveyed hp depth maxErrors owner
  obtain ⟨cache', hcache', hchosen'⟩ :=
    yields_chooseAnchor hother hsits hsurveyed' hq depth maxErrors owner
  refine hchosen.agree hchosen' ⟨?_, hknown.withCache ⟨hcache, hcache'⟩⟩
  rw [hknown.tried, hsame]
  cases cheapestAnswer q.tried here answers (other.asked owner) none with
  | none => exact .none
  | some bid => exact .some ⟨rfl, rfl, hsits.moveByUnits bid.2⟩

variable (hruns : reg.RunsLike other) (hkeeps : reg.KeepsBoundaries input)
include hruns hkeeps

/-- Two registries that parse alike and answer alike, on boundaries of the input, run in lockstep
    whatever is remembered in each. -/
theorem lockstep_unison (depth maxErrors : Nat) :
    Session.Lockstep ⟨reg, depth + 1, maxErrors⟩ ⟨other, depth + 1, maxErrors⟩
      (input.unison reg other) where
  ancestors := hruns.ancestors
  label := hruns.label
  size := hruns.size
  maxErrors := rfl
  run id s t hs := by
    obtain ⟨rfl, hsits⟩ := hs
    rw [run, run, ← hruns.parse]
    exact Traced.agree_self fun r hr => outcomes_iff.2 ⟨rfl, hkeeps.parse hsits hr⟩
  resume id index r r' saved saved' hr hsaved := by
    obtain ⟨rfl, hall⟩ := outcomes_iff.1 hr
    obtain ⟨rfl, hdata⟩ := eq_of_rel_saves hsaved
    rw [← hruns.resume]
    exact Traced.agree_self fun r hresult =>
      outcomes_iff.2 ⟨rfl, hkeeps.resume ⟨hall, hdata⟩ hresult⟩
  choose owner _ _ _ _ hknown hhere :=
    agree_chooseAnchor hsearch hother hanswers depth maxErrors hhere hknown owner
  search {r r' e f} hr he := by
    obtain ⟨rfl, hall⟩ := outcomes_iff.1 hr
    obtain ⟨rfl, hplace, -⟩ := errors_iff.1 he
    refine ⟨rfl, ?_⟩
    unfold searchFrom
    split
    · exact hall.stop
    · obtain ⟨s, hs, hpos⟩ := hplace
      exact hpos ▸ hall.stop.movedTo hs.boundary

/-- Runs in unison choose the same anchors at the same positions in the same order, and stop with the
    same fault or give the same output and the same errors. -/
theorem agree_execute_unison (depth maxErrors : Nat) {cache cache' : WasteCache}
    (hcache : cache.entries = []) (hcache' : cache'.entries = []) :
    Traced.Agree (· = ·) (execute ⟨reg, depth, maxErrors⟩ cache (State.start input))
      (execute ⟨other, depth, maxErrors⟩ cache' (State.start input)) := by
  cases depth with
  | zero => exact ⟨rfl, .inl ⟨.outOfFuel, rfl, rfl⟩⟩
  | succ depth =>
    have hlockstep := lockstep_unison hsearch hother hanswers hruns hkeeps depth maxErrors
    have hcaches : (input.unison reg other).cache cache cache' :=
      ⟨.of_entries_eq_nil hcache, .of_entries_eq_nil hcache'⟩
    refine (hlockstep.agree_execute hcaches ⟨rfl, State.start_sitsOn input⟩).imp ?_
    rintro ⟨output, errors⟩ ⟨output', errors'⟩ ⟨houtput, herrors⟩
    refine Prod.ext houtput (List.forall₂_eq_eq_eq ▸ herrors.imp fun _ _ he => ?_)
    exact (errors_iff.1 he).1

end Unison

end Session

end Resync
