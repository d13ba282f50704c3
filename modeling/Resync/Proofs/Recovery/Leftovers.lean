import Resync.Proofs.Engine.Stops
import Resync.Proofs.Recovery.Freshness

namespace Resync

/-- A sequence is called anew, with nothing saved. -/
def Step.IsAnew : Step → Prop
  | descend _ => True
  | resume r => r.saved = none

/-- A sequence that is called anew begins with slots that are all unset. -/
theorem Step.IsAnew.slots_eq {step : Step} (h : step.IsAnew) (count : Nat) :
    step.slots count = List.replicate count none := by
  cases step with
  | descend s => rfl
  | resume r =>
    change r.saved = none at h
    rw [slots, Rule.savedSequence, h]
    rfl

/-- The attempt at a sequence that its last call belongs to, up to the end of that call: the children
    at which the calls of the attempt have stopped, the last one first, and the slots with which it
    has finished. An attempt begins with a call that nothing is saved for, and goes on with calls
    that are given what the last one has saved. -/
inductive Attempt (entry : Entry) (id : Nat) {t : Ty} (finish : Slots → Except Defect t.Val) :
    List Event → List Nat → List (Option Output) → Prop
  | begins {before inside : List Event} {step : Step} {result : Result} {k : Nat}
      {slots : List (Option Output)} :
      step.IsAnew → FailedCall entry id finish step inside result k slots →
        Attempt entry id finish (before ++ step.call id entry.label :: inside ++ [.left id result])
          [k] slots
  | resumes {before between inside : List Event} {r : Resumption} {start : State}
      {result : Result} {k : Nat} {stops : List Nat} {found slots : List (Option Output)} :
      Attempt entry id finish before stops found → (∀ e ∈ between, ¬ e.Calls id) →
      r.saved = some (.sequence start found) →
      FailedCall entry id finish (.resume r) inside result k slots →
        Attempt entry id finish
          (before ++ between ++ .resumed id entry.label r :: inside ++ [.left id result])
          (k :: stops) slots

section Attempt

variable {entry : Entry} {id : Nat} {t : Ty} {finish : Slots → Except Defect t.Val}
  {history : List Event} {stops : List Nat} {slots : List (Option Output)}

/-- A sequence has one slot for each of its children, at the end of every call. -/
theorem Attempt.length_eq (h : Attempt entry id finish history stops slots) :
    slots.length = entry.children.length := by
  induction h with
  | begins hanew hcall =>
    obtain ⟨child, outcome, hstops, -⟩ := hcall.stops
    rw [hstops.length, hanew.slots_eq, List.length_replicate]
  | @resumes _ _ _ r _ _ _ _ _ _ _ _ hsaved hcall ih =>
    obtain ⟨child, outcome, hstops, -⟩ := hcall.stops
    rw [hstops.length, Step.slots, Rule.savedSequence, hsaved]
    exact ih

/-- A slot behind a child is filled if and only if some call of the attempt has stopped behind that
    child. The last call overwrites slots only from the child on that it was handed, and up to the
    one where it stops. -/
theorem Attempt.exists_filled_iff (h : Attempt entry id finish history stops slots) (m : Nat) :
    (∃ j o, m < j ∧ slots[j]? = some (some o)) ↔ ∃ k ∈ stops, m < k := by
  induction h with
  | @begins _ _ _ _ k slots hanew hcall =>
    obtain ⟨child, outcome, hstops, -⟩ := hcall.stops
    constructor
    · rintro ⟨j, o, hj, hslot⟩
      refine ⟨k, List.mem_singleton_self k, ?_⟩
      by_contra hle
      rw [hstops.behind j (by omega), hanew.slots_eq, List.getElem?_replicate] at hslot
      split at hslot <;> cases hslot
    · rintro ⟨k', hk', hlt⟩
      cases List.mem_singleton.1 hk'
      exact ⟨k, child.output, hlt, hstops.filled⟩
  | @resumes _ _ _ r _ _ k stops found slots _ _ hsaved hcall ih =>
    obtain ⟨child, outcome, hstops, -⟩ := hcall.stops
    have hfound : (Step.resume r).slots entry.children.length = found := by
      rw [Step.slots, Rule.savedSequence, hsaved]
    obtain hlt | hle := Nat.lt_or_ge m k
    · exact iff_of_true ⟨k, child.output, hlt, hstops.filled⟩ ⟨k, List.mem_cons_self, hlt⟩
    · -- behind the child the slots are those that were saved
      have hsame : (∃ j o, m < j ∧ slots[j]? = some (some o)) ↔
          ∃ j o, m < j ∧ found[j]? = some (some o) := by
        refine exists_congr fun j => exists_congr fun o => and_congr_right fun hj => ?_
        rw [hstops.behind j (Nat.lt_of_le_of_lt hle hj), hfound]
      rw [hsame, ih, List.exists_mem_cons_iff, or_iff_right (Nat.not_lt.2 hle)]

/-- Behind the child at which an attempt has stopped, the slots are unset if and only if none of its
    earlier calls has stopped behind that child. -/
theorem Attempt.unset_behind_iff {k : Nat} (h : Attempt entry id finish history (k :: stops) slots) :
    (∀ j, k < j → j < entry.children.length → slots[j]? = some none) ↔ ∀ k' ∈ stops, k' ≤ k := by
  have hfilled := h.exists_filled_iff k
  rw [List.exists_mem_cons_iff, or_iff_right (Nat.lt_irrefl k)] at hfilled
  constructor
  · intro hunset k' hk'
    by_contra hlt
    obtain ⟨j, o, hj, hslot⟩ := hfilled.2 ⟨k', hk', Nat.not_le.1 hlt⟩
    have hlength : j < entry.children.length := by
      rw [← h.length_eq]
      exact (List.getElem?_eq_some_iff.1 hslot).1
    rw [hunset j hj hlength] at hslot
    cases hslot
  · intro hle j hj hlength
    rw [← h.length_eq] at hlength
    rw [List.getElem?_eq_getElem hlength]
    cases hslot : slots[j] with
    | none => rfl
    | some o =>
      have hget : slots[j]? = some (some o) := hslot ▸ List.getElem?_eq_getElem hlength
      obtain ⟨k', hk', hlt⟩ := hfilled.1 ⟨j, o, hj, hget⟩
      exact absurd hlt (Nat.not_lt.2 (hle k' hk'))

end Attempt

namespace Session

section

variable {g : Graph} {reg : Registry} {depth maxErrors : Nat} {start : State} {history : List Event}

/-- Looking for an anchor runs leaves only, and leaves no sequence. -/
def ending (reg : Registry) : Upkeep :=
  { reg.tidy with event := fun e => ∀ history, reg.EndsCall history e }

section Prepared

variable (hg : g.IsBuiltIn) (hlaid : reg.LaidOut g) (hdescends : reg.Descends)
include hg hlaid hdescends

/-- Anchors are leaves, so no call of a sequence ends while they are asked and resumed. -/
theorem ending_keptByAnchors (depth maxErrors : Nat) :
    (ending reg).KeptByAnchors ⟨reg, depth, maxErrors⟩ where
  exhausted := trivial
  run {id s} hid _ := by
    have htidy := Registry.ensures_parse_tidy hg hlaid hdescends depth id s
    refine ⟨fun e he history => ?_, htidy.fault, htidy.value⟩
    obtain rfl | ⟨entry, leaf, hentry, hwork, rfl⟩ := mem_events_run_anchor hid he
    · exact trivial
    · exact Registry.endsCall_left_of_leaf hentry hwork
  moved _ _ := trivial
  violation _ _ _ _ := trivial
  reported _ _ := trivial
  estimated _ _ _ _ _ _ := trivial

/-- The search for an anchor ends no call of a sequence, and finds an outcome that saves nothing. -/
theorem extends_seek_ends {summit : Summit} {e : ParseError}
    (hkeeps : reg.tidy.Keeps (summit.progress.record e)) :
    (seek ⟨reg, depth, maxErrors⟩ start summit e).Extends history reg.EndsCall
      fun _ found => reg.tidy.Keeps found.2 ∧
        ∀ anchor leaf, found.1 = some (anchor, leaf) → reg.IsTidy anchor leaf := by
  have hensures : (seek ⟨reg, depth, maxErrors⟩ start summit e).Ensures _ _ _ :=
    Upkeep.ensures_seek (ending_keptByAnchors hg hlaid hdescends depth maxErrors)
      (fun _ _ _ _ => trivial) (hkeeps.withEvent _) trivial
  refine ⟨fun heq => hensures.event _ (heq ▸ List.mem_append_right _ List.mem_cons_self) _,
    fun found hfound => ?_⟩
  have hresynced := hensures.value found hfound
  exact ⟨hresynced.keeps.withEvent reg.tidy.event,
    fun anchor leaf heq => (hresynced.anchor anchor leaf heq).2.1⟩

/-- Every call of a sequence that ends with an error in a climb has stopped at a child, by induction
    on the way: each branch of it is resumed once, and calls its children by parsing them. -/
theorem extends_climbThrough_ends (unwinding : Bool) (way : List (Nat × Nat)) (summit : Summit)
    (hway : reg.IsWay summit.id way) (houtcome : reg.IsTidy summit.id summit.result)
    (hkeeps : reg.tidy.Keeps summit.progress) :
    (climbThrough ⟨reg, depth, maxErrors⟩ unwinding way summit).Extends history reg.EndsCall
      fun _ _ => True := by
  induction way generalizing history summit with
  | nil => exact Traced.extends_pure trivial
  | cons step way ih =>
    obtain ⟨parent, index⟩ := step
    obtain ⟨hparent, hway⟩ := hway
    obtain ⟨hsaved, hreleased⟩ := hkeeps.release parent
    have htidy := Registry.ensures_resume_tidy hg hlaid hdescends depth hparent houtcome hsaved
    rw [climbThrough_cons]
    refine (Registry.extends_resume_ends hg hlaid hdescends depth history hparent houtcome).bind
      fun later result hresult _ => ?_
    split
    · exact Traced.extends_pure trivial
    · exact ih _ hway (htidy.value result hresult) hreleased

/-- Whenever a sequence is left with an error in a run, the call has failed, and its last child is
    where it has stopped. -/
theorem extends_execute_ends (depth maxErrors : Nat) (cache : WasteCache) (start : State) :
    (execute ⟨reg, depth, maxErrors⟩ cache start).Extends [] reg.EndsCall fun _ _ => True := by
  have hkept := Registry.tidy_keptBy hg hlaid hdescends depth maxErrors
  have hwatches : Watches ⟨reg, depth, maxErrors⟩ start reg.EndsCall
      (fun _ summit => reg.IsTidy summit.id summit.result ∧ reg.tidy.Keeps summit.progress)
      fun _ _ => True :=
    { done := fun _ _ => trivial
      report := fun _ _ => trivial
      round := by
        rintro history summit e ⟨htidy, hkeeps⟩ herror
        obtain ⟨hreport, hsaved⟩ := hkept.reports htidy herror
        have hrecorded := hkeeps.record hreport hsaved
        refine (extends_seek_ends hg hlaid hdescends hrecorded).imp fun later found _ hfound => ?_
        obtain ⟨hkeeps, hanchor⟩ := hfound
        obtain ⟨_ | ⟨anchor, leaf⟩, p⟩ := found
        · refine (Traced.extends_emit (e := .gaveUp _) trivial).bind fun _ _ _ _ => ?_
          have hway := reg.isWay_ancestors summit.id
          have hstripped := hkept.stripped htidy herror
          exact extends_climbThrough_ends hg hlaid hdescends true _ ⟨summit.id, _, p⟩ hway hstripped
            hkeeps
        · have hleaf := hanchor anchor leaf rfl
          have hway := reg.isWay_ancestors anchor
          have hends : (climb ⟨reg, depth, maxErrors⟩ false ⟨anchor, leaf, p⟩).Extends later
              reg.EndsCall fun _ _ => True :=
            extends_climbThrough_ends hg hlaid hdescends false _ _ hway hleaf hkeeps
          have hclimb := Upkeep.ensures_climb hkept false ⟨anchor, leaf, p⟩ hleaf hkeeps
          refine hends.imp fun _ next hnext _ => ?_
          have hclimbed := hclimb.value next hnext
          exact ⟨hclimbed.outcome, hclimbed.keeps.dropStale _ _⟩ }
  have hparse := Registry.extends_parse_ends hg hlaid hdescends depth 0 start []
  have htidy := hkept.run (s := start) (.inl rfl) trivial
  have hnothing := Registry.keeps_initial_tidy reg start cache
  have hdescent : (run ⟨reg, depth, maxErrors⟩ 0 start).Extends [] reg.EndsCall
      fun _ result => reg.IsTidy 0 result ∧ reg.tidy.Keeps (.initial cache) :=
    hparse.imp fun _ result hresult _ => ⟨htidy.value result hresult, hnothing⟩
  exact (hwatches.extends_execute hdescent).imp fun _ _ _ _ => trivial

end Prepared

section Attempts

variable {id : Nat} {entry : Entry} {t : Ty} {finish : Slots → Except Defect t.Val}
  {events before after : List Event} {result : Result}

/-- The calls of a sequence that have failed make up attempts, where what is handed out is fresh.
    The induction is on the length of the history: a call that was given something goes on with the
    attempt of the call that has saved it. -/
theorem exists_attempt (hentry : reg.entries[id]? = some entry)
    (hwork : entry.work = .branch (.sequence t finish))
    (hends : ∀ {before e after}, events = before ++ e :: after → reg.EndsCall before e)
    (hfresh : ∀ {before e after}, events = before ++ e :: after → e.HandsFresh before)
    (h : events = before ++ .left id result :: after) (hfailed : result.error.isSome) :
    ∃ begun step inside k stops slots, before = begun ++ step.call id entry.label :: inside ∧
      FailedCall entry id finish step inside result k slots ∧
      Attempt entry id finish (before ++ [.left id result]) (k :: stops) slots := by
  induction hlength : before.length using Nat.strongRecOn
    generalizing before after result with
  | ind length ih =>
    subst hlength
    obtain ⟨begun, step, inside, k, slots, rfl, hcall⟩ := hends h entry t finish hentry hwork hfailed
    have hanew (hstep : step.IsAnew) : Attempt entry id finish
        (begun ++ step.call id entry.label :: inside ++ [.left id result]) [k] slots :=
      .begins hstep hcall
    cases step with
    | descend s => exact ⟨begun, _, inside, k, [], slots, rfl, hcall, hanew trivial⟩
    | resume r =>
      cases hsaved : r.saved with
      | none => exact ⟨begun, _, inside, k, [], slots, rfl, hcall, hanew hsaved⟩
      | some data =>
        -- the last call has saved what this one is handed, so the attempt goes on with it
        have hresumed : events = begun ++ .resumed id entry.label r ::
            (inside ++ .left id result :: after) := by
          rw [h]
          simp [Step.call]
        obtain ⟨earlier, call, within, last, between, rfl, hstoring, hbetween⟩ :=
          hfresh hresumed data hsaved
        obtain ⟨e, he, hdata⟩ := hstoring.stored
        have hlast : events = (earlier ++ call :: within) ++ .left id last ::
            (between ++ .resumed id entry.label r :: (inside ++ .left id result :: after)) := by
          rw [hresumed]
          simp
        obtain ⟨_, _, _, k', stops, found, -, hearlier, hattempt⟩ :=
          ih _ (by simp) hlast (he ▸ rfl) rfl
        obtain ⟨first, rfl⟩ := hearlier.saved_eq he hdata
        have hnext := Attempt.resumes hattempt hbetween hsaved hcall
        refine ⟨_, _, inside, k, k' :: stops, slots, rfl, hcall, ?_⟩
        rw [List.append_cons (earlier ++ call :: within)]
        exact hnext

/-- A sequence that fails has stopped at a child, and finishes with the slots of its attempt. Behind
    the child they are unset, and read as placeholders, if and only if no earlier call of the attempt
    has stopped behind it. -/
theorem unset_behind_stop_iff (hg : g.IsBuiltIn) (hreg : Registry.ofGraph g = .ok reg)
    (hdescends : reg.Descends) (depth maxErrors : Nat) (cache : WasteCache) (start : State)
    (hentry : reg.entries[id]? = some entry) (hwork : entry.work = .branch (.sequence t finish))
    (hevents : (execute ⟨reg, depth, maxErrors⟩ cache start).events =
      before ++ .left id result :: after) (hfailed : result.error.isSome) :
    ∃ begun step inside k stops slots value,
      before = begun ++ step.call id entry.label :: inside ∧
      FailedCall entry id finish step inside result k slots ∧
      finish ⟨slots⟩ = .ok value ∧ result.output = ⟨t, value⟩ ∧
      Attempt entry id finish (before ++ [.left id result]) (k :: stops) slots ∧
      slots.length = entry.children.length ∧
      ((∀ j, k < j → j < entry.children.length → slots[j]? = some none) ↔
        ∀ k' ∈ stops, k' ≤ k) := by
  have hlaid := Registry.laidOut_ofGraph hreg
  have hends := extends_execute_ends hg hlaid hdescends depth maxErrors cache start
  have hfresh := extends_execute_fresh hg hlaid hdescends depth maxErrors cache start
  -- the calls of the sequence up to here follow one another, each with what the one before has saved
  obtain ⟨begun, step, inside, k, stops, slots, hbefore, hcall, hattempt⟩ :=
    exists_attempt hentry hwork hends.event hfresh.event hevents hfailed
  obtain ⟨child, outcome, hstops, rfl, -⟩ := hcall.stops
  obtain ⟨value, hfinish, houtput⟩ := hstops.finished
  exact ⟨begun, step, inside, k, stops, slots, value, hbefore, hcall, hfinish, houtput, hattempt,
    hattempt.length_eq, hattempt.unset_behind_iff⟩

end Attempts

end

namespace BrokenRow

def finish (slots : Slots) : Except Defect (Ty.Val (.list .char)) :=
  (slots.takeAll [(0, .char), (1, .char), (2, .char), (3, .char)]).map
    fun (a, b, c, d, ()) => [a, b, c, d]

def graph : Graph where
  nodes :=
    [.leaf { (Primitive.char 'a').leaf with safeSpot := true }, .leaf (Primitive.char 'b').leaf,
      .leaf (Primitive.char 'c').leaf, .leaf { (Primitive.char ';').leaf with safeSpot := true },
      .branch "row" (.sequence (.list .char) finish) [0, 1, 2, 3]]
  root := 4

theorem isBuiltIn : graph.IsBuiltIn := by
  apply Graph.isBuiltIn_of_nodes
  simp only [graph, List.forall_mem_cons]
  exact ⟨fun _ _ => (Primitive.char 'a').isPlain.saved, fun _ _ => (Primitive.char 'b').isPlain.saved,
    fun _ _ => (Primitive.char 'c').isPlain.saved, fun _ _ => (Primitive.char ';').isPlain.saved,
    ⟨trivial, trivial⟩, fun _ hnode => nomatch hnode⟩

def registry : Registry :=
  match Registry.ofGraph graph with
  | .ok reg => reg
  | .error _ => ⟨[]⟩

theorem descends : registry.Descends := by
  decide

def row : Entry := (registry.entries[0]?).get rfl

def start : State := State.start (Input.text "abc?a?")

def run : Traced (Output × List ParseError) := execute ⟨registry, 3, 10⟩ .empty start

end BrokenRow

/-- The second time the row stops at its second letter, but it finishes with the third letter too,
    which is from the first time. -/
theorem unset_behind_stop_iff_broken_row :
    ∃ result stops slots, BrokenRow.run.events[19]? = some (.left 0 result) ∧
      result.output = ⟨.list .char, ['a', '\x00', 'c', '\x00']⟩ ∧
      Attempt BrokenRow.row 0 BrokenRow.finish (BrokenRow.run.events.take 20) (1 :: stops) slots ∧
      slots[2]? = some (some ⟨.char, 'c'⟩) ∧ ∃ k ∈ stops, 1 < k := by
  obtain ⟨result, hat, houtput, hfailed, hsaved⟩ : ∃ result,
      BrokenRow.run.events[19]? = some (.left 0 result) ∧
      result.output = ⟨.list .char, ['a', '\x00', 'c', '\x00']⟩ ∧ result.error.isSome ∧
      ∃ first, result.error.bind (·.savedBy? 0) =
        some (.sequence first [some ⟨.char, 'a'⟩, some ⟨.char, '\x00'⟩, some ⟨.char, 'c'⟩,
          some ⟨.char, '\x00'⟩]) :=
    ⟨_, by rfl, by rfl, by rfl, _, by rfl⟩
  obtain ⟨letter, hletter⟩ : ∃ letter,
      (BrokenRow.run.events.take 19).getLast? = some (.left 2 letter) := ⟨_, by rfl⟩
  have hevents := Traced.events_eq_of_getElem? hat
  have hentry : BrokenRow.registry.entries[0]? = some BrokenRow.row := by rfl
  have hwork : BrokenRow.row.work = .branch (.sequence (.list .char) BrokenRow.finish) := by rfl
  obtain ⟨begun, step, inside, k, stops, slots, value, hbefore, hcall, -, -, hattempt, -, hiff⟩ :=
    unset_behind_stop_iff BrokenRow.isBuiltIn (by rfl) BrokenRow.descends 3 10 .empty
      BrokenRow.start hentry hwork hevents hfailed
  rw [hbefore] at hletter
  have hchildren : BrokenRow.row.children = [1, 2, 3, 4] := by rfl
  have hchild := hcall.children_eq_of_getLast? hletter
  rw [hchildren] at hchild
  have hk : k = 1 := by
    match k with
    | 0 => cases hchild
    | 1 => rfl
    | 2 => cases hchild
    | 3 => cases hchild
    | k + 4 => cases hchild
  subst hk
  obtain ⟨first, hsaved⟩ := hsaved
  obtain ⟨first', hslots⟩ := hcall.savedBy?_eq
  rw [hsaved] at hslots
  cases hslots
  have htake : BrokenRow.run.events.take 20 = BrokenRow.run.events.take 19 ++ [.left 0 result] := by
    rw [List.take_add_one, hat, Option.toList_some]
  refine ⟨result, stops, _, hat, houtput, htake ▸ hattempt, rfl, ?_⟩
  by_contra hnone
  have hunset := hiff.2 fun k' hk' => Nat.not_lt.1 fun hlt => hnone ⟨k', hk', hlt⟩
  cases hunset 2 (by decide) (hchildren ▸ by decide)

end Session

end Resync
