import Resync.Proofs.Engine.Failure
import Resync.Proofs.Engine.Histories
import Resync.Proofs.Engine.Keepsakes

namespace Resync

/-- The slots that a sequence is called with: those that it has saved, or fresh ones. -/
def Step.slots (count : Nat) : Step → List (Option Output)
  | descend _ => (Slots.empty count).outputs
  | resume r => (Rule.savedSequence count r).2.outputs

namespace Rule

/-- A sequence that was called with some slots stops at a child that has failed, and finishes with
    others. -/
structure Stops (id : Nat) {t : Ty} (finish : Slots → Except Defect t.Val)
    (found : List (Option Output)) (k : Nat) (child result : Result)
    (slots : List (Option Output)) : Prop where
  /-- The error of the child is handed up, and the slots are saved in it. -/
  error : ∃ e start, child.error = some e ∧ result.error = some (e.save id (.sequence start slots))
  length : slots.length = found.length
  filled : slots[k]? = some (some child.output)
  behind : ∀ j, k < j → slots[j]? = found[j]?
  finished : ∃ value, finish ⟨slots⟩ = .ok value ∧ result.output = ⟨t, value⟩

section Sequence

variable {id first count : Nat} {t : Ty} {finish : Slots → Except Defect t.Val}
  {run : Nat → State → Traced Result} {start stop s : State} {slots filled : Slots}
  {child result : Result} {e : ParseError} {o : Output}

/-- Nothing happens any more when a sequence stops: no child is run, and no remark is made. -/
theorem events_stopSequence :
    ((stopSequence id finish start stop filled e).exec run).events = [] := by
  rw [stopSequence]
  cases finish filled <;> rfl

theorem stops_stopSequence (hput : slots.put first child.output = .ok filled)
    (he : child.error = some e)
    (h : ((stopSequence id finish start stop filled e).exec run).result = .ok result) :
    Stops id finish slots.outputs first child result filled.outputs := by
  obtain ⟨value, hfinish, h⟩ := Script.exists_of_exec_ofExcept_bind h
  cases h
  obtain ⟨hlt, rfl⟩ := Slots.put_eq_ok hput
  exact ⟨⟨e, start, he, rfl⟩, List.length_set, List.getElem?_set_self hlt,
    fun j hj => List.getElem?_set_ne (Nat.ne_of_lt hj), value, hfinish, rfl⟩

/-- What was in the slots behind a child is there when the child has been put in. -/
theorem Stops.of_put {k : Nat} {final : List (Option Output)}
    (h : Stops id finish filled.outputs k child result final)
    (hput : slots.put first o = .ok filled) (hlt : first < k) :
    Stops id finish slots.outputs k child result final := by
  obtain ⟨-, rfl⟩ := Slots.put_eq_ok hput
  refine ⟨h.error, h.length.trans List.length_set, h.filled, fun j hj => ?_, h.finished⟩
  rw [h.behind j hj]
  exact List.getElem?_set_ne (Nat.ne_of_lt (Nat.lt_trans hlt hj))

/-- The events end where a child has been left. -/
def LastLeft (entry : Entry) (events : List Event) (k : Nat) (child : Result) : Prop :=
  ∃ occurrence, entry.children[k]? = some occurrence ∧
    events.getLast? = some (.left occurrence child)

/-- A sequence that fails while its children are run has stopped at the last one. The slots behind
    that child are as they were when the sequence was called. -/
theorem stops_fillSlots {entry : Entry}
    (hlast : ∀ {index s c}, (run index s).result = .ok c →
      LastLeft entry (run index s).events index c)
    (h : ((fillSlots id finish start (List.range' first count) slots s).exec run).result =
      .ok result) (hfailed : result.error.isSome) :
    ∃ k child final, first ≤ k ∧ Stops id finish slots.outputs k child result final ∧
      LastLeft entry
        ((fillSlots id finish start (List.range' first count) slots s).exec run).events k child := by
  induction count generalizing first slots s with
  | zero =>
    obtain ⟨value, -, h⟩ := Script.exists_of_exec_ofExcept_bind h
    cases h
    cases hfailed
  | succ count ih =>
    rw [List.range'_succ, fillSlots, Script.exec_bind, Script.exec_child] at h ⊢
    obtain ⟨child, hchild, h⟩ := Traced.result_bind_eq_ok_iff.1 h
    obtain ⟨occurrence, hoccurrence, hleft⟩ := hlast hchild
    rw [Traced.bind_of_result_eq_ok hchild]
    cases hput : slots.put first child.output with
    | error d =>
      rw [hput] at h
      cases h
    | ok filled =>
      rw [hput] at h
      cases herror : child.error with
      | some e =>
        rw [herror] at h
        refine ⟨first, child, filled.outputs, Nat.le_refl _, stops_stopSequence hput herror h,
          occurrence, hoccurrence, ?_⟩
        change ((run first s).events ++
          ((stopSequence id finish start child.stop filled e).exec run).events).getLast? = _
        rw [events_stopSequence, List.append_nil, hleft]
      | none =>
        rw [herror] at h
        obtain ⟨k, child', final, hle, hstops, occurrence', hoccurrence', hlast'⟩ := ih h
        refine ⟨k, child', final, Nat.le_of_lt hle, hstops.of_put hput hle, occurrence',
          hoccurrence', ?_⟩
        change ((run first s).events ++ ((fillSlots id finish start
          (List.range' (first + 1) count) filled child.stop).exec run).events).getLast? = _
        rw [List.getLast?_append, hlast', Option.some_or]

/-- A resumed sequence puts in what it was handed, and stops or goes on behind it, with the slots
    that it had saved. -/
theorem script_sequence_of_put {view : View} {r : Resumption}
    (hput : (savedSequence view.labels.length r).2.put r.index r.child.output = .ok filled) :
    (sequence t finish).script view (.resume r) =
      match r.child.error with
      | some e =>
        stopSequence view.id finish (savedSequence view.labels.length r).1 r.child.stop filled e
      | none =>
        fillSlots view.id finish (savedSequence view.labels.length r).1
          (List.range' (r.index + 1) (view.labels.length - (r.index + 1))) filled r.child.stop := by
  change (Script.ofExcept ((savedSequence view.labels.length r).2.put r.index r.child.output)
    >>= _) = _
  rw [hput]
  rfl

/-- A sequence that fails has stopped at the last child that it has run, or at the one that it was
    handed. -/
theorem stops_script {view : View} {entry : Entry} {step : Step}
    (hlast : ∀ {index s c}, (run index s).result = .ok c →
      LastLeft entry (run index s).events index c)
    (h : (((sequence t finish).script view step).exec run).result = .ok result)
    (hfailed : result.error.isSome) :
    ∃ k child final, Stops view.id finish (step.slots view.labels.length) k child result final ∧
      (LastLeft entry (((sequence t finish).script view step).exec run).events k child ∨
        (((sequence t finish).script view step).exec run).events = [] ∧
          ∃ saved, step = .resume ⟨k, child, saved⟩) := by
  cases step with
  | descend s =>
    change ((fillSlots view.id finish s (List.range view.labels.length) _ s).exec run).result = _ at h
    rw [List.range_eq_range'] at h
    obtain ⟨k, child, final, -, hstops, hleft⟩ := stops_fillSlots hlast h hfailed
    rw [← List.range_eq_range'] at hleft
    exact ⟨k, child, final, hstops, .inl hleft⟩
  | resume r =>
    obtain ⟨filled, hput, -⟩ := Script.exists_of_exec_ofExcept_bind h
    rw [script_sequence_of_put hput] at h ⊢
    cases herror : r.child.error with
    | some e =>
      rw [herror] at h
      exact ⟨r.index, r.child, filled.outputs, stops_stopSequence hput herror h,
        .inr ⟨events_stopSequence, r.saved, rfl⟩⟩
    | none =>
      rw [herror] at h
      obtain ⟨k, child, final, hle, hstops, hleft⟩ := stops_fillSlots hlast h hfailed
      exact ⟨k, child, final, hstops.of_put hput hle, .inl hleft⟩

end Sequence

end Rule

/-- A call of a sequence that has failed, from what happened in it: nothing was saved for the
    sequence in what it was given, nor by any of its children. -/
structure FailedCall (entry : Entry) (id : Nat) {t : Ty} (finish : Slots → Except Defect t.Val)
    (step : Step) (inside : List Event) (result : Result) (k : Nat) (slots : List (Option Output)) :
    Prop where
  opens : (step.call id entry.label).Opens id
  spares : ∀ e ∈ inside, e.Spares id
  stops : ∃ child outcome,
    Rule.Stops id finish (step.slots entry.children.length) k child outcome slots ∧
      result = outcome.claim id ∧
      (Rule.LastLeft entry inside k child ∨
        inside = [] ∧ ∃ saved, step = .resume ⟨k, child, saved⟩)

namespace FailedCall

variable {entry : Entry} {id k : Nat} {t : Ty} {finish : Slots → Except Defect t.Val} {step : Step}
  {inside : List Event} {result : Result} {slots : List (Option Output)} {e : ParseError}
  {data : Saved} (h : FailedCall entry id finish step inside result k slots)
include h

/-- The slots are all that the sequence has saved in its error, and they are those that it stopped
    with. -/
theorem saved_eq (he : result.error = some e) (hdata : (id, data) ∈ e.saved) :
    ∃ start, data = .sequence start slots := by
  obtain ⟨child, outcome, hstops, rfl, hlast⟩ := h.stops
  obtain ⟨f, start, hf, houtcome⟩ := hstops.error
  have hnothing : child.HoldsNothingFor id := by
    obtain ⟨occurrence, -, hleft⟩ | ⟨-, saved, rfl⟩ := hlast
    · exact (h.spares _ (List.mem_of_getLast? hleft)).2
    · exact h.opens.2
  rw [Result.claim, houtcome] at he
  cases he
  obtain hold | hnew := ParseError.mem_saved_save hdata
  · exact absurd hold (hnothing f hf data)
  · cases hnew
    exact ⟨start, rfl⟩

/-- The slots can be read off the error with which the sequence has stopped. -/
theorem savedBy?_eq : ∃ start, result.error.bind (·.savedBy? id) = some (.sequence start slots) := by
  obtain ⟨child, outcome, hstops, rfl, -⟩ := h.stops
  obtain ⟨f, start, -, houtcome⟩ := hstops.error
  refine ⟨start, ?_⟩
  rw [Result.claim, houtcome]
  exact (ParseError.savedBy?_claim ..).trans (ParseError.savedBy?_save ..)

/-- A call that ends where an occurrence is left has stopped at that child, so it is told by the
    events. -/
theorem children_eq_of_getLast? {begun : List Event} {occurrence : Nat} {r : Result}
    (hlast : (begun ++ step.call id entry.label :: inside).getLast? = some (.left occurrence r)) :
    entry.children[k]? = some occurrence := by
  obtain ⟨child, outcome, -, -, ⟨other, hother, hleft⟩ | ⟨rfl, saved, rfl⟩⟩ := h.stops
  · rw [List.getLast?_append, List.getLast?_cons, hleft] at hlast
    cases hlast
    exact hother
  · rw [List.getLast?_concat] at hlast
    cases hlast

end FailedCall

namespace Registry

variable {reg : Registry} {g : Graph} {depth id : Nat} {s : State} {r : Result}

/-- A sequence that is left with an error was called before, and that call has failed. -/
def EndsCall (reg : Registry) (history : List Event) : Event → Prop
  | .left id result => ∀ (entry : Entry) (t : Ty) (finish : Slots → Except Defect t.Val),
    reg.entries[id]? = some entry → entry.work = .branch (.sequence t finish) →
      result.error.isSome → ∃ before step inside k slots,
        history = before ++ step.call id entry.label :: inside ∧
          FailedCall entry id finish step inside result k slots
  | _ => True

/-- A leaf is no sequence, so there is no call to be found for it. -/
theorem endsCall_left_of_leaf {entry : Entry} {leaf : Leaf} {history : List Event}
    (hentry : reg.entries[id]? = some entry) (hwork : entry.work = .leaf leaf) :
    reg.EndsCall history (.left id r) := by
  intro other t finish hother hsequence
  rw [hentry] at hother
  cases hother
  rw [hwork] at hsequence
  cases hsequence

/-- A parser that is left says so in the end, with what it leaves with. So the last event of a parse
    tells its outcome. -/
theorem getLast?_parse (h : (reg.parse depth id s).result = .ok r) :
    (reg.parse depth id s).events.getLast? = some (.left id r) := by
  cases depth with
  | zero => cases h
  | succ depth =>
    cases hentry : reg.entries[id]? with
    | none =>
      rw [parse_of_missing hentry] at h
      cases h
    | some entry =>
      cases hwork : entry.work with
      | leaf leaf =>
        rw [parse_of_leaf hentry hwork] at h ⊢
        cases h
        rfl
      | branch rule =>
        rw [parse_of_branch hentry hwork] at h ⊢
        obtain ⟨_, hentered, h⟩ := Traced.result_bind_eq_ok_iff.1 h
        obtain ⟨outcome, houtcome, h⟩ := Traced.result_bind_eq_ok_iff.1 h
        cases h
        rw [Traced.events_bind_of_result_eq_ok hentered,
          Traced.events_bind_of_result_eq_ok houtcome]
        exact (congrArg List.getLast? (List.append_assoc ..).symm).trans List.getLast?_concat

theorem lastLeft_runChild {entry : Entry} {index : Nat}
    (h : (runChild (reg.parse depth) entry index s).result = .ok r) :
    Rule.LastLeft entry (runChild (reg.parse depth) entry index s).events index r := by
  unfold runChild at h ⊢
  split at h
  · next child hchild => exact ⟨child, hchild, getLast?_parse h⟩
  · cases h

section Prepared

variable (hg : g.IsBuiltIn) (h : reg.LaidOut g) (hdescends : reg.Descends)
include hg h hdescends

/-- A branch that is left was called by the event that begins the call, and what happened in between
    was done by its children. -/
private theorem extends_call_ends {entry : Entry} {rule : Rule} (step : Step) {history : List Event}
    (hentry : reg.entries[id]? = some entry) (hwork : entry.work = .branch rule)
    (hopens : (step.call id entry.label).Opens id)
    (hparse : ∀ child s history,
      (reg.parse depth child s).Extends history reg.EndsCall fun _ _ => True) :
    (reg.callBranch depth id entry rule step).Extends history reg.EndsCall fun _ _ => True := by
  have hrun (index : Nat) (s : State) (history : List Event) :
      (runChild (reg.parse depth) entry index s).Extends history
        (fun before e => reg.EndsCall before e ∧ e.Spares id) fun _ _ => True := by
    refine extends_runChild fun child hchild => ?_
    have hlt := hdescends id entry hentry child (List.mem_of_getElem? hchild)
    have htidy := ensures_parse_tidy hg h hdescends depth child s
    exact ⟨fun heq => ⟨(hparse child s history).event heq,
      htidy.event _ (heq ▸ List.mem_append_right _ List.mem_cons_self) id hlt⟩, fun _ _ => trivial⟩
  have hscript (history : List Event) :=
    Script.extends_exec (fun _ _ => ⟨trivial, trivial⟩) hrun (rule.script (reg.view id entry) step)
      history
  have hcall : reg.EndsCall history (step.call id entry.label) := by
    cases step <;> exact trivial
  refine (Traced.extends_emit hcall).bind fun later _ _ hlater => ?_
  cases hlater
  have hinside : ((rule.script (reg.view id entry) step).exec
      (runChild (reg.parse depth) entry)).Extends (history ++ [step.call id entry.label])
        reg.EndsCall fun _ _ => True :=
    ⟨fun heq => ((hscript _).event heq).1, fun _ _ => trivial⟩
  refine hinside.recorded.bind fun later outcome houtcome hlater => ?_
  obtain ⟨rfl, -⟩ := hlater
  have hends : reg.EndsCall (history ++ [step.call id entry.label] ++
      ((rule.script (reg.view id entry) step).exec (runChild (reg.parse depth) entry)).events)
      (.left id (outcome.claim id)) := by
    intro entry' t finish hentry' hwork' hfailed
    rw [hentry] at hentry'
    cases hentry'
    rw [hwork] at hwork'
    cases hwork'
    have hfailed' : outcome.error.isSome := by simpa [Result.claim] using hfailed
    obtain ⟨k, child, slots, hstops, hlast⟩ :=
      Rule.stops_script lastLeft_runChild houtcome hfailed'
    rw [view, List.length_map] at hstops
    refine ⟨history, step, _, k, slots, List.append_assoc .., hopens, fun e he => ?_, child,
      outcome, hstops, rfl, hlast⟩
    obtain ⟨before, after, heq⟩ := List.append_of_mem he
    exact ((hscript []).event heq).2
  exact (Traced.extends_emit hends).bind fun _ _ _ _ => Traced.extends_pure trivial

/-- Whenever a sequence is left with an error in a parse, the call has failed: it has stopped at a
    child, with all slots behind that child as they were when it was called. -/
theorem extends_parse_ends (depth id : Nat) (s : State) (history : List Event) :
    (reg.parse depth id s).Extends history reg.EndsCall fun _ _ => True := by
  apply extends_parse
  · intro _ _ _
    exact trivial
  · intro _ _ _ _ _ hentry hwork
    exact ⟨endsCall_left_of_leaf hentry hwork, trivial⟩
  · intro depth id s history entry rule hentry hwork hchild
    exact extends_call_ends hg h hdescends (.descend s) hentry hwork rfl hchild

/-- A sequence that is resumed and fails has been called by that, and has stopped at the child that
    it was handed or at a later one. -/
theorem extends_resume_ends (depth : Nat) {parent index : Nat} {child : Result}
    {saved : Option Saved} (history : List Event) (hparent : reg.parent? id = some (parent, index))
    (hchild : reg.IsTidy id child) :
    (reg.resume depth parent ⟨index, child, saved⟩).Extends history reg.EndsCall
      fun _ _ => True := by
  have hchildren := extends_parse_ends hg h hdescends depth
  have hnothing := hchild.holdsNothingFor (h.hangs hparent).1
  apply extends_resume
  · intro _
    exact trivial
  · intro entry rule hentry hwork
    exact extends_call_ends hg h hdescends (.resume ⟨index, child, saved⟩) hentry hwork
      ⟨rfl, hnothing⟩ hchildren

end Prepared

end Registry

end Resync
