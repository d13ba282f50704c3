import Resync.Proofs.Engine.Cursors
import Resync.Proofs.Engine.Likeness

namespace Resync

namespace Script

variable {α β γ δ : Type} {run run' : Nat → State → Traced Result} {R : γ → δ → Prop}

/-- Two scripts go on from the same value, or have the same defect, if there is a step in them that
    may show one. -/
theorem agree_ofExcept_bind {x : Except Defect α} {f : α → Script γ} {g : α → Script δ}
    (hfg : ∀ a, x = .ok a → Traced.Agree R ((f a).exec run) ((g a).exec run')) :
    Traced.Agree R ((ofExcept x >>= f).exec run) ((ofExcept x >>= g).exec run') := by
  cases x with
  | ok a => exact hfg a rfl
  | error defect => exact Traced.agree_fault _

/-- Two scripts go on from scripts that agree, with values that are related. -/
theorem agree_bind {S : α → β → Prop} {x : Script α} {y : Script β} {f : α → Script γ}
    {g : β → Script δ} (h : Traced.Agree S (x.exec run) (y.exec run'))
    (hfg : ∀ a b, S a b → Traced.Agree R ((f a).exec run) ((g b).exec run')) :
    Traced.Agree R ((x >>= f).exec run) ((y >>= g).exec run') := by
  rw [exec_bind, exec_bind]
  exact h.bind fun a b _ _ hab => hfg a b hab

end Script

namespace Likeness

variable {like : Likeness} {run run' : Nat → State → Traced Result} {id : Nat}
  {start start' s t : State}

/-- Children that are run from corresponding cursors give corresponding outcomes. -/
def Runs (like : Likeness) (run run' : Nat → State → Traced Result) : Prop :=
  ∀ index {s t}, like.cursor s t → Traced.Agree like.Outcomes (run index s) (run' index t)

theorem Runs.child (h : like.Runs run run') (index : Nat) (hs : like.cursor s t) :
    Traced.Agree like.Outcomes ((Script.child index s).exec run)
      ((Script.child index t).exec run') := by
  rw [Script.exec_child, Script.exec_child]
  exact h index hs

section Sequence

variable {result : Ty} {finish : Slots → Except Defect result.Val}

private theorem agree_stopSequence {e f : ParseError} (slots : Slots)
    (hstart : like.cursor start start') (hs : like.cursor s t) (he : like.Errors e f) :
    Traced.Agree like.Outcomes ((Rule.stopSequence id finish start s slots e).exec run)
      ((Rule.stopSequence id finish start' t slots f).exec run') := by
  have hsaved := he.save id (.sequence hstart slots.outputs)
  apply Script.agree_ofExcept_bind
  intro value _
  exact Traced.agree_pure (failure_outcomes hstart hs _ hsaved)

/-- Sequences that go through their slots from corresponding cursors run corresponding children, and
    stop at corresponding errors. -/
private theorem agree_fillSlots (h : like.Runs run run') (indices : List Nat) (slots : Slots)
    (hstart : like.cursor start start') (hs : like.cursor s t) :
    Traced.Agree like.Outcomes ((Rule.fillSlots id finish start indices slots s).exec run)
      ((Rule.fillSlots id finish start' indices slots t).exec run') := by
  induction indices generalizing slots s t with
  | nil =>
    exact Script.agree_ofExcept_bind fun _ _ => Traced.agree_pure (success_outcomes hstart hs _)
  | cons index indices ih =>
    refine Script.agree_bind (h.child index hs) fun c c' hc => ?_
    rw [← hc.output]
    refine Script.agree_ofExcept_bind fun slots _ => ?_
    obtain ⟨hnone, hnone'⟩ | ⟨e, f, hsome, hsome', he⟩ := hc.error_cases
    · rw [hnone, hnone']
      exact ih slots hc.stop
    · rw [hsome, hsome']
      exact agree_stopSequence slots hstart hc.stop he

/-- What a sequence has saved is the same but for the cursor, so both go on with the same slots or
    both have the same defect. -/
private theorem savedSequence_cases (count index : Nat) {r r' : Result}
    {saved saved' : Option Saved} (hr : like.Outcomes r r')
    (hsaved : Option.Rel like.Saves saved saved') :
    like.cursor (Rule.savedSequence count ⟨index, r, saved⟩).1
        (Rule.savedSequence count ⟨index, r', saved'⟩).1 ∧
      (Rule.savedSequence count ⟨index, r, saved⟩).2 =
        (Rule.savedSequence count ⟨index, r', saved'⟩).2 := by
  cases hsaved with
  | none => exact ⟨hr.start, rfl⟩
  | some hdata =>
    cases hdata with
    | sequence hstart slots => exact ⟨hstart, rfl⟩
    | repetition hstart item items => exact ⟨hr.start, rfl⟩
    | output o => exact ⟨hr.start, rfl⟩

private theorem agree_sequenceScript (h : like.Runs run run') (count : Nat) {step step' : Step}
    (hstep : like.Steps step step') :
    Traced.Agree like.Outcomes ((Rule.sequenceScript id finish count step).exec run)
      ((Rule.sequenceScript id finish count step').exec run') := by
  cases hstep with
  | descend hs => exact agree_fillSlots h _ _ hs hs
  | @resume index r r' saved saved' hchild hsaved =>
    obtain ⟨hstart, hslots⟩ := savedSequence_cases count index hchild hsaved
    unfold Rule.sequenceScript
    dsimp only
    rw [← hslots, ← hchild.output]
    refine Script.agree_ofExcept_bind fun slots _ => ?_
    obtain ⟨hnone, hnone'⟩ | ⟨e, f, hsome, hsome', he⟩ := hchild.error_cases
    · rw [hnone, hnone']
      exact agree_fillSlots h _ slots hstart hchild.stop
    · rw [hsome, hsome']
      exact agree_stopSequence slots hstart hchild.stop he

end Sequence

section Repetition

variable {item : Ty}

private theorem agree_stopRepetition (items : List item.Val) {e f : ParseError}
    (hstart : like.cursor start start') (hs : like.cursor s t) (he : like.Errors e f) :
    like.Outcomes (Rule.stopRepetition id item start s items e)
      (Rule.stopRepetition id item start' t items f) :=
  failure_outcomes hstart hs _ (he.save id (.repetition hstart item items))

/-- Repetitions from corresponding cursors end after as many items, since what ends them is seen at
    corresponding cursors alike. -/
private theorem agree_repeatItem (h : like.Runs run run') (bound : Nat) (items : List item.Val)
    (hstart : like.cursor start start') (hs : like.cursor s t) :
    Traced.Agree like.Outcomes ((Rule.repeatItem id item start bound items s).exec run)
      ((Rule.repeatItem id item start' bound items t).exec run') := by
  induction bound generalizing items s t with
  | zero => exact Traced.agree_fault _
  | succ bound ih =>
    refine Script.agree_bind (h.child 0 hs) fun c c' hc => ?_
    rw [← hc.read_eq]
    refine Script.agree_ofExcept_bind fun value _ => ?_
    obtain ⟨hnone, hnone'⟩ | ⟨e, f, hsome, hsome', he⟩ := hc.error_cases
    · rw [hnone, hnone', ← like.pos_eq hc.stop, ← like.pos_eq hs]
      dsimp only
      split
      · exact Traced.agree_pure (failure_outcomes hstart hs _ (raise_errors hs _ _))
      · exact ih _ hc.stop
    · rw [hsome, hsome', ← crossedSafeSpotSince_eq hc.stop hs]
      dsimp only
      split
      · exact Traced.agree_pure (agree_stopRepetition items hstart hc.stop he)
      · exact Traced.agree_pure (success_outcomes hstart hs _)

/-- What a repetition has saved is the same but for the cursor, so both go on with the same items or
    both have the same defect. -/
private theorem savedRepetition_cases (item : Ty) (index : Nat) {r r' : Result}
    {saved saved' : Option Saved} (hr : like.Outcomes r r')
    (hsaved : Option.Rel like.Saves saved saved') :
    like.cursor (Rule.savedRepetition item ⟨index, r, saved⟩).1
        (Rule.savedRepetition item ⟨index, r', saved'⟩).1 ∧
      (Rule.savedRepetition item ⟨index, r, saved⟩).2 =
        (Rule.savedRepetition item ⟨index, r', saved'⟩).2 := by
  cases hsaved with
  | none => exact ⟨hr.start, rfl⟩
  | some hdata =>
    cases hdata with
    | sequence hstart slots => exact ⟨hr.start, rfl⟩
    | repetition hstart t items =>
      unfold Rule.savedRepetition
      dsimp only
      split
      · exact ⟨hstart, rfl⟩
      · exact ⟨hr.start, rfl⟩
    | output o => exact ⟨hr.start, rfl⟩

private theorem agree_manyScript (h : like.Runs run run') {step step' : Step}
    (hstep : like.Steps step step') :
    Traced.Agree like.Outcomes ((Rule.manyScript id item step).exec run)
      ((Rule.manyScript id item step').exec run') := by
  cases hstep with
  | descend hs =>
    unfold Rule.manyScript
    dsimp only
    rw [← remaining_eq hs]
    exact agree_repeatItem h _ [] hs hs
  | @resume index r r' saved saved' hchild hsaved =>
    obtain ⟨hstart, hitems⟩ := savedRepetition_cases item index hchild hsaved
    unfold Rule.manyScript
    dsimp only
    rw [← hitems, ← hchild.read_eq]
    refine Script.agree_ofExcept_bind fun value _ => ?_
    obtain ⟨hnone, hnone'⟩ | ⟨e, f, hsome, hsome', he⟩ := hchild.error_cases
    · rw [hnone, hnone', ← remaining_eq hchild.stop]
      exact agree_repeatItem h _ _ hstart hchild.stop
    · rw [hsome, hsome']
      exact Traced.agree_pure (agree_stopRepetition _ hstart hchild.stop he)

end Repetition

/-- Choices from corresponding cursors try as many children, since both see whether a safe spot was
    crossed. -/
private theorem agree_tryChildren (h : like.Runs run run') {result : Ty} (labels : List String)
    (indices : List Nat) (hs : like.cursor s t) :
    Traced.Agree like.Outcomes ((Rule.tryChildren result labels s indices).exec run)
      ((Rule.tryChildren result labels t indices).exec run') := by
  induction indices with
  | nil => exact Traced.agree_pure (failure_outcomes hs hs _ (raise_errors hs _ _))
  | cons index indices ih =>
    refine Script.agree_bind (h.child index hs) fun c c' hc => ?_
    rw [← hc.read_eq]
    refine Script.agree_ofExcept_bind fun value _ => ?_
    rw [← hc.isOk_eq, ← crossedSafeSpotSince_eq hc.stop hs]
    split
    · exact Traced.agree_pure hc
    · exact ih

section Step

variable {step step' : Step}

private theorem agree_onlyChild (h : like.Runs run run') (hstep : like.Steps step step') :
    Traced.Agree like.Outcomes ((Rule.onlyChild step).exec run)
      ((Rule.onlyChild step').exec run') := by
  cases hstep with
  | descend hs => exact h.child 0 hs
  | resume index hchild hsaved => exact Traced.agree_pure hchild

/-- A branch under a built-in rule that is called alike goes on alike, whether it descends or is
    resumed, if its children do. -/
theorem Runs.agree_script (h : like.Runs run run') {rule : Rule} (hrule : rule.IsBuiltIn)
    (view : View) (hstep : like.Steps step step') :
    Traced.Agree like.Outcomes ((rule.script view step).exec run)
      ((rule.script view step').exec run') := by
  cases rule with
  | sequence result finish => exact agree_sequenceScript h _ hstep
  | map source result f =>
    refine Script.agree_bind (agree_onlyChild h hstep) fun c c' hc => ?_
    rw [← hc.read_eq]
    exact Script.agree_ofExcept_bind fun value _ => Traced.agree_pure (hc.withOutput _)
  | tryMap source result f =>
    refine Script.agree_bind (agree_onlyChild h hstep) fun c c' hc => ?_
    rw [← hc.read_eq]
    refine Script.agree_ofExcept_bind fun value _ => ?_
    cases f value with
    | ok converted => exact Traced.agree_pure (hc.withOutput _)
    | error message =>
      obtain ⟨hnone, hnone'⟩ | ⟨e, e', hsome, hsome', he⟩ := hc.error_cases
      · rw [hnone, hnone']
        exact Traced.agree_pure (failure_outcomes hc.start hc.stop _ (raise_errors hc.start _ _))
      · rw [hsome, hsome']
        exact Traced.agree_pure (hc.withOutput _)
  | many item => exact agree_manyScript h hstep
  | firstSuccess result =>
    cases hstep with
    | descend hs => exact agree_tryChildren h _ _ hs
    | @resume index r r' saved saved' hchild hsaved =>
      change Traced.Agree like.Outcomes
        ((Script.ofExcept (r.read result) >>= fun _ => pure r).exec run)
        ((Script.ofExcept (r'.read result) >>= fun _ => pure r').exec run')
      rw [← hchild.read_eq]
      exact Script.agree_ofExcept_bind fun _ _ => Traced.agree_pure hchild
  | bespoke result script => exact hrule.elim

end Step

end Likeness

namespace Registry

variable {reg : Registry} {like : Likeness}

/-- Leaves give corresponding outcomes from corresponding cursors, and all rules are built-in. -/
structure Heeds (reg : Registry) (like : Likeness) : Prop where
  leaf : ∀ {id : Nat} {entry : Entry} {leaf : Leaf}, reg.entries[id]? = some entry →
    entry.work = .leaf leaf → ∀ {s t}, like.cursor s t →
      like.Outcomes (leaf.parse id s) (leaf.parse id t)
  branch : ∀ {id : Nat} {entry : Entry} {rule : Rule}, reg.entries[id]? = some entry →
    entry.work = .branch rule → rule.IsBuiltIn

private theorem runs_runChild {run : Nat → State → Traced Result}
    (hrun : ∀ id {s t}, like.cursor s t → Traced.Agree like.Outcomes (run id s) (run id t))
    (entry : Entry) : like.Runs (runChild run entry) (runChild run entry) := by
  intro index s t hs
  unfold runChild
  split
  · exact hrun _ hs
  · exact Traced.agree_fault _

/-- What is done between two events that are no attempts agrees if what is done in between does. -/
private theorem agree_framed {x y : Traced Result} {before before' : Event} {id : Nat}
    (hbefore : before.attempt? = before'.attempt?) (h : Traced.Agree like.Outcomes x y) :
    Traced.Agree like.Outcomes
      (do
        Traced.emit before
        let result ← x
        Traced.emit (.left id (result.claim id))
        return result.claim id)
      (do
        Traced.emit before'
        let result ← y
        Traced.emit (.left id (result.claim id))
        return result.claim id) := by
  refine (Traced.agree_emit hbefore).bind fun _ _ _ _ _ => ?_
  refine h.bind fun r r' _ _ hr => ?_
  have hleft : (Event.left id (r.claim id)).attempt? = (Event.left id (r'.claim id)).attempt? := rfl
  exact (Traced.agree_emit hleft).bind fun _ _ _ _ _ => Traced.agree_pure (hr.claim id)

/-- Parsers that are run from corresponding cursors give corresponding outcomes. By induction over
    the depth, whole occurrences agree as soon as their leaves do. -/
theorem Heeds.agree_parse (h : reg.Heeds like) (depth id : Nat) {s t : State}
    (hs : like.cursor s t) :
    Traced.Agree like.Outcomes (reg.parse depth id s) (reg.parse depth id t) := by
  induction depth generalizing id s t with
  | zero => exact Traced.agree_fault _
  | succ depth ih =>
    cases hentry : reg.entries[id]? with
    | none =>
      rw [parse_of_missing hentry, parse_of_missing hentry]
      exact ⟨rfl, .inl ⟨_, rfl, rfl⟩⟩
    | some entry =>
      cases hwork : entry.work with
      | leaf leaf =>
        rw [parse_of_leaf hentry hwork, parse_of_leaf hentry hwork]
        exact ⟨rfl, .inr ⟨_, _, rfl, rfl, h.leaf hentry hwork hs⟩⟩
      | branch rule =>
        rw [parse_of_branch hentry hwork, parse_of_branch hentry hwork]
        have hruns := runs_runChild (fun id {_ _} hs => ih id hs) entry
        exact agree_framed rfl (hruns.agree_script (h.branch hentry hwork) _ (.descend hs))

/-- Branches that are resumed alike give corresponding outcomes, if the outcomes that they are
    handed and what is saved for them correspond. Their children are parsed, so nothing is resumed
    below them. -/
theorem Heeds.agree_resume (h : reg.Heeds like) (depth id index : Nat) {r r' : Result}
    {saved saved' : Option Saved} (hr : like.Outcomes r r')
    (hsaved : Option.Rel like.Saves saved saved') :
    Traced.Agree like.Outcomes (reg.resume depth id ⟨index, r, saved⟩)
      (reg.resume depth id ⟨index, r', saved'⟩) := by
  cases hentry : reg.entries[id]? with
  | none =>
    rw [resume_of_missing hentry, resume_of_missing hentry]
    exact Traced.agree_fault _
  | some entry =>
    cases hwork : entry.work with
    | leaf leaf =>
      rw [resume_of_leaf hentry hwork, resume_of_leaf hentry hwork]
      exact ⟨rfl, .inl ⟨_, rfl, rfl⟩⟩
    | branch rule =>
      rw [resume_of_branch hentry hwork, resume_of_branch hentry hwork]
      have hruns := runs_runChild (fun id {_ _} hs => h.agree_parse depth id hs) entry
      exact agree_framed rfl
        (hruns.agree_script (h.branch hentry hwork) _ (.resume index hr hsaved))

end Registry

end Resync
