import Resync.Proofs.Engine.Cursors
import Resync.Proofs.Engine.Steps
import Resync.Proofs.Leaf.Indifference
import Resync.Rule.Bespoke

namespace Resync

open Traced (Rebudgets rebudgets_pure rebudgets_fault rebudgets_emit)

namespace Script

variable {α β γ δ : Type} {maxErrors : Nat} {run run' : Nat → State → Traced Result}

/-- Children that do under another budget what they do under the first one. -/
def RunsRebudgeted (maxErrors : Nat) (run run' : Nat → State → Traced Result) : Prop :=
  ∀ index s, Rebudgets maxErrors (·.withMaxErrors maxErrors) (run index s)
    (run' index (s.withMaxErrors maxErrors))

/-- Two scripts go on alike after a child, which gives the same outcome but for the budget. -/
theorem RunsRebudgeted.child_bind (h : RunsRebudgeted maxErrors run run') {change : α → β}
    {f : Result → Script α} {g : Result → Script β} (index : Nat) (s : State)
    (hfg : ∀ r, Rebudgets maxErrors change ((f r).exec run)
      ((g (r.withMaxErrors maxErrors)).exec run')) :
    Rebudgets maxErrors change ((child index s >>= f).exec run)
      ((child index (s.withMaxErrors maxErrors) >>= g).exec run') := by
  rw [exec_bind, exec_bind, exec_child, exec_child]
  exact (h index s).bind hfg

/-- Two scripts go on alike from the same value, or have the same defect. -/
theorem rebudgets_ofExcept_bind {x : Except Defect γ} {change : α → β} {f : γ → Script α}
    {g : γ → Script β} (hfg : ∀ c, Rebudgets maxErrors change ((f c).exec run) ((g c).exec run')) :
    Rebudgets maxErrors change ((ofExcept x >>= f).exec run) ((ofExcept x >>= g).exec run') := by
  cases x with
  | ok c => exact hfg c
  | error defect => exact rebudgets_fault _

/-- Two scripts make the same remark and go on alike, as a remark shows no cursor. -/
theorem rebudgets_remark_bind {line : String} {change : α → β} {f : Unit → Script α}
    {g : Unit → Script β}
    (hfg : Rebudgets maxErrors change ((f ()).exec run) ((g ()).exec run')) :
    Rebudgets maxErrors change ((remark line >>= f).exec run) ((remark line >>= g).exec run') :=
  (rebudgets_emit (.noted line)).bind fun _ => hfg

/-- Two scripts take the same way, since what decides it does not depend on the budget. -/
theorem rebudgets_ite {p q : Prop} [Decidable p] [Decidable q] (hiff : q ↔ p) {change : α → β}
    {x y : Script α} {x' y' : Script β} (hx : Rebudgets maxErrors change (x.exec run) (x'.exec run'))
    (hy : Rebudgets maxErrors change (y.exec run) (y'.exec run')) :
    Rebudgets maxErrors change ((if p then x else y).exec run)
      ((if q then x' else y').exec run') := by
  by_cases hp : p
  · rw [if_pos hp, if_pos (hiff.2 hp)]
    exact hx
  · rw [if_neg hp, if_neg (mt hiff.1 hp)]
    exact hy

end Script

/-- A rule that does not read the error budget: called under another budget, with children that do
    the same under it, a branch does the same. The built-in rules are of this kind, and it is only
    rules with a script of their own for which this has to be asked. -/
def Rule.IgnoresBudget (rule : Rule) : Prop :=
  ∀ {maxErrors : Nat} {run run' : Nat → State → Traced Result},
    Script.RunsRebudgeted maxErrors run run' → ∀ (view : View) (step : Step),
      Rebudgets maxErrors (·.withMaxErrors maxErrors) ((rule.script view step).exec run)
        ((rule.script view (step.withMaxErrors maxErrors)).exec run')

namespace Rule

variable {maxErrors : Nat} {run run' : Nat → State → Traced Result}
  (h : Script.RunsRebudgeted maxErrors run run') {id : Nat}

section Sequence

variable {result : Ty} {finish : Slots → Except Defect result.Val}

private theorem rebudgets_stopSequence (start stop : State) (slots : Slots) (e : ParseError) :
    Rebudgets maxErrors (·.withMaxErrors maxErrors)
      ((stopSequence id finish start stop slots e).exec run)
      ((stopSequence id finish (start.withMaxErrors maxErrors) (stop.withMaxErrors maxErrors) slots
        (e.withMaxErrors maxErrors)).exec run') := by
  refine Script.rebudgets_ofExcept_bind fun value => rebudgets_pure ?_
  have hsave := e.save_withMaxErrors maxErrors id (.sequence start slots.outputs)
  exact congrArg (Result.failure _ _ ⟨result, value⟩) hsave

include h

/-- A sequence puts the same outputs into its slots under any budget. The induction is on the
    children that are left to be run. -/
private theorem rebudgets_fillSlots (start : State) (indices : List Nat) (slots : Slots) (s : State) :
    Rebudgets maxErrors (·.withMaxErrors maxErrors)
      ((fillSlots id finish start indices slots s).exec run)
      ((fillSlots id finish (start.withMaxErrors maxErrors) indices slots
        (s.withMaxErrors maxErrors)).exec run') := by
  induction indices generalizing slots s with
  | nil => exact Script.rebudgets_ofExcept_bind fun _ => rebudgets_pure rfl
  | cons index indices ih =>
    refine h.child_bind index s fun child => Script.rebudgets_ofExcept_bind fun slots => ?_
    obtain ⟨childStart, stop, output, error⟩ := child
    cases error with
    | none => exact ih slots stop
    | some e => exact rebudgets_stopSequence start stop slots e

omit h in
/-- What a resumed sequence has saved is the same but for the budget that its start shows. -/
private theorem savedSequence_withMaxErrors (count : Nat) (r : Resumption) :
    savedSequence count (r.withMaxErrors maxErrors) =
      ((savedSequence count r).1.withMaxErrors maxErrors, (savedSequence count r).2) := by
  obtain ⟨index, child, saved⟩ := r
  cases saved with
  | none => rfl
  | some data => cases data <;> rfl

private theorem rebudgets_sequenceScript (count : Nat) (step : Step) :
    Rebudgets maxErrors (·.withMaxErrors maxErrors)
      ((sequenceScript id finish count step).exec run)
      ((sequenceScript id finish count (step.withMaxErrors maxErrors)).exec run') := by
  cases step with
  | descend s => exact rebudgets_fillSlots h s _ _ s
  | resume r =>
    dsimp only [Step.withMaxErrors, sequenceScript]
    rw [savedSequence_withMaxErrors]
    refine Script.rebudgets_ofExcept_bind fun slots => ?_
    obtain ⟨index, ⟨childStart, stop, output, error⟩, saved⟩ := r
    cases error with
    | none => exact rebudgets_fillSlots h _ _ slots stop
    | some e => exact rebudgets_stopSequence _ stop slots e

end Sequence

section Repetition

variable {item : Ty}

private theorem stopRepetition_withMaxErrors (start stop : State) (items : List item.Val)
    (e : ParseError) :
    stopRepetition id item (start.withMaxErrors maxErrors) (stop.withMaxErrors maxErrors) items
        (e.withMaxErrors maxErrors) =
      (stopRepetition id item start stop items e).withMaxErrors maxErrors := by
  have hsave := e.save_withMaxErrors maxErrors id (.repetition start item items)
  exact congrArg (Result.failure _ _ ⟨.list item, items⟩) hsave

include h

/-- A repetition comes to the same items under any budget. The induction is on its bound, which
    depends on the size of the input alone. -/
private theorem rebudgets_repeatItem (start : State) (bound : Nat) (items : List item.Val)
    (s : State) :
    Rebudgets maxErrors (·.withMaxErrors maxErrors)
      ((repeatItem id item start bound items s).exec run)
      ((repeatItem id item (start.withMaxErrors maxErrors) bound items
        (s.withMaxErrors maxErrors)).exec run') := by
  induction bound generalizing items s with
  | zero => exact rebudgets_fault _
  | succ bound ih =>
    refine h.child_bind 0 s fun child => Script.rebudgets_ofExcept_bind fun value => ?_
    obtain ⟨childStart, stop, output, error⟩ := child
    cases error with
    | none => exact Script.rebudgets_ite Iff.rfl (rebudgets_pure rfl) (ih (items ++ [value]) stop)
    | some e =>
      refine Script.rebudgets_ite Iff.rfl (rebudgets_pure ?_) (rebudgets_pure rfl)
      exact stopRepetition_withMaxErrors start stop items e

omit h in
/-- What a resumed repetition has saved is the same but for the budget that its start shows. -/
private theorem savedRepetition_withMaxErrors (item : Ty) (r : Resumption) :
    savedRepetition item (r.withMaxErrors maxErrors) =
      ((savedRepetition item r).1.withMaxErrors maxErrors, (savedRepetition item r).2) := by
  obtain ⟨index, child, saved⟩ := r
  cases saved with
  | none => rfl
  | some data =>
    cases data with
    | sequence start slots => rfl
    | repetition start t items =>
      unfold savedRepetition
      dsimp only [Resumption.withMaxErrors, Option.map, Saved.withMaxErrors]
      split <;> rfl
    | output o => rfl

private theorem rebudgets_manyScript (step : Step) :
    Rebudgets maxErrors (·.withMaxErrors maxErrors)
      ((manyScript id item step).exec run)
      ((manyScript id item (step.withMaxErrors maxErrors)).exec run') := by
  cases step with
  | descend s => exact rebudgets_repeatItem h s _ [] s
  | resume r =>
    dsimp only [Step.withMaxErrors, manyScript]
    rw [savedRepetition_withMaxErrors]
    refine Script.rebudgets_ofExcept_bind fun value => ?_
    obtain ⟨index, ⟨childStart, stop, output, error⟩, saved⟩ := r
    cases error with
    | none => exact rebudgets_repeatItem h _ _ _ stop
    | some e => exact rebudgets_pure (stopRepetition_withMaxErrors _ stop _ e)

end Repetition

include h

/-- A choice takes the same child under any budget, as that depends on errors and watermarks
    alone. -/
private theorem rebudgets_tryChildren {result : Ty} (labels : List String) (s : State)
    (indices : List Nat) :
    Rebudgets maxErrors (·.withMaxErrors maxErrors)
      ((tryChildren result labels s indices).exec run)
      ((tryChildren result labels (s.withMaxErrors maxErrors) indices).exec run') := by
  induction indices with
  | nil => exact rebudgets_pure rfl
  | cons index indices ih =>
    refine h.child_bind index s fun child => Script.rebudgets_ofExcept_bind fun value => ?_
    rw [Result.isOk_withMaxErrors]
    exact Script.rebudgets_ite Iff.rfl (rebudgets_pure rfl) ih

private theorem rebudgets_onlyChild_bind {f g : Result → Script Result}
    (hfg : ∀ r, Rebudgets maxErrors (·.withMaxErrors maxErrors) ((f r).exec run)
      ((g (r.withMaxErrors maxErrors)).exec run')) (step : Step) :
    Rebudgets maxErrors (·.withMaxErrors maxErrors) ((onlyChild step >>= f).exec run)
      ((onlyChild (step.withMaxErrors maxErrors) >>= g).exec run') := by
  cases step with
  | descend s => exact h.child_bind 0 s hfg
  | resume r => exact hfg r.child

omit h

/-- The built-in rules read positions, watermarks and outputs, and never the budget. So a registry
    ignores the budget if its leaves and its rules of free choice do. -/
theorem IsBuiltIn.ignoresBudget {rule : Rule} (hrule : rule.IsBuiltIn) : rule.IgnoresBudget := by
  intro maxErrors run run' h view step
  cases rule with
  | sequence result finish => exact rebudgets_sequenceScript h _ step
  | map source result f =>
    refine rebudgets_onlyChild_bind h (fun child => ?_) step
    exact Script.rebudgets_ofExcept_bind fun value => rebudgets_pure rfl
  | tryMap source result f =>
    refine rebudgets_onlyChild_bind h (fun child => ?_) step
    refine Script.rebudgets_ofExcept_bind fun value => ?_
    obtain ⟨start, stop, output, error⟩ := child
    cases error with
    | none => cases f value <;> exact rebudgets_pure rfl
    | some e => cases f value <;> exact rebudgets_pure rfl
  | many item => exact rebudgets_manyScript h step
  | firstSuccess result =>
    cases step with
    | descend s => exact rebudgets_tryChildren h view.labels s _
    | resume r => exact Script.rebudgets_ofExcept_bind fun _ => rebudgets_pure rfl
  | bespoke result script => exact hrule.elim

section Bespoke

include h

/-- A child that is run and then read as plain data, which does not show the budget. -/
private theorem rebudgets_child_readData (expected : Option Ty) (index : Nat) (s : State)
    {f g : Result → Data → Script Result}
    (hfg : ∀ r d, Rebudgets maxErrors (·.withMaxErrors maxErrors) ((f r d).exec run)
      ((g (r.withMaxErrors maxErrors) d).exec run')) :
    Rebudgets maxErrors (·.withMaxErrors maxErrors)
      ((Script.child index s >>= fun r => readData expected r >>= f r).exec run)
      ((Script.child index (s.withMaxErrors maxErrors) >>= fun r =>
        readData expected r >>= g r).exec run') := by
  refine h.child_bind index s fun r => ?_
  have hread : Rebudgets maxErrors id ((readData expected r).exec run)
      ((readData expected (r.withMaxErrors maxErrors)).exec run') := by
    cases expected with
    | none => exact rebudgets_pure rfl
    | some t => exact Script.rebudgets_ofExcept_bind fun value => rebudgets_pure rfl
  rw [Script.exec_bind, Script.exec_bind]
  exact hread.bind fun d => hfg r d

/-- Children that are run one after the other to be looked at come to the same under any budget. -/
private theorem rebudgets_inspectChildren (indices : List Nat) (s : State) :
    Rebudgets maxErrors
      (fun found => (found.1.withMaxErrors maxErrors, found.2.map (·.withMaxErrors maxErrors)))
      ((inspectChildren indices s).exec run)
      ((inspectChildren indices (s.withMaxErrors maxErrors)).exec run') := by
  induction indices generalizing s with
  | nil => exact rebudgets_pure rfl
  | cons index indices ih =>
    refine h.child_bind index s fun child => ?_
    rw [Diagnostic.ofExtent_withMaxErrors]
    refine Script.rebudgets_remark_bind ?_
    obtain ⟨start, stop, output, error⟩ := child
    cases error with
    | none => exact ih stop
    | some e => exact rebudgets_pure rfl

omit h

theorem pair_ignoresBudget (expected : Option Ty) (savesText : Bool) :
    (pair expected savesText).IgnoresBudget := by
  intro maxErrors run run' h view step
  cases step with
  | resume r =>
    have hsaved : savedData? (r.withMaxErrors maxErrors) = savedData? r := by
      obtain ⟨index, child, saved⟩ := r
      cases saved with
      | none => rfl
      | some data => cases data <;> rfl
    dsimp only [pair, script, Step.withMaxErrors]
    rw [hsaved]
    exact Script.rebudgets_remark_bind (rebudgets_pure rfl)
  | descend s =>
    refine Script.rebudgets_remark_bind ?_
    refine rebudgets_child_readData h expected 0 s fun first a => ?_
    refine Script.rebudgets_ite (by rw [Result.isOk_withMaxErrors]) ?_ (rebudgets_pure rfl)
    refine rebudgets_child_readData h none 1 first.stop fun second b => rebudgets_pure ?_
    obtain ⟨start, stop, output, error⟩ := second
    cases error with
    | none => rfl
    | some e =>
      have hsave (o : Output) := e.save_withMaxErrors maxErrors view.id (.output o)
      exact congrArg (Result.failure _ _ _) (hsave _)

theorem rejecting_ignoresBudget (expected : Option Ty) (message : String) :
    (rejecting expected message).IgnoresBudget := by
  intro maxErrors run run' h view step
  cases step with
  | resume r => exact rebudgets_pure rfl
  | descend s => exact rebudgets_child_readData h expected 0 s fun child d => rebudgets_pure rfl

theorem optional_ignoresBudget (expected : Option Ty) : (optional expected).IgnoresBudget := by
  intro maxErrors run run' h view step
  cases step with
  | resume r => exact rebudgets_pure rfl
  | descend s =>
    refine rebudgets_child_readData h expected 0 s fun child d => ?_
    rw [Result.isOk_withMaxErrors]
    exact Script.rebudgets_ite Iff.rfl (rebudgets_pure rfl) (rebudgets_pure rfl)

theorem lookahead_ignoresBudget (expected : Option Ty) : (lookahead expected).IgnoresBudget := by
  intro maxErrors run run' h view step
  cases step with
  | resume r => exact rebudgets_pure rfl
  | descend s => exact rebudgets_child_readData h expected 0 s fun child d => rebudgets_pure rfl

theorem inspecting_ignoresBudget : inspecting.IgnoresBudget := by
  intro maxErrors run run' h view step
  cases step with
  | resume r => exact rebudgets_pure rfl
  | descend s =>
    dsimp only [inspecting, script, Step.withMaxErrors]
    rw [Script.exec_bind, Script.exec_bind]
    exact (rebudgets_inspectChildren h _ s).bind fun found => rebudgets_pure rfl

end Bespoke

end Rule

namespace Registry

/-- No leaf and no rule of the registry reads the error budget. -/
structure IgnoresBudget (reg : Registry) : Prop where
  leaf : ∀ {id : Nat} {entry : Entry} {leaf : Leaf}, reg.entries[id]? = some entry →
    entry.work = .leaf leaf → leaf.IgnoresBudget
  branch : ∀ {id : Nat} {entry : Entry} {rule : Rule}, reg.entries[id]? = some entry →
    entry.work = .branch rule → rule.IgnoresBudget

variable {reg : Registry} {maxErrors : Nat}

private theorem runsRebudgeted_runChild {run : Nat → State → Traced Result}
    (hrun : ∀ id s, Rebudgets maxErrors (·.withMaxErrors maxErrors) (run id s)
      (run id (s.withMaxErrors maxErrors))) (entry : Entry) :
    Script.RunsRebudgeted maxErrors (runChild run entry) (runChild run entry) := by
  intro index s
  unfold runChild
  split
  · exact hrun _ s
  · exact rebudgets_fault _

/-- What a branch does between the event of its call and that of its return is the same if its
    script is, as both events show the same but for the budget. -/
private theorem rebudgets_framed {x y : Traced Result} (id : Nat) {before before' : Event}
    (hbefore : before' = before.withMaxErrors maxErrors)
    (h : Rebudgets maxErrors (·.withMaxErrors maxErrors) x y) :
    Rebudgets maxErrors (·.withMaxErrors maxErrors)
      (do
        Traced.emit before
        let result ← x
        Traced.emit (.left id (result.claim id))
        return result.claim id)
      (do
        Traced.emit before'
        let result ← y
        Traced.emit (.left id (result.claim id))
        return result.claim id) := by
  subst hbefore
  refine (rebudgets_emit before).bind fun _ => h.bind fun r => ?_
  rw [Result.claim_withMaxErrors]
  exact (rebudgets_emit (.left id (r.claim id))).bind fun _ => rebudgets_pure rfl

/-- An occurrence does the same under any error budget. By induction on the depth: a leaf does by
    assumption, and the children of a branch do by the hypothesis of the induction. -/
theorem IgnoresBudget.rebudgets_parse (h : reg.IgnoresBudget) (depth id : Nat) (s : State) :
    Rebudgets maxErrors (·.withMaxErrors maxErrors) (reg.parse depth id s)
      (reg.parse depth id (s.withMaxErrors maxErrors)) := by
  induction depth generalizing id s with
  | zero => exact rebudgets_fault _
  | succ depth ih =>
    cases hentry : reg.entries[id]? with
    | none =>
      rw [parse_of_missing hentry, parse_of_missing hentry]
      exact ⟨rfl, rfl⟩
    | some entry =>
      cases hwork : entry.work with
      | leaf leaf =>
        rw [parse_of_leaf hentry hwork, parse_of_leaf hentry hwork,
          (h.leaf hentry hwork).parse id s maxErrors]
        exact ⟨rfl, rfl⟩
      | branch rule =>
        rw [parse_of_branch hentry hwork, parse_of_branch hentry hwork]
        have hruns := runsRebudgeted_runChild (fun id s => ih id s) entry
        exact rebudgets_framed id rfl
          (h.branch hentry hwork hruns (reg.view id entry) (.descend s))

/-- A branch goes on the same after one of its children under any error budget, with the outcome of
    the child and what is saved showing the other one. -/
theorem IgnoresBudget.rebudgets_resume (h : reg.IgnoresBudget) (depth id : Nat) (r : Resumption) :
    Rebudgets maxErrors (·.withMaxErrors maxErrors) (reg.resume depth id r)
      (reg.resume depth id (r.withMaxErrors maxErrors)) := by
  cases hentry : reg.entries[id]? with
  | none =>
    rw [resume_of_missing hentry, resume_of_missing hentry]
    exact rebudgets_fault _
  | some entry =>
    cases hwork : entry.work with
    | leaf leaf =>
      rw [resume_of_leaf hentry hwork, resume_of_leaf hentry hwork]
      exact ⟨rfl, rfl⟩
    | branch rule =>
      rw [resume_of_branch hentry hwork, resume_of_branch hentry hwork]
      have hruns : Script.RunsRebudgeted maxErrors (runChild (reg.parse depth) entry)
          (runChild (reg.parse depth) entry) :=
        runsRebudgeted_runChild (fun id s => h.rebudgets_parse depth id s) entry
      exact rebudgets_framed id rfl (h.branch hentry hwork hruns (reg.view id entry) (.resume r))

end Registry

end Resync
