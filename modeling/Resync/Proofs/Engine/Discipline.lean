import Resync.Proofs.Engine.Cursors
import Resync.Proofs.Traced.Extends

namespace Resync

/-- What branches rely on and see to, in view of the events so far. -/
structure Discipline where
  /-- The states at which a match may have begun. -/
  begins : State → Prop
  /-- The states from which a child may be run. -/
  stands : List Event → State → Prop
  /-- The outcomes that a branch may be given and give. -/
  gives : List Event → Result → Prop

namespace Discipline

/-- The ways of a branch to return something, all of them fine, if its children are run so. -/
structure KeptBy (d : Discipline) (run : Nat → State → Traced Result)
    (good : List Event → Event → Prop) (id : Nat) : Prop where
  run : ∀ {h s} index, d.stands h s →
    (run index s).Extends h good fun later c => d.gives later c ∧ d.stands later s
  proceed : ∀ {h c}, d.gives h c → c.error = none → d.stands h c.stop
  succeed : ∀ {h start s} o, d.begins start → d.stands h s → d.gives h (.success start s o)
  handUp : ∀ {h start c e data} o, d.begins start → d.gives h c → c.error = some e →
    ((∃ slots, data = .sequence start slots) ∨ ∃ item items, data = .repetition start item items) →
      d.gives h (.failure start c.stop o (e.save id data))
  convert : ∀ {h c} o, d.gives h c → d.gives h (c.withOutput o)
  reject : ∀ {h c} o message, d.gives h c → c.error = none →
    d.gives h (.failure c.start c.stop o (c.start.semanticError message))
  stall : ∀ {h start s} o message, d.begins start → d.stands h s →
    d.gives h (.failure start s o (s.semanticError message))
  refuse : ∀ {h s} o label, d.stands h s → d.gives h (.failure s s o (s.syntaxError label))

/-- What a step may hand to a branch. -/
def Admits (d : Discipline) (history : List Event) : Step → Prop
  | .descend s => d.begins s ∧ d.stands history s
  | .resume r => d.gives history r.child ∧ d.begins r.child.start ∧
      ∀ data, r.saved = some data → data.All d.begins

variable {d : Discipline} {run : Nat → State → Traced Result} {good : List Event → Event → Prop}
  {history : List Event} {id : Nat} {start s : State}

section Sequence

variable {result : Ty} {finish : Slots → Except Defect result.Val}

/-- A sequence that stops hands up the error of the child, with what it saves. -/
theorem KeptBy.stopSequence (h : d.KeptBy run good id) {c : Result} {e : ParseError} (slots : Slots)
    (hstart : d.begins start) (hc : d.gives history c) (he : c.error = some e) :
    ((Rule.stopSequence id finish start c.stop slots e).exec run).Extends history good d.gives := by
  apply Script.extends_ofExcept_bind
  intro value _
  exact Traced.extends_pure (h.handUp _ hstart hc he (.inl ⟨_, rfl⟩))

/-- A sequence keeps to a discipline, by induction on the children that are left: it goes on behind
    a success, and stops at a failure. -/
theorem KeptBy.fillSlots (h : d.KeptBy run good id) (indices : List Nat) (slots : Slots)
    (hstart : d.begins start) (hs : d.stands history s) :
    ((Rule.fillSlots id finish start indices slots s).exec run).Extends history good d.gives := by
  induction indices generalizing history slots s with
  | nil =>
    exact Script.extends_ofExcept_bind fun _ _ => Traced.extends_pure (h.succeed _ hstart hs)
  | cons index indices ih =>
    refine Script.extends_child_bind (h.run index hs) fun later c hc => ?_
    refine Script.extends_ofExcept_bind fun filled _ => ?_
    cases herror : c.error with
    | some e => exact h.stopSequence filled hstart hc.1 herror
    | none => exact ih filled (h.proceed hc.1 herror)

end Sequence

/-- A repetition keeps to a discipline, by induction on its bound: it goes on behind an item, and
    ends or stops at an attempt that fails. -/
theorem KeptBy.repeatItem (h : d.KeptBy run good id) {item : Ty} (bound : Nat)
    (items : List item.Val) (hstart : d.begins start) (hs : d.stands history s) :
    ((Rule.repeatItem id item start bound items s).exec run).Extends history good d.gives := by
  induction bound generalizing history items s with
  | zero => exact Traced.extends_fault
  | succ bound ih =>
    refine Script.extends_child_bind (h.run 0 hs) fun later c hc => ?_
    refine Script.extends_ofExcept_bind fun value _ => ?_
    cases herror : c.error with
    | some e =>
      dsimp only
      split
      · exact Traced.extends_pure (h.handUp _ hstart hc.1 herror (.inr ⟨_, _, rfl⟩))
      · exact Traced.extends_pure (h.succeed _ hstart hc.2)
    | none =>
      dsimp only
      split
      · exact Traced.extends_pure (h.stall _ _ hstart hc.2)
      · exact ih _ (h.proceed hc.1 herror)

/-- A choice keeps to a discipline, by induction on the children that are left: it takes one, or
    passes on to the next. -/
theorem KeptBy.tryChildren (h : d.KeptBy run good id) {result : Ty} {labels : List String}
    (indices : List Nat) (hs : d.stands history s) :
    ((Rule.tryChildren result labels s indices).exec run).Extends history good d.gives := by
  induction indices generalizing history with
  | nil => exact Traced.extends_pure (h.refuse _ _ hs)
  | cons index indices ih =>
    refine Script.extends_child_bind (h.run index hs) fun later c hc => ?_
    refine Script.extends_ofExcept_bind fun value _ => ?_
    split
    · exact Traced.extends_pure hc.1
    · exact ih hc.2

section Step

variable {step : Step}

/-- A rule with one child returns what that child gives, or what it is resumed with. -/
theorem KeptBy.onlyChild (h : d.KeptBy run good id) (hstep : d.Admits history step) :
    ((Rule.onlyChild step).exec run).Extends history good d.gives := by
  cases step with
  | descend s =>
    rw [Rule.onlyChild, Script.exec_child]
    exact (h.run 0 hstep.2).imp fun _ _ _ hc => hc.1
  | resume r => exact Traced.extends_pure hstep.1

/-- A sequence keeps to a discipline, whether it descends or goes on with what it has saved. In the
    second case the output of the child is put into its slot first, and a failure of it ends the
    sequence. -/
theorem KeptBy.sequenceScript (h : d.KeptBy run good id) {count : Nat} {result : Ty}
    {finish : Slots → Except Defect result.Val} (hstep : d.Admits history step) :
    ((Rule.sequenceScript id finish count step).exec run).Extends history good d.gives := by
  cases step with
  | descend s => exact h.fillSlots _ _ hstep.1 hstep.2
  | resume r =>
    obtain ⟨hchild, hfresh, hsaved⟩ := hstep
    have hstart : d.begins (Rule.savedSequence count r).1 := by
      unfold Rule.savedSequence
      split
      · next start slots heq => exact hsaved _ heq
      · exact hfresh
    refine Script.extends_ofExcept_bind fun slots _ => ?_
    cases herror : r.child.error with
    | some e => exact h.stopSequence slots hstart hchild herror
    | none => exact h.fillSlots _ _ hstart (h.proceed hchild herror)

/-- A repetition keeps to a discipline, whether it descends or goes on with what it has saved. In
    the second case the output of the child is its next item, and a failure of it ends the
    repetition. -/
theorem KeptBy.manyScript (h : d.KeptBy run good id) {item : Ty} (hstep : d.Admits history step) :
    ((Rule.manyScript id item step).exec run).Extends history good d.gives := by
  cases step with
  | descend s => exact h.repeatItem _ _ hstep.1 hstep.2
  | resume r =>
    obtain ⟨hchild, hfresh, hsaved⟩ := hstep
    have hstart : d.begins (Rule.savedRepetition item r).1 := by
      unfold Rule.savedRepetition
      split
      · next start t items heq =>
        split
        · exact hsaved _ heq
        · exact hfresh
      · exact hfresh
    refine Script.extends_ofExcept_bind fun value _ => ?_
    cases herror : r.child.error with
    | some e =>
      exact Traced.extends_pure (h.handUp _ hstart hchild herror (.inr ⟨_, _, rfl⟩))
    | none => exact h.repeatItem _ _ hstart (h.proceed hchild herror)

/-- A branch under a built-in rule keeps to a discipline that its children keep to. All that it
    can return is covered: a success, an error that it hands up, another output, or an error of
    its own. -/
theorem KeptBy.script {view : View} (h : d.KeptBy run good view.id) {rule : Rule}
    (hrule : rule.IsBuiltIn) (hstep : d.Admits history step) :
    ((rule.script view step).exec run).Extends history good d.gives := by
  have honly {f : Result → Script Result} (hf : ∀ later c, d.gives later c →
      ((f c).exec run).Extends later good d.gives) :
      ((Rule.onlyChild step >>= f).exec run).Extends history good d.gives := by
    rw [Script.exec_bind]
    exact (h.onlyChild hstep).bind fun later c _ hc => hf later c hc
  cases rule with
  | sequence result finish => exact h.sequenceScript hstep
  | map source result f =>
    refine honly fun later c hc => Script.extends_ofExcept_bind fun value _ => ?_
    exact Traced.extends_pure (h.convert _ hc)
  | tryMap source result f =>
    refine honly fun later c hc => Script.extends_ofExcept_bind fun value _ => ?_
    split
    · exact Traced.extends_pure (h.convert _ hc)
    · exact Traced.extends_pure (h.convert _ hc)
    · next herror _ => exact Traced.extends_pure (h.reject _ _ hc herror)
  | many item => exact h.manyScript hstep
  | firstSuccess result =>
    cases step with
    | descend s => exact h.tryChildren _ hstep.2
    | resume r =>
      exact Script.extends_ofExcept_bind fun _ _ => Traced.extends_pure hstep.1
  | bespoke result script => exact hrule.elim

end Step

end Discipline

end Resync
