import Mathlib.Logic.Basic
import Resync.Proofs.Engine.Cursors
import Resync.Proofs.Typing.Grammar

namespace Resync

/-- Slots that were saved hold outputs of the types of the children. -/
def Saved.Suits (types : List Ty) : Saved → Prop
  | sequence _ slots => Slots.HaveTypes ⟨slots⟩ types
  | repetition _ _ _ | output _ => True

/-- An outcome has an output of a type, and what is saved in its error has a property. -/
structure Result.HasType (S : Nat → Saved → Prop) (r : Result) (t : Ty) : Prop where
  type_eq : r.output.type = t
  saved : ∀ {e}, r.error = some e → ∀ entry ∈ e.saved, S entry.1 entry.2

namespace Result

variable {S : Nat → Saved → Prop} {r : Result} {t : Ty} {start stop : State}

theorem exists_read_eq_ok (h : r.output.type = t) : ∃ value, r.read t = .ok value := by
  obtain ⟨value, hvalue⟩ := Output.exists_as?_eq_some h.symm
  exact ⟨value, by simp only [read, hvalue]⟩

theorem hasType_success (value : t.Val) : (success start stop ⟨t, value⟩).HasType S t :=
  ⟨rfl, fun he => nomatch he⟩

/-- A failure has the type of the output that it comes with, which may be a placeholder. -/
theorem hasType_failure (value : t.Val) {e : ParseError}
    (he : ∀ entry ∈ e.saved, S entry.1 entry.2) :
    (failure start stop ⟨t, value⟩ e).HasType S t := by
  refine ⟨rfl, fun hfailed => ?_⟩
  cases hfailed
  exact he

/-- A new error has nothing saved in it, so nothing of a wrong type either. -/
theorem hasType_errorHere (value : t.Val) (s : State) (kind : ErrorKind) (message : String) :
    (failure start stop ⟨t, value⟩ (s.errorHere kind message)).HasType S t :=
  hasType_failure value fun _ hentry => nomatch hentry

theorem HasType.withOutput {u : Ty} (h : r.HasType S t) (value : u.Val) :
    (r.withOutput ⟨u, value⟩).HasType S u :=
  ⟨rfl, h.saved⟩

theorem HasType.claim (h : r.HasType S t) (id : Nat) : (r.claim id).HasType S t := by
  refine ⟨h.type_eq, fun he => ?_⟩
  obtain ⟨old, hold, rfl⟩ := Option.map_eq_some_iff.1 he
  have hsaved : ∀ entry ∈ old.saved, S entry.1 entry.2 := h.saved hold
  exact hsaved

theorem HasType.withoutSaved (h : r.HasType S t) (e : ParseError) :
    HasType S { r with error := some e.withoutSaved } t := by
  refine ⟨h.type_eq, fun he => ?_⟩
  cases he
  exact fun _ hentry => nomatch hentry

/-- What a branch saves joins what was saved below it, and both have the property. -/
theorem forall_mem_saved_save {e : ParseError} {id : Nat} {data : Saved}
    (he : ∀ entry ∈ e.saved, S entry.1 entry.2) (hdata : S id data) :
    ∀ entry ∈ (e.save id data).saved, S entry.1 entry.2 := by
  intro entry hentry
  obtain hold | rfl := ParseError.mem_saved_save hentry
  · exact he entry hold
  · exact hdata

end Result

/-- Terms under which each child may be run and gives an output of its type. -/
structure Script.Terms.Typed (terms : Terms) (types : List Ty) (S : Nat → Saved → Prop) : Prop where
  ask : ∀ {index : Nat} (s : State), index < types.length → terms.ask index s
  answer : ∀ {index : Nat} {s : State} {r : Result} {t : Ty}, types[index]? = some t →
    terms.answer index s r → r.HasType S t
  exhausted : terms.fault .outOfFuel

theorem Script.meets_ofExcept_bind_of_eq_ok {α β : Type} {terms : Terms} {goal : β → Prop}
    {x : Except Defect α} {f : α → Script β} {a : α} (h : x = .ok a)
    (hf : (f a).Meets terms goal) : (ofExcept x >>= f).Meets terms goal := by
  subst h
  exact hf

namespace Rule

variable {S : Nat → Saved → Prop} {terms : Script.Terms} {types : List Ty} {id : Nat}

section Sequence

variable {result : Ty} {finish : Slots → Except Defect result.Val} {start : State} {slots : Slots}

theorem meets_stopSequence_typed (hfinish : Slots.Takes types finish)
    (hslots : slots.HaveTypes types) (hsave : ∀ data : Saved, data.Suits types → S id data)
    (stop : State) {e : ParseError}
    (he : ∀ entry ∈ e.saved, S entry.1 entry.2) :
    (stopSequence id finish start stop slots e).Meets terms fun r => r.HasType S result := by
  obtain ⟨value, hvalue⟩ := hfinish.exists_eq_ok hslots
  refine Script.meets_ofExcept_bind_of_eq_ok hvalue ?_
  exact Result.hasType_failure value
    (Result.forall_mem_saved_save he (hsave (.sequence start slots.outputs) hslots))

theorem meets_fillSlots_typed (h : terms.Typed types S) (hfinish : Slots.Takes types finish)
    (hsave : ∀ data : Saved, data.Suits types → S id data) (indices : List Nat)
    (hindices : ∀ index ∈ indices, index < types.length) (hslots : slots.HaveTypes types)
    (s : State) :
    (fillSlots id finish start indices slots s).Meets terms fun r => r.HasType S result := by
  induction indices generalizing slots s with
  | nil =>
    obtain ⟨value, hvalue⟩ := hfinish.exists_eq_ok hslots
    refine Script.meets_ofExcept_bind_of_eq_ok hvalue ?_
    exact Result.hasType_success value
  | cons index indices ih =>
    have hlt := hindices index List.mem_cons_self
    apply Script.meets_child_bind (h.ask s hlt)
    intro child hchild
    have ht := List.getElem?_eq_getElem hlt
    have htyped := h.answer ht hchild
    rw [← htyped.type_eq] at ht
    obtain ⟨filled, hput, hfilled⟩ := hslots.put ht
    refine Script.meets_ofExcept_bind_of_eq_ok hput ?_
    cases herror : child.error with
    | some e => exact meets_stopSequence_typed hfinish hfilled hsave _ (htyped.saved herror)
    | none =>
      apply ih _ hfilled
      intro index hindex
      exact hindices index (List.mem_cons_of_mem _ hindex)

end Sequence

theorem meets_repeatItem_typed {item : Ty} (h : terms.Typed [item] S)
    (hsave : ∀ start items, S id (.repetition start item items)) (start : State) (bound : Nat)
    (items : List item.Val) (s : State) :
    (repeatItem id item start bound items s).Meets terms fun r => r.HasType S (.list item) := by
  induction bound generalizing items s with
  | zero => exact h.exhausted
  | succ bound ih =>
    apply Script.meets_child_bind (h.ask s Nat.one_pos)
    intro child hchild
    have htyped : child.HasType S item := h.answer rfl hchild
    obtain ⟨value, hvalue⟩ := Result.exists_read_eq_ok htyped.type_eq
    refine Script.meets_ofExcept_bind_of_eq_ok hvalue ?_
    cases herror : child.error with
    | some e =>
      dsimp only
      split
      · exact Result.hasType_failure _
          (Result.forall_mem_saved_save (htyped.saved herror) (hsave start items))
      · exact Result.hasType_success _
    | none =>
      dsimp only
      split
      · exact Result.hasType_errorHere _ s _ _
      · exact ih _ _

theorem meets_tryChildren_typed {result : Ty} (h : terms.Typed types S)
    (htypes : ∀ t ∈ types, t = result) (labels : List String) (s : State) (indices : List Nat)
    (hindices : ∀ index ∈ indices, index < types.length) :
    (tryChildren result labels s indices).Meets terms fun r => r.HasType S result := by
  induction indices with
  | nil => exact Result.hasType_errorHere _ s _ _
  | cons index indices ih =>
    have hlt := hindices index List.mem_cons_self
    apply Script.meets_child_bind (h.ask s hlt)
    intro child hchild
    have htyped := h.answer (List.getElem?_eq_getElem hlt) hchild
    rw [htypes _ (List.getElem_mem hlt)] at htyped
    obtain ⟨value, hvalue⟩ := Result.exists_read_eq_ok htyped.type_eq
    refine Script.meets_ofExcept_bind_of_eq_ok hvalue ?_
    split
    · exact htyped
    · apply ih
      intro index hindex
      exact hindices index (List.mem_cons_of_mem _ hindex)

/-- A step comes with an outcome of the child's type, and with data that the branch saved. -/
def IsTyped (types : List Ty) (S : Nat → Saved → Prop) (id : Nat) : Step → Prop
  | .descend _ => True
  | .resume r => (∃ t, types[r.index]? = some t ∧ r.child.HasType S t) ∧
      ∀ data, r.saved = some data → S id data

variable {step : Step}

theorem meets_onlyChild_typed {t : Ty} (h : terms.Typed [t] S) (hstep : IsTyped [t] S id step) :
    (onlyChild step).Meets terms fun r => r.HasType S t := by
  cases step with
  | descend s => exact ⟨h.ask s Nat.one_pos, fun r hr => h.answer rfl hr⟩
  | resume r =>
    obtain ⟨⟨u, hu, htyped⟩, -⟩ := hstep
    have hmem := List.mem_of_getElem? hu
    rw [List.mem_singleton.1 hmem] at htyped
    exact htyped

theorem meets_sequenceScript_typed (h : terms.Typed types S) {result : Ty}
    {finish : Slots → Except Defect result.Val} (hfinish : Slots.Takes types finish)
    (hsaved : ∀ data : Saved, S id data ↔ data.Suits types) (hstep : IsTyped types S id step) :
    (sequenceScript id finish types.length step).Meets terms fun r => r.HasType S result := by
  have hsave (data : Saved) (hdata : data.Suits types) : S id data := (hsaved data).2 hdata
  cases step with
  | descend s =>
    refine meets_fillSlots_typed h hfinish hsave _ (fun index hindex => ?_)
      (Slots.haveTypes_empty types) s
    exact List.mem_range.1 hindex
  | resume r =>
    obtain ⟨⟨t, ht, htyped⟩, hdata⟩ := hstep
    have hslots : (savedSequence types.length r).2.HaveTypes types := by
      unfold savedSequence
      split
      · next start slots heq => exact (hsaved _).1 (hdata _ heq)
      · exact Slots.haveTypes_empty types
    rw [← htyped.type_eq] at ht
    obtain ⟨filled, hput, hfilled⟩ := hslots.put ht
    refine Script.meets_ofExcept_bind_of_eq_ok hput ?_
    cases herror : r.child.error with
    | some e => exact meets_stopSequence_typed hfinish hfilled hsave _ (htyped.saved herror)
    | none =>
      apply meets_fillSlots_typed h hfinish hsave _ _ hfilled
      intro index hindex
      have hbounds := List.mem_range'_1.1 hindex
      have hlt := (List.getElem?_eq_some_iff.1 ht).1
      omega

theorem meets_manyScript_typed {item : Ty} (h : terms.Typed [item] S)
    (hsave : ∀ start items, S id (.repetition start item items))
    (hstep : IsTyped [item] S id step) :
    (manyScript id item step).Meets terms fun r => r.HasType S (.list item) := by
  cases step with
  | descend s => exact meets_repeatItem_typed h hsave s _ _ s
  | resume r =>
    obtain ⟨⟨t, ht, htyped⟩, -⟩ := hstep
    have hmem := List.mem_of_getElem? ht
    rw [List.mem_singleton.1 hmem] at htyped
    obtain ⟨value, hvalue⟩ := Result.exists_read_eq_ok htyped.type_eq
    refine Script.meets_ofExcept_bind_of_eq_ok hvalue ?_
    cases herror : r.child.error with
    | some e =>
      exact Result.hasType_failure _
        (Result.forall_mem_saved_save (htyped.saved herror) (hsave _ _))
    | none => exact meets_repeatItem_typed h hsave _ _ _ _

/-- A built-in rule that reads its children at their types meets no defect, and gives an output of
    its own type. -/
theorem meets_script_typed {rule : Rule} (h : terms.Typed types S) (hreads : rule.Reads types)
    (view : View) (hcount : view.labels.length = types.length)
    (hsaved : ∀ data : Saved, S view.id data ↔ data.Suits types) (step : Step)
    (hstep : IsTyped types S view.id step) :
    (rule.script view step).Meets terms fun r => r.HasType S rule.resultType := by
  cases rule with
  | sequence result finish =>
    change (sequenceScript view.id finish view.labels.length step).Meets terms _
    rw [hcount]
    exact meets_sequenceScript_typed h hreads hsaved hstep
  | map source result f =>
    cases hreads
    apply (meets_onlyChild_typed h hstep).bind
    intro child htyped
    obtain ⟨value, hvalue⟩ := Result.exists_read_eq_ok htyped.type_eq
    exact Script.meets_ofExcept_bind_of_eq_ok hvalue (htyped.withOutput _)
  | tryMap source result f =>
    cases hreads
    apply (meets_onlyChild_typed h hstep).bind
    intro child htyped
    obtain ⟨value, hvalue⟩ := Result.exists_read_eq_ok htyped.type_eq
    refine Script.meets_ofExcept_bind_of_eq_ok hvalue ?_
    split
    · exact htyped.withOutput _
    · exact htyped.withOutput _
    · exact Result.hasType_errorHere _ _ _ _
  | many item =>
    cases hreads
    exact meets_manyScript_typed h (fun _ _ => (hsaved _).2 trivial) hstep
  | firstSuccess result =>
    cases step with
    | descend s =>
      apply meets_tryChildren_typed h hreads _ s _
      intro index hindex
      rw [← hcount]
      exact List.mem_range.1 hindex
    | resume r =>
      obtain ⟨⟨t, ht, htyped⟩, -⟩ := hstep
      rw [hreads t (List.mem_of_getElem? ht)] at htyped
      obtain ⟨value, hvalue⟩ := Result.exists_read_eq_ok htyped.type_eq
      exact Script.meets_ofExcept_bind_of_eq_ok hvalue htyped
  | bespoke result script => exact hreads.elim

end Rule

end Resync
