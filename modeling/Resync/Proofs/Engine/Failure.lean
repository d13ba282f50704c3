import Mathlib.Logic.Basic
import Resync.Proofs.Engine.Cursors
import Resync.Proofs.Engine.Depth

namespace Resync

namespace ParseError

@[simp]
theorem savedBy?_claim (e : ParseError) (owner id : Nat) :
    (e.claim owner).savedBy? id = e.savedBy? id :=
  rfl

private theorem lookup_map_replace {α : Type} (entries : List (Nat × α)) (id : Nat) (data : α)
    (h : (entries.lookup id).isSome) :
    (entries.map fun entry => if entry.1 = id then (id, data) else entry).lookup id =
      some data := by
  induction entries with
  | nil => cases h
  | cons entry entries ih =>
    obtain ⟨key, value⟩ := entry
    by_cases hkey : key = id
    · simp [hkey]
    · have hother : (id == key) = false := beq_eq_false_iff_ne.2 (Ne.symm hkey)
      rw [List.lookup_cons, hother] at h
      simp only [List.map_cons, if_neg hkey, List.lookup_cons, hother]
      exact ih h

/-- What was saved last is what is found, and what was saved before for the same branch is lost. -/
@[simp]
theorem savedBy?_save (e : ParseError) (id : Nat) (data : Saved) :
    (e.save id data).savedBy? id = some data := by
  rw [save, savedBy?]
  dsimp only
  split
  · next h => exact lookup_map_replace e.saved id data h
  · next h =>
    have hnone : e.saved.lookup id = none := Option.not_isSome_iff_eq_none.1 h
    rw [List.lookup_append, hnone]
    simp

end ParseError

/-- An output that was put into a slot is in it, and the other slots are as before. -/
theorem Slots.put_eq_ok {slots filled : Slots} {index : Nat} {o : Output}
    (h : slots.put index o = .ok filled) :
    index < slots.outputs.length ∧ filled = ⟨slots.outputs.set index (some o)⟩ := by
  unfold put at h
  split at h
  · next hlt =>
    cases h
    exact ⟨hlt, rfl⟩
  · cases h

namespace Script

theorem exists_of_exec_ofExcept_bind {α β : Type} {x : Except Defect α} {f : α → Script β} {b : β}
    {run : Nat → State → Traced Result} (h : ((ofExcept x >>= f).exec run).result = .ok b) :
    ∃ a, x = .ok a ∧ ((f a).exec run).result = .ok b := by
  cases x with
  | ok a => exact ⟨a, rfl, h⟩
  | error d => cases h

theorem ended_ofExcept_bind {α β : Type} {x : Except Defect α} {f : α → Script β}
    {run : Nat → State → Traced Result} (hf : ∀ a, ((f a).exec run).Ended) :
    ((ofExcept x >>= f).exec run).Ended := by
  cases x with
  | ok a => exact hf a
  | error d => exact fun hfuel => nomatch hfuel

end Script

namespace Rule

variable {view : View} {r : Resumption} {e : ParseError} {result : Result}
  {run : Nat → State → Traced Result}

/-- The error with which a sequence hands up that of a child: it saves its slots in it, with the
    output of the child in its place. -/
theorem exec_sequence_of_failed {t : Ty} {finish : Slots → Except Defect t.Val}
    (hfailed : r.child.error = some e)
    (h : (((sequence t finish).script view (.resume r)).exec run).result = .ok result) :
    r.index < (savedSequence view.labels.length r).2.outputs.length ∧
      result.error = some (e.save view.id (.sequence (savedSequence view.labels.length r).1
        ((savedSequence view.labels.length r).2.outputs.set r.index (some r.child.output)))) := by
  obtain ⟨slots, hput, h⟩ := Script.exists_of_exec_ofExcept_bind h
  rw [hfailed] at h
  obtain ⟨value, -, h⟩ := Script.exists_of_exec_ofExcept_bind h
  cases h
  obtain ⟨hlt, rfl⟩ := Slots.put_eq_ok hput
  exact ⟨hlt, rfl⟩

/-- The error with which a repetition hands up that of its child: it saves its items in it, with the
    output of the child as the last one. -/
theorem exec_many_of_failed {item : Ty} (hfailed : r.child.error = some e)
    (h : (((many item).script view (.resume r)).exec run).result = .ok result) :
    ∃ data, result.error = some (e.save view.id data) := by
  obtain ⟨value, -, h⟩ := Script.exists_of_exec_ofExcept_bind h
  rw [hfailed] at h
  cases h
  exact ⟨_, rfl⟩

/-- The other rules have nothing to save, so they hand up the error as it is, beside an output that
    they make of that of the child. -/
theorem exec_of_failed {rule : Rule} (hrule : rule.IsBuiltIn)
    (hsaves : ∀ data, ¬ rule.Saves (fun _ => True) data) (hfailed : r.child.error = some e)
    (h : ((rule.script view (.resume r)).exec run).result = .ok result) :
    result.error = some e := by
  cases rule with
  | sequence t finish => exact absurd trivial (hsaves (.sequence r.child.start []))
  | many item => exact absurd ⟨trivial, rfl⟩ (hsaves (.repetition r.child.start item []))
  | map source t f =>
    obtain ⟨value, -, h⟩ := Script.exists_of_exec_ofExcept_bind h
    cases h
    exact hfailed
  | tryMap source t f =>
    obtain ⟨value, -, h⟩ := Script.exists_of_exec_ofExcept_bind h
    rw [hfailed] at h
    cases hconverted : f value with
    | ok converted =>
      rw [hconverted] at h
      cases h
      exact hfailed
    | error message =>
      rw [hconverted] at h
      cases h
      exact hfailed
  | firstSuccess t =>
    obtain ⟨value, -, h⟩ := Script.exists_of_exec_ofExcept_bind h
    cases h
    exact hfailed
  | bespoke t script => exact hrule.elim

/-- A built-in rule does not take a failure for a success: what is resumed after a failure fails. -/
theorem isSome_error_of_failed {rule : Rule} (hrule : rule.IsBuiltIn)
    (hfailed : r.child.error.isSome)
    (h : ((rule.script view (.resume r)).exec run).result = .ok result) : result.error.isSome := by
  obtain ⟨e, he⟩ := Option.isSome_iff_exists.1 hfailed
  cases rule with
  | sequence t finish => rw [(exec_sequence_of_failed he h).2]; rfl
  | many item =>
    obtain ⟨data, hdata⟩ := exec_many_of_failed he h
    rw [hdata]
    rfl
  | bespoke t script => exact hrule.elim
  | _ => rw [exec_of_failed hrule (fun _ hsaves => hsaves.elim) he h]; rfl

/-- A built-in rule that is resumed after a failure runs nothing that could be cut off. -/
theorem ended_of_failed {rule : Rule} (hrule : rule.IsBuiltIn) (hfailed : r.child.error.isSome) :
    ((rule.script view (.resume r)).exec run).Ended := by
  obtain ⟨e, he⟩ := Option.isSome_iff_exists.1 hfailed
  cases rule with
  | sequence t finish =>
    refine Script.ended_ofExcept_bind fun slots => ?_
    rw [he]
    exact Script.ended_ofExcept_bind fun _ => Traced.ended_pure _
  | many item =>
    refine Script.ended_ofExcept_bind fun value => ?_
    rw [he]
    exact Traced.ended_pure _
  | tryMap source t f =>
    refine Script.ended_ofExcept_bind fun value => ?_
    rw [he]
    cases f value <;> exact Traced.ended_pure _
  | bespoke t script => exact hrule.elim
  | _ => exact Script.ended_ofExcept_bind fun _ => Traced.ended_pure _

end Rule

namespace Registry

variable {reg : Registry} {depth id : Nat} {r : Resumption} {result : Result}

/-- A branch that was resumed has carried out its script, and has claimed what came of it. So there
    is an occurrence with a rule, and a missing one or a leaf would have been a defect. -/
theorem exists_script_of_resume (h : (reg.resume depth id r).result = .ok result) :
    ∃ entry rule outcome, reg.entries[id]? = some entry ∧ entry.work = .branch rule ∧
      ((rule.script (reg.view id entry) (.resume r)).exec
        (runChild (reg.parse depth) entry)).result = .ok outcome ∧ result = outcome.claim id := by
  cases hentry : reg.entries[id]? with
  | none =>
    rw [resume_of_missing hentry] at h
    cases h
  | some entry =>
    cases hwork : entry.work with
    | leaf leaf =>
      rw [resume_of_leaf hentry hwork] at h
      cases h
    | branch rule =>
      rw [resume_of_branch hentry hwork] at h
      obtain ⟨_, -, h⟩ := Traced.result_bind_eq_ok_iff.1 h
      obtain ⟨outcome, hscript, h⟩ := Traced.result_bind_eq_ok_iff.1 h
      obtain ⟨_, -, h⟩ := Traced.result_bind_eq_ok_iff.1 h
      cases h
      exact ⟨entry, rule, outcome, rfl, hwork, hscript, rfl⟩

section Failed

variable (hrule : ∀ {entry : Entry} {rule : Rule}, reg.entries[id]? = some entry →
  entry.work = .branch rule → rule.IsBuiltIn) (hfailed : r.child.error.isSome)
include hrule hfailed

/-- A branch that is resumed after a failure fails, whatever it has saved. -/
theorem isSome_error_resume (h : (reg.resume depth id r).result = .ok result) :
    result.error.isSome := by
  obtain ⟨entry, rule, outcome, hentry, hwork, hscript, rfl⟩ := exists_script_of_resume h
  have houtcome := Rule.isSome_error_of_failed (hrule hentry hwork) hfailed hscript
  simpa [Result.claim] using houtcome

/-- A branch that is resumed after a failure is not cut off, as it runs nothing. -/
theorem ended_resume_of_failed : (reg.resume depth id r).Ended := by
  cases hentry : reg.entries[id]? with
  | none =>
    rw [resume_of_missing hentry]
    exact fun hfuel => nomatch hfuel
  | some entry =>
    cases hwork : entry.work with
    | leaf leaf =>
      rw [resume_of_leaf hentry hwork]
      exact fun hfuel => nomatch hfuel
    | branch rule =>
      rw [resume_of_branch hentry hwork]
      refine (Traced.ended_emit _).bind fun _ _ => ?_
      refine (Rule.ended_of_failed (hrule hentry hwork) hfailed).bind fun outcome _ => ?_
      exact (Traced.ended_emit _).bind fun _ _ => Traced.ended_pure _

end Failed

end Registry

end Resync
