import Resync.Proofs.Engine.Errors

namespace Resync

/-- An outcome hands up an error, whatever the error carries. -/
def Result.HandsUp (r : Result) (e : ParseError) : Prop :=
  ∃ f, r.error = some f ∧ f.withoutSaved = e.withoutSaved

/-- A graph of built-in branches, over any leaves. -/
def Graph.HasBuiltInRules (g : Graph) : Prop :=
  ∀ {place : Nat} {label : String} {rule : Rule} {children : List Nat},
    g.nodes[place]? = some (.branch label rule children) → rule.IsBuiltIn

/-- An error that is owned is not claimed by anyone else. -/
theorem ParseError.claim_of_isSome_owner (e : ParseError) (h : e.owner.isSome) (id : Nat) :
    e.claim id = e := by
  obtain ⟨owner, howner⟩ := Option.isSome_iff_exists.1 h
  cases e
  cases howner
  rfl

variable {e : ParseError} {r : Result}

theorem Result.HandsUp.withOutput (h : r.HandsUp e) (o : Output) :
    (r.withOutput o).HandsUp e := h

/-- An error that is owned already stays as it is when an outcome is claimed. -/
theorem Result.HandsUp.claim (h : r.HandsUp e) (howner : e.owner.isSome) (id : Nat) :
    (r.claim id).HandsUp e := by
  obtain ⟨f, hf, hsame⟩ := h
  have hfowner := congrArg ParseError.owner hsame
  change f.owner = e.owner at hfowner
  refine ⟨f, ?_, hsame⟩
  rw [Result.claim, hf, Option.map_some, f.claim_of_isSome_owner (hfowner ▸ howner) id]

/-- Claiming leaves no error without an owner, so errors that are handed up are owned. -/
theorem Result.isClaimed_claim (r : Result) (id : Nat) : (r.claim id).IsClaimed := by
  intro f hf
  obtain ⟨f, -, rfl⟩ := Option.map_eq_some_iff.1 hf
  exact f.isSome_owner_claim id

theorem Leaf.isClaimed_parse (leaf : Leaf) (id : Nat) (s : State) :
    (leaf.parse id s).IsClaimed := by
  unfold Leaf.parse
  cases leaf.run s with
  | ok found => exact fun f hf => nomatch hf
  | error f =>
    intro f' hf'
    cases hf'
    exact f.isSome_owner_claim id

namespace Rule

/-- No child is asked for anything, and only a defect stops the script. -/
private def idle : Script.Terms where
  ask _ _ := False
  answer _ _ _ := True
  note _ := False
  fault f := ∃ d, f = .defect d

/-- A built-in rule forwards the failure of a child: it runs no child and makes no remark, and the
    error is the same but for what the branch saves in it. -/
theorem meets_script_of_failed {rule : Rule} (hrule : rule.IsBuiltIn) (view : View)
    {resumption : Resumption} (hfails : resumption.child.HandsUp e) :
    (rule.script view (.resume resumption)).Meets idle fun result => result.HandsUp e := by
  obtain ⟨f, hf, hsame⟩ := hfails
  have hchild : resumption.child.HandsUp e := ⟨f, hf, hsame⟩
  have hdefect (d : Defect) : idle.fault (.defect d) := ⟨d, rfl⟩
  cases rule with
  | sequence t finish =>
    refine Script.meets_ofExcept_bind (fun d _ => hdefect d) fun slots _ => ?_
    rw [hf]
    refine Script.meets_ofExcept_bind (fun d _ => hdefect d) fun value _ => ?_
    exact ⟨_, rfl, hsame⟩
  | map source t g =>
    exact Script.meets_ofExcept_bind (fun d _ => hdefect d) fun value _ => hchild.withOutput _
  | tryMap source t g =>
    refine Script.meets_ofExcept_bind (fun d _ => hdefect d) fun value _ => ?_
    rw [hf]
    cases g value <;> exact hchild.withOutput _
  | many item =>
    refine Script.meets_ofExcept_bind (fun d _ => hdefect d) fun value _ => ?_
    rw [hf]
    exact ⟨_, rfl, hsame⟩
  | firstSuccess t =>
    exact Script.meets_ofExcept_bind (fun d _ => hdefect d) fun _ _ => hchild
  | bespoke t script => exact hrule.elim

end Rule

namespace Registry

variable {reg : Registry} {g : Graph} {id : Nat}

theorem LaidOut.rule_isBuiltIn (hlaid : reg.LaidOut g) (hg : g.HasBuiltInRules) {entry : Entry}
    {rule : Rule} (hentry : reg.entries[id]? = some entry) (hwork : entry.work = .branch rule) :
    rule.IsBuiltIn := by
  have hmirrors := hlaid.mirrors hentry
  rw [Mirrors, hwork] at hmirrors
  obtain ⟨places, hnode, -⟩ := hmirrors
  exact hg hnode

/-- The parent of an occurrence is a branch, so climbing does not come to a leaf. -/
theorem LaidOut.exists_rule_of_parent (hlaid : reg.LaidOut g) {parent index : Nat}
    (hparent : reg.parent? id = some (parent, index)) :
    ∃ entry rule, reg.entries[parent]? = some entry ∧ entry.work = .branch rule := by
  obtain ⟨-, entry, hentry, hchild⟩ := hlaid.hangs hparent
  cases hwork : entry.work with
  | branch rule => exact ⟨entry, rule, hentry, hwork⟩
  | leaf leaf =>
    -- a leaf has no children
    have hmirrors := hlaid.mirrors hentry
    rw [Mirrors, hwork] at hmirrors
    rw [hmirrors.2] at hchild
    cases hchild

/-- A branch that is resumed after a failing child leaves with its error at once, or a defect shows.
    Nothing else happens. -/
theorem resume_of_failed {entry : Entry} {rule : Rule} (hentry : reg.entries[id]? = some entry)
    (hwork : entry.work = .branch rule) (hrule : rule.IsBuiltIn) (hfails : r.HandsUp e)
    (howner : e.owner.isSome) (depth index : Nat) (saved : Option Saved) :
    (∃ result, result.HandsUp e ∧ reg.resume depth id ⟨index, r, saved⟩ =
        ⟨[.resumed id entry.label ⟨index, r, saved⟩, .left id result], .ok result⟩) ∨
      ∃ d, reg.resume depth id ⟨index, r, saved⟩ =
        ⟨[.resumed id entry.label ⟨index, r, saved⟩], .error (.defect d)⟩ := by
  have hensures : ((rule.script (reg.view id entry) (.resume ⟨index, r, saved⟩)).exec
      (runChild (reg.parse depth) entry)).Ensures (fun _ => False) _ _ :=
    (Rule.meets_script_of_failed hrule (reg.view id entry) hfails).ensures_exec
      (fun _ hnote => hnote) fun _ _ hask => hask.elim
  have hquiet := List.eq_nil_iff_forall_not_mem.2 hensures.event
  have hresumed : (Traced.emit (.resumed id entry.label ⟨index, r, saved⟩)).result = .ok () := rfl
  rw [resume_of_branch hentry hwork, Traced.bind_of_result_eq_ok hresumed]
  cases hscript : ((rule.script (reg.view id entry) (.resume ⟨index, r, saved⟩)).exec
      (runChild (reg.parse depth) entry)).result with
  | ok outcome =>
    rw [Traced.bind_of_result_eq_ok hscript, hquiet]
    exact .inl ⟨outcome.claim id, (hensures.value outcome hscript).claim howner id, rfl⟩
  | error fault =>
    obtain ⟨d, rfl⟩ := hensures.fault fault hscript
    rw [Traced.bind_of_result_eq_error hscript, hquiet]
    exact .inr ⟨d, rfl⟩

/-- Whatever an occurrence leaves with is claimed, by itself or by one below it, since claiming is
    the last that an occurrence does. -/
theorem isClaimed_parse {depth : Nat} {s : State} (h : (reg.parse depth id s).result = .ok r) :
    r.IsClaimed := by
  cases depth with
  | zero => cases h
  | succ depth =>
    cases hentry : reg.entries[id]? with
    | none =>
      rw [parse_of_missing hentry] at h
      cases h
    | some entry =>
      cases hwork : entry.work with
      | leaf leaf =>
        rw [parse_of_leaf hentry hwork] at h
        cases h
        exact Leaf.isClaimed_parse leaf id s
      | branch rule =>
        rw [parse_of_branch hentry hwork] at h
        obtain ⟨_, -, h⟩ := Traced.result_bind_eq_ok_iff.1 h
        obtain ⟨outcome, -, h⟩ := Traced.result_bind_eq_ok_iff.1 h
        obtain ⟨_, -, h⟩ := Traced.result_bind_eq_ok_iff.1 h
        cases h
        exact outcome.isClaimed_claim id

/-- Whatever a resumed branch leaves with is claimed. -/
theorem isClaimed_resume {depth : Nat} {resumption : Resumption}
    (h : (reg.resume depth id resumption).result = .ok r) : r.IsClaimed := by
  obtain ⟨_, _, outcome, -, -, -, rfl⟩ := exists_script_of_resume h
  exact outcome.isClaimed_claim id

end Registry

end Resync
