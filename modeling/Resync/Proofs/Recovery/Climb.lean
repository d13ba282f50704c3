import Resync.Proofs.Engine.Events
import Resync.Proofs.Engine.Failure
import Resync.Proofs.Engine.Keepsakes
import Resync.Proofs.Recovery.Progress
import Resync.Proofs.Registry.Ways
import Resync.Recovery.Climb

namespace Resync

namespace Progress

variable {p : Progress} {id other : Nat}

/-- Leaving out what is kept for one branch leaves what is kept for the others. -/
private theorem lookup_filter_ne (entries : List (Nat × Saved)) (h : id ≠ other) :
    (entries.filter fun entry => entry.1 != other).lookup id = entries.lookup id := by
  induction entries with
  | nil => rfl
  | cons entry entries ih =>
    obtain ⟨key, data⟩ := entry
    by_cases hkey : key = other
    · subst hkey
      rw [List.filter_cons_of_neg (by simp), ih, List.lookup_cons, beq_false_of_ne h]
    · rw [List.filter_cons_of_pos (by simpa using hkey), List.lookup_cons, List.lookup_cons, ih]

/-- Handing out what is kept for one branch leaves what is kept for the others. -/
theorem lookup_release (h : id ≠ other) :
    (p.release other).2.salvage.lookup id = p.salvage.lookup id :=
  lookup_filter_ne p.salvage h

/-- What several branches have saved does not touch what is kept for one that is not among them. -/
private theorem lookup_keepAll {entries : List (Nat × Saved)}
    (h : ∀ entry ∈ entries, id ≠ entry.1) :
    (p.keepAll entries).salvage.lookup id = p.salvage.lookup id := by
  induction entries generalizing p with
  | nil => rfl
  | cons entry entries ih =>
    have hne := h entry List.mem_cons_self
    have hkeep : (p.keep entry.1 entry.2).salvage.lookup id = p.salvage.lookup id := by
      rw [keep, List.lookup_cons, beq_false_of_ne hne]
      exact lookup_filter_ne p.salvage hne
    rw [← hkeep]
    exact ih fun entry hentry => h entry (List.mem_cons_of_mem _ hentry)

/-- An error that saves nothing for a branch leaves what is kept for it as it is, even if it is
    listed already. -/
theorem lookup_record {e : ParseError} (h : ∀ entry ∈ e.saved, id ≠ entry.1) :
    (p.record e).salvage.lookup id = p.salvage.lookup id := by
  rw [record_salvage]
  exact lookup_keepAll h

/-- What an error saves for a branch is kept for it. An error saves one thing for each branch, so
    the later entries do not take the place of this one. -/
theorem lookup_record_of_mem {e : ParseError} {data : Saved}
    (hkeys : (e.saved.map Prod.fst).Nodup) (h : (id, data) ∈ e.saved) :
    (p.record e).salvage.lookup id = some data := by
  rw [record_salvage]
  generalize e.saved = entries at hkeys h
  induction entries generalizing p with
  | nil => cases h
  | cons entry entries ih =>
    obtain ⟨hfresh, hkeys⟩ := List.nodup_cons.1 hkeys
    obtain rfl | hlater := List.mem_cons.1 h
    · have hrest : ((p.keep id data).keepAll entries).salvage.lookup id =
          (p.keep id data).salvage.lookup id := by
        refine lookup_keepAll fun other hother heq => hfresh ?_
        exact List.mem_map.2 ⟨other, hother, heq.symm⟩
      exact hrest.trans List.lookup_cons_self
    · exact ih hkeys hlater

end Progress

namespace Session

variable {session : Session} {unwinding : Bool} {way : List (Nat × Nat)} {summit next : Summit}

/-- The first step of a climb, and the rest of it unless the climb stops there, which it does at a
    new error when it is not unwinding. -/
theorem climbThrough_cons (parent index : Nat) :
    session.climbThrough unwinding ((parent, index) :: way) summit =
      session.registry.resume session.depth parent
          ⟨index, summit.result, summit.progress.salvage.lookup parent⟩ >>= fun result =>
        if !unwinding && !result.isOk then
          pure ⟨parent, result, (summit.progress.release parent).2⟩
        else
          session.climbThrough unwinding way
            ⟨parent, result, (summit.progress.release parent).2⟩ := rfl

/-- A climb that comes somewhere has resumed the first branch on its way, with what was kept for it,
    and has stopped there or come there from it. -/
theorem climbThrough_cons_eq_ok {parent index : Nat}
    (h : (session.climbThrough unwinding ((parent, index) :: way) summit).result = .ok next) :
    ∃ result, (session.registry.resume session.depth parent
        ⟨index, summit.result, summit.progress.salvage.lookup parent⟩).result = .ok result ∧
      (if !unwinding && !result.isOk then
          next = ⟨parent, result, (summit.progress.release parent).2⟩
        else (session.climbThrough unwinding way
          ⟨parent, result, (summit.progress.release parent).2⟩).result = .ok next) := by
  rw [climbThrough_cons] at h
  obtain ⟨result, hresult, h⟩ := Traced.result_bind_eq_ok_iff.1 h
  refine ⟨result, hresult, ?_⟩
  split
  · next hstop =>
    rw [if_pos hstop] at h
    cases h
    rfl
  · next hstop => rwa [if_neg hstop] at h

/-- A climb goes on from a branch that has succeeded, whether it is unwinding or not. -/
theorem climbThrough_cons_of_isOk {parent index : Nat} {result : Result}
    (hresult : (session.registry.resume session.depth parent
        ⟨index, summit.result, summit.progress.salvage.lookup parent⟩).result = .ok result)
    (hok : result.isOk = true) :
    (session.climbThrough unwinding ((parent, index) :: way) summit).result =
      (session.climbThrough unwinding way
        ⟨parent, result, (summit.progress.release parent).2⟩).result := by
  rw [climbThrough_cons, Traced.bind_of_result_eq_ok hresult, hok, Bool.not_true, Bool.and_false,
    if_neg Bool.false_ne_true]

/-- The last step of a climb, which ends there in any case: at the root, with an error or without
    one. -/
theorem climbThrough_last {parent index : Nat} {result : Result}
    (hresult : (session.registry.resume session.depth parent
        ⟨index, summit.result, summit.progress.salvage.lookup parent⟩).result = .ok result) :
    (session.climbThrough unwinding [(parent, index)] summit).result =
      .ok ⟨parent, result, (summit.progress.release parent).2⟩ := by
  rw [climbThrough_cons, Traced.bind_of_result_eq_ok hresult]
  split <;> rfl

/-- A climb hands out only what is saved for the branches on its way. Everything else is kept for
    later rounds. -/
theorem lookup_climbThrough (h : (session.climbThrough unwinding way summit).result = .ok next)
    {id : Nat} (hid : ∀ step ∈ way, step.1 ≠ id) :
    next.progress.salvage.lookup id = summit.progress.salvage.lookup id := by
  induction way generalizing summit with
  | nil => cases h; rfl
  | cons step way ih =>
    obtain ⟨parent, index⟩ := step
    have hrelease := Progress.lookup_release (p := summit.progress)
      (Ne.symm (hid (parent, index) List.mem_cons_self))
    obtain ⟨result, -, h⟩ := climbThrough_cons_eq_ok h
    split at h
    · cases h
      exact hrelease
    · rw [ih h fun step hstep => hid step (List.mem_cons_of_mem _ hstep)]
      exact hrelease

/-- A climb asks no anchors, and remembers no answers. -/
theorem cache_climbThrough {unwinding : Bool} {way : List (Nat × Nat)} {summit next : Summit}
    (h : (session.climbThrough unwinding way summit).result = .ok next) :
    next.progress.cache = summit.progress.cache := by
  induction way generalizing summit with
  | nil => cases h; rfl
  | cons step way ih =>
    obtain ⟨result, -, h⟩ := climbThrough_cons_eq_ok h
    split at h
    · cases h
      rfl
    · have hrest := ih h
      exact hrest

/-- A branch that is resumed in a climb gets what was saved for it when the climb began. No branch
    is on the way twice, so nothing that it gets has been handed out before. -/
theorem saved_of_mem_climbThrough {g : Graph} (hlaid : session.registry.LaidOut g)
    (hway : session.registry.IsWay summit.id way) {branch : Nat} {label : String} {r : Resumption}
    (h : .resumed branch label r ∈ (session.climbThrough unwinding way summit).events) :
    branch < summit.id ∧ r.saved = summit.progress.salvage.lookup branch := by
  induction way generalizing summit with
  | nil => cases h
  | cons step way ih =>
    obtain ⟨parent, index⟩ := step
    obtain ⟨hparent, hway⟩ := hway
    have hlt : parent < summit.id := (hlaid.hangs hparent).1
    have hhere (hmem : .resumed branch label r ∈ (session.registry.resume session.depth parent
        ⟨index, summit.result, summit.progress.salvage.lookup parent⟩).events) :
        branch < summit.id ∧ r.saved = summit.progress.salvage.lookup branch := by
      obtain hparsing | ⟨_, heq⟩ := Registry.isParsing_of_mem_resume hmem
      · exact hparsing.elim
      · cases heq
        exact ⟨hlt, rfl⟩
    rw [climbThrough_cons] at h
    cases hresult : (session.registry.resume session.depth parent
        ⟨index, summit.result, summit.progress.salvage.lookup parent⟩).result with
    | error fault =>
      rw [Traced.bind_of_result_eq_error hresult] at h
      exact hhere h
    | ok result =>
      rw [Traced.bind_of_result_eq_ok hresult] at h
      obtain h | h := List.mem_append.1 h
      · exact hhere h
      · split at h
        · cases h
        · obtain ⟨hbelow, hsaved⟩ := ih hway h
          rw [hsaved]
          exact ⟨Nat.lt_trans hbelow hlt, Progress.lookup_release (Nat.ne_of_lt hbelow)⟩

/-- An unwinding climb is made in two parts. One that stops at new errors is not, as it may stop in
    the first part. -/
theorem climbThrough_append (below above : List (Nat × Nat)) :
    session.climbThrough true (below ++ above) summit =
      session.climbThrough true below summit >>= session.climbThrough true above := by
  induction below generalizing summit with
  | nil => rw [List.nil_append, climbThrough, pure_bind]
  | cons step below ih =>
    obtain ⟨parent, index⟩ := step
    rw [List.cons_append, climbThrough_cons, climbThrough_cons, bind_assoc]
    refine congrArg _ (funext fun result => ?_)
    exact ih

/-- Unwinding leaves the error of a failed outcome in it: a built-in branch that is handed a failure
    hands one up, whatever it can make of its children. -/
theorem isSome_error_climbThrough {g : Graph} (hg : g.IsBuiltIn)
    (hlaid : session.registry.LaidOut g) (hfailed : summit.result.error.isSome)
    (h : (session.climbThrough true way summit).result = .ok next) : next.result.error.isSome := by
  induction way generalizing summit with
  | nil => cases h; exact hfailed
  | cons step way ih =>
    obtain ⟨result, hresult, h⟩ := climbThrough_cons_eq_ok h
    exact ih (Registry.isSome_error_resume
      (fun hentry hwork => (hlaid.isBuiltIn hg hentry hwork).1) hfailed hresult) h

/-- Unwinding from a failed outcome runs no parser, so that it is not cut off by a bound on the
    depth or on a repetition. -/
theorem ended_climbThrough_of_failed
    (hrule : ∀ {id : Nat} {entry : Entry} {rule : Rule},
      session.registry.entries[id]? = some entry → entry.work = .branch rule → rule.IsBuiltIn)
    (hfailed : summit.result.error.isSome) :
    (session.climbThrough true way summit).Ended := by
  induction way generalizing summit with
  | nil => exact Traced.ended_pure _
  | cons step way ih =>
    rw [climbThrough_cons]
    refine (Registry.ended_resume_of_failed hrule hfailed).bind fun result hresult => ?_
    exact ih (Registry.isSome_error_resume hrule hfailed hresult)

end Session

end Resync
