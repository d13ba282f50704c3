import Mathlib.Logic.Basic
import Resync.Recovery.Progress

namespace Resync.Progress

variable (p : Progress) (e : ParseError)

@[simp]
theorem keep_cache (id : Nat) (data : Saved) : (p.keep id data).cache = p.cache := rfl

@[simp]
theorem keep_errors (id : Nat) (data : Saved) : (p.keep id data).errors = p.errors := rfl

@[simp]
theorem keep_tried (id : Nat) (data : Saved) : (p.keep id data).tried = p.tried := rfl

@[simp]
theorem release_cache (id : Nat) : (p.release id).2.cache = p.cache := rfl

@[simp]
theorem release_errors (id : Nat) : (p.release id).2.errors = p.errors := rfl

@[simp]
theorem release_tried (id : Nat) : (p.release id).2.tried = p.tried := rfl

@[simp]
theorem dropStale_cache (reg : Registry) (stop : Nat) :
    (p.dropStale reg stop).cache = p.cache := rfl

@[simp]
theorem dropStale_errors (reg : Registry) (stop : Nat) :
    (p.dropStale reg stop).errors = p.errors := rfl

@[simp]
theorem dropStale_tried (reg : Registry) (stop : Nat) :
    (p.dropStale reg stop).tried = p.tried := rfl

/-- What is found for a branch stands beside its identifier. So what is true of all that is kept is
    true of what is handed out. -/
theorem mem_of_lookup {entries : List (Nat × Saved)} {id : Nat} {data : Saved}
    (h : entries.lookup id = some data) : (id, data) ∈ entries := by
  obtain ⟨before, after, rfl, -⟩ := List.lookup_eq_some_iff.1 h
  exact List.mem_append_right _ List.mem_cons_self

/-- Keeps what several branches have saved, one after the other. -/
def keepAll (entries : List (Nat × Saved)) : Progress :=
  entries.foldl (fun p entry => p.keep entry.1 entry.2) p

variable {p} in

/-- Keeping data for branches concerns nothing else: the answers, the errors and the attempts stay
    as they are. -/
theorem keepAll_frame (entries : List (Nat × Saved)) :
    (p.keepAll entries).cache = p.cache ∧ (p.keepAll entries).errors = p.errors ∧
      (p.keepAll entries).tried = p.tried := by
  induction entries generalizing p with
  | nil => exact ⟨rfl, rfl, rfl⟩
  | cons entry entries ih => exact ih

/-- To record an error is to keep what it saves, and to list it without that unless the same
    mismatch is listed already. -/
theorem record_eq (e : ParseError) :
    p.record e =
      if (p.keepAll e.saved).knows e.withoutSaved then p.keepAll e.saved
      else { p.keepAll e.saved with errors := p.errors ++ [e.withoutSaved] } := by
  rw [← (keepAll_frame (p := p) e.saved).2.1]
  rfl

/-- Recording an error leaves the answers of the anchors as they are, so they hold for later
    rounds. -/
@[simp]
theorem record_cache : (p.record e).cache = p.cache := by
  rw [record_eq]
  split <;> exact (keepAll_frame e.saved).1

/-- Recording an error leaves the attempts as they are. They are forgotten when the next search
    begins. -/
@[simp]
theorem record_tried : (p.record e).tried = p.tried := by
  rw [record_eq]
  split <;> exact (keepAll_frame e.saved).2.2

/-- What is kept after an error is what was kept before with the saved data added, whether or not
    the error is listed. -/
@[simp]
theorem record_salvage : (p.record e).salvage = (p.keepAll e.saved).salvage := by
  rw [record_eq]
  split <;> rfl

variable {p} in

/-- What is kept for a branch was kept before or is saved in the error, so a property of both is
    kept up by recording. -/
theorem mem_salvage_record {e : ParseError} {entry : Nat × Saved}
    (h : entry ∈ (p.record e).salvage) : entry ∈ p.salvage ∨ entry ∈ e.saved := by
  rw [record_salvage] at h
  generalize e.saved = entries at h
  induction entries generalizing p with
  | nil => exact .inl h
  | cons first entries ih =>
    obtain hkept | hlater := ih h
    · obtain rfl | hold := List.mem_cons.1 hkept
      · exact .inr List.mem_cons_self
      · exact .inl (List.mem_filter.1 hold).1
    · exact .inr (List.mem_cons_of_mem _ hlater)

/-- An error without anything saved in it leaves what is kept as it is, and is only listed. -/
theorem record_salvage_of_saved_eq_nil {p : Progress} {e : ParseError} (h : e.saved = []) :
    (p.record e).salvage = p.salvage := by
  rw [record_salvage, h]
  rfl

/-- The errors that are listed were listed before, or are the one that is recorded, without what it
    has saved. -/
theorem mem_errors_record {p : Progress} {e f : ParseError} (h : f ∈ (p.record e).errors) :
    f ∈ p.errors ∨ f = e.withoutSaved := by
  rw [record_eq] at h
  split at h
  · rw [(keepAll_frame e.saved).2.1] at h
    exact .inl h
  · obtain hold | hnew := List.mem_append.1 h
    · exact .inl hold
    · exact .inr (List.mem_singleton.1 hnew)

end Resync.Progress
