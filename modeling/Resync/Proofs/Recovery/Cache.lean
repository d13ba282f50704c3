import Mathlib.Logic.Basic
import Resync.WasteCache

namespace Resync.WasteCache

variable {cache : WasteCache} {id pos : Nat} {answer : Cached} {entry : CacheEntry}

/-- The nearest entry is one of the entries, about the same anchor, and for a question that was
    asked at the position or before it. -/
theorem mem_of_nearest? {entries : List CacheEntry} (h : nearest? id pos entries = some entry) :
    entry ∈ entries ∧ entry.id = id ∧ entry.asked ≤ pos := by
  induction entries generalizing entry with
  | nil => cases h
  | cons first entries ih =>
    unfold nearest? at h
    cases hbest : nearest? id pos entries with
    | none =>
      rw [hbest] at h
      obtain ⟨hfirst, heq⟩ := Option.ite_none_right_eq_some.1 h
      cases heq
      exact ⟨List.mem_cons_self, hfirst⟩
    | some best =>
      rw [hbest] at h
      dsimp only at h
      split at h
      · next hfirst =>
        cases h
        exact ⟨List.mem_cons_self, hfirst.1, hfirst.2.1⟩
      · cases h
        obtain ⟨hmem, hentry⟩ := ih hbest
        exact ⟨List.mem_cons_of_mem _ hmem, hentry⟩

/-- An answer was given to an earlier question about the same anchor, and still lies ahead. Nothing
    else is ever answered from a cache. -/
theorem exists_entry_of_get? (h : cache.get? id pos = some answer) :
    ∃ entry ∈ cache.entries, entry.id = id ∧ entry.asked ≤ pos ∧ entry.answer = answer ∧
      ∀ offset, answer = .anchor offset → pos ≤ offset := by
  unfold get? at h
  cases hnearest : nearest? id pos cache.entries with
  | none =>
    rw [hnearest] at h
    cases h
  | some entry =>
    rw [hnearest] at h
    dsimp only at h
    obtain ⟨hmem, hid, hasked⟩ := mem_of_nearest? hnearest
    refine ⟨entry, hmem, hid, hasked, ?_⟩
    cases hanswer : entry.answer with
    | tooMuch =>
      rw [hanswer] at h
      cases h
      exact ⟨rfl, fun _ heq => nomatch heq⟩
    | anchor offset =>
      rw [hanswer] at h
      obtain ⟨hle, heq⟩ := Option.ite_none_right_eq_some.1 h
      cases heq
      refine ⟨rfl, ?_⟩
      intro other hother
      cases hother
      exact hle

theorem nearest?_cons_of_ne {entries : List CacheEntry} (h : entry.id ≠ id) :
    nearest? id pos (entry :: entries) = nearest? id pos entries := by
  rw [nearest?]
  cases nearest? id pos entries <;> simp [h]

/-- Leaving out entries about other anchors makes no difference to this one. -/
theorem nearest?_filter {entries : List CacheEntry} {kept : CacheEntry → Bool}
    (h : ∀ entry, entry.id = id → kept entry = true) :
    nearest? id pos (entries.filter kept) = nearest? id pos entries := by
  induction entries with
  | nil => rfl
  | cons entry entries ih =>
    cases hkept : kept entry with
    | true => rw [List.filter_cons_of_pos hkept, nearest?, nearest?, ih]
    | false =>
      have hne : entry.id ≠ id := fun heq => by simp [h entry heq] at hkept
      rw [List.filter_cons_of_neg (by simp [hkept]), nearest?_cons_of_ne hne, ih]

/-- What is remembered of one anchor says nothing of the others, and takes nothing from what is
    known of them. -/
theorem get?_insert_of_ne {other asked : Nat} (h : other ≠ id) :
    (cache.insert id pos answer).get? other asked = cache.get? other asked := by
  have hnearest : nearest? other asked (cache.insert id pos answer).entries =
      nearest? other asked cache.entries := by
    unfold insert
    split
    · rw [nearest?_cons_of_ne h.symm, nearest?_filter]
      rintro entry rfl
      simp [h]
    · rfl
  rw [get?, hnearest]
  rfl

/-- Remembering adds one entry at most. What it takes out are older answers to the same question. -/
theorem mem_entries_insert (h : entry ∈ (cache.insert id pos answer).entries) :
    entry = ⟨id, pos, answer⟩ ∨ entry ∈ cache.entries := by
  unfold insert at h
  split at h
  · obtain hnew | hold := List.mem_cons.1 h
    · exact .inl hnew
    · exact .inr ((List.mem_filter.1 hold).1)
  · exact .inr h

end Resync.WasteCache
