import Mathlib.Logic.Basic
import Resync.Registry

namespace Resync.Registry

/-- The leaf that an occurrence is, if it is a leaf. -/
def leaf? (reg : Registry) (id : Nat) : Option Leaf :=
  match reg.entries[id]? with
  | some { work := .leaf leaf, .. } => some leaf
  | _ => none

variable {reg : Registry} {id : Nat}

/-- An occurrence has the recoverer that its leaf has in effect. Branches have none, so only leaves
    can be anchors. -/
theorem recoverer?_of_leaf {entry : Entry} {leaf : Leaf} (hentry : reg.entries[id]? = some entry)
    (hwork : entry.work = .leaf leaf) : reg.recoverer? id = leaf.effectiveRecoverer := by
  obtain ⟨_, _, work, _, _⟩ := entry
  cases hwork
  rw [recoverer?, hentry]

/-- An occurrence with a recoverer is one of a leaf, and it is the recoverer that the leaf has in
    effect. -/
theorem exists_leaf_of_recoverer? {recoverer : Recoverer} (h : reg.recoverer? id = some recoverer) :
    ∃ entry leaf, reg.entries[id]? = some entry ∧ entry.work = .leaf leaf ∧
      leaf.effectiveRecoverer = some recoverer := by
  unfold recoverer? at h
  split at h
  · next place label leaf parent children hentry =>
    exact ⟨_, leaf, hentry, rfl, h⟩
  · cases h

/-- A fast anchor has the recoverer that it is asked with, so what is computed for it is the answer
    of the occurrence. -/
theorem recoverer?_of_mem_fastAnchors {waste : State → Waste} (h : (id, waste) ∈ reg.fastAnchors) :
    reg.recoverer? id = some (.fast waste) := by
  obtain ⟨⟨entry, place⟩, hmem, heq⟩ := List.mem_filterMap.1 h
  dsimp only at heq
  split at heq
  · next leaf hwork =>
    split at heq
    · next hrecoverer =>
      cases heq
      rw [recoverer?_of_leaf (List.mem_zipIdx_iff_getElem?.1 hmem) hwork]
      exact hrecoverer
    · cases heq
  · cases heq

theorem exists_recoverer?_of_mem_fastAnchors (h : id ∈ reg.fastAnchors.map Prod.fst) :
    ∃ waste, reg.recoverer? id = some (.fast waste) := by
  obtain ⟨⟨_, waste⟩, hanchor, rfl⟩ := List.mem_map.1 h
  exact ⟨waste, recoverer?_of_mem_fastAnchors hanchor⟩

/-- A safe spot whose recoverer computes its waste is a fast anchor. -/
theorem mem_fastAnchors {entry : Entry} {leaf : Leaf} {waste : State → Waste}
    (hentry : reg.entries[id]? = some entry) (hwork : entry.work = .leaf leaf)
    (hsafe : leaf.safeSpot = true) (hrecoverer : leaf.effectiveRecoverer = some (.fast waste)) :
    (id, waste) ∈ reg.fastAnchors := by
  refine List.mem_filterMap.2 ⟨(entry, id), List.mem_zipIdx_iff_getElem?.2 hentry, ?_⟩
  dsimp only
  rw [hwork]
  dsimp only
  rw [hsafe, hrecoverer]

theorem recoverer?_of_mem_stepAnchors (h : id ∈ reg.stepAnchors) :
    reg.recoverer? id = some .step := by
  obtain ⟨⟨entry, place⟩, hmem, heq⟩ := List.mem_filterMap.1 h
  dsimp only at heq
  split at heq
  · next leaf hwork =>
    split at heq
    · next hrecoverer =>
      cases heq
      rw [recoverer?_of_leaf (List.mem_zipIdx_iff_getElem?.1 hmem) hwork]
      exact hrecoverer
    · cases heq
  · cases heq

theorem leaf?_eq_some_iff {leaf : Leaf} :
    reg.leaf? id = some leaf ↔ ∃ entry, reg.entries[id]? = some entry ∧ entry.work = .leaf leaf := by
  constructor
  · intro h
    unfold leaf? at h
    split at h
    · next hentry =>
      cases h
      exact ⟨_, hentry, rfl⟩
    · cases h
  · rintro ⟨⟨place, label, work, parent, children⟩, hentry, rfl⟩
    rw [leaf?, hentry]

theorem leaf?_of_entry {entry : Entry} {leaf : Leaf} (hentry : reg.entries[id]? = some entry)
    (hwork : entry.work = .leaf leaf) : reg.leaf? id = some leaf :=
  leaf?_eq_some_iff.2 ⟨entry, hentry, hwork⟩

/-- What is taken from the entries is in the order of their identifiers, whichever entries it is
    taken from. -/
theorem pairwise_filterMap_zipIdx {α : Type} {entries : List Entry} {f : Entry × Nat → Option α}
    {key : α → Nat} (hkey : ∀ {entry id a}, f (entry, id) = some a → key a = id) :
    ((entries.zipIdx.filterMap f).map key).Pairwise (· < ·) := by
  have hpairwise : entries.zipIdx.Pairwise fun first second => first.2 < second.2 := by
    rw [← List.pairwise_map, List.zipIdx_map_snd]
    exact List.pairwise_lt_range'
  rw [List.pairwise_map, List.pairwise_filterMap]
  refine hpairwise.imp ?_
  intro first second hlt a ha b hb
  rw [hkey ha, hkey hb]
  exact hlt

theorem effectiveRecoverer_eq_fast_iff {leaf : Leaf} (hsafe : leaf.safeSpot = true)
    {waste : State → Waste} :
    leaf.effectiveRecoverer = some (.fast waste) ↔ leaf.recoverer = some (.fast waste) := by
  rw [Leaf.effectiveRecoverer, if_pos hsafe]
  cases leaf.recoverer <;> simp

/-- A safe spot is probed if it says so, or if it says nothing. Only leaves that are no safe spots
    may be without a recoverer. -/
theorem effectiveRecoverer_eq_step_iff {leaf : Leaf} (hsafe : leaf.safeSpot = true) :
    leaf.effectiveRecoverer = some .step ↔
      leaf.recoverer = some .step ∨ leaf.recoverer = none := by
  rw [Leaf.effectiveRecoverer, if_pos hsafe]
  cases leaf.recoverer <;> simp

/-- Fast anchors are listed in the order of their identifiers, each of them once. -/
theorem pairwise_fastAnchors (reg : Registry) :
    (reg.fastAnchors.map Prod.fst).Pairwise (· < ·) := by
  refine pairwise_filterMap_zipIdx fun {entry id anchor} hanchor => ?_
  dsimp only at hanchor
  split at hanchor
  · split at hanchor
    · cases hanchor
      rfl
    · cases hanchor
  · cases hanchor

/-- Anchors that are probed are listed in the order of their identifiers, each of them once. -/
theorem pairwise_stepAnchors (reg : Registry) : reg.stepAnchors.Pairwise (· < ·) := by
  rw [← List.map_id reg.stepAnchors]
  refine pairwise_filterMap_zipIdx fun {entry id anchor} hanchor => ?_
  dsimp only at hanchor
  split at hanchor
  · split at hanchor
    · cases hanchor
      rfl
    · cases hanchor
  · cases hanchor

/-- An anchor whose waste is computed is a safe spot that has such a recoverer. Nothing else is in
    the list of fast anchors, and no such safe spot is missing. -/
theorem mem_fastAnchors_iff {waste : State → Waste} :
    (id, waste) ∈ reg.fastAnchors ↔ ∃ leaf, reg.leaf? id = some leaf ∧ leaf.safeSpot = true ∧
      leaf.recoverer = some (.fast waste) := by
  constructor
  · intro h
    obtain ⟨⟨entry, place⟩, hmem, heq⟩ := List.mem_filterMap.1 h
    dsimp only at heq
    split at heq
    · next leaf hwork =>
      split at heq
      · next hsafe hrecoverer =>
        cases heq
        exact ⟨leaf, leaf?_of_entry (List.mem_zipIdx_iff_getElem?.1 hmem) hwork, hsafe,
          (effectiveRecoverer_eq_fast_iff hsafe).1 hrecoverer⟩
      · cases heq
    · cases heq
  · rintro ⟨leaf, hleaf, hsafe, hrecoverer⟩
    obtain ⟨entry, hentry, hwork⟩ := leaf?_eq_some_iff.1 hleaf
    exact mem_fastAnchors hentry hwork hsafe ((effectiveRecoverer_eq_fast_iff hsafe).2 hrecoverer)

/-- An anchor that is probed is a safe spot without a recoverer that computes its waste. So every
    safe spot is in one of the two lists, unless it is never found. -/
theorem mem_stepAnchors_iff :
    id ∈ reg.stepAnchors ↔ ∃ leaf, reg.leaf? id = some leaf ∧ leaf.safeSpot = true ∧
      (leaf.recoverer = some .step ∨ leaf.recoverer = none) := by
  constructor
  · intro h
    obtain ⟨⟨entry, place⟩, hmem, heq⟩ := List.mem_filterMap.1 h
    dsimp only at heq
    split at heq
    · next leaf hwork =>
      split at heq
      · next hsafe hrecoverer =>
        cases heq
        exact ⟨leaf, leaf?_of_entry (List.mem_zipIdx_iff_getElem?.1 hmem) hwork, hsafe,
          (effectiveRecoverer_eq_step_iff hsafe).1 hrecoverer⟩
      · cases heq
    · cases heq
  · rintro ⟨leaf, hleaf, hsafe, hrecoverer⟩
    obtain ⟨entry, hentry, hwork⟩ := leaf?_eq_some_iff.1 hleaf
    refine List.mem_filterMap.2 ⟨(entry, id), List.mem_zipIdx_iff_getElem?.2 hentry, ?_⟩
    dsimp only
    rw [hwork]
    dsimp only
    rw [hsafe, (effectiveRecoverer_eq_step_iff hsafe).2 hrecoverer]

end Resync.Registry
