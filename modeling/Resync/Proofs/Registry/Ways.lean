import Resync.Proofs.Registry.Layout

namespace Resync.Registry

/-- Each step of a way leads from an occurrence to its parent. -/
def IsWay (reg : Registry) : Nat → List (Nat × Nat) → Prop
  | _, [] => True
  | id, (parent, index) :: way => reg.parent? id = some (parent, index) ∧ reg.IsWay parent way

/-- The occurrence at the end of a way. -/
def wayEnd (id : Nat) : List (Nat × Nat) → Nat
  | [] => id
  | (parent, _) :: way => wayEnd parent way

variable {reg : Registry} {g : Graph} {id : Nat}

/-- The way up from an occurrence leads from each one to its parent, up to any limit. -/
theorem isWay_pathUp (limit id : Nat) : reg.IsWay id (reg.pathUp limit id) := by
  induction limit generalizing id with
  | zero => exact trivial
  | succ limit ih =>
    unfold pathUp
    cases hparent : reg.parent? id with
    | none => exact trivial
    | some step => exact ⟨hparent, ih step.1⟩

theorem isWay_ancestors (id : Nat) : reg.IsWay id (reg.ancestors id) :=
  isWay_pathUp id id

/-- A way is made of two ways if the second one begins where the first one ends. -/
theorem isWay_append {way others : List (Nat × Nat)} :
    reg.IsWay id (way ++ others) ↔ reg.IsWay id way ∧ reg.IsWay (wayEnd id way) others := by
  induction way generalizing id with
  | nil => simp [IsWay, wayEnd]
  | cons step way ih => simp [IsWay, wayEnd, ih, and_assoc]

/-- A way ends where it starts, if it has no step, or at one of its steps. -/
theorem wayEnd_mem (id : Nat) (way : List (Nat × Nat)) :
    wayEnd id way = id ∨ ∃ step ∈ way, step.1 = wayEnd id way := by
  induction way generalizing id with
  | nil => exact .inl rfl
  | cons step way ih =>
    obtain hend | ⟨other, hother, hend⟩ := ih step.1
    · exact .inr ⟨step, List.mem_cons_self, hend.symm⟩
    · exact .inr ⟨other, List.mem_cons_of_mem _ hother, hend⟩

/-- An occurrence on the way up from another one, and what comes before it and after it. -/
theorem exists_ancestors_eq_append {ancestor : Nat} (h : reg.isWithin id ancestor = true)
    (hne : id ≠ ancestor) :
    ∃ below index above, reg.ancestors id = below ++ (ancestor, index) :: above := by
  rw [isWithin, Bool.or_eq_true, beq_iff_eq, List.any_eq_true] at h
  obtain ⟨⟨parent, index⟩, hmem, heq⟩ := h.resolve_left hne
  obtain rfl := beq_iff_eq.1 heq
  obtain ⟨below, above, hsplit⟩ := List.append_of_mem hmem
  exact ⟨below, index, above, hsplit⟩

/-- An occurrence lies in the one at the end of any part of its way up. -/
theorem isWithin_wayEnd {below above : List (Nat × Nat)} (h : reg.ancestors id = below ++ above) :
    reg.isWithin id (wayEnd id below) = true := by
  rw [isWithin, Bool.or_eq_true, beq_iff_eq, List.any_eq_true]
  obtain hend | ⟨step, hstep, hend⟩ := wayEnd_mem id below
  · exact .inl hend.symm
  · refine .inr ⟨step, ?_, beq_iff_eq.2 hend⟩
    rw [h]
    exact List.mem_append_left _ hstep

/-- The last occurrence before an ancestor is a child of it, at the index that the way says. -/
theorem parent?_wayEnd {ancestor index : Nat} {below above : List (Nat × Nat)}
    (h : reg.ancestors id = below ++ (ancestor, index) :: above) :
    reg.parent? (wayEnd id below) = some (ancestor, index) := by
  have hway : reg.IsWay id (reg.ancestors id) := isWay_ancestors id
  rw [h, isWay_append] at hway
  exact hway.2.1

section LaidOut

variable (h : reg.LaidOut g)
include h

/-- The identifiers on a way decrease, since parents come before their children. -/
theorem LaidOut.lt_of_mem_way {way : List (Nat × Nat)} (hway : reg.IsWay id way) :
    ∀ step ∈ way, step.1 < id := by
  induction way generalizing id with
  | nil => exact fun _ hstep => nomatch hstep
  | cons head way ih =>
    obtain ⟨hparent, hway⟩ := hway
    have hlt : head.1 < id := (h.hangs hparent).1
    intro step hstep
    obtain rfl | hstep := List.mem_cons.1 hstep
    · exact hlt
    · exact Nat.lt_trans (ih hway step hstep) hlt

/-- An occurrence comes after those that it lies in, or is the same. -/
theorem LaidOut.le_of_isWithin {ancestor : Nat} (hwithin : reg.isWithin id ancestor = true) :
    ancestor ≤ id := by
  by_cases hne : id = ancestor
  · exact Nat.le_of_eq hne.symm
  · obtain ⟨below, index, above, hway⟩ := exists_ancestors_eq_append hwithin hne
    have hmem : (ancestor, index) ∈ reg.ancestors id :=
      hway ▸ List.mem_append_right _ List.mem_cons_self
    exact Nat.le_of_lt (h.lt_of_mem_way (isWay_ancestors id) _ hmem)

/-- The way of all ancestors ends at the root, so a climb that does not stop comes there. -/
theorem LaidOut.wayEnd_ancestors (hid : id < reg.size) : wayEnd id (reg.ancestors id) = 0 := by
  have hpath (limit : Nat) {id : Nat} (hid : id < reg.size) (hlimit : id ≤ limit) :
      wayEnd id (reg.pathUp limit id) = 0 := by
    induction limit generalizing id with
    | zero => exact Nat.le_zero.1 hlimit
    | succ limit ih =>
      unfold pathUp
      cases hparent : reg.parent? id with
      | none =>
        have hentry := List.getElem?_eq_getElem hid
        rw [parent?, hentry] at hparent
        exact h.top hentry hparent
      | some link =>
        have hlt : link.1 < id := (h.hangs hparent).1
        exact ih (Nat.lt_trans hlt hid) (by omega)
  exact hpath id hid (Nat.le_refl id)

end LaidOut

end Resync.Registry
