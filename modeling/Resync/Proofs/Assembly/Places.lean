import Mathlib.Data.List.Forall2
import Mathlib.Data.List.Infix
import Resync.Grammar.Assembly

namespace Resync

variable {α : Type} {table table' : List α} {x y : α} {place : Nat}

/-- What a table says of a place stays as it is when the table grows. -/
theorem getElem?_extend (h : table <+: table') (hx : table[place]? = some x) :
    table'[place]? = some x := by
  obtain ⟨hlt, rfl⟩ := List.getElem?_eq_some_iff.1 hx
  exact List.prefix_iff_getElem?.1 h place hlt

/-- A name that has a place in a scope has an entry beside it, which is that of the place. -/
theorem exists_lookup_of_forall₂ {scope : List (String × Nat)} {names : List (String × α)}
    (h : List.Forall₂ (fun entry name => entry.1 = name.1 ∧ table[entry.2]? = some name.2)
      scope names) {name : String} (hplace : scope.lookup name = some place) :
    ∃ x, names.lookup name = some x ∧ table[place]? = some x := by
  induction h with
  | nil => cases hplace
  | @cons entry other scope names hentry _ ih =>
    obtain ⟨key, found⟩ := entry
    obtain ⟨key', x⟩ := other
    obtain ⟨rfl, hfound⟩ := hentry
    rw [List.lookup_cons] at hplace ⊢
    by_cases hkey : (name == key) = true
    · simp only [hkey, Option.some.injEq] at hplace ⊢
      exact ⟨x, rfl, hplace ▸ hfound⟩
    · simp only [hkey] at hplace ⊢
      exact ih hplace

namespace Assembly

variable {a : Assembly} {cell found : Cell}

section Adding

variable (hlength : a.cells.length = table.length)
include hlength

theorem getElem?_add (cell : Cell) (x : α) : (table ++ [x])[(a.add cell).1]? = some x := by
  change (table ++ [x])[a.cells.length]? = some x
  rw [hlength, List.getElem?_append_right (Nat.le_refl _), Nat.sub_self]
  rfl

/-- A place that has an entry is an old one, or the place of the cell that was added. -/
theorem getElem?_append_cases (hy : (table ++ [x])[place]? = some y) :
    (place < a.cells.length ∧ table[place]? = some y) ∨ (place = a.cells.length ∧ y = x) := by
  by_cases hlt : place < a.cells.length
  · rw [List.getElem?_append_left (by rw [← hlength]; exact hlt)] at hy
    exact .inl ⟨hlt, hy⟩
  · have heq : place = a.cells.length := by
      have hbound := (List.getElem?_eq_some_iff.1 hy).1
      rw [List.length_append, List.length_singleton, ← hlength] at hbound
      omega
    rw [heq, hlength, List.getElem?_append_right (Nat.le_refl _), Nat.sub_self] at hy
    exact .inr ⟨heq, (Option.some.inj hy).symm⟩

/-- When a cell is added together with its entry, the others keep theirs, so only the new one has to
    be looked at. -/
theorem add_cases (hfound : (a.add cell).2.cells[place]? = some found)
    (hy : (table ++ [x])[place]? = some y) :
    (a.cells[place]? = some found ∧ table[place]? = some y) ∨ (found = cell ∧ y = x) := by
  change (a.cells ++ [cell])[place]? = some found at hfound
  obtain ⟨hlt, hy⟩ | ⟨rfl, rfl⟩ := getElem?_append_cases hlength hy
  · rw [List.getElem?_append_left hlt] at hfound
    exact .inl ⟨hfound, hy⟩
  · rw [List.getElem?_append_right (Nat.le_refl _), Nat.sub_self] at hfound
    exact .inr ⟨(Option.some.inj hfound).symm, rfl⟩

end Adding

/-- What stands at a place after something has been put somewhere is that, or what stood there
    before. -/
theorem set_cases {other : Nat} (hfound : (a.set place cell).cells[other]? = some found) :
    (other = place ∧ found = cell) ∨ a.cells[other]? = some found := by
  change (a.cells.set place cell)[other]? = some found at hfound
  by_cases heq : place = other
  · subst heq
    obtain ⟨hlt, hvalue⟩ := List.getElem?_eq_some_iff.1 hfound
    rw [List.getElem_set_self] at hvalue
    exact .inl ⟨rfl, hvalue.symm⟩
  · rw [List.getElem?_set_ne heq] at hfound
    exact .inr hfound

end Assembly

end Resync
