import Mathlib.Data.List.Forall2
import Resync.Proofs.Engine.Cursors
import Resync.Proofs.Leaf.Consumption
import Resync.Proofs.Registry.Layout

namespace Resync

/-- A primitive leaf as it stands in a grammar, where it may be a safe spot. -/
def Leaf.IsOf (leaf : Leaf) (primitive : Primitive) : Prop :=
  ∃ safeSpot, leaf = { primitive.leaf with safeSpot }

/-- A primitive leaf that consumes what it matches does so as a safe spot too. -/
theorem Leaf.IsOf.consumes {leaf : Leaf} {primitive : Primitive} (h : leaf.IsOf primitive)
    (hconsumes : primitive.Consumes) : leaf.Consumes := by
  obtain ⟨safeSpot, rfl⟩ := h
  exact hconsumes.leaf

/-- Safe spot or not, a primitive leaf is found by the recoverer that it comes with. -/
theorem Leaf.IsOf.effectiveRecoverer {leaf : Leaf} {primitive : Primitive}
    (h : leaf.IsOf primitive) : leaf.effectiveRecoverer = primitive.leaf.recoverer := by
  obtain ⟨safeSpot, rfl⟩ := h
  have hsome : primitive.leaf.recoverer.isSome := by cases primitive <;> rfl
  obtain ⟨recoverer, hrecoverer⟩ := Option.isSome_iff_exists.1 hsome
  unfold Leaf.effectiveRecoverer
  cases safeSpot <;> simp [hrecoverer]

/-- A graph of built-in branches over primitive leaves of an allowed kind. -/
structure Graph.IsPrimitive (g : Graph) (allowed : Primitive → Prop) : Prop where
  leaf : ∀ {place : Nat} {leaf : Leaf}, g.nodes[place]? = some (.leaf leaf) →
    ∃ primitive, allowed primitive ∧ leaf.IsOf primitive
  branch : ∀ {place : Nat} {label : String} {rule : Rule} {children : List Nat},
    g.nodes[place]? = some (.branch label rule children) → rule.IsBuiltIn

/-- A graph over primitive leaves of one kind is one over those of a more general kind. -/
theorem Graph.IsPrimitive.imp {g : Graph} {allowed allowed' : Primitive → Prop}
    (h : g.IsPrimitive allowed) (himp : ∀ primitive, allowed primitive → allowed' primitive) :
    g.IsPrimitive allowed' where
  leaf hnode := by
    obtain ⟨primitive, hallowed, hleaf⟩ := h.leaf hnode
    exact ⟨primitive, himp primitive hallowed, hleaf⟩
  branch hnode := h.branch hnode

namespace Registry.LaidOut

variable {reg : Registry} {g : Graph} {id : Nat} {entry : Entry}

/-- An occurrence with the work of a leaf stands at the place of that leaf, so what is true of the
    leaves of a graph is true of its occurrences. -/
theorem leaf_node (h : reg.LaidOut g) {leaf : Leaf} (hentry : reg.entries[id]? = some entry)
    (hwork : entry.work = .leaf leaf) : g.nodes[entry.place]? = some (.leaf leaf) := by
  have hmirrors := h.mirrors hentry
  rw [Mirrors, hwork] at hmirrors
  exact hmirrors.1

/-- An occurrence with the work of a branch stands at the place of that branch, and its children are
    occurrences of the children of the branch. -/
theorem branch_node (h : reg.LaidOut g) {rule : Rule} (hentry : reg.entries[id]? = some entry)
    (hwork : entry.work = .branch rule) :
    ∃ places, g.nodes[entry.place]? = some (.branch entry.label rule places) ∧
      List.Forall₂ (reg.Occupies g) entry.children places := by
  have hmirrors := h.mirrors hentry
  rw [Mirrors, hwork] at hmirrors
  obtain ⟨places, hnode, hlength, hoccupies⟩ := hmirrors
  refine ⟨places, hnode, List.forall₂_iff_get.2 ⟨hlength, ?_⟩⟩
  intro index hchild hplace
  exact hoccupies (List.getElem?_eq_getElem hplace) (List.getElem?_eq_getElem hchild)

end Registry.LaidOut

end Resync
