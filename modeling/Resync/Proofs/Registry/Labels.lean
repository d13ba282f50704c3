import Resync.Proofs.Registry.Layout

namespace Resync

/-- The label of a parser. A node that only stands for another has none. -/
def Node.label : Node → String
  | .leaf l => l.label
  | .branch label _ _ => label
  | .forward _ | .unused => ""

namespace Graph

/-- The label of the parser that does the work of a place. -/
def label (g : Graph) (place : Nat) : String :=
  match g.resolve place with
  | .ok actual => (g.nodes[actual]?.map Node.label).getD ""
  | .error _ => ""

variable {g : Graph}

/-- A parser that stands for no other does its own work, whatever else is in the graph. -/
theorem resolve_eq_self {place : Nat} {node : Node} (hnode : g.nodes[place]? = some node)
    (hforward : ∀ target, node ≠ .forward target) : g.resolve place = .ok place := by
  unfold resolve follow
  rw [hnode]
  split
  · next heq => cases heq
  · next target heq => exact absurd (Option.some.inj heq) (hforward target)
  · rfl

end Graph

namespace Registry

variable {g : Graph} {reg : Registry}

/-- What holds of an occurrence of every leaf and of every branch of a graph holds of all
    occurrences that the walk adds. -/
theorem forall_mem_register {P : Entry → Prop}
    (hleaf : ∀ {place leaf} (parent : Option (Nat × Nat)), g.nodes[place]? = some (.leaf leaf) →
      P ⟨place, leaf.label, .leaf leaf, parent, []⟩)
    (hbranch : ∀ {place label rule places} (parent : Option (Nat × Nat)) (ids : List Nat),
      g.nodes[place]? = some (.branch label rule places) →
        P ⟨place, label, .branch rule, parent, ids⟩)
    {depth next place id : Nat} {walking : List (Nat × Nat)} {parent : Option (Nat × Nat)}
    {added : List Entry} (h : register g depth walking parent next place = .ok (id, added)) :
    ∀ entry ∈ added, P entry := by
  induction depth generalizing walking parent next place id added with
  | zero => cases h
  | succ depth ih =>
    have hchildren {walking : List (Nat × Nat)} {parent first next : Nat} {places ids : List Nat}
        {below : List Entry}
        (hbelow : registerChildren (registerBelow g depth walking) parent first next places =
          .ok (ids, below)) : ∀ entry ∈ below, P entry := by
      induction places generalizing first next ids below with
      | nil =>
        cases hbelow
        exact fun _ hentry => nomatch hentry
      | cons place places ihplaces =>
        obtain ⟨id, part, ids, others, hhead, htail, rfl, rfl⟩ := registerChildren_cons_eq_ok hbelow
        intro entry hentry
        obtain hentry | hentry := List.mem_append.1 hentry
        · exact ih hhead entry hentry
        · exact ihplaces htail entry hentry
    obtain ⟨actual, -, ⟨-, rfl⟩ | ⟨-, leaf, hnode, rfl⟩ |
      ⟨-, label, rule, places, ids, below, hnode, hbelow, rfl⟩⟩ := register_cases h
    · exact fun _ hentry => nomatch hentry
    · intro entry hentry
      cases List.mem_singleton.1 hentry
      exact hleaf parent hnode
    · intro entry hentry
      obtain rfl | hentry := List.mem_cons.1 hentry
      · exact hbranch parent ids hnode
      · exact hchildren hbelow entry hentry

/-- An occurrence has the label of the parser at its place. So a branch knows its children by the
    same names in the registry as in the graph. -/
theorem label_eq_of_ofGraph (h : ofGraph g = .ok reg) {id place : Nat}
    (hoccupies : reg.Occupies g id place) : reg.label id = g.label place := by
  unfold ofGraph at h
  obtain ⟨⟨root, entries⟩, hroot, h⟩ := Fault.bind_eq_ok_iff.1 h
  cases h
  obtain ⟨entry, hentry, hresolve⟩ := hoccupies
  have hlabel : (g.nodes[entry.place]?.map Node.label) = some entry.label := by
    refine forall_mem_register
      (P := fun entry => (g.nodes[entry.place]?.map Node.label) = some entry.label)
      ?_ ?_ hroot entry (List.mem_of_getElem? hentry)
    · intro place leaf parent hnode
      simp only [hnode, Option.map_some, Node.label]
    · intro place label rule places parent ids hnode
      simp only [hnode, Option.map_some, Node.label]
  rw [label, hentry, Graph.label, hresolve]
  dsimp only
  rw [hlabel, Option.getD_some]

end Registry

end Resync
