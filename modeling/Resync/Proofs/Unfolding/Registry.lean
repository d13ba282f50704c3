import Resync.Proofs.Unfolding.Tree

namespace Resync

/-- An entry without the place of its parser in the graph. -/
def Entry.unplaced (entry : Entry) : Entry :=
  { entry with place := 0 }

namespace Tree

/-- The identifiers of trees that are registered one after the other. -/
def childIds : (next : Nat) → List Tree → List Nat
  | _, [] => []
  | next, tree :: trees => next :: childIds (next + tree.size) trees

/-- The occurrences of a tree, numbered from an identifier on, without places. -/
def entries : (parent : Option (Nat × Nat)) → (next : Nat) → Tree → List Entry
  | parent, _, leaf l => [⟨0, l.label, .leaf l, parent, []⟩]
  | parent, next, branch label rule children =>
    ⟨0, label, .branch rule, parent, childIds (next + 1) children⟩ ::
      entriesBelow next 0 (next + 1) children
  | _, _, broken => []
where
  entriesBelow : (parent index next : Nat) → List Tree → List Entry
    | _, _, _, [] => []
    | parent, index, next, tree :: trees =>
      tree.entries (some (parent, index)) next ++
        entriesBelow parent (index + 1) (next + tree.size) trees

mutual

/-- A tree has as many occurrences as parsers. -/
theorem length_entries (parent : Option (Nat × Nat)) (next : Nat) (tree : Tree) :
    (tree.entries parent next).length = tree.size := by
  cases tree with
  | leaf l => rfl
  | branch label rule children =>
    rw [entries, size, List.length_cons, length_entriesBelow, Nat.add_comm]
  | broken => rfl

theorem length_entriesBelow (parent index next : Nat) (trees : List Tree) :
    (entries.entriesBelow parent index next trees).length = size.sizes trees := by
  cases trees with
  | nil => rfl
  | cons tree trees =>
    rw [entries.entriesBelow, size.sizes, List.length_append, length_entries, length_entriesBelow]

end

theorem size_le_sizes {tree : Tree} {trees : List Tree} (h : tree ∈ trees) :
    tree.size ≤ size.sizes trees := by
  induction trees with
  | nil => cases h
  | cons other trees ih =>
    rw [size.sizes]
    obtain rfl | h := List.mem_cons.1 h
    · exact Nat.le_add_right ..
    · exact Nat.le_trans (ih h) (Nat.le_add_left ..)

end Tree

namespace Registry

variable {g : Graph}

/-- What is registered for a place is what a tree has. -/
def RegistersAs (register : Nat × Nat → Nat → Nat → Except Fault (Nat × List Entry)) (place : Nat)
    (tree : Tree) : Prop :=
  ∀ link next id part, register link next place = .ok (id, part) →
    id = next ∧ part.map Entry.unplaced = tree.entries (some link) next

/-- The children of a branch are registered as the trees that they unfold to, from left to right. -/
theorem unplaced_registerChildren
    {register : Nat × Nat → Nat → Nat → Except Fault (Nat × List Entry)}
    {parent index next : Nat} {places ids : List Nat} {trees : List Tree} {added : List Entry}
    (hplaces : List.Forall₂ (RegistersAs register) places trees)
    (h : registerChildren register parent index next places = .ok (ids, added)) :
    ids = Tree.childIds next trees ∧
      added.map Entry.unplaced = Tree.entries.entriesBelow parent index next trees := by
  induction hplaces generalizing index next ids added with
  | nil =>
    cases h
    exact ⟨rfl, rfl⟩
  | @cons place tree places trees hplace _ ih =>
    obtain ⟨id, part, ids, others, hhead, htail, rfl, rfl⟩ := registerChildren_cons_eq_ok h
    obtain ⟨rfl, hpart⟩ := hplace _ _ _ _ hhead
    have hlength : part.length = tree.size := by
      rw [← List.length_map Entry.unplaced, hpart, Tree.length_entries]
    rw [hlength] at htail
    obtain ⟨rfl, hothers⟩ := ih htail
    refine ⟨rfl, ?_⟩
    rw [List.map_append, hpart, hothers, Tree.entries.entriesBelow]

/-- The branches that enclose a place on the walk are larger than it. -/
def Larger (g : Graph) (walking : List (Nat × Nat)) (tree : Tree) : Prop :=
  ∀ place id : Nat, walking.lookup place = some id →
    ∃ above, Unfolds g.nodes place above ∧ tree.size < above.size

/-- The walk goes from larger trees to smaller ones, so what encloses a place is larger than what it
    unfolds to. -/
theorem Larger.cons {walking : List (Nat × Nat)} {tree above : Tree} {place : Nat}
    (h : Larger g walking above) (hplace : Unfolds g.nodes place above)
    (hlt : tree.size < above.size) (id : Nat) : Larger g ((place, id) :: walking) tree := by
  intro other found hlookup
  rw [List.lookup_cons] at hlookup
  split at hlookup
  · next heq =>
    rw [beq_iff_eq.1 heq]
    exact ⟨above, hplace, hlt⟩
  · obtain ⟨higher, hother, hlt'⟩ := h other found hlookup
    exact ⟨higher, hother, Nat.lt_trans hlt hlt'⟩

/-- A place is registered as the tree that it unfolds to. No parser of a tree encloses itself, so
    the walk never meets one that it is inside of. -/
theorem unplaced_register {depth next place id : Nat} {walking : List (Nat × Nat)}
    {parent : Option (Nat × Nat)} {added : List Entry} {tree : Tree}
    (hplace : Unfolds g.nodes place tree) (hwalking : Larger g walking tree)
    (h : register g depth walking parent next place = .ok (id, added)) :
    id = next ∧ added.map Entry.unplaced = tree.entries parent next := by
  induction depth generalizing walking parent next place id added tree with
  | zero => cases h
  | succ depth ih =>
    obtain ⟨actual, hresolve, ⟨hlookup, -⟩ | ⟨rfl, leaf, hnode, rfl⟩ |
      ⟨rfl, label, rule, places, ids, below, hnode, hbelow, rfl⟩⟩ := register_cases h
    · obtain ⟨above, habove, hlt⟩ := hwalking _ _ hlookup
      rw [habove.unique (hplace.resolve hresolve)] at hlt
      exact absurd hlt (Nat.lt_irrefl _)
    · rw [(hplace.resolve hresolve).of_leaf hnode]
      exact ⟨rfl, rfl⟩
    · obtain ⟨trees, rfl, hlength, hchildren⟩ := (hplace.resolve hresolve).of_branch hnode
      have hregistered : List.Forall₂
          (RegistersAs (registerBelow g depth ((actual, id) :: walking))) places trees := by
        refine forall₂_of_getElem? hlength fun index child tree hchild htree => ?_
        intro link start other part hpart
        have hlt : tree.size < (Tree.branch label rule trees).size := by
          have hle := Tree.size_le_sizes (List.mem_of_getElem? htree)
          rw [Tree.size]
          omega
        exact ih (hchildren index child tree hchild htree)
          (hwalking.cons (hplace.resolve hresolve) hlt id) hpart
      obtain ⟨rfl, hentries⟩ := unplaced_registerChildren hregistered hbelow
      refine ⟨rfl, ?_⟩
      rw [List.map_cons, hentries]
      rfl

/-- A graph whose root unfolds to a tree has the registry of the tree, but for the places that the
    parsers happen to have. -/
theorem exists_unplaced_ofGraph {tree : Tree} (h : Unfolds g.nodes g.root tree) :
    ∃ reg, ofGraph g = .ok reg ∧ reg.entries.map Entry.unplaced = tree.entries none 0 := by
  obtain ⟨reg, hreg⟩ := exists_ofGraph h.isGrounded
  have hunfold := hreg
  unfold ofGraph at hunfold
  obtain ⟨⟨id, entries⟩, hroot, hunfold⟩ := Fault.bind_eq_ok_iff.1 hunfold
  cases hunfold
  have hwalking : Larger g [] tree := fun _ _ hlookup => nomatch hlookup
  exact ⟨_, hreg, (unplaced_register h hwalking hroot).2⟩

end Registry

end Resync
