import Resync.Leaf.Primitive
import Resync.Proofs.Registry.Anchors
import Resync.Proofs.Registry.Ending
import Resync.Proofs.Registry.Numbering

namespace Resync.Registry

/-- A registry whose identifiers, links and anchors are those of a walk over a graph. -/
structure WellFormed (reg : Registry) (g : Graph) : Prop where
  /-- The root comes first and has no parent. -/
  root : reg.Occupies g 0 g.root ∧ reg.parent? 0 = none
  /-- The identifiers are given in the order of the walk. -/
  preorder : reg.preorder reg.size 0 = List.range reg.size
  /-- Every other occurrence hangs from a branch that comes before it. -/
  parent : ∀ {id : Nat}, 0 < id → id < reg.size → ∃ branch index entry rule,
    reg.parent? id = some (branch, index) ∧ branch < id ∧ reg.entries[branch]? = some entry ∧
      entry.work = .branch rule ∧ entry.children[index]? = some id
  /-- A child is the parser that its branch has there, and hangs from the branch or encloses it. -/
  branch : ∀ {id : Nat} {entry : Entry} {rule : Rule}, reg.entries[id]? = some entry →
    entry.work = .branch rule → ∃ places,
      g.nodes[entry.place]? = some (.branch entry.label rule places) ∧
      entry.children.length = places.length ∧ ∀ {index place child : Nat},
        places[index]? = some place → entry.children[index]? = some child →
          reg.Occupies g child place ∧
            (reg.parent? child = some (id, index) ∨ reg.isWithin id child = true)
  /-- A leaf is the one of its place and has no children. -/
  leaf : ∀ {id : Nat} {entry : Entry} {leaf : Leaf}, reg.entries[id]? = some entry →
    entry.work = .leaf leaf → g.nodes[entry.place]? = some (.leaf leaf) ∧ entry.children = []
  /-- The anchors whose waste is computed are the safe spots with such a recoverer, in order. -/
  fastAnchors : (reg.fastAnchors.map Prod.fst).Pairwise (· < ·) ∧ ∀ {id : Nat} {waste : State → Waste},
    (id, waste) ∈ reg.fastAnchors ↔ ∃ leaf, reg.leaf? id = some leaf ∧ leaf.safeSpot = true ∧
      leaf.recoverer = some (.fast waste)
  /-- The anchors that are probed are all other safe spots, in order. -/
  stepAnchors : reg.stepAnchors.Pairwise (· < ·) ∧ ∀ {id : Nat},
    id ∈ reg.stepAnchors ↔ ∃ leaf, reg.leaf? id = some leaf ∧ leaf.safeSpot = true ∧
      (leaf.recoverer = some .step ∨ leaf.recoverer = none)

variable {reg : Registry} {g : Graph}

/-- The root hangs from nothing. -/
theorem LaidOut.parent?_zero (h : reg.LaidOut g) : reg.parent? 0 = none := by
  cases hparent : reg.parent? 0 with
  | none => rfl
  | some link => exact absurd (h.hangs hparent).1 (Nat.not_lt_zero _)

/-- An occurrence after the root hangs from a branch before it, and is the child of it that its link
    says. -/
theorem LaidOut.exists_parent (h : reg.LaidOut g) {id : Nat} (hpos : 0 < id) (hid : id < reg.size) :
    ∃ branch index entry rule, reg.parent? id = some (branch, index) ∧ branch < id ∧
      reg.entries[branch]? = some entry ∧ entry.work = .branch rule ∧
        entry.children[index]? = some id := by
  have hself : reg.entries[id]? = some reg.entries[id] := List.getElem?_eq_getElem hid
  cases hparent : reg.parent? id with
  | none =>
    rw [parent?, hself] at hparent
    exact absurd (h.top hself hparent) (Nat.ne_of_gt hpos)
  | some link =>
    obtain ⟨hlt, entry, hentry, hchild⟩ := h.hangs hparent
    have hmirrors := h.mirrors hentry
    rw [Mirrors] at hmirrors
    cases hwork : entry.work with
    | leaf leaf =>
      rw [hwork] at hmirrors
      rw [hmirrors.2] at hchild
      cases hchild
    | branch rule => exact ⟨link.1, link.2, entry, rule, rfl, hlt, hentry, hwork, hchild⟩

/-- The registry of a graph is well-formed. The layout gives the work and the links, the numbering
    gives the order, and the lists of anchors are read off the entries. -/
theorem wellFormed_ofGraph (h : ofGraph g = .ok reg) : reg.WellFormed g where
  root := ⟨(laidOut_ofGraph h).root, (laidOut_ofGraph h).parent?_zero⟩
  preorder := preorder_ofGraph h
  parent := (laidOut_ofGraph h).exists_parent
  branch {id entry rule} hentry hwork := by
    have hmirrors := (laidOut_ofGraph h).mirrors hentry
    rw [Mirrors, hwork] at hmirrors
    obtain ⟨places, hnode, hlength, hchildren⟩ := hmirrors
    exact ⟨places, hnode, hlength, fun hplace hchild =>
      ⟨hchildren hplace hchild, hangsOrEncloses_ofGraph h hentry _ _ hchild⟩⟩
  leaf {id entry leaf} hentry hwork := by
    have hmirrors := (laidOut_ofGraph h).mirrors hentry
    rw [Mirrors, hwork] at hmirrors
    exact hmirrors
  fastAnchors := ⟨pairwise_fastAnchors reg, mem_fastAnchors_iff⟩
  stepAnchors := ⟨pairwise_stepAnchors reg, mem_stepAnchors_iff⟩

/-- A graph in which no cycle consists of forwarding nodes only has a registry, and it is
    well-formed. -/
theorem exists_wellFormed (g : Graph) (hg : g.IsGrounded) :
    ∃ reg, ofGraph g = .ok reg ∧ reg.WellFormed g := by
  obtain ⟨reg, hreg⟩ := exists_ofGraph hg
  exact ⟨reg, hreg, wellFormed_ofGraph hreg⟩

/-- A choice between a letter and, through a forwarding node, the choice itself. -/
def circular : Graph where
  nodes := [.branch "first_success" (.firstSuccess .char) [1, 2],
    .leaf { (Primitive.char 'x').leaf with safeSpot := true }, .forward 0]
  root := 2

theorem circular_forwards {place target : Nat} (h : circular.Forwards place target) :
    place = 2 ∧ target = 0 := by
  match place, h with
  | 2, rfl => exact ⟨rfl, rfl⟩

/-- The cycle of the example goes through a choice, so it does not consist of forwarding nodes
    only. -/
theorem circular_isGrounded : circular.IsGrounded where
  built {place} hplace := by
    have hlt : place < 3 := by
      induction hplace with
      | root => decide
      | forward _ hforwards =>
        obtain ⟨-, rfl⟩ := circular_forwards hforwards
        decide
      | @child place child _ _ _ _ hnode hchild =>
        match place, hnode with
        | 0, hnode =>
          cases hnode
          obtain rfl | rfl : child = 1 ∨ child = 2 := by simpa using hchild
          · decide
          · decide
        | 1, hnode => cases hnode
        | 2, hnode => cases hnode
    match place, hlt with
    | 0, _ => exact ⟨_, rfl, trivial⟩
    | 1, _ => exact ⟨_, rfl, trivial⟩
    | 2, _ => exact ⟨_, rfl, trivial⟩
  acyclic {place} _ hcycle := by
    obtain ⟨target, hfirst, -⟩ := Relation.TransGen.head'_iff.1 hcycle
    obtain ⟨source, -, hlast⟩ := Relation.TransGen.tail'_iff.1 hcycle
    have hstart := (circular_forwards hfirst).1
    have hend := (circular_forwards hlast).2
    omega

theorem exists_wellFormed_circular :
    circular.IsGrounded ∧ ∃ reg, ofGraph circular = .ok reg ∧ reg.WellFormed circular :=
  ⟨circular_isGrounded, exists_wellFormed circular circular_isGrounded⟩

end Resync.Registry
