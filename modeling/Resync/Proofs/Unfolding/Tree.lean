import Mathlib.Data.List.Forall2
import Resync.Grammar
import Resync.Proofs.Registry.Ending

namespace Resync

/-- A grammar with every parser in its place. -/
inductive Tree where
  | leaf (leaf : Leaf)
  | branch (label : String) (rule : Rule) (children : List Tree)
  /-- What cannot be built. -/
  | broken

namespace Tree

/-- The number of parsers of a tree. -/
def size : Tree → Nat
  | leaf _ => 1
  | branch _ _ children => 1 + sizes children
  | broken => 0
where
  sizes : List Tree → Nat
    | [] => 0
    | tree :: trees => tree.size + sizes trees

/-- A leaf as a safe spot. -/
def promote : Tree → Tree
  | leaf l => .leaf { l with safeSpot := true }
  | branch _ _ _ | broken => broken

end Tree

namespace Grammar

/-- The tree that a grammar stands for, given those of the names in scope. -/
def unfold : (scope : List (String × Tree)) → Grammar → Tree
  | _, leaf l => .leaf l
  | scope, branch label rule children => .branch label rule (unfoldAll scope children)
  | scope, safe g => (g.unfold scope).promote
  | scope, named name => (scope.lookup name).getD .broken
  | scope, sharing name definition body => body.unfold ((name, definition.unfold scope) :: scope)
  | _, recursive _ _ => .broken
  | scope, deferred definition => definition.unfold scope
where
  unfoldAll : (scope : List (String × Tree)) → List Grammar → List Tree
    | _, [] => []
    | scope, g :: gs => g.unfold scope :: unfoldAll scope gs

/-- The tree that a whole grammar stands for. -/
def tree (g : Grammar) : Tree :=
  g.unfold []

/-- No parser of the grammar refers to itself. -/
def IsRecursionFree : Grammar → Prop
  | leaf _ => True
  | branch _ _ children => allRecursionFree children
  | safe g => g.IsRecursionFree
  | named _ => True
  | sharing _ definition body => definition.IsRecursionFree ∧ body.IsRecursionFree
  | recursive _ _ => False
  | deferred definition => definition.IsRecursionFree
where
  allRecursionFree : List Grammar → Prop
    | [] => True
    | g :: gs => g.IsRecursionFree ∧ allRecursionFree gs

end Grammar

theorem forall₂_of_getElem? {α β : Type} {r : α → β → Prop} {as : List α} {bs : List β}
    (hlength : as.length = bs.length)
    (h : ∀ (index : Nat) a b, as[index]? = some a → bs[index]? = some b → r a b) :
    List.Forall₂ r as bs := by
  rw [List.forall₂_iff_get]
  refine ⟨hlength, fun index hlt hlt' => ?_⟩
  exact h index _ _ (List.getElem?_eq_getElem hlt) (List.getElem?_eq_getElem hlt')

/-- The tree that is found at a place. -/
inductive Unfolds (nodes : List Node) : Nat → Tree → Prop
  | leaf {place : Nat} {leaf : Leaf} (hnode : nodes[place]? = some (.leaf leaf)) :
      Unfolds nodes place (.leaf leaf)
  | branch {place : Nat} {label : String} {rule : Rule} {places : List Nat} {trees : List Tree}
      (hnode : nodes[place]? = some (.branch label rule places))
      (hlength : places.length = trees.length)
      (hchildren : ∀ (index child : Nat) (tree : Tree), places[index]? = some child →
        trees[index]? = some tree → Unfolds nodes child tree) :
      Unfolds nodes place (.branch label rule trees)
  | forward {place target : Nat} {tree : Tree} (hnode : nodes[place]? = some (.forward target))
      (htarget : Unfolds nodes target tree) : Unfolds nodes place tree

namespace Unfolds

variable {nodes nodes' : List Node} {place : Nat} {tree tree' : Tree}

theorem of_leaf {leaf : Leaf} (h : Unfolds nodes place tree)
    (hnode : nodes[place]? = some (.leaf leaf)) : tree = .leaf leaf := by
  cases h with
  | leaf h =>
    rw [hnode] at h
    cases h
    rfl
  | branch h =>
    rw [hnode] at h
    cases h
  | forward h =>
    rw [hnode] at h
    cases h

theorem of_branch {label : String} {rule : Rule} {places : List Nat} (h : Unfolds nodes place tree)
    (hnode : nodes[place]? = some (.branch label rule places)) :
    ∃ trees, tree = .branch label rule trees ∧ places.length = trees.length ∧
      ∀ (index child : Nat) (tree : Tree), places[index]? = some child →
        trees[index]? = some tree → Unfolds nodes child tree := by
  cases h with
  | leaf h =>
    rw [hnode] at h
    cases h
  | branch h hlength hchildren =>
    rw [hnode] at h
    cases h
    exact ⟨_, rfl, hlength, hchildren⟩
  | forward h =>
    rw [hnode] at h
    cases h

theorem of_forward {target : Nat} (h : Unfolds nodes place tree)
    (hnode : nodes[place]? = some (.forward target)) : Unfolds nodes target tree := by
  cases h with
  | leaf h =>
    rw [hnode] at h
    cases h
  | branch h =>
    rw [hnode] at h
    cases h
  | forward h htarget =>
    rw [hnode] at h
    cases h
    exact htarget

theorem branch_of_forall₂ {label : String} {rule : Rule} {places : List Nat} {trees : List Tree}
    (hnode : nodes[place]? = some (.branch label rule places))
    (h : List.Forall₂ (Unfolds nodes) places trees) :
    Unfolds nodes place (.branch label rule trees) := by
  rw [List.forall₂_iff_get] at h
  refine .branch hnode h.1 fun index child tree hchild htree => ?_
  obtain ⟨hlt, rfl⟩ := List.getElem?_eq_some_iff.1 hchild
  obtain ⟨hlt', rfl⟩ := List.getElem?_eq_some_iff.1 htree
  exact h.2 index hlt hlt'

/-- A place unfolds to one tree only, by induction on the tree. -/
theorem unique (h : Unfolds nodes place tree) (h' : Unfolds nodes place tree') : tree = tree' := by
  induction h generalizing tree' with
  | leaf hnode => exact (h'.of_leaf hnode).symm
  | @branch place label rule places trees hnode hlength _ ih =>
    obtain ⟨trees', rfl, hlength', hchildren'⟩ := h'.of_branch hnode
    have htrees : trees = trees' := by
      refine List.ext_getElem (hlength.symm.trans hlength') fun index hlt hlt' => ?_
      have hplace := List.getElem?_eq_getElem (hlength ▸ hlt)
      have htree := List.getElem?_eq_getElem hlt
      have htree' := List.getElem?_eq_getElem hlt'
      exact ih _ _ _ hplace htree (hchildren' _ _ _ hplace htree')
    rw [htrees]
  | forward hnode _ ih => exact ih (h'.of_forward hnode)

/-- What is found at a place stays there if every parser that was built does, so building more does
    not undo it. -/
theorem mono (h : Unfolds nodes place tree)
    (hkeeps : ∀ {other : Nat} {node : Node}, nodes[other]? = some node → node.IsBuilt →
      nodes'[other]? = some node) : Unfolds nodes' place tree := by
  induction h with
  | leaf hnode => exact .leaf (hkeeps hnode trivial)
  | branch hnode hlength _ ih => exact .branch (hkeeps hnode trivial) hlength ih
  | forward hnode _ ih => exact .forward (hkeeps hnode trivial) ih

variable {g : Graph}

/-- Where a place unfolds, following it does not lead in a circle, as a tree is finite. -/
theorem acyclic (h : Unfolds g.nodes place tree) : ¬Relation.TransGen g.Forwards place place := by
  intro hcycle
  obtain ⟨target, hfirst, hrest⟩ := Relation.TransGen.head'_iff.1 hcycle
  induction h generalizing target with
  | leaf hnode =>
    rw [Graph.Forwards, hnode] at hfirst
    cases hfirst
  | branch hnode =>
    rw [Graph.Forwards, hnode] at hfirst
    cases hfirst
  | @forward place target' tree hnode _ ih =>
    have htarget : target' = target := by
      rw [Graph.Forwards, hnode] at hfirst
      cases hfirst
      rfl
    subst htarget
    have hcycle' : Relation.TransGen g.Forwards target' target' := .tail' hrest hnode
    obtain ⟨next, hnext, hback⟩ := Relation.TransGen.head'_iff.1 hcycle'
    exact ih hcycle' next hnext hback

theorem isBuilt (h : Unfolds nodes place tree) :
    ∃ node, nodes[place]? = some node ∧ node.IsBuilt := by
  cases h with
  | leaf hnode => exact ⟨_, hnode, trivial⟩
  | branch hnode => exact ⟨_, hnode, trivial⟩
  | forward hnode => exact ⟨_, hnode, trivial⟩

/-- Every place that is reached from one that unfolds does so too, to a part of its tree. -/
theorem of_reaches (h : Unfolds g.nodes g.root tree) (hplace : g.Reaches place) :
    ∃ tree, Unfolds g.nodes place tree := by
  induction hplace with
  | root => exact ⟨tree, h⟩
  | forward _ hforwards ih =>
    obtain ⟨tree, htree⟩ := ih
    exact ⟨tree, htree.of_forward hforwards⟩
  | child _ hnode hchild ih =>
    obtain ⟨tree, htree⟩ := ih
    obtain ⟨trees, rfl, hlength, hchildren⟩ := htree.of_branch hnode
    obtain ⟨index, hlt, rfl⟩ := List.getElem_of_mem hchild
    exact ⟨_, hchildren index _ _ (List.getElem?_eq_getElem hlt)
      (List.getElem?_eq_getElem (hlength ▸ hlt))⟩

/-- A graph whose root unfolds is grounded, so its registry is there and is well-formed. -/
theorem isGrounded (h : Unfolds g.nodes g.root tree) : g.IsGrounded where
  built hplace := by
    obtain ⟨_, htree⟩ := h.of_reaches hplace
    exact htree.isBuilt
  acyclic hplace := by
    obtain ⟨_, htree⟩ := h.of_reaches hplace
    exact htree.acyclic

/-- The parser that does the work of a place unfolds to the same tree, since forwarding adds nothing
    to it. -/
theorem resolve (h : Unfolds g.nodes place tree) {actual : Nat}
    (hresolve : g.resolve place = .ok actual) : Unfolds g.nodes actual tree := by
  have hfollow (limit : Nat) {place : Nat} (h : Unfolds g.nodes place tree)
      (hfollow : g.follow limit place = .ok actual) : Unfolds g.nodes actual tree := by
    induction limit generalizing place with
    | zero =>
      unfold Graph.follow at hfollow
      split at hfollow
      · cases hfollow
      · cases hfollow
      · cases hfollow
        exact h
    | succ limit ih =>
      unfold Graph.follow at hfollow
      split at hfollow
      · cases hfollow
      · next target hnode => exact ih (h.of_forward hnode) hfollow
      · cases hfollow
        exact h
  exact hfollow _ h hresolve

end Unfolds

end Resync
