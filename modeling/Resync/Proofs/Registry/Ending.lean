import Mathlib.Data.List.Perm.Subperm
import Mathlib.Logic.Relation
import Resync.Proofs.Registry.Layout

namespace Resync

/-- Whether a node stands for a parser that was built. -/
def Node.IsBuilt : Node → Prop
  | .unused => False
  | _ => True

namespace Graph

/-- A forwarding node leads from its place to its target. -/
def Forwards (g : Graph) (place target : Nat) : Prop :=
  g.nodes[place]? = some (.forward target)

/-- The places that can be reached from the root of a graph. -/
inductive Reaches (g : Graph) : Nat → Prop
  | root : Reaches g g.root
  | forward {place target : Nat} (h : Reaches g place) (hforwards : g.Forwards place target) :
      Reaches g target
  | child {place child : Nat} {label : String} {rule : Rule} {places : List Nat}
      (h : Reaches g place) (hnode : g.nodes[place]? = some (.branch label rule places))
      (hchild : child ∈ places) : Reaches g child

/-- Every place that can be reached has been built, and forwarding leads to a parser in the end. -/
structure IsGrounded (g : Graph) : Prop where
  built : ∀ {place : Nat}, g.Reaches place → ∃ node, g.nodes[place]? = some node ∧ node.IsBuilt
  acyclic : ∀ {place : Nat}, g.Reaches place → ¬Relation.TransGen g.Forwards place place

/-- The parser at a place does its work itself. -/
def IsWorker (g : Graph) (place : Nat) : Prop :=
  (∃ leaf, g.nodes[place]? = some (.leaf leaf)) ∨
    ∃ label rule places, g.nodes[place]? = some (.branch label rule places)

variable {g : Graph} {place : Nat}

/-- Different places of a graph are not more than it has. This is what bounds both walks, the one
    along forwarding nodes and the one down the branches. -/
theorem length_le_of_nodup {places : List Nat} (hnodup : places.Nodup)
    (hlt : ∀ place ∈ places, place < g.nodes.length) : places.length ≤ g.nodes.length := by
  have hsub : places ⊆ List.range g.nodes.length :=
    fun place hplace => List.mem_range.2 (hlt place hplace)
  have hle := (hnodup.subperm hsub).length_le
  rwa [List.length_range] at hle

/-- What is known of the forwarding nodes that were passed on the way to a place. -/
structure Passed (g : Graph) (passed : List Nat) (place : Nat) : Prop where
  nodup : passed.Nodup
  lt : ∀ other ∈ passed, other < g.nodes.length
  forwards : ∀ other ∈ passed, Relation.TransGen g.Forwards other place

/-- One more forwarding node is passed, if it has not been passed before. -/
theorem Passed.cons {passed : List Nat} {target : Nat} (h : g.Passed passed place)
    (hfresh : place ∉ passed) (hforwards : g.Forwards place target) :
    g.Passed (place :: passed) target where
  nodup := List.nodup_cons.2 ⟨hfresh, h.nodup⟩
  lt := List.forall_mem_cons.2 ⟨(List.getElem?_eq_some_iff.1 hforwards).1, h.lt⟩
  forwards := List.forall_mem_cons.2
    ⟨.single hforwards, fun other hother => (h.forwards other hother).tail hforwards⟩

/-- A parser that does its work leads no further, so following ends there. -/
theorem IsWorker.follow_eq (h : g.IsWorker place) (limit : Nat) :
    g.follow limit place = .ok place := by
  obtain ⟨leaf, hnode⟩ | ⟨label, rule, places, hnode⟩ := h
  all_goals cases limit <;> rw [follow, hnode]

namespace IsGrounded

variable (h : g.IsGrounded)
include h

/-- What can stand at a place that is reached: a parser that does its work itself, or a node that
    forwards to another place. -/
theorem isWorker_or_forwards (hplace : g.Reaches place) :
    g.IsWorker place ∨ ∃ target, g.Forwards place target := by
  obtain ⟨node, hnode, hbuilt⟩ := h.built hplace
  cases node with
  | leaf leaf => exact .inl (.inl ⟨leaf, hnode⟩)
  | branch label rule places => exact .inl (.inr ⟨label, rule, places, hnode⟩)
  | forward target => exact .inr ⟨target, hnode⟩
  | unused => cases hbuilt

/-- Following ends at a parser, since it does not pass a node twice. The induction is on how many
    nodes are left to pass, and a node that is passed again would close a cycle of forwarding
    nodes. -/
theorem exists_follow {limit : Nat} {passed : List Nat} (hplace : g.Reaches place)
    (hpassed : g.Passed passed place) (hlimit : limit + passed.length = g.nodes.length) :
    ∃ actual, g.follow limit place = .ok actual ∧ g.Reaches actual ∧ g.IsWorker actual := by
  induction limit generalizing place passed with
  | zero =>
    obtain hworker | ⟨target, hforwards⟩ := h.isWorker_or_forwards hplace
    · exact ⟨place, hworker.follow_eq _, hplace, hworker⟩
    · have hfresh : place ∉ passed := fun hmem => h.acyclic hplace (hpassed.forwards place hmem)
      have hmore := hpassed.cons hfresh hforwards
      have hle := length_le_of_nodup hmore.nodup hmore.lt
      rw [List.length_cons] at hle
      omega
  | succ limit ih =>
    obtain hworker | ⟨target, hforwards⟩ := h.isWorker_or_forwards hplace
    · exact ⟨place, hworker.follow_eq _, hplace, hworker⟩
    · have hfresh : place ∉ passed := fun hmem => h.acyclic hplace (hpassed.forwards place hmem)
      have hstep : g.follow (limit + 1) place = g.follow limit target := by
        rw [follow, show g.nodes[place]? = _ from hforwards]
      rw [hstep]
      refine ih (hplace.forward hforwards) (hpassed.cons hfresh hforwards) ?_
      rw [List.length_cons]
      omega

/-- A place that is reached leads to a parser that does its work, if no cycle consists of forwarding
    nodes only. -/
theorem exists_resolve (hplace : g.Reaches place) :
    ∃ actual, g.resolve place = .ok actual ∧ g.Reaches actual ∧ g.IsWorker actual := by
  refine h.exists_follow hplace ⟨List.nodup_nil, ?_, ?_⟩ (Nat.add_zero _)
  · intro _ hmem
    cases hmem
  · intro _ hmem
    cases hmem

end IsGrounded

end Graph

namespace Registry

variable {g : Graph}

section Steps

variable {depth next place actual : Nat} {walking : List (Nat × Nat)} {parent : Option (Nat × Nat)}
  (hresolve : g.resolve place = .ok actual)
include hresolve

/-- At a parser that the walk is inside of nothing is added, and its place is that of the enclosing
    occurrence. -/
theorem register_enclosed {id : Nat} (hlookup : walking.lookup actual = some id) :
    register g (depth + 1) walking parent next place = .ok (id, []) := by
  rw [register]
  refine Fault.bind_eq_ok_iff.2 ⟨actual, hresolve, ?_⟩
  dsimp only
  rw [hlookup]
  rfl

variable (hlookup : walking.lookup actual = none)
include hlookup

theorem register_leaf {leaf : Leaf} (hnode : g.nodes[actual]? = some (.leaf leaf)) :
    register g (depth + 1) walking parent next place =
      .ok (next, [⟨actual, leaf.label, .leaf leaf, parent, []⟩]) := by
  rw [register]
  refine Fault.bind_eq_ok_iff.2 ⟨actual, hresolve, ?_⟩
  dsimp only
  rw [hlookup, hnode]
  rfl

/-- At a branch an entry is added for it, and then those for its children, from left to right. -/
theorem register_branch {label : String} {rule : Rule} {places ids : List Nat} {below : List Entry}
    (hnode : g.nodes[actual]? = some (.branch label rule places))
    (hbelow : registerChildren (registerBelow g depth ((actual, next) :: walking)) next 0 (next + 1)
      places = .ok (ids, below)) :
    register g (depth + 1) walking parent next place =
      .ok (next, ⟨actual, label, .branch rule, parent, ids⟩ :: below) := by
  rw [register]
  refine Fault.bind_eq_ok_iff.2 ⟨actual, hresolve, ?_⟩
  dsimp only
  rw [hlookup, hnode]
  exact Fault.bind_eq_ok_iff.2 ⟨(ids, below), hbelow, rfl⟩

end Steps

/-- Children are registered if each of them is, whatever identifiers they get, by induction on the
    children. -/
theorem exists_registerChildren
    {register : Nat × Nat → Nat → Nat → Except Fault (Nat × List Entry)} {places : List Nat}
    (h : ∀ place ∈ places, ∀ link next, ∃ id added, register link next place = .ok (id, added))
    (parent index next : Nat) :
    ∃ ids added, registerChildren register parent index next places = .ok (ids, added) := by
  induction places generalizing index next with
  | nil => exact ⟨[], [], rfl⟩
  | cons place places ih =>
    rw [List.forall_mem_cons] at h
    obtain ⟨id, part, hhead⟩ := h.1 (parent, index) next
    obtain ⟨ids, others, htail⟩ := ih h.2 (index + 1) (next + part.length)
    refine ⟨id :: ids, part ++ others, ?_⟩
    rw [registerChildren]
    exact Fault.bind_eq_ok_iff.2 ⟨_, hhead, Fault.bind_eq_ok_iff.2 ⟨_, htail, rfl⟩⟩

/-- The branches that enclose a place on the walk are different places of the graph. -/
structure Apart (g : Graph) (walking : List (Nat × Nat)) : Prop where
  nodup : (walking.map Prod.fst).Nodup
  lt : ∀ place ∈ walking.map Prod.fst, place < g.nodes.length

theorem Apart.nil : Apart g [] :=
  ⟨List.nodup_nil, fun _ hmem => nomatch hmem⟩

/-- A branch that the walk is not inside of yet may be entered. -/
theorem Apart.cons {walking : List (Nat × Nat)} {place : Nat} {node : Node} (h : Apart g walking)
    (hlookup : walking.lookup place = none) (hnode : g.nodes[place]? = some node) (id : Nat) :
    Apart g ((place, id) :: walking) where
  nodup := by
    refine List.nodup_cons.2 ⟨?_, h.nodup⟩
    intro hmem
    obtain ⟨entry, hentry, rfl⟩ := List.mem_map.1 hmem
    have hne := List.lookup_eq_none_iff.1 hlookup entry hentry
    rw [bne_self_eq_false] at hne
    cases hne
  lt := List.forall_mem_cons.2 ⟨(List.getElem?_eq_some_iff.1 hnode).1, h.lt⟩

/-- The walk below a place ends, since it does not enter a branch that encloses it. So it does not
    go deeper than the graph has nodes, which is the depth that it is given. -/
theorem exists_register (hg : g.IsGrounded) {depth place : Nat} {walking : List (Nat × Nat)}
    (hplace : g.Reaches place) (hwalking : Apart g walking)
    (hdepth : depth + walking.length = g.nodes.length + 1) (parent : Option (Nat × Nat))
    (next : Nat) :
    ∃ id added, register g depth walking parent next place = .ok (id, added) := by
  induction depth generalizing place walking parent next with
  | zero =>
    have hle := Graph.length_le_of_nodup hwalking.nodup hwalking.lt
    rw [List.length_map] at hle
    omega
  | succ depth ih =>
    obtain ⟨actual, hresolve, hactual, hworker⟩ := hg.exists_resolve hplace
    cases hlookup : walking.lookup actual with
    | some enclosing => exact ⟨enclosing, [], register_enclosed hresolve hlookup⟩
    | none =>
      obtain ⟨leaf, hnode⟩ | ⟨label, rule, places, hnode⟩ := hworker
      · exact ⟨next, _, register_leaf hresolve hlookup hnode⟩
      · have hbelow (child : Nat) (hchild : child ∈ places) (link : Nat × Nat) (next' : Nat) :
            ∃ id added, registerBelow g depth ((actual, next) :: walking) link next' child =
              .ok (id, added) := by
          refine ih (hactual.child hnode hchild) (hwalking.cons hlookup hnode next) ?_ _ _
          rw [List.length_cons]
          omega
        obtain ⟨ids, below, hids⟩ := exists_registerChildren hbelow next 0 (next + 1)
        exact ⟨next, _, register_branch hresolve hlookup hnode hids⟩

/-- A graph in which no cycle consists of forwarding nodes only has a registry: every place that can
    be reached leads to a parser, and the walk over the graph ends. -/
theorem exists_ofGraph (hg : g.IsGrounded) : ∃ reg, ofGraph g = .ok reg := by
  obtain ⟨id, entries, hroot⟩ := exists_register hg .root .nil rfl none 0
  refine ⟨⟨entries⟩, ?_⟩
  rw [ofGraph, hroot]
  rfl

end Registry

end Resync
