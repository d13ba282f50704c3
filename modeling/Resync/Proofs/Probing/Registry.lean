import Mathlib.Data.List.Sort
import Resync.Proofs.Engine.Course
import Resync.Proofs.Probing.Leaf
import Resync.Proofs.Recovery.Asking
import Resync.Proofs.Recovery.Unison

namespace Resync

/-- The parser with probing in place of the recoverer that it has as a leaf. -/
def Node.probed : Node → Node
  | .leaf parser => .leaf parser.probed
  | .branch label rule children => .branch label rule children
  | .forward target => .forward target
  | .unused => .unused

/-- The graph with probing in place of all searching recoverers. -/
def Graph.probed (g : Graph) : Graph :=
  { g with nodes := g.nodes.map Node.probed }

def Work.probed : Work → Work
  | .leaf parser => .leaf parser.probed
  | .branch rule => .branch rule

/-- The occurrence with probing in place of the recoverer that it has as a leaf. -/
def Entry.probed (entry : Entry) : Entry :=
  { entry with work := entry.work.probed }

/-- How an occurrence is found is not seen by runs, as they parse and go on the same. -/
theorem Entry.hidden_probed : Entry.Hidden Entry.probed where
  label _ := rfl
  work entry := by
    change entry.work.probed.ParsesLike entry.work
    cases entry.work with
    | leaf leaf => exact .leaf rfl leaf.parse_probed
    | branch rule => exact .branch rule
  parent _ := rfl
  children _ := rfl

namespace Registry

/-- The registry with probing in place of all searching recoverers. -/
def probed (reg : Registry) : Registry :=
  reg.changed Entry.probed

variable {g : Graph}

section Walk

theorem getElem?_nodes_probed (g : Graph) (place : Nat) :
    g.probed.nodes[place]? = g.nodes[place]?.map Node.probed :=
  List.getElem?_map

theorem length_nodes_probed (g : Graph) : g.probed.nodes.length = g.nodes.length :=
  List.length_map _

theorem follow_probed (g : Graph) (limit place : Nat) :
    g.probed.follow limit place = g.follow limit place := by
  induction limit generalizing place with
  | zero =>
    unfold Graph.follow
    rw [getElem?_nodes_probed]
    cases g.nodes[place]? with
    | none => rfl
    | some node => cases node <;> rfl
  | succ limit ih =>
    unfold Graph.follow
    rw [getElem?_nodes_probed]
    cases g.nodes[place]? with
    | none => rfl
    | some node =>
      cases node with
      | forward target => exact ih target
      | leaf | branch | unused => rfl

theorem resolve_probed (g : Graph) (place : Nat) : g.probed.resolve place = g.resolve place := by
  rw [Graph.resolve, Graph.resolve, follow_probed, length_nodes_probed]

/-- What a walk has found, with all that it added probed. -/
def probeAdded {α : Type} (found : α × List Entry) : α × List Entry :=
  (found.1, found.2.map Entry.probed)

/-- Children are registered as before if each one is, with what is added probed. -/
theorem registerChildren_probed
    {register register' : Nat × Nat → Nat → Nat → Except Fault (Nat × List Entry)}
    (h : ∀ parent next place, register' parent next place =
      probeAdded <$> register parent next place) (parent index next : Nat) (places : List Nat) :
    registerChildren register' parent index next places =
      probeAdded <$> registerChildren register parent index next places := by
  induction places generalizing index next with
  | nil => rfl
  | cons place places ih =>
    rw [registerChildren, registerChildren, h, bind_map_left, map_bind]
    refine congrArg _ (funext fun found => ?_)
    obtain ⟨id, added⟩ := found
    dsimp only [probeAdded]
    rw [List.length_map, ih, bind_map_left, map_bind]
    refine congrArg _ (funext fun others => ?_)
    rw [map_pure]
    exact congrArg (fun all => pure (id :: others.1, all)) List.map_append.symm

/-- The walk over a graph whose searching leaves are probed goes as that over the graph, so the
    identifiers are the same. -/
theorem register_probed (g : Graph) (depth : Nat) (walking : List (Nat × Nat))
    (parent : Option (Nat × Nat)) (next place : Nat) :
    register g.probed depth walking parent next place =
      probeAdded <$> register g depth walking parent next place := by
  induction depth generalizing walking parent next place with
  | zero => rfl
  | succ depth ih =>
    rw [register, register, resolve_probed, map_bind]
    refine congrArg _ (funext fun actual => ?_)
    cases walking.lookup actual with
    | some id => rfl
    | none =>
      rw [getElem?_nodes_probed]
      cases g.nodes[actual]? with
      | none => rfl
      | some node =>
        cases node with
        | leaf | forward | unused => rfl
        | branch label rule children =>
          change registerChildren _ next 0 (next + 1) children >>= _ =
            probeAdded <$> (registerChildren _ next 0 (next + 1) children >>= _)
          rw [registerChildren_probed fun parent => ih _ (some parent), bind_map_left, map_bind]
          rfl

/-- A graph whose searching leaves are probed is prepared as the graph itself, and every leaf of it
    is probed then. -/
theorem ofGraph_probed (g : Graph) : ofGraph g.probed = probed <$> ofGraph g := by
  rw [ofGraph, ofGraph, register_probed, length_nodes_probed, bind_map_left, map_bind]
  rfl

end Walk

section Anchors

variable {reg : Registry} {input : Input} {id : Nat} {entry : Entry} {leaf : Leaf}

/-- Every leaf of the registry is found by an exact search, or not at all. -/
def Finding (reg : Registry) : Prop :=
  ∀ {id : Nat} {entry : Entry} {leaf : Leaf}, reg.entries[id]? = some entry →
    entry.work = .leaf leaf → leaf.Finding ∧ ∀ input, leaf.Positional input

/-- The occurrences of a graph of primitive leaves that read scalars are found by exact searches, or
    not at all. -/
theorem LaidOut.finding (hlaid : reg.LaidOut g) (hg : g.IsPrimitive Primitive.ReadsScalars) :
    reg.Finding := by
  intro id entry leaf hentry hwork
  obtain ⟨primitive, hreads, hleaf⟩ := hg.leaf (hlaid.leaf_node hentry hwork)
  refine ⟨hleaf.finding hreads, ?_⟩
  obtain ⟨safeSpot, rfl⟩ := hleaf
  exact primitive.positional

/-- The occurrences with a leaf are the same, with the leaf probed and nothing else changed. -/
theorem exists_leaf_of_probed {entry' : Entry} {leaf' : Leaf}
    (hentry : reg.probed.entries[id]? = some entry') (hwork : entry'.work = .leaf leaf') :
    ∃ entry leaf, reg.entries[id]? = some entry ∧ entry.work = .leaf leaf ∧ leaf' = leaf.probed := by
  rw [probed, getElem?_changed] at hentry
  obtain ⟨entry, hold, rfl⟩ := Option.map_eq_some_iff.1 hentry
  change entry.work.probed = .leaf leaf' at hwork
  cases hkind : entry.work with
  | branch rule =>
    rw [hkind] at hwork
    cases hwork
  | leaf leaf =>
    rw [hkind] at hwork
    cases hwork
    exact ⟨entry, leaf, hold, hkind, rfl⟩

theorem probed_entry (hentry : reg.entries[id]? = some entry) (hwork : entry.work = .leaf leaf) :
    reg.probed.entries[id]? = some entry.probed ∧ entry.probed.work = .leaf leaf.probed := by
  refine ⟨?_, ?_⟩
  · rw [probed, getElem?_changed, hentry]
    rfl
  · change entry.work.probed = _
    rw [hwork]
    rfl

/-- What is found neither by a search nor by probing abstains from an answer, on both sides. -/
theorem Answers.eq_tooMuch {pos : Nat} {answer : Cached} (h : reg.Answers input id pos answer)
    (hnever : reg.recoverer? id = some .never) : answer = .tooMuch := by
  obtain ⟨entry, leaf, hentry, hwork, habstains, -⟩ := h
  rw [recoverer?_of_leaf hentry hwork] at hnever
  exact habstains ⟨_, hnever, fun _ _ => rfl⟩

variable (hreg : reg.Finding)
include hreg

/-- How an occurrence is found in both registries: not at all, never, or by an exact search in the
    one and by probing in the other. -/
theorem Finding.recoverer?_cases (id : Nat) :
    (reg.recoverer? id = none ∧ reg.probed.recoverer? id = none) ∨
      (reg.recoverer? id = some .never ∧ reg.probed.recoverer? id = some .never) ∨
      (∃ waste, reg.recoverer? id = some (.fast waste)) ∧ reg.probed.recoverer? id = some .step := by
  cases hid : reg.recoverer? id with
  | none =>
    refine .inl ⟨rfl, Option.eq_none_iff_forall_ne_some.2 fun recoverer hprobed => ?_⟩
    obtain ⟨_, _, hentry', hwork', -⟩ := exists_leaf_of_recoverer? hprobed
    obtain ⟨entry, leaf, hentry, hwork, -⟩ := exists_leaf_of_probed hentry' hwork'
    rw [recoverer?_of_leaf hentry hwork] at hid
    cases (hreg hentry hwork).1 with
    | never h _ => cases h.symm.trans hid
    | search _ _ h _ => cases h.symm.trans hid
  | some recoverer =>
    obtain ⟨entry, leaf, hentry, hwork, heffective⟩ := exists_leaf_of_recoverer? hid
    obtain ⟨hprobed, hkind⟩ := probed_entry hentry hwork
    rw [recoverer?_of_leaf hprobed hkind]
    cases (hreg hentry hwork).1 with
    | never h h' =>
      cases h.symm.trans heffective
      exact .inr (.inl ⟨rfl, h'⟩)
    | search waste _ h h' =>
      cases h.symm.trans heffective
      exact .inr (.inr ⟨⟨waste, rfl⟩, h'⟩)

theorem Finding.isSome_recoverer?_probed (id : Nat) :
    (reg.probed.recoverer? id).isSome = (reg.recoverer? id).isSome := by
  obtain ⟨h, h'⟩ | ⟨h, h'⟩ | ⟨⟨waste, h⟩, h'⟩ := hreg.recoverer?_cases id
  all_goals rw [h, h']
  rfl

/-- An anchor that is not probed has no bid in either registry, so it makes no difference when it is
    asked. -/
theorem Finding.wasteOf_eq_none {pos : Nat} {answers : Nat → Cached}
    (hanswers : reg.Surveyed input pos answers) (hid : (reg.recoverer? id).isSome = true)
    (hother : reg.probed.recoverer? id ≠ some .step) (tried : List (Nat × Nat)) (here : State) :
    Session.wasteOf tried id here (answers id) = none := by
  obtain ⟨h, -⟩ | ⟨h, -⟩ | ⟨-, h⟩ := hreg.recoverer?_cases id
  · rw [h] at hid
    cases hid
  · rw [(hanswers id hid).eq_tooMuch h]
    rfl
  · exact absurd h hother

theorem Finding.searchable_probed : reg.probed.Searchable input where
  positional {id entry leaf} hentry hwork := by
    obtain ⟨_, _, hold, hkind, rfl⟩ := exists_leaf_of_probed hentry hwork
    exact (hreg hold hkind).2 input
  exact {id entry leaf waste} hentry hwork hrecoverer := by
    obtain ⟨_, _, hold, hkind, rfl⟩ := exists_leaf_of_probed hentry hwork
    cases (hreg hold hkind).1 with
    | never h hprobed =>
      cases hprobed.symm.trans hrecoverer
      exact .inl fun _ _ => rfl
    | search other h heffective hprobed => cases hprobed.symm.trans hrecoverer

/-- All anchors are computed before they are probed, so none is in the list of those that are
    probed. -/
theorem Finding.stepAnchors_eq_nil : reg.stepAnchors = [] := by
  refine List.eq_nil_iff_forall_not_mem.2 fun id hid => ?_
  have hstep := recoverer?_of_mem_stepAnchors hid
  obtain ⟨hnone, -⟩ | ⟨hnever, -⟩ | ⟨⟨waste, hfast⟩, -⟩ := hreg.recoverer?_cases id
  · cases hnone.symm.trans hstep
  · cases hnever.symm.trans hstep
  · cases hfast.symm.trans hstep

/-- An anchor is probed if it was one before and is not computed any more. In the registry with
    probed leaves these are the anchors that were searched for. -/
theorem Finding.mem_stepAnchors_probed :
    id ∈ reg.probed.stepAnchors ↔
      id ∈ reg.fastAnchors.map Prod.fst ∧ reg.probed.recoverer? id = some .step := by
  constructor
  · intro hid
    obtain ⟨leaf', hleaf', hsafe, -⟩ := mem_stepAnchors_iff.1 hid
    obtain ⟨entry', hentry', hwork'⟩ := leaf?_eq_some_iff.1 hleaf'
    obtain ⟨entry, leaf, hentry, hwork, rfl⟩ := exists_leaf_of_probed hentry' hwork'
    have hstep := recoverer?_of_mem_stepAnchors hid
    refine ⟨?_, hstep⟩
    obtain ⟨-, hnone⟩ | ⟨-, hnever⟩ | ⟨⟨waste, hfast⟩, -⟩ := hreg.recoverer?_cases id
    · cases hnone.symm.trans hstep
    · cases hnever.symm.trans hstep
    · rw [recoverer?_of_leaf hentry hwork] at hfast
      exact List.mem_map_of_mem (mem_fastAnchors hentry hwork hsafe hfast)
  · rintro ⟨hid, hstep⟩
    obtain ⟨⟨_, waste⟩, hanchor, rfl⟩ := List.mem_map.1 hid
    obtain ⟨leaf, hleaf, hsafe, -⟩ := mem_fastAnchors_iff.1 hanchor
    obtain ⟨entry, hentry, hwork⟩ := leaf?_eq_some_iff.1 hleaf
    obtain ⟨hentry, hwork⟩ := probed_entry hentry hwork
    have hsafe' : leaf.probed.safeSpot = true := hsafe
    rw [recoverer?_of_leaf hentry hwork, effectiveRecoverer_eq_step_iff hsafe'] at hstep
    exact mem_stepAnchors_iff.2 ⟨leaf.probed, leaf?_of_entry hentry hwork, hsafe', hstep⟩

/-- The anchors that are probed are those that were searched for, in the same order. -/
theorem Finding.stepAnchors_probed :
    (reg.fastAnchors.map Prod.fst).filter (· ∈ reg.probed.stepAnchors) =
      reg.probed.stepAnchors := by
  refine ((pairwise_fastAnchors reg).filter _).eq_of_mem_iff (pairwise_stepAnchors _) fun id => ?_
  rw [List.mem_filter, decide_eq_true_iff]
  exact and_iff_right_of_imp fun hid => (hreg.mem_stepAnchors_probed.1 hid).1

variable (htext : input.binary = false)
include htext

theorem Finding.searchable : reg.Searchable input where
  positional hentry hwork := (hreg hentry hwork).2 input
  exact {id entry leaf waste} hentry hwork hrecoverer := by
    cases (hreg hentry hwork).1 with
    | never h hprobed =>
      cases h.symm.trans hrecoverer
      exact .inl fun _ _ => rfl
    | search other h heffective hprobed =>
      cases heffective.symm.trans hrecoverer
      exact .inr (h.exact htext)

/-- An anchor answers alike, however it is found: both a search and probing answer with the first
    match. -/
theorem Finding.answers_probed {pos : Nat} {answer : Cached} (h : reg.Answers input id pos answer) :
    reg.probed.Answers input id pos answer := by
  obtain ⟨entry, leaf, hentry, hwork, habstains, hfirst⟩ := h
  have hsame := (hreg hentry hwork).1.abstains_probed_iff htext
  obtain ⟨hentry, hwork⟩ := probed_entry hentry hwork
  exact ⟨_, _, hentry, hwork, fun hleaf => habstains (hsame.1 hleaf),
    fun hleaf => hfirst fun hold => hleaf (hsame.2 hold)⟩

/-- The same anchor is the cheapest in both registries. The same anchors are asked, in an order that
    differs only where it makes no difference: those that are still computed have no bid. -/
theorem Finding.answersLike_probed : reg.AnswersLike reg.probed input := by
  intro pos
  obtain ⟨answers, hanswers⟩ := exists_surveyed reg input pos
  have hsome := hreg.isSome_recoverer?_probed
  refine ⟨answers, hanswers, fun id hid => hreg.answers_probed htext (hanswers id ?_), ?_⟩
  · rw [← hsome]
    exact hid
  intro tried here owner
  have hcomputed : ∀ id ∈ (reg.probed.fastAnchors.map Prod.fst).filter (owner != some ·),
      Session.wasteOf tried id here (answers id) = none := by
    intro id hid
    obtain ⟨waste, hwaste⟩ := exists_recoverer?_of_mem_fastAnchors (List.mem_filter.1 hid).1
    refine hreg.wasteOf_eq_none hanswers ?_ (fun hstep => ?_) tried here
    · rw [← hsome, hwaste]
      rfl
    · cases hwaste.symm.trans hstep
  have hsearched : ∀ id ∈ (reg.fastAnchors.map Prod.fst).filter (owner != some ·),
      decide (id ∈ reg.probed.stepAnchors) = false →
        Session.wasteOf tried id here (answers id) = none := by
    intro id hid hother
    have hanchor := (List.mem_filter.1 hid).1
    refine hreg.wasteOf_eq_none hanswers ?_ (fun hstep => ?_) tried here
    · obtain ⟨waste, hwaste⟩ := exists_recoverer?_of_mem_fastAnchors hanchor
      rw [hwaste]
      rfl
    · exact of_decide_eq_false hother (hreg.mem_stepAnchors_probed.2 ⟨hanchor, hstep⟩)
  simp only [Session.cheapestAnswer, asked, hsome, Bid.cheapest_append, hreg.stepAnchors_eq_nil,
    List.filter_nil]
  rw [Bid.cheapest_of_forall_none hcomputed, ← Bid.cheapest_filter hsearched, List.filter_comm,
    hreg.stepAnchors_probed]
  rfl

end Anchors

end Registry

end Resync
