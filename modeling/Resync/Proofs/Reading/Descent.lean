import Resync.Proofs.Engine.Steps
import Resync.Proofs.Leaf.Moves
import Resync.Proofs.Reading.Rules
import Resync.Proofs.Registry.Primitives

namespace Resync

/-- The safe spots of a graph consume whatever they match. -/
def Graph.SafeSpotsConsume (g : Graph) : Prop :=
  ∀ {place : Nat} {leaf : Leaf}, g.nodes[place]? = some (.leaf leaf) → leaf.safeSpot = true →
    leaf.Consumes

namespace Registry

variable {reg : Registry} {g : Graph} {input : Input} {s : State}

/-- A match of a leaf leads to its end, and a safe spot that matches makes a cut there. The
    watermark of the end is beyond the start then, since safe spots consume what they match. -/
theorem leadsTo_of_match {leaf : Leaf} {stop : State} {value : leaf.type.Val}
    (hconsumes : leaf.safeSpot = true → leaf.Consumes) (hs : s.Starts input)
    (hrun : leaf.run s = .ok (stop, value)) (hstop : s.LeadsTo false stop) :
    s.LeadsTo leaf.safeSpot (if leaf.safeSpot then stop.markSafeSpot else stop) := by
  cases hsafe : leaf.safeSpot with
  | false => exact hstop
  | true =>
    have hsize : s.pos ≤ s.input.size := by
      rw [hs.input_eq]
      exact hs.pos_le_size
    have hlt : s.pos < stop.pos := hconsumes hsafe hsize hrun
    have hmark : stop.markSafeSpot.safeSpot = stop.pos := by
      have hbefore := hs.safeSpot_le
      rw [State.markSafeSpot, hstop.uncut rfl]
      exact Nat.max_eq_right (by omega)
    exact ⟨hstop.input_eq, hstop.pos_le, hstop.pos_le_size, fun h => Bool.noConfusion h,
      fun _ => ⟨hmark.symm ▸ hlt, Nat.le_of_eq hmark⟩⟩

/-- A leaf that is run makes a cut if it matches and is a safe spot, and only then, as the event of
    its return says. -/
theorem makesCut_leaf {leaf : Leaf} {id : Nat} {entry : Entry} {r : Result}
    (hentry : reg.entries[id]? = some entry) (hwork : entry.work = .leaf leaf) :
    reg.MakesCut [.entered id s, .left id r] ↔ r.isOk = true ∧ leaf.safeSpot = true := by
  rw [makesCut_cons, makesCut_cons]
  constructor
  · rintro (hentered | ⟨hok, other, found, hother, hfound, hsafe⟩ | hnil)
    · exact hentered.elim
    · rw [hentry] at hother
      cases hother
      rw [hwork] at hfound
      cases hfound
      exact ⟨hok, hsafe⟩
    · exact (makesCut_nil hnil).elim
  · rintro ⟨hok, hsafe⟩
    exact .inr (.inl ⟨hok, entry, leaf, hentry, hwork, hsafe⟩)

/-- A move by bytes makes no cut, and leaves the watermark where it was. -/
theorem leadsTo_moveBy (hs : s.Starts input) (count : Nat) : s.LeadsTo false (s.moveBy count) := by
  have hsize : s.pos ≤ s.input.size := by
    rw [hs.input_eq]
    exact hs.pos_le_size
  obtain ⟨hle, hend⟩ := State.moveBy_pos_bounds hsize count
  exact ⟨rfl, hle, hend, fun _ => rfl, fun h => (nomatch h)⟩

/-- A primitive leaf that is run from a cursor reads there with a new one. Whether it matches is
    told by the position, and its error by the place where it stands. -/
theorem tells_leaf {leaf : Leaf} {primitive : Primitive} (hleaf : leaf.IsOf primitive)
    (hconsumes : leaf.safeSpot = true → leaf.Consumes) {id : Nat} {entry : Entry}
    (hentry : reg.entries[id]? = some entry) (hwork : entry.work = .leaf leaf)
    (hs : s.Starts input) :
    Reading.Tells reg s s [.entered id s, .left id (leaf.parse id s)] (leaf.parse id s)
      (leaf.read input s.pos) := by
  obtain ⟨move, hrun, hread⟩ : ∃ move : Primitive.Move leaf.type.Val,
      leaf.run s = move.outcome s ∧
        leaf.run { State.start input with pos := s.pos } =
          move.outcome { State.start input with pos := s.pos } := by
    obtain ⟨safe, rfl⟩ := hleaf
    have hreads : s.ReadsLike { State.start input with pos := s.pos } :=
      State.readsLike_of_pos_eq hs.input_eq rfl
    obtain ⟨move, -, hmoves⟩ := primitive.sameMove_run hreads
    exact ⟨move, hmoves⟩
  -- A match leads to the same place from both cursors, and only a safe spot makes a cut there.
  have hmatch {stop stop' : State} {value : leaf.type.Val} (hstop : leaf.run s = .ok (stop, value))
      (hstop' : leaf.run { State.start input with pos := s.pos } = .ok (stop', value))
      (hleads : s.LeadsTo false stop) (hpos : stop.pos = stop'.pos) :
      Reading.Tells reg s s [.entered id s, .left id (leaf.parse id s)] (leaf.parse id s)
        (leaf.read input s.pos) := by
    have hparse : leaf.parse id s =
        .success s (if leaf.safeSpot then stop.markSafeSpot else stop) ⟨leaf.type, value⟩ := by
      rw [Leaf.parse, hstop]
    have hreading : leaf.read input s.pos =
        ⟨stop'.pos, ⟨leaf.type, value⟩, none, leaf.safeSpot⟩ := by
      rw [Leaf.read, hstop']
    rw [hparse, hreading]
    refine ⟨rfl, leadsTo_of_match hconsumes hs hstop hleads, ?_, rfl, rfl, ?_⟩
    · rw [← hpos]
      cases leaf.safeSpot <;> rfl
    · rw [makesCut_leaf hentry hwork]
      exact ⟨fun hsafe => ⟨rfl, hsafe⟩, And.right⟩
  cases move with
  | refuse label =>
    have hfresh : State.Starts { State.start input with pos := s.pos } input :=
      ⟨rfl, hs.pos_le_size, Nat.zero_le _⟩
    have hparse : leaf.parse id s = .failure s s ⟨leaf.type, leaf.type.placeholder⟩
        ((s.syntaxError label).claim id) := by
      rw [Leaf.parse, hrun]
      rfl
    have hreading : leaf.read input s.pos = ⟨s.pos, ⟨leaf.type, leaf.type.placeholder⟩,
        some (s.syntaxError label).mismatch, false⟩ := by
      rw [Leaf.read, hread, Rule.mismatch_syntaxError hs, ← Rule.mismatch_syntaxError hfresh]
      rfl
    rw [hparse, hreading]
    refine ⟨rfl, .refl hs, rfl, rfl, rfl, ?_⟩
    rw [makesCut_leaf hentry hwork]
    exact ⟨fun h => absurd h Bool.false_ne_true, fun h => absurd h.1 Bool.false_ne_true⟩
  | stay value => exact hmatch hrun hread (.refl hs) rfl
  | advance count value =>
    refine hmatch hrun hread (leadsTo_moveBy hs count) ?_
    rw [State.moveBy_pos, State.moveBy_pos, hs.input_eq]
    rfl

/-- Entering and leaving a branch makes no cut, so the cuts of a branch are those of its
    children. -/
theorem makesCut_branch {id : Nat} {entry : Entry} {rule : Rule} {events : List Event} {r : Result}
    (hentry : reg.entries[id]? = some entry) (hwork : entry.work = .branch rule) :
    reg.MakesCut (.entered id s :: (events ++ [.left id r])) ↔ reg.MakesCut events := by
  have hleft : ¬ reg.SafeSpotMatched (.left id r) := by
    rintro ⟨-, other, leaf, hother, hleaf, -⟩
    rw [hentry] at hother
    cases hother
    rw [hwork] at hleaf
    cases hleaf
  have hentered : ¬ reg.SafeSpotMatched (.entered id s) := fun h => h.elim
  rw [makesCut_cons, makesCut_append, makesCut_cons]
  simp only [hentered, hleft, makesCut_nil, false_or, or_false]

/-- A branch claims its error, which does not change what went wrong, nor where. -/
theorem tells_branch {id : Nat} {entry : Entry} {rule : Rule} {events : List Event} {r : Result}
    {v : Reading} (hentry : reg.entries[id]? = some entry) (hwork : entry.work = .branch rule)
    (h : Reading.Tells reg s s events r v) :
    Reading.Tells reg s s (.entered id s :: (events ++ [.left id (r.claim id)])) (r.claim id)
      v where
  start_eq := h.start_eq
  leads := h.leads
  stop_eq := h.stop_eq
  output_eq := h.output_eq
  mismatch_eq := by
    rw [← h.mismatch_eq, Result.claim, Option.map_map]
    rfl
  cut_iff := by rw [h.cut_iff, makesCut_branch hentry hwork]

section Prepared

variable (hprepared : ofGraph g = .ok reg) (hg : g.IsPrimitive fun _ => True)
  (hsafe : g.SafeSpotsConsume)
include hprepared

/-- An occurrence of a branch knows its children by the labels that they have in the graph. -/
theorem labels_view {entry : Entry} {places : List Nat}
    (hchildren : List.Forall₂ (reg.Occupies g) entry.children places) (id : Nat) :
    (reg.view id entry).labels = places.map g.label := by
  rw [view, ← List.forall₂_eq_eq_eq, List.forall₂_map_left_iff, List.forall₂_map_right_iff]
  exact hchildren.imp fun _ _ hoccupies => label_eq_of_ofGraph hprepared hoccupies

omit hprepared in
/-- The children of an occurrence are run as they are read if all occurrences are, since an
    occurrence has the children that the graph gives its parser. -/
theorem serves_runChild {entry : Entry} {places : List Nat} {run : Nat → State → Traced Result}
    {read : Nat → Reader} (hchildren : List.Forall₂ (reg.Occupies g) entry.children places)
    (hrun : ∀ {id place}, reg.Occupies g id place → Reader.Serves reg input (run id) (read place)) :
    (∀ index reader, (places.map read)[index]? = some reader →
      Reader.Serves reg input (runChild run entry index) reader) ∧
    Reader.Serves reg input (runChild run entry 0) (Reader.only (places.map read)) := by
  have hserves (index : Nat) (reader : Reader) (h : (places.map read)[index]? = some reader) :
      Reader.Serves reg input (runChild run entry index) reader := by
    rw [List.getElem?_map] at h
    obtain ⟨place, hplace, rfl⟩ := Option.map_eq_some_iff.1 h
    obtain ⟨hlt, rfl⟩ := List.getElem?_eq_some_iff.1 hplace
    have hlt' : index < entry.children.length := hchildren.length_eq ▸ hlt
    have hchild := List.getElem?_eq_getElem hlt'
    intro s hs
    unfold runChild
    rw [hchild]
    exact hrun (hchildren.get hlt' hlt) s hs
  refine ⟨hserves, ?_⟩
  cases places with
  | nil =>
    intro s _
    unfold runChild
    rw [List.forall₂_nil_right_iff.1 hchildren]
    exact Traced.goes_fault
  | cons place places => exact hserves 0 _ rfl

include hg hsafe

/-- Every occurrence is parsed as the parser that it is one of is read. This is an induction over
    the depth: leaves read alike wherever a cursor comes from, and branches go as they are read if
    their children do. -/
theorem serves_parse (input : Input) {depth id place : Nat} (hoccupies : reg.Occupies g id place) :
    Reader.Serves reg input (reg.parse depth id) (g.read input depth place) := by
  have h := laidOut_ofGraph hprepared
  induction depth generalizing id place with
  | zero => exact fun _ _ => Traced.goes_fault
  | succ depth ih =>
    intro s hs
    obtain ⟨entry, hentry, hresolve⟩ := hoccupies
    cases hwork : entry.work with
    | leaf leaf =>
      have hnode := h.leaf_node hentry hwork
      obtain ⟨primitive, -, hleaf⟩ := hg.leaf hnode
      rw [parse_of_leaf hentry hwork, Graph.read_leaf hresolve hnode]
      exact Traced.goes_ok (tells_leaf hleaf (hsafe hnode) hentry hwork hs)
    | branch rule =>
      obtain ⟨places, hnode, hchildren⟩ := h.branch_node hentry hwork
      have hlabels := labels_view hprepared hchildren id
      have hlength : (places.map (g.read input depth)).length =
          (reg.view id entry).labels.length := by
        rw [hlabels, List.length_map, List.length_map]
      obtain ⟨hserves, honly⟩ := serves_runChild hchildren ih
      rw [parse_of_branch hentry hwork, Graph.read_branch hresolve hnode, ← hlabels]
      exact (Rule.goes_script (hg.branch hnode) (reg.view id entry) hlength hserves honly
        hs).framed fun r v hv => tells_branch hentry hwork hv

/-- What a parse comes to, from a cursor with the watermark not ahead of it, is what the graph reads
    there; and the watermark tells whether a safe spot has matched. -/
theorem parse_reading {depth id : Nat} {entry : Entry} (hentry : reg.entries[id]? = some entry)
    (hsize : s.pos ≤ s.input.size) (hmark : s.safeSpot ≤ s.pos) :
    (reg.parse depth id s).result.map (·.reading s) = g.read s.input depth entry.place s.pos ∧
      ∀ r, (reg.parse depth id s).result = .ok r →
        (r.stop.crossedSafeSpotSince s = true ↔ reg.MakesCut (reg.parse depth id s).events) := by
  have h := laidOut_ofGraph hprepared
  have hs : s.Starts s.input := ⟨rfl, hsize, hmark⟩
  have hresolve : g.resolve entry.place = .ok entry.place := by
    cases hwork : entry.work with
    | leaf leaf => exact Graph.resolve_eq_self (h.leaf_node hentry hwork) fun _ => nofun
    | branch rule =>
      obtain ⟨places, hnode, -⟩ := h.branch_node hentry hwork
      exact Graph.resolve_eq_self hnode fun _ => nofun
  have hserves : Reader.Serves reg s.input (reg.parse depth id)
      (g.read s.input depth entry.place) :=
    serves_parse hprepared hg hsafe s.input ⟨entry, hentry, hresolve⟩
  have hparse := hserves s hs
  refine ⟨hparse.map_eq fun events r v hv => ?_, fun r hr => ?_⟩
  · rw [Result.reading, hv.stop_eq, hv.output_eq, hv.mismatch_eq,
      hv.leads.crossedSafeSpotSince hs]
  · obtain ⟨r', v, hr', -, hv⟩ | ⟨f, hf, -⟩ := hparse.cases
    · rw [hr] at hr'
      cases hr'
      rw [hv.leads.crossedSafeSpotSince hs, hv.cut_iff]
    · rw [hr] at hf
      cases hf

end Prepared

namespace Nested

def graph : Graph where
  nodes :=
    [.leaf { (Primitive.char '(').leaf with safeSpot := true }, .forward 5,
      .branch "values" (.many .text) [1],
      .leaf { (Primitive.char ')').leaf with safeSpot := true },
      .branch "list" (.combine [(1, .list .text)] .text fun found => "".intercalate found.1)
        [0, 2, 3],
      .branch "value" (.firstSuccess .text) [4, 6], .leaf Primitive.someDigits.leaf]
  root := 5

theorem isPrimitive : graph.IsPrimitive fun _ => True where
  leaf {place leaf} hnode := by
    match place, hnode with
    | 0, hnode => cases hnode; exact ⟨.char '(', trivial, true, rfl⟩
    | 1, hnode => cases hnode
    | 2, hnode => cases hnode
    | 3, hnode => cases hnode; exact ⟨.char ')', trivial, true, rfl⟩
    | 4, hnode => cases hnode
    | 5, hnode => cases hnode
    | 6, hnode => cases hnode; exact ⟨.someDigits, trivial, false, rfl⟩
  branch {place label rule children} hnode := by
    match place, hnode with
    | 0, hnode => cases hnode
    | 1, hnode => cases hnode
    | 2, hnode => cases hnode; exact trivial
    | 3, hnode => cases hnode
    | 4, hnode => cases hnode; exact trivial
    | 5, hnode => cases hnode; exact trivial
    | 6, hnode => cases hnode

private theorem consumes_char (c : Char) :
    Leaf.Consumes { (Primitive.char c).leaf with safeSpot := true } := by
  have hconsumes : (Primitive.char c).Consumes := trivial
  exact Leaf.IsOf.consumes ⟨true, rfl⟩ hconsumes

/-- The safe spots of the nested lists are their parentheses, which consume what they match. -/
theorem safeSpotsConsume : graph.SafeSpotsConsume := by
  intro place leaf hnode hsafe
  match place, hnode with
  | 0, hnode => cases hnode; exact consumes_char '('
  | 1, hnode => cases hnode
  | 2, hnode => cases hnode
  | 3, hnode => cases hnode; exact consumes_char ')'
  | 4, hnode => cases hnode
  | 5, hnode => cases hnode
  | 6, hnode => cases hnode; cases hsafe

def registry : Registry :=
  match ofGraph graph with
  | .ok reg => reg
  | .error _ => ⟨[]⟩

/-- Behind the first of two parentheses, which was a safe spot. -/
def inside : State :=
  ((State.start (Input.text "((12x")).moveBy 1).markSafeSpot

end Nested

open Nested in
/-- The inner list is not closed, and fails with a cut, so that no number is tried in its place. The
    parse starts behind the first safe spot, with the watermark where it stands. -/
theorem parse_reading_nested :
    inside.safeSpot ≤ inside.pos ∧
      (registry.parse 20 0 inside).result.map (·.reading inside) = .ok ⟨4, ⟨.text, "12"⟩,
        some ⟨.syntactic, "expected \")\"", 4⟩, true⟩ := by
  have hread : graph.read inside.input 20 5 1 = .ok ⟨4, ⟨.text, "12"⟩,
      some ⟨.syntactic, "expected \")\"", 4⟩, true⟩ := by rfl
  have hprepared : ofGraph graph = .ok registry := by rfl
  have hentry : registry.entries[0]? = some (registry.entries.get ⟨0, by decide⟩) := by rfl
  refine ⟨by decide, ?_⟩
  rw [← hread]
  exact (parse_reading hprepared isPrimitive safeSpotsConsume hentry (by decide) (by decide)).1

end Registry

end Resync
