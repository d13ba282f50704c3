import Resync.Parser.Combinators
import Resync.Proofs.Leaf.Scalars
import Resync.Proofs.Registry.Labels

namespace Resync.Row

open Primitive (landmark)

/-- The characters that were taken out of slots. -/
def collect : (indices : List Nat) →
    Ty.Vals ((indices.map fun i => (i, Ty.char)).map Prod.snd) → List Char
  | [], () => []
  | _ :: indices, (c, values) => c :: collect indices values

/-- Scalars in a row, all of them safe spots, and what is made of them. -/
def parser (label : String) (cs : List Char) (result : Ty) (f : List Char → result.Val) :
    Parser result :=
  Parser.sequence label (cs.map fun c => ⟨.char, (Parser.char c).safe⟩)
    ((List.range cs.length).map fun i => (i, .char)) result fun values => f (collect _ values)

section Preparing

variable (label : String) (cs : List Char) (result : Ty) (f : List Char → result.Val)

/-- Takes the characters out of all slots, in order, and makes something of them. -/
def finish (slots : Slots) : Except Defect result.Val :=
  (slots.takeAll ((List.range cs.length).map fun i => (i, .char))).map fun values =>
    f (collect _ values)

/-- The sequence. -/
def root : Entry :=
  ⟨2 * cs.length, label, .branch (.sequence result (finish cs result f)), none,
    List.range' 1 cs.length⟩

/-- The leaf of the scalar with an index. -/
def spot (c : Char) (index : Nat) : Entry :=
  ⟨2 * index + 1, String.singleton c, .leaf (landmark c), some (0, index), []⟩

/-- The row as it is prepared. -/
def registry : Registry where
  entries := root label cs result f :: cs.zipIdx.map fun (c, index) => spot c index

/-- What is built for one scalar: the leaf, and the safe spot made of it. -/
def cells (c : Char) : List Cell :=
  [.finished (.leaf (Primitive.char c).leaf), .finished (.leaf (landmark c))]

/-- The places of the safe spots of some scalars, of which the first has an index. -/
def places (index : Nat) (cs : List Char) : List Nat :=
  (cs.zipIdx index).map fun (_, index) => 2 * index + 1

end Preparing

section Assembling

variable {a : Assembly} {fuel : Nat} {scope : List (String × Nat)} {c : Char} {cs : List Char}

/-- A finished leaf needs no more work when it is looked at. -/
theorem force_leaf {place : Nat} {leaf : Leaf}
    (h : a.cells[place]? = some (.finished (.leaf leaf))) :
    Assembly.force (fuel + 1) place a = .ok (place, a) := by
  rw [Assembly.force, h]

/-- A scalar as a safe spot adds its cells, the second of which is the safe spot. The first is the
    leaf that it was made of, and nothing refers to that any more. -/
theorem build_char (fuel : Nat) (a : Assembly) (scope : List (String × Nat)) (c : Char) :
    Assembly.build (fuel + 2) scope (.safe (.leaf (Primitive.char c).leaf)) a =
      .ok (a.cells.length + 1, { a with cells := a.cells ++ cells c }) := by
  have hcell : (a.cells ++ [Cell.finished (.leaf (Primitive.char c).leaf)])[a.cells.length]? =
      some (.finished (.leaf (Primitive.char c).leaf)) := by
    rw [List.getElem?_append_right (Nat.le_refl _), Nat.sub_self]
    rfl
  rw [Assembly.build, Assembly.build]
  change (Assembly.force (fuel + 1) a.cells.length ⟨a.cells ++ _, a.deferredBuilds⟩ >>= _) = _
  rw [force_leaf hcell]
  change Assembly.promote ⟨a.cells ++ _, a.deferredBuilds⟩ a.cells.length = _
  rw [Assembly.promote, hcell]
  change Except.ok (_, Assembly.mk (_ ++ _) _) = _
  rw [List.append_assoc, List.length_append]
  rfl

/-- The scalars are built from left to right, two cells for each. -/
theorem buildAll_chars (fuel : Nat) (scope : List (String × Nat)) (cs : List Char) (index : Nat)
    (a : Assembly) (ha : a.cells.length = 2 * index) :
    Assembly.buildAll (Assembly.build (fuel + 2) scope)
        (cs.map fun c => .safe (.leaf (Primitive.char c).leaf)) a =
      .ok (places index cs, { a with cells := a.cells ++ cs.flatMap cells }) := by
  induction cs generalizing index a with
  | nil => simp [Assembly.buildAll, places]
  | cons c cs ih =>
    rw [List.map_cons, Assembly.buildAll, build_char]
    change (Assembly.buildAll _ _ ⟨a.cells ++ cells c, a.deferredBuilds⟩ >>= _) = _
    rw [ih (index + 1) ⟨a.cells ++ cells c, a.deferredBuilds⟩ (by simp [ha, cells]; omega)]
    simp [places, ha, Bind.bind, Except.bind, Pure.pure, Except.pure]

theorem length_flatMap_cells (cs : List Char) : (cs.flatMap cells).length = 2 * cs.length := by
  induction cs with
  | nil => rfl
  | cons c cs ih =>
    rw [List.flatMap_cons, List.length_append, ih, List.length_cons, cells]
    simp only [List.length_cons, List.length_nil]
    omega

/-- The safe spot of a scalar stands behind the cells of those before it, at an odd place. -/
theorem getElem?_flatMap_cells (cs : List Char) (index : Nat) :
    (cs.flatMap cells)[2 * index + 1]? =
      cs[index]?.map fun c => .finished (.leaf (landmark c)) := by
  induction cs generalizing index with
  | nil => rfl
  | cons c cs ih =>
    cases index with
    | zero => rfl
    | succ index => exact ih index

/-- Walking over finished leaves builds nothing, so the cells stay as they are, and only the places
    that were seen become more. -/
theorem walkAll_leaves (fuel depth : Nat) (a : Assembly) (places : List Nat)
    (h : ∀ place ∈ places, ∃ leaf, a.cells[place]? = some (.finished (.leaf leaf)))
    (seen : List Nat) :
    ∃ seen', Assembly.walkAll (Assembly.walk (fuel + 1) (depth + 1)) places (seen, a) =
      .ok (seen', a) := by
  induction places generalizing seen with
  | nil => exact ⟨seen, rfl⟩
  | cons place places ih =>
    obtain ⟨leaf, hleaf⟩ := h place List.mem_cons_self
    have hwalk : ∃ seen', Assembly.walk (fuel + 1) (depth + 1) place (seen, a) =
        .ok (seen', a) := by
      rw [Assembly.walk, force_leaf hleaf]
      change ∃ seen', (if seen.contains place then _ else _) = _
      split
      · exact ⟨seen, rfl⟩
      · rw [hleaf]
        exact ⟨place :: seen, rfl⟩
    obtain ⟨seen₁, hwalk⟩ := hwalk
    obtain ⟨seen₂, hrest⟩ := ih (fun other hother => h other (List.mem_cons_of_mem _ hother)) seen₁
    refine ⟨seen₂, ?_⟩
    rw [Assembly.walkAll, hwalk]
    exact hrest

end Assembling

section Registering

variable (label : String) (cs : List Char) (result : Ty) (f : List Char → result.Val)

/-- The cells of the row: those of the scalars, and the sequence. -/
def built : List Cell :=
  cs.flatMap cells ++
    [.finished (.branch label (.sequence result (finish cs result f)) (places 0 cs))]

/-- The row as a graph. -/
def graph : Graph :=
  ⟨(built label cs result f).map Assembly.finish, 2 * cs.length⟩

theorem getElem?_built_last : (built label cs result f)[2 * cs.length]? =
    some (.finished (.branch label (.sequence result (finish cs result f)) (places 0 cs))) := by
  rw [built, List.getElem?_append_right (by rw [length_flatMap_cells]), length_flatMap_cells,
    Nat.sub_self]
  rfl

theorem getElem?_built {index : Nat} {c : Char} (h : cs[index]? = some c) :
    (built label cs result f)[2 * index + 1]? = some (.finished (.leaf (landmark c))) := by
  have hlt := (List.getElem?_eq_some_iff.1 h).1
  rw [built, List.getElem?_append_left (by rw [length_flatMap_cells]; omega),
    getElem?_flatMap_cells, h, Option.map_some]

theorem mem_places {place : Nat} (h : place ∈ places 0 cs) :
    ∃ index c, cs[index]? = some c ∧ place = 2 * index + 1 := by
  obtain ⟨⟨c, index⟩, hmem, rfl⟩ := List.mem_map.1 h
  exact ⟨index, c, List.mem_zipIdx_iff_getElem?.1 hmem, rfl⟩

/-- Building the row leaves its cells, with the sequence in the last one. Nothing in it is deferred,
    so the fuel of its own depth is enough. -/
theorem build_row (hcs : cs ≠ []) (fuel : Nat) :
    Assembly.build (fuel + 3) [] (parser label cs result f).grammar ⟨[], 0⟩ =
      .ok (2 * cs.length, ⟨built label cs result f, 0⟩) := by
  have hchildren : (cs.map fun c => (⟨.char, (Parser.char c).safe⟩ : AnyParser)).map
      (·.2.grammar) = cs.map fun c => .safe (.leaf (Primitive.char c).leaf) := List.map_map
  have hplaces : (places 0 cs).isEmpty = false := by
    obtain ⟨c, rest, rfl⟩ := List.exists_cons_of_ne_nil hcs
    rfl
  rw [parser, Parser.sequence, hchildren, Assembly.build, buildAll_chars fuel [] cs 0 ⟨[], 0⟩ rfl]
  change (if (places 0 cs).isEmpty then _ else _) = _
  rw [hplaces, if_neg Bool.false_ne_true]
  change Except.ok (([] ++ cs.flatMap cells).length, _) = _
  rw [List.nil_append, length_flatMap_cells]
  rfl

/-- Walking over the row builds nothing, since everything in it is finished. -/
theorem walk_row (fuel depth : Nat) :
    ∃ seen, Assembly.walk (fuel + 1) (depth + 2) (2 * cs.length)
      ([], ⟨built label cs result f, 0⟩) = .ok (seen, ⟨built label cs result f, 0⟩) := by
  have hlast := getElem?_built_last label cs result f
  have hforce : Assembly.force (fuel + 1) (2 * cs.length) ⟨built label cs result f, 0⟩ =
      .ok (2 * cs.length, ⟨built label cs result f, 0⟩) := by
    rw [Assembly.force, hlast]
  have hleaves : ∀ place ∈ places 0 cs, ∃ leaf,
      (built label cs result f)[place]? = some (.finished (.leaf leaf)) := by
    intro place hplace
    obtain ⟨index, c, hc, rfl⟩ := mem_places cs hplace
    exact ⟨_, getElem?_built label cs result f hc⟩
  obtain ⟨seen, hseen⟩ := walkAll_leaves fuel depth ⟨built label cs result f, 0⟩ (places 0 cs)
    hleaves [2 * cs.length]
  refine ⟨seen, ?_⟩
  rw [Assembly.walk, hforce]
  dsimp only [Bind.bind, Except.bind]
  rw [hlast]
  exact hseen

theorem size_row : (parser label cs result f).grammar.size = 1 + 2 * cs.length := by
  change 1 + Grammar.size.sizes _ = _
  rw [List.map_map]
  congr 1
  induction cs with
  | nil => rfl
  | cons c cs ih =>
    rw [List.map_cons, Grammar.size.sizes, ih, List.length_cons, Nat.mul_succ, Nat.add_comm]
    rfl

/-- The row is assembled into its graph, if it has a scalar at all. -/
theorem assemble_row (hcs : cs ≠ []) :
    (parser label cs result f).grammar.assemble = .ok ⟨graph label cs result f, 0⟩ := by
  have hfuel : ∃ fuel, (2 * cs.length + 2) * (2 * cs.length + 2) = fuel + 3 :=
    Nat.exists_eq_add_of_le' (Nat.le_trans (by decide)
      (Nat.mul_le_mul (Nat.le_add_left 2 _) (Nat.le_add_left 2 _)))
  obtain ⟨fuel, hfuel⟩ := hfuel
  obtain ⟨seen, hwalk⟩ := walk_row label cs result f (fuel + 2) (2 * cs.length)
  rw [Grammar.assemble, size_row, Nat.add_comm 1]
  dsimp only
  rw [hfuel, build_row label cs result f hcs]
  change (Assembly.walk _ _ _ _ >>= _) = _
  rw [hwalk]
  rfl

theorem getElem?_nodes (place : Nat) : (graph label cs result f).nodes[place]? =
    (built label cs result f)[place]?.map Assembly.finish :=
  List.getElem?_map

/-- A scalar is registered with its index, behind the sequence and the scalars before it. It is a
    leaf, so nothing is registered below it. -/
theorem register_spot (depth next : Nat) {index : Nat} {c : Char} (h : cs[index]? = some c) :
    Registry.register (graph label cs result f) (depth + 1) [(2 * cs.length, 0)] (some (0, index))
      next (2 * index + 1) = .ok (next, [spot c index]) := by
  have hnode : (graph label cs result f).nodes[2 * index + 1]? = some (.leaf (landmark c)) := by
    rw [getElem?_nodes, getElem?_built label cs result f h]
    rfl
  have hlookup : List.lookup (2 * index + 1) [(2 * cs.length, 0)] = none := by
    rw [List.lookup_cons, beq_false_of_ne (by omega)]
    rfl
  rw [Registry.register, Graph.resolve_eq_self hnode fun _ heq => nomatch heq]
  dsimp only [Bind.bind, Except.bind]
  rw [hlookup]
  dsimp only
  rw [hnode]
  rfl

/-- The scalars are registered from left to right, so the one with an index gets the next
    identifier. The induction is on those that are left. -/
theorem registerChildren_spots (depth : Nat) (rest : List Char) (index : Nat)
    (hrest : rest = cs.drop index) :
    Registry.registerChildren (fun parent => Registry.register (graph label cs result f)
        (depth + 1) [(2 * cs.length, 0)] (some parent)) 0 index (index + 1) (places index rest) =
      .ok (List.range' (index + 1) rest.length,
        (rest.zipIdx index).map fun (c, index) => spot c index) := by
  induction rest generalizing index with
  | nil => rfl
  | cons c rest ih =>
    have hc : cs[index]? = some c := by
      rw [← List.head?_drop, ← hrest]
      rfl
    have hnext : rest = cs.drop (index + 1) := by
      rw [← List.tail_drop, ← hrest]
      rfl
    change Registry.registerChildren _ 0 index (index + 1)
      ((2 * index + 1) :: places (index + 1) rest) = _
    rw [Registry.registerChildren, register_spot label cs result f depth (index + 1) hc]
    change (Registry.registerChildren _ 0 (index + 1) (index + 1 + 1) _ >>= _) = _
    rw [ih (index + 1) hnext]
    rfl

/-- The row is prepared into its registry: the sequence is the first occurrence, and the leaf of the
    scalar with an index is the one with the next identifier. The results about rows are about what
    is prepared and run. -/
theorem prepare_row (hcs : cs ≠ []) :
    (parser label cs result f).prepare = .ok ⟨registry label cs result f, 0⟩ := by
  have hlast : (graph label cs result f).nodes[2 * cs.length]? =
      some (.branch label (.sequence result (finish cs result f)) (places 0 cs)) := by
    rw [getElem?_nodes, getElem?_built_last]
    rfl
  have hdepth : ∃ depth, (graph label cs result f).nodes.length = depth + 1 := by
    have hlt := (List.getElem?_eq_some_iff.1 hlast).1
    exact Nat.exists_eq_add_of_le' (Nat.lt_of_le_of_lt (Nat.zero_le _) hlt)
  obtain ⟨depth, hdepth⟩ := hdepth
  have hchildren := registerChildren_spots label cs result f depth cs 0 rfl
  have hregister : Registry.register (graph label cs result f) (depth + 1 + 1) [] none 0
      (2 * cs.length) = .ok (0, (registry label cs result f).entries) := by
    rw [Registry.register, Graph.resolve_eq_self hlast fun _ heq => nomatch heq]
    dsimp only [Bind.bind, Except.bind, List.lookup]
    rw [hlast]
    dsimp only
    rw [hchildren]
    rfl
  rw [Parser.prepare, assemble_row label cs result f hcs]
  change (Registry.ofGraph _ >>= _) = _
  rw [Registry.ofGraph, hdepth]
  change ((Registry.register (graph label cs result f) (depth + 1 + 1) [] none 0 (2 * cs.length)
    >>= _) >>= _) = _
  rw [hregister]
  rfl

end Registering

end Resync.Row
