import Resync.Proofs.Assembly.Carried
import Resync.Proofs.Leaf.Admission
import Resync.Proofs.Reading.Descent

namespace Resync

/-- A grammar of primitive leaves of an allowed kind, and of branches with built-in rules. -/
inductive Grammar.IsPrimitive (allowed : Primitive → Prop) : Grammar → Prop
  | leaf {primitive : Primitive} (h : allowed primitive) : IsPrimitive allowed (.leaf primitive.leaf)
  | branch {label : String} {rule : Rule} {children : List Grammar} (hrule : rule.IsBuiltIn)
      (hchildren : ∀ g ∈ children, IsPrimitive allowed g) :
      IsPrimitive allowed (.branch label rule children)
  | safe {g : Grammar} (h : IsPrimitive allowed g) : IsPrimitive allowed (.safe g)
  | named (name : String) : IsPrimitive allowed (.named name)
  | sharing (name : String) {definition body : Grammar} (hdefinition : IsPrimitive allowed definition)
      (hbody : IsPrimitive allowed body) : IsPrimitive allowed (.sharing name definition body)
  | recursive (name : String) {definition : Grammar} (h : IsPrimitive allowed definition) :
      IsPrimitive allowed (.recursive name definition)
  | deferred {definition : Grammar} (h : IsPrimitive allowed definition) :
      IsPrimitive allowed (.deferred definition)

/-- What may stand at a place while such a grammar is assembled. A safe spot was admitted there. -/
def Cell.IsPrimitive (allowed : Primitive → Prop) : Cell → Prop
  | finished (.leaf leaf) => ∃ primitive, allowed primitive ∧ leaf.IsOf primitive ∧
      (leaf.safeSpot = true → primitive.Consumes)
  | finished (.branch _ rule _) => rule.IsBuiltIn
  | pending _ definition => definition.IsPrimitive allowed
  | finished (.forward _) | finished .unused | undefined | underway => True

variable {allowed : Primitive → Prop}

/-- A safe spot of a primitive was told to consume by the recoverer of that primitive, as it was
    admitted. -/
theorem Leaf.IsOf.consumes_of_toSafeSpot {leaf safe : Leaf} {primitive : Primitive}
    (h : leaf.IsOf primitive) (hsafe : leaf.toSafeSpot = .ok safe) : primitive.Consumes := by
  obtain ⟨safeSpot, rfl⟩ := h
  have hanchors : primitive.leaf.neverAnchors = false := (toSafeSpot_eq_ok_iff.1 hsafe).1
  exact Primitive.neverAnchors_eq_false_iff.1 hanchors

theorem carries_isPrimitive (allowed : Primitive → Prop) :
    Assembly.Carries (Grammar.IsPrimitive allowed) (Cell.IsPrimitive allowed) where
  leaf hg := by
    cases hg with
    | @leaf primitive hallowed =>
      have hplain : primitive.leaf.safeSpot = false := by cases primitive <;> rfl
      refine ⟨primitive, hallowed, ⟨primitive.leaf.safeSpot, rfl⟩, fun hsafe => ?_⟩
      rw [hplain] at hsafe
      cases hsafe
  children hg := by
    cases hg with
    | branch hrule hchildren => exact hchildren
  branch hg _ := by
    cases hg with
    | branch hrule hchildren => exact hrule
  safe hg := by
    cases hg with
    | safe h => exact h
  toSafeSpot hleaf hsafe := by
    obtain ⟨primitive, hallowed, hof, -⟩ := hleaf
    have hconsumes := hof.consumes_of_toSafeSpot hsafe
    obtain ⟨safeSpot, rfl⟩ := hof
    rw [Leaf.eq_of_toSafeSpot hsafe]
    exact ⟨primitive, hallowed, ⟨true, rfl⟩, fun _ => hconsumes⟩
  sharing hg := by
    cases hg with
    | sharing name hdefinition hbody => exact ⟨hdefinition, hbody⟩
  recursive hg := by
    cases hg with
    | recursive name h => exact h
  deferred hg := by
    cases hg with
    | deferred h => exact h
  pending hcell := hcell
  forward _ := trivial
  unused := trivial
  undefined := trivial
  underway := trivial

namespace Grammar.IsPrimitive

variable {g : Grammar} {assembled : Assembled} {place : Nat}

/-- Every leaf of the graph is a primitive of the allowed kind, which consumes if it is a safe
    spot. -/
theorem exists_of_leaf (hg : g.IsPrimitive allowed) (h : g.assemble = .ok assembled) {leaf : Leaf}
    (hnode : assembled.graph.nodes[place]? = some (.leaf leaf)) :
    ∃ primitive, allowed primitive ∧ leaf.IsOf primitive ∧
      (leaf.safeSpot = true → primitive.Consumes) :=
  (carries_isPrimitive allowed).assemble hg h _ (List.mem_of_getElem? hnode)

/-- A grammar of primitive leaves and built-in branches, however its parsers are shared, deferred or
    recursive, is assembled into a graph of such parsers. -/
theorem graph (hg : g.IsPrimitive allowed) (h : g.assemble = .ok assembled) :
    assembled.graph.IsPrimitive allowed where
  leaf hnode := by
    obtain ⟨primitive, hallowed, hleaf, -⟩ := hg.exists_of_leaf h hnode
    exact ⟨primitive, hallowed, hleaf⟩
  branch hnode := (carries_isPrimitive allowed).assemble hg h _ (List.mem_of_getElem? hnode)

/-- No safe spot of an assembled grammar can match without consuming, since it was admitted. What
    readings of a graph ask for in this respect need not be assumed. -/
theorem safeSpotsConsume (hg : g.IsPrimitive allowed) (h : g.assemble = .ok assembled) :
    assembled.graph.SafeSpotsConsume := by
  intro place leaf hnode hsafe
  obtain ⟨primitive, -, hleaf, hconsumes⟩ := hg.exists_of_leaf h hnode
  exact hleaf.consumes (hconsumes hsafe)

/-- Where an occurrence of a safe spot is run and succeeds, the attempts that began there or before
    are committed. -/
theorem crossedSafeSpotSince (hg : g.IsPrimitive allowed) (h : g.assemble = .ok assembled)
    {reg : Registry} (hreg : Registry.ofGraph assembled.graph = .ok reg) {id : Nat} {entry : Entry}
    {leaf : Leaf} (hentry : reg.entries[id]? = some entry) (hwork : entry.work = .leaf leaf)
    (hsafe : leaf.safeSpot = true) {s before : State} (hs : s.pos ≤ s.input.size)
    (hbefore : before.pos ≤ s.pos) {depth : Nat} {r : Result}
    (hparse : (reg.parse (depth + 1) id s).result = .ok r) (hok : r.isOk = true) :
    r.stop.crossedSafeSpotSince before = true := by
  rw [Registry.result_parse_of_leaf hentry hwork] at hparse
  cases hparse
  have hnode := (Registry.laidOut_ofGraph hreg).leaf_node hentry hwork
  have hconsumes := hg.safeSpotsConsume h hnode hsafe
  exact decide_eq_true (Nat.lt_of_le_of_lt hbefore (hconsumes.pos_lt_safeSpot hsafe hs hok))

end Grammar.IsPrimitive

end Resync
