import Resync.Proofs.Assembly.Carried
import Resync.Proofs.Engine.Indifference
import Resync.Proofs.Leaf.Admission
import Resync.Proofs.Registry.Primitives
import Resync.Proofs.Typing.Safety

namespace Resync

/-- A grammar whose leaves and rules do not read the error budget, however its parsers are shared,
    deferred or recursive. -/
inductive Grammar.IgnoresBudget : Grammar → Prop
  | leaf {leaf : Leaf} (h : leaf.IgnoresBudget) : IgnoresBudget (.leaf leaf)
  | branch {label : String} {rule : Rule} {children : List Grammar} (hrule : rule.IgnoresBudget)
      (hchildren : ∀ g ∈ children, IgnoresBudget g) : IgnoresBudget (.branch label rule children)
  | safe {g : Grammar} (h : IgnoresBudget g) : IgnoresBudget (.safe g)
  | named (name : String) : IgnoresBudget (.named name)
  | sharing (name : String) {definition body : Grammar} (hdefinition : IgnoresBudget definition)
      (hbody : IgnoresBudget body) : IgnoresBudget (.sharing name definition body)
  | recursive (name : String) {definition : Grammar} (h : IgnoresBudget definition) :
      IgnoresBudget (.recursive name definition)
  | deferred {definition : Grammar} (h : IgnoresBudget definition) :
      IgnoresBudget (.deferred definition)

/-- What may stand at a place while such a grammar is assembled. -/
def Cell.IgnoresBudget : Cell → Prop
  | finished (.leaf leaf) => leaf.IgnoresBudget
  | finished (.branch _ rule _) => rule.IgnoresBudget
  | pending _ definition => definition.IgnoresBudget
  | finished (.forward _) | finished .unused | undefined | underway => True

/-- Whether the budget is ignored is told by the leaves and the rules of a grammar, safe spots or
    not. -/
theorem carries_ignoresBudget : Assembly.Carries Grammar.IgnoresBudget Cell.IgnoresBudget where
  leaf hg := by
    cases hg with
    | leaf h => exact h
  children hg := by
    cases hg with
    | branch hrule hchildren => exact hchildren
  branch hg _ := by
    cases hg with
    | branch hrule hchildren => exact hrule
  safe hg := by
    cases hg with
    | safe h => exact h
  toSafeSpot {leaf _} hleaf hsafe := by
    have hignores : leaf.IgnoresBudget := hleaf
    rw [Leaf.eq_of_toSafeSpot hsafe]
    exact hignores.withSafeSpot true
  sharing hg := by
    cases hg with
    | sharing name hdefinition hbody => exact ⟨hdefinition, hbody⟩
  recursive hg := by
    cases hg with
    | recursive name h => exact h
  deferred hg := by
    cases hg with
    | deferred h => exact h
  pending hcell := hcell
  forward _ := trivial
  unused := trivial
  undefined := trivial
  underway := trivial

/-- Every occurrence of a prepared parser ignores the budget if its grammar does, however its
    parsers are shared, deferred or recursive. -/
theorem Grammar.IgnoresBudget.prepare {t : Ty} {parser : Parser t} {prepared : Prepared t}
    (hg : parser.grammar.IgnoresBudget) (h : parser.prepare = .ok prepared) :
    prepared.registry.IgnoresBudget := by
  unfold Parser.prepare at h
  obtain ⟨assembled, hassemble, h⟩ := Fault.bind_eq_ok_iff.1 h
  obtain ⟨reg, hreg, h⟩ := Fault.bind_eq_ok_iff.1 h
  cases h
  have hlaid := Registry.laidOut_ofGraph hreg
  have hnodes := carries_ignoresBudget.assemble hg hassemble
  refine ⟨fun hentry hwork => ?_, fun hentry hwork => ?_⟩
  · exact hnodes _ (List.mem_of_getElem? (hlaid.leaf_node hentry hwork))
  · obtain ⟨places, hnode, -⟩ := hlaid.branch_node hentry hwork
    exact hnodes _ (List.mem_of_getElem? hnode)

mutual

/-- A typed grammar has primitive leaves and built-in rules, and these ignore the budget. So nothing
    has to be assumed of typed parsers. -/
theorem Grammar.HasType.ignoresBudget {scope : List (String × Ty)} {g : Grammar} {t : Ty}
    (h : g.HasType scope t) : g.IgnoresBudget := by
  cases h with
  | leaf primitive => exact .leaf primitive.leaf_ignoresBudget
  | branch hreads hchildren =>
    exact .branch hreads.isBuiltIn.ignoresBudget hchildren.ignoreBudget
  | safe h => exact .safe h.ignoresBudget
  | named h => exact .named _
  | sharing hdefinition hbody => exact .sharing _ hdefinition.ignoresBudget hbody.ignoresBudget
  | recursive h => exact .recursive _ h.ignoresBudget
  | deferred h => exact .deferred h.ignoresBudget

/-- The parts of a typed grammar ignore the budget too. -/
theorem Grammar.HasTypes.ignoreBudget {scope : List (String × Ty)} {gs : List Grammar}
    {ts : List Ty} (h : Grammar.HasTypes scope gs ts) : ∀ g ∈ gs, g.IgnoresBudget := by
  cases h with
  | nil => exact fun _ hg => absurd hg List.not_mem_nil
  | cons h hs => exact List.forall_mem_cons.2 ⟨h.ignoresBudget, hs.ignoreBudget⟩

end

end Resync
