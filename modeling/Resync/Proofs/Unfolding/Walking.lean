import Resync.Proofs.Unfolding.Assembly

namespace Resync

namespace Assembly

/-- What the places of an assembly would be in a finished graph. -/
def nodes (a : Assembly) : List Node :=
  a.cells.map finish

variable {a b : Assembly} {place actual : Nat} {tree : Tree}

theorem getElem?_nodes {node : Node} (h : a.cells[place]? = some (.finished node)) :
    a.nodes[place]? = some node := by
  rw [nodes, List.getElem?_map, h]
  rfl

theorem getElem?_cells {node : Node} (h : a.nodes[place]? = some node) (hbuilt : node.IsBuilt) :
    a.cells[place]? = some (.finished node) := by
  rw [nodes, List.getElem?_map] at h
  obtain ⟨cell, hcell, rfl⟩ := Option.map_eq_some_iff.1 h
  cases cell with
  | finished node => exact hcell
  | undefined => cases hbuilt
  | pending scope definition => cases hbuilt
  | underway => cases hbuilt

theorem Keeps.unfolds (h : a.Keeps b) (hplace : Unfolds a.nodes place tree) :
    Unfolds b.nodes place tree :=
  hplace.mono fun hnode hbuilt => getElem?_nodes (h _ _ (getElem?_cells hnode hbuilt) trivial)

/-- A place unfolds to what the parser that it leads to does, along forwarding nodes. -/
theorem unfolds_of_leads (hleads : Relation.ReflTransGen a.Forwards place actual)
    (hactual : Unfolds a.nodes actual tree) : Unfolds a.nodes place tree := by
  induction hleads using Relation.ReflTransGen.head_induction_on with
  | refl => exact hactual
  | head hstep _ ih => exact .forward (getElem?_nodes hstep) ih

variable {limit bound : Nat} {plans plans' : List Plan} {plan : Plan} {seen : List Nat}

/-- Everything that was seen is unfolded, if its rank is below a bound. -/
def Explored (plans : List Plan) (a : Assembly) (seen : List Nat) (bound : Nat) : Prop :=
  ∀ place ∈ seen, ∃ plan, plans[place]? = some plan ∧
    (plan.rank < bound → Unfolds a.nodes place plan.tree)

/-- A walk has gone on, and all that it has seen on the way is unfolded. -/
structure Explores (limit : Nat) (plans : List Plan) (seen : List Nat) (a : Assembly)
    (out : List Nat × Assembly) (plans' : List Plan) : Prop where
  grows : GrowsTo limit plans a (a.debt + 1) out.2 plans'
  seen : ∀ place ∈ out.1, place ∈ seen ∨
    ∃ plan, plans'[place]? = some plan ∧ Unfolds out.2.nodes place plan.tree

/-- What is unfolded below a bound is so below a smaller one. -/
theorem Explored.mono {bound' : Nat} (h : Explored plans a seen bound) (hle : bound' ≤ bound) :
    Explored plans a seen bound' := by
  intro place hplace
  obtain ⟨plan, hplan, hunfolds⟩ := h place hplace
  exact ⟨plan, hplan, fun hlt => hunfolds (Nat.lt_of_lt_of_le hlt hle)⟩

theorem Explored.grow {debt : Nat} (h : Explored plans a seen bound)
    (hgrows : GrowsTo limit plans a debt b plans') : Explored plans' b seen bound := by
  intro place hplace
  obtain ⟨plan, hplan, hunfolds⟩ := h place hplace
  exact ⟨plan, getElem?_extend hgrows.extends_plans hplan,
    fun hlt => hgrows.keeps.unfolds (hunfolds hlt)⟩

theorem Explores.explored {out : List Nat × Assembly} (h : Explores limit plans seen a out plans')
    (hseen : Explored plans a seen bound) : Explored plans' out.2 out.1 bound := by
  intro place hplace
  obtain hold | ⟨plan, hplan, hunfolds⟩ := h.seen place hplace
  · exact hseen.grow h.grows place hold
  · exact ⟨plan, hplan, fun _ => hunfolds⟩

/-- Two walks in a row have unfolded what each of them has seen. -/
theorem Explores.trans {plans'' : List Plan} {first last : List Nat × Assembly}
    (h : Explores limit plans seen a first plans')
    (h' : Explores limit plans' first.1 first.2 last plans'') :
    Explores limit plans seen a last plans'' where
  grows := (h.grows.trans h'.grows).mono (Nat.succ_le_of_lt h.grows.debt_lt)
  seen place hplace := by
    obtain hold | hnew := h'.seen place hplace
    · obtain hold | ⟨plan, hplan, hunfolds⟩ := h.seen place hold
      · exact .inl hold
      · exact .inr ⟨plan, getElem?_extend h'.grows.extends_plans hplan,
          h'.grows.keeps.unfolds hunfolds⟩
    · exact .inr hnew

/-- A place that was forced unfolds to what the parser that was found does, since it forwards to
    it. -/
theorem Forced.unfolds {out : Nat × Assembly} (h : Forced limit plans a place plan out)
    (hkeeps : out.2.Keeps b) (hactual : Unfolds b.nodes out.1 tree) : Unfolds b.nodes place tree := by
  have hforwards : out.2.Forwards ≤ b.Forwards := by
    intro source target hstep
    exact hkeeps source _ hstep trivial
  exact unfolds_of_leads (Relation.ReflTransGen.mono hforwards _ _ h.leads) hactual

/-- What was seen below a place that was forced was seen below the place itself. -/
theorem Explores.of_forced {out : List Nat × Assembly}
    (h : Explores limit plans (actual :: seen) a out plans')
    {origin : Assembly} {earlier : List Plan}
    (hgrows : GrowsTo limit earlier origin (origin.debt + 1) a plans)
    (hplan : plans[actual]? = some plan) (hactual : Unfolds out.2.nodes actual plan.tree) :
    Explores limit earlier seen origin out plans' where
  grows := (hgrows.trans h.grows).mono (Nat.succ_le_of_lt hgrows.debt_lt)
  seen other hother := by
    obtain hold | hnew := h.seen other hother
    · obtain rfl | hold := List.mem_cons.1 hold
      · exact .inr ⟨plan, getElem?_extend h.grows.extends_plans hplan, hactual⟩
      · exact .inl hold
    · exact .inr hnew

/-- Walking the children of a branch unfolds them, if walking each of them does. What an earlier one
    has seen is not walked again, and was unfolded then. -/
theorem settles_walkAll {walk : Nat → List Nat × Assembly → Except Fault (List Nat × Assembly)}
    {debt : Nat}
    (hwalk : ∀ {place below tree plans seen a}, below < bound → Follows limit a plans →
      plans[place]? = some ⟨tree, below⟩ → Explored plans a seen (below + 1) → a.debt ≤ debt →
        Fault.Settles (fun out => ∃ plans', Explores limit plans seen a out plans' ∧
          Unfolds out.2.nodes place tree) (walk place (seen, a)))
    {places : List Nat} {trees : List Tree} (h : a.Follows limit plans)
    (hplaces : ChildrenFollow plans bound places trees) (hseen : Explored plans a seen bound)
    (hdebt : a.debt ≤ debt) :
    Fault.Settles (fun out => ∃ plans', Explores limit plans seen a out plans' ∧
      List.Forall₂ (Unfolds out.2.nodes) places trees) (walkAll walk places (seen, a)) := by
  induction places generalizing plans seen a trees with
  | nil =>
    cases hplaces
    exact ⟨plans, ⟨.refl h (Nat.lt_succ_self _), fun _ hplace => .inl hplace⟩, .nil⟩
  | cons place places ih =>
    cases hplaces with
    | @cons _ tree _ trees hplace hplaces =>
      obtain ⟨below, hlt, hplan⟩ := hplace
      refine (hwalk hlt h hplan (hseen.mono hlt) hdebt).bind fun first hfirst => ?_
      obtain ⟨plans₁, hexplores, htree⟩ := hfirst
      have hdebt₁ : first.2.debt ≤ debt :=
        Nat.le_trans (Nat.le_of_lt_succ hexplores.grows.debt_lt) hdebt
      have hrest := ih hexplores.grows.follows
        (ChildrenFollow.extend hplaces hexplores.grows.extends_plans) (hexplores.explored hseen)
        hdebt₁
      refine hrest.imp fun last ⟨plans₂, hlast, htrees⟩ => ?_
      exact ⟨plans₂, hexplores.trans hlast, .cons (hlast.grows.keeps.unfolds htree) htrees⟩

/-- Walking a place unfolds it. A place that the walk has seen is unfolded, unless it is a branch
    that the walk is still inside; those have larger ranks, so they are not met again below. -/
theorem settles_walk {fuel depth : Nat} (h : a.Follows limit plans)
    (hplan : plans[place]? = some plan) (hseen : Explored plans a seen (plan.rank + 1))
    (hdepth : plan.rank < depth) (hfuel : forceFuel limit a.debt limit ≤ fuel) :
    Fault.Settles (fun out => ∃ plans', Explores limit plans seen a out plans' ∧
      Unfolds out.2.nodes place plan.tree) (walk fuel depth place (seen, a)) := by
  induction depth generalizing plans plan place seen a with
  | zero => exact absurd hdepth (Nat.not_lt_zero _)
  | succ depth ih =>
    have hforce : forceFuel limit a.debt plan.rank ≤ fuel := by
      have hrank := h.rank_le hplan
      rw [forceFuel_eq] at hfuel ⊢
      omega
    rw [walk]
    refine ((suffices_all limit fuel).force h hplan hforce).bind fun forced hforced => ?_
    obtain ⟨below, hle, plans₁, hgrows, hactual⟩ := hforced.arrives
    obtain ⟨tree, rank⟩ := plan
    dsimp only at hseen hdepth hle hactual ⊢
    split
    · next hcontains =>
      obtain ⟨plan', hplan', hunfolds⟩ := hseen forced.1 (List.contains_iff_mem.1 hcontains)
      rw [getElem?_extend hgrows.extends_plans hplan'] at hactual
      cases hactual
      refine ⟨plans₁, ⟨hgrows, fun _ hplace => .inl hplace⟩, ?_⟩
      exact hforced.unfolds .rfl (hgrows.keeps.unfolds (hunfolds (Nat.lt_succ_of_le hle)))
    · obtain ⟨node, hcell, hbuilt, hforward⟩ := hforced.isWorker
      have hfollows := hgrows.follows.cell hcell hactual
      rw [hcell]
      cases hfollows with
      | @leaf leaf _ =>
        have hleaf : Unfolds forced.2.nodes forced.1 (.leaf leaf) := .leaf (getElem?_nodes hcell)
        have hnothing : Explores limit plans₁ (forced.1 :: seen) forced.2
            (forced.1 :: seen, forced.2) plans₁ :=
          ⟨.refl hgrows.follows (Nat.lt_succ_self _), fun _ hplace => .inl hplace⟩
        exact ⟨plans₁, hnothing.of_forced hgrows hactual hleaf, hforced.unfolds .rfl hleaf⟩
      | @branch label rule places trees _ hchildren =>
        have hstart : Explored plans₁ forced.2 (forced.1 :: seen) below := by
          refine List.forall_mem_cons.2 ⟨⟨_, hactual, fun hlt => absurd hlt (Nat.lt_irrefl _)⟩, ?_⟩
          exact ((hseen.mono (Nat.le_succ_of_le hle)).grow hgrows)
        have hdebt : forced.2.debt ≤ a.debt := Nat.le_of_lt_succ hgrows.debt_lt
        refine (settles_walkAll (fun hlt hfollows hplan hseen hdebt => ?_) hgrows.follows hchildren
          hstart hdebt).imp fun out hout => ?_
        · exact ih hfollows hplan hseen (by dsimp only; omega)
            (Nat.le_trans (forceFuel_mono hdebt) hfuel)
        · obtain ⟨plans₂, hexplores, htrees⟩ := hout
          have hnode : out.2.nodes[forced.1]? = some (.branch label rule places) :=
            getElem?_nodes (hexplores.grows.keeps _ _ hcell trivial)
          have hbranch : Unfolds out.2.nodes forced.1 (.branch label rule trees) :=
            .branch_of_forall₂ hnode htrees
          exact ⟨plans₂, hexplores.of_forced hgrows hactual hbranch,
            hforced.unfolds hexplores.grows.keeps hbranch⟩
      | @forward target => exact absurd rfl (hforward target)

end Assembly

/-- A grammar without recursion is assembled to a graph that unfolds to its tree, unless it has a
    defect. Nothing that can be reached from its root is deferred any more once it has been
    walked. -/
theorem Grammar.settles_assemble {g : Grammar} (hfree : g.IsRecursionFree) :
    Fault.Settles (fun assembled => Unfolds assembled.graph.nodes assembled.graph.root g.tree)
      g.assemble := by
  have hempty : Assembly.Follows g.size ⟨[], 0⟩ [] := by
    refine ⟨rfl, fun hcell => ?_, fun hplan => ?_⟩
    · cases hcell
    · cases hplan
  have hfits : g.Fits g.size [] [] [] := by
    refine ⟨.nil, hfree, 0, fun _ hname => ?_, Nat.le_of_eq (Nat.zero_add _)⟩
    cases hname
  have hfuel : Assembly.buildFuel g.size g.size = (g.size + 1) * (g.size + 1) := by
    rw [Assembly.buildFuel, Nat.mul_add, Nat.add_mul, Nat.mul_add]
    omega
  have hdebt : Assembly.debt ⟨[], 0⟩ + g.size = g.size := Nat.zero_add _
  have hbuild := (Assembly.suffices_all g.size _).build hempty hfits
    (Nat.le_of_eq ((congrArg _ hdebt).trans hfuel))
  rw [hdebt] at hbuild
  refine hbuild.bind fun built hbuilt => ?_
  obtain ⟨plans, hgrows, hroot⟩ := hbuilt
  have hforceFuel : Assembly.forceFuel g.size built.2.debt g.size ≤ (g.size + 1) * (g.size + 1) := by
    have hmono := Assembly.buildFuel_mono g.size (Nat.succ_le_of_lt hgrows.debt_lt)
    rw [Assembly.buildFuel_succ] at hmono
    rw [Assembly.forceFuel_eq]
    omega
  have hunseen : Assembly.Explored plans built.2 [] ((g.plan []).rank + 1) := by
    intro place hplace
    cases hplace
  have hwalk := Assembly.settles_walk hgrows.follows hroot hunseen
    (Nat.lt_succ_of_le hfits.rank_le) hforceFuel
  refine hwalk.bind fun walked hwalked => ?_
  obtain ⟨-, -, hunfolds⟩ := hwalked
  exact hunfolds

end Resync
