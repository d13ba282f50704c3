import Resync.Proofs.Assembly.Places
import Resync.Proofs.Unfolding.Tree

namespace Resync

/-- What a place will unfold to. -/
structure Plan where
  tree : Tree
  /-- A bound for the number of steps along forwarding nodes and children. -/
  rank : Nat

namespace Grammar

/-- The number of steps along deferred parsers and children, given those of the names in scope. -/
def rank : (scope : List (String × Nat)) → Grammar → Nat
  | _, leaf _ => 0
  | scope, branch _ _ children => 1 + rankAll scope children
  | _, safe _ => 0
  | scope, named name => (scope.lookup name).getD 0
  | scope, sharing name definition body => body.rank ((name, definition.rank scope) :: scope)
  | _, recursive _ _ => 0
  | scope, deferred definition => 1 + definition.rank scope
where
  rankAll : (scope : List (String × Nat)) → List Grammar → Nat
    | _, [] => 0
    | scope, g :: gs => max (g.rank scope) (rankAll scope gs)

/-- The trees of the names in scope. -/
def trees (names : List (String × Plan)) : List (String × Tree) :=
  names.map fun name => (name.1, name.2.tree)

/-- The ranks of the names in scope. -/
def ranks (names : List (String × Plan)) : List (String × Nat) :=
  names.map fun name => (name.1, name.2.rank)

/-- The plan of a grammar, given those of the names in scope. -/
def plan (names : List (String × Plan)) (g : Grammar) : Plan :=
  ⟨g.unfold (trees names), g.rank (ranks names)⟩

variable {names : List (String × Plan)}

theorem lookup_map_snd {α β : Type} (f : α → β) (names : List (String × α)) (name : String) :
    (names.map fun entry => (entry.1, f entry.2)).lookup name = (names.lookup name).map f := by
  induction names with
  | nil => rfl
  | cons entry names ih =>
    rw [List.map_cons, List.lookup_cons, List.lookup_cons, ih]
    split <;> rfl

theorem plan_named {name : String} {plan : Plan} (h : names.lookup name = some plan) :
    (named name).plan names = plan := by
  rw [Grammar.plan, unfold, rank, trees, ranks, lookup_map_snd, lookup_map_snd, h]
  rfl

mutual

/-- The rank of a grammar is larger than those of its names by its size at most. The induction
    follows the grammar, with the ranks of the names that it adds. -/
theorem rank_le {scope : List (String × Nat)} {bound : Nat}
    (hscope : ∀ entry ∈ scope, entry.2 ≤ bound) (g : Grammar) : g.rank scope ≤ bound + g.size := by
  cases g with
  | leaf l => exact Nat.zero_le _
  | branch label rule children =>
    have hle := rankAll_le hscope children
    rw [rank, size]
    omega
  | safe g => exact Nat.zero_le _
  | named name =>
    rw [rank]
    cases hlookup : scope.lookup name with
    | none => exact Nat.zero_le _
    | some found =>
      obtain ⟨before, after, rfl, -⟩ := List.lookup_eq_some_iff.1 hlookup
      exact Nat.le_add_right_of_le (hscope (name, found) (by simp))
  | sharing name definition body =>
    have hdefinition := rank_le hscope definition
    have hextended : ∀ entry ∈ (name, definition.rank scope) :: scope,
        entry.2 ≤ bound + definition.size :=
      List.forall_mem_cons.2
        ⟨hdefinition, fun entry hentry => Nat.le_add_right_of_le (hscope entry hentry)⟩
    have hbody := rank_le hextended body
    rw [rank, size]
    omega
  | recursive name definition => exact Nat.zero_le _
  | deferred definition =>
    have hle := rank_le hscope definition
    rw [rank, size]
    omega

theorem rankAll_le {scope : List (String × Nat)} {bound : Nat}
    (hscope : ∀ entry ∈ scope, entry.2 ≤ bound) (gs : List Grammar) :
    rank.rankAll scope gs ≤ bound + size.sizes gs := by
  cases gs with
  | nil => exact Nat.zero_le _
  | cons g gs =>
    have hhead := rank_le hscope g
    have htail := rankAll_le hscope gs
    rw [rank.rankAll, size.sizes]
    omega

end

end Grammar

section Following

variable {limit : Nat} {plans plans' : List Plan}

/-- The children of a branch are planned as its tree says, each with a smaller rank. -/
def ChildrenFollow (plans : List Plan) (rank : Nat) : List Nat → List Tree → Prop :=
  List.Forall₂ fun place tree => ∃ below < rank, plans[place]? = some ⟨tree, below⟩

/-- Names in scope with what they will unfold to. -/
def ScopeFollows (plans : List Plan) (scope : List (String × Nat)) (names : List (String × Plan)) :
    Prop :=
  List.Forall₂ (fun entry name => entry.1 = name.1 ∧ plans[entry.2]? = some name.2) scope names

/-- A grammar can be built in a scope: it is free of recursion, and the ranks of all its parsers stay
    within a limit. -/
structure Grammar.Fits (limit : Nat) (plans : List Plan) (scope : List (String × Nat))
    (names : List (String × Plan)) (g : Grammar) : Prop where
  scope : ScopeFollows plans scope names
  free : g.IsRecursionFree
  room : ∃ bound, (∀ name ∈ names, name.2.rank ≤ bound) ∧ bound + g.size ≤ limit

/-- What may stand at a place of a plan, given the plans of all places. -/
inductive Cell.Follows (limit : Nat) (plans : List Plan) : Cell → Plan → Prop
  | leaf {leaf : Leaf} {rank : Nat} :
      Follows limit plans (.finished (.leaf leaf)) ⟨.leaf leaf, rank⟩
  | branch {label : String} {rule : Rule} {places : List Nat} {trees : List Tree} {rank : Nat}
      (hchildren : ChildrenFollow plans rank places trees) :
      Follows limit plans (.finished (.branch label rule places)) ⟨.branch label rule trees, rank⟩
  | forward {target below rank : Nat} {tree : Tree} (htarget : plans[target]? = some ⟨tree, below⟩)
      (hlt : below < rank) : Follows limit plans (.finished (.forward target)) ⟨tree, rank⟩
  | pending {scope : List (String × Nat)} {names : List (String × Plan)} {definition : Grammar}
      (hfits : definition.Fits limit plans scope names) :
      Follows limit plans (.pending scope definition)
        ((Grammar.deferred definition).plan names)
  | underway {plan : Plan} : Follows limit plans .underway plan

/-- An assembly with a plan for each place. -/
structure Assembly.Follows (limit : Nat) (a : Assembly) (plans : List Plan) : Prop where
  length_eq : a.cells.length = plans.length
  cell : ∀ {place : Nat} {cell : Cell} {plan : Plan}, a.cells[place]? = some cell →
    plans[place]? = some plan → cell.Follows limit plans plan
  rank_le : ∀ {place : Nat} {plan : Plan}, plans[place]? = some plan → plan.rank ≤ limit

theorem ChildrenFollow.extend {rank : Nat} {places : List Nat} {trees : List Tree}
    (hplaces : ChildrenFollow plans rank places trees) (h : plans <+: plans') :
    ChildrenFollow plans' rank places trees :=
  hplaces.imp fun _ _ ⟨below, hlt, hplace⟩ => ⟨below, hlt, getElem?_extend h hplace⟩

theorem ScopeFollows.extend {scope : List (String × Nat)} {names : List (String × Plan)}
    (hscope : ScopeFollows plans scope names) (h : plans <+: plans') :
    ScopeFollows plans' scope names :=
  hscope.imp fun _ _ hentry => ⟨hentry.1, getElem?_extend h hentry.2⟩

theorem ScopeFollows.cons {scope : List (String × Nat)} {names : List (String × Plan)}
    (h : ScopeFollows plans scope names) (name : String) {place : Nat} {plan : Plan}
    (hplace : plans[place]? = some plan) :
    ScopeFollows plans ((name, place) :: scope) ((name, plan) :: names) :=
  List.Forall₂.cons ⟨rfl, hplace⟩ h

/-- The place of a name has the plan of the name, so what is named unfolds as planned. -/
theorem ScopeFollows.lookup {scope : List (String × Nat)} {names : List (String × Plan)}
    (h : ScopeFollows plans scope names) {name : String} {place : Nat}
    (hplace : scope.lookup name = some place) :
    plans[place]? = some ((Grammar.named name).plan names) := by
  obtain ⟨plan, hname, hplan⟩ := exists_lookup_of_forall₂ h hplace
  rw [Grammar.plan_named hname]
  exact hplan

/-- Names of small ranks make grammars of small ranks, by their sizes at most. -/
theorem Grammar.rank_le_of_names {names : List (String × Plan)} {bound : Nat}
    (hbound : ∀ name ∈ names, name.2.rank ≤ bound) (g : Grammar) :
    (g.plan names).rank ≤ bound + g.size := by
  refine rank_le (fun entry hentry => ?_) g
  obtain ⟨name, hname, rfl⟩ := List.mem_map.1 hentry
  exact hbound name hname

namespace Grammar.Fits

variable {scope : List (String × Nat)} {names : List (String × Plan)} {g : Grammar}

theorem extend (h : g.Fits limit plans scope names) (hle : plans <+: plans') :
    g.Fits limit plans' scope names :=
  ⟨h.scope.extend hle, h.free, h.room⟩

theorem rank_le (h : g.Fits limit plans scope names) : (g.plan names).rank ≤ limit := by
  obtain ⟨bound, hbound, hroom⟩ := h.room
  exact Nat.le_trans (rank_le_of_names hbound g) hroom

/-- A smaller grammar fits into the same scope, if it is free of recursion too. -/
theorem smaller (h : g.Fits limit plans scope names) {part : Grammar}
    (hfree : part.IsRecursionFree) (hsize : part.size ≤ g.size) :
    part.Fits limit plans scope names := by
  obtain ⟨bound, hbound, hroom⟩ := h.room
  exact ⟨h.scope, hfree, bound, hbound, by omega⟩

/-- The children of a branch fit into its scope, as they are smaller. -/
theorem child {label : String} {rule : Rule} {children : List Grammar}
    (h : (branch label rule children).Fits limit plans scope names) :
    ∀ child ∈ children, child.Fits limit plans scope names := by
  have hall : ∀ child ∈ children, child.IsRecursionFree ∧ child.size ≤ size.sizes children := by
    have hfree : IsRecursionFree.allRecursionFree children := h.free
    clear h
    induction children with
    | nil => exact fun _ hchild => nomatch hchild
    | cons child children ih =>
      rw [List.forall_mem_cons, size.sizes]
      refine ⟨⟨hfree.1, Nat.le_add_right ..⟩, fun other hother => ?_⟩
      obtain ⟨hother, hle⟩ := ih hfree.2 other hother
      exact ⟨hother, by omega⟩
  intro child hchild
  obtain ⟨hfree, hle⟩ := hall child hchild
  refine h.smaller hfree ?_
  rw [size]
  omega

/-- The body fits into the scope that knows the name of what is shared. -/
theorem body {name : String} {definition body : Grammar} {place : Nat}
    (h : (sharing name definition body).Fits limit plans scope names)
    (hplace : plans[place]? = some (definition.plan names)) :
    body.Fits limit plans ((name, place) :: scope) ((name, definition.plan names) :: names) := by
  obtain ⟨bound, hbound, hroom⟩ := h.room
  have hrank := rank_le_of_names hbound definition
  refine ⟨h.scope.cons name hplace, h.free.2, bound + definition.size, ?_, ?_⟩
  · exact List.forall_mem_cons.2 ⟨hrank, fun other hother =>
      Nat.le_add_right_of_le (hbound other hother)⟩
  · rw [size] at hroom
    omega

end Grammar.Fits

/-- The places of the children of a branch follow its tree, each with a smaller rank than the
    branch. -/
theorem ChildrenFollow.of_built {names : List (String × Plan)} {places : List Nat}
    {gs : List Grammar} {rank : Nat}
    (h : List.Forall₂ (fun place (g : Grammar) => plans[place]? = some (g.plan names)) places gs)
    (hrank : Grammar.rank.rankAll (Grammar.ranks names) gs < rank) :
    ChildrenFollow plans rank places (Grammar.unfold.unfoldAll (Grammar.trees names) gs) := by
  induction h with
  | nil => exact .nil
  | @cons place g places gs hplace _ ih =>
    rw [Grammar.rank.rankAll] at hrank
    exact .cons ⟨_, by omega, hplace⟩ (ih (by omega))

theorem Cell.Follows.extend {cell : Cell} {plan : Plan} (hcell : cell.Follows limit plans plan)
    (h : plans <+: plans') : cell.Follows limit plans' plan := by
  cases hcell with
  | leaf => exact .leaf
  | branch hchildren => exact .branch (hchildren.extend h)
  | forward htarget hlt => exact .forward (getElem?_extend h htarget) hlt
  | pending hfits => exact .pending (hfits.extend h)
  | underway => exact .underway

end Following

namespace Assembly

variable {limit : Nat} {plans : List Plan} {a : Assembly} {place : Nat} {cell : Cell} {plan : Plan}

/-- A cell that is added gives its place its plan, and the other places keep theirs. -/
theorem Follows.add (h : a.Follows limit plans) (hcell : cell.Follows limit (plans ++ [plan]) plan)
    (hrank : plan.rank ≤ limit) :
    (a.add cell).2.Follows limit (plans ++ [plan]) ∧
      (plans ++ [plan])[(a.add cell).1]? = some plan := by
  refine ⟨⟨?_, fun {place found other} hfound hother => ?_, fun hother => ?_⟩,
    getElem?_add h.length_eq cell plan⟩
  · simp [Assembly.add, h.length_eq]
  · obtain ⟨hfound, hother⟩ | ⟨rfl, rfl⟩ := add_cases h.length_eq hfound hother
    · exact (h.cell hfound hother).extend (List.prefix_append plans [plan])
    · exact hcell
  · obtain ⟨-, hother⟩ | ⟨-, rfl⟩ := getElem?_append_cases h.length_eq hother
    · exact h.rank_le hother
    · exact hrank

/-- What stands at a place may change, as long as it follows the plan of the place. Forcing a
    deferred parser changes what stands there, and not what it unfolds to. -/
theorem Follows.set (h : a.Follows limit plans) (hplan : plans[place]? = some plan)
    (hcell : cell.Follows limit plans plan) : (a.set place cell).Follows limit plans where
  length_eq := by
    change (a.cells.set place cell).length = plans.length
    rw [List.length_set]
    exact h.length_eq
  cell {other found plan'} hfound hplan' := by
    obtain ⟨rfl, rfl⟩ | hfound := set_cases hfound
    · cases hplan.symm.trans hplan'
      exact hcell
    · exact h.cell hfound hplan'
  rank_le := h.rank_le

end Assembly

end Resync
