import Mathlib.Algebra.Ring.Nat
import Resync.Proofs.Leaf.Cursors
import Resync.Proofs.Unfolding.Plans

namespace Resync

/-- A computation that is not cut off: it has a value with a property, or the grammar is
    defective. -/
def Fault.Settles {α : Type} (P : α → Prop) : Except Fault α → Prop
  | .ok a => P a
  | .error (.defect _) => True
  | .error .outOfFuel => False

theorem Fault.Settles.bind {α β : Type} {P : α → Prop} {Q : β → Prop} {x : Except Fault α}
    {f : α → Except Fault β} (hx : Settles P x) (hf : ∀ a, P a → Settles Q (f a)) :
    Settles Q (x >>= f) := by
  cases x with
  | ok a => exact hf a hx
  | error fault =>
    cases fault with
    | defect defect => exact trivial
    | outOfFuel => exact hx

theorem Fault.Settles.imp {α : Type} {P Q : α → Prop} {x : Except Fault α} (hx : Settles P x)
    (h : ∀ a, P a → Q a) : Settles Q x := by
  cases x with
  | ok a => exact h a hx
  | error fault =>
    cases fault with
    | defect defect => exact trivial
    | outOfFuel => exact hx

/-- The size of what is still to be built at a place. -/
def Cell.debt : Cell → Nat
  | .pending _ definition => definition.size
  | .finished _ | .undefined | .underway => 0

/-- A cell that is not to be changed by others. -/
def Cell.IsFixed : Cell → Prop
  | .finished _ | .underway => True
  | .undefined | .pending _ _ => False

namespace Assembly

/-- The size of what is still to be built. -/
def debt (a : Assembly) : Nat :=
  (a.cells.map Cell.debt).sum

/-- What is fixed in one assembly stands in another as well. -/
def Keeps (a grown : Assembly) : Prop :=
  ∀ (place : Nat) (cell : Cell), a.cells[place]? = some cell → cell.IsFixed →
    grown.cells[place]? = some cell

variable {a b c : Assembly} {place : Nat} {cell cell' : Cell}

theorem Keeps.rfl : a.Keeps a :=
  fun _ _ hcell _ => hcell

theorem Keeps.trans (h : a.Keeps b) (h' : b.Keeps c) : a.Keeps c :=
  fun place cell hcell hfixed => h' place cell (h place cell hcell hfixed) hfixed

theorem keeps_add (a : Assembly) (cell : Cell) : a.Keeps (a.add cell).2 := by
  intro place found hfound _
  change (a.cells ++ [cell])[place]? = some found
  rw [List.getElem?_append_left (List.getElem?_eq_some_iff.1 hfound).1]
  exact hfound

theorem debt_add (a : Assembly) (cell : Cell) : (a.add cell).2.debt = a.debt + cell.debt := by
  simp [debt, add]

/-- Something else may stand where a parser was deferred. -/
theorem Keeps.set_of_pending (h : a.Keeps b) {scope : List (String × Nat)} {definition : Grammar}
    (hpending : a.cells[place]? = some (.pending scope definition)) (cell : Cell) :
    a.Keeps (b.set place cell) := by
  intro other found hfound hfixed
  have hne : place ≠ other := by
    rintro rfl
    rw [hpending] at hfound
    cases hfound
    exact hfixed
  change (b.cells.set place cell)[other]? = some found
  rw [List.getElem?_set_ne hne]
  exact h other found hfound hfixed

theorem getElem?_set (h : a.cells[place]? = some cell) (cell' : Cell) :
    (a.set place cell').cells[place]? = some cell' :=
  List.getElem?_set_self (List.getElem?_eq_some_iff.1 h).1

theorem debt_set (h : a.cells[place]? = some cell) (cell' : Cell) :
    (a.set place cell').debt + cell.debt = a.debt + cell'.debt := by
  have hsum {cells : List Cell} {place : Nat} (h : cells[place]? = some cell) :
      ((cells.set place cell').map Cell.debt).sum + cell.debt =
        (cells.map Cell.debt).sum + cell'.debt := by
    induction cells generalizing place with
    | nil => cases h
    | cons first cells ih =>
      cases place with
      | zero =>
        cases h
        simp only [List.set_cons_zero, List.map_cons, List.sum_cons]
        omega
      | succ place =>
        have hrest := ih h
        simp only [List.set_cons_succ, List.map_cons, List.sum_cons]
        omega
  exact hsum h

variable {limit : Nat} {plans plans' : List Plan} {plan : Plan}

/-- A construction has gone on: it keeps to the plans and to what was fixed, and less than a number is
    left to be built. -/
structure GrowsTo (limit : Nat) (plans : List Plan) (a : Assembly) (bound : Nat) (grown : Assembly)
    (plans' : List Plan) : Prop where
  extends_plans : plans <+: plans'
  follows : grown.Follows limit plans'
  keeps : a.Keeps grown
  debt_lt : grown.debt < bound

/-- A construction has gone on to a place of a plan. -/
def Arrives (limit : Nat) (plans : List Plan) (a : Assembly) (bound : Nat) (plan : Plan)
    (out : Nat × Assembly) : Prop :=
  ∃ plans', GrowsTo limit plans a bound out.2 plans' ∧ plans'[out.1]? = some plan

theorem GrowsTo.trans {bound bound' : Nat} {plans'' : List Plan}
    (h : GrowsTo limit plans a bound b plans') (h' : GrowsTo limit plans' b bound' c plans'') :
    GrowsTo limit plans a bound' c plans'' where
  extends_plans := h.extends_plans.trans h'.extends_plans
  follows := h'.follows
  keeps := h.keeps.trans h'.keeps
  debt_lt := h'.debt_lt

theorem GrowsTo.mono {bound bound' : Nat} (h : GrowsTo limit plans a bound b plans')
    (hle : bound ≤ bound') : GrowsTo limit plans a bound' b plans' :=
  { h with debt_lt := Nat.lt_of_lt_of_le h.debt_lt hle }

theorem Follows.arrives_add (h : a.Follows limit plans)
    (hcell : cell.Follows limit (plans ++ [plan]) plan) (hrank : plan.rank ≤ limit) :
    Arrives limit plans a (a.debt + cell.debt + 1) plan (a.add cell) := by
  obtain ⟨hfollows, hplace⟩ := h.add hcell hrank
  exact ⟨plans ++ [plan], ⟨List.prefix_append plans [plan], hfollows, a.keeps_add cell,
    Nat.lt_succ_of_le (Nat.le_of_eq (a.debt_add cell))⟩, hplace⟩

section Building

variable {scope : List (String × Nat)} {names : List (String × Plan)} {out : Nat × Assembly}

/-- The fuel that building takes when this much is left to be built. -/
def buildFuel (limit debt : Nat) : Nat :=
  debt * (limit + 2) + 1

/-- The fuel that forcing a place of a rank takes when this much is left to be built. -/
def forceFuel (limit debt rank : Nat) : Nat :=
  debt * (limit + 2) + rank + 2

/-- A place stands for another one. -/
def Forwards (a : Assembly) (place target : Nat) : Prop :=
  a.cells[place]? = some (.finished (.forward target))

/-- The parser at a place does its work itself. -/
def IsWorker (a : Assembly) (place : Nat) : Prop :=
  ∃ node, a.cells[place]? = some (.finished node) ∧ node.IsBuilt ∧ ∀ target, node ≠ .forward target

/-- A place of a plan was forced: it leads to a parser, of the same tree and not of a larger rank. -/
structure Forced (limit : Nat) (plans : List Plan) (a : Assembly) (place : Nat) (plan : Plan)
    (out : Nat × Assembly) : Prop where
  arrives : ∃ below ≤ plan.rank, Arrives limit plans a (a.debt + 1) ⟨plan.tree, below⟩ out
  leads : Relation.ReflTransGen out.2.Forwards place out.1
  isWorker : out.2.IsWorker out.1

/-- With so much fuel, building and forcing settle. -/
structure Suffices (limit fuel : Nat) : Prop where
  build : ∀ {scope : List (String × Nat)} {names : List (String × Plan)} {g : Grammar}
    {plans : List Plan} {a : Assembly}, a.Follows limit plans → g.Fits limit plans scope names →
      buildFuel limit (a.debt + g.size) ≤ fuel →
        Fault.Settles (Arrives limit plans a (a.debt + g.size) (g.plan names)) (build fuel scope g a)
  force : ∀ {place : Nat} {plan : Plan} {plans : List Plan} {a : Assembly}, a.Follows limit plans →
    plans[place]? = some plan → forceFuel limit a.debt plan.rank ≤ fuel →
      Fault.Settles (Forced limit plans a place plan) (force fuel place a)

theorem GrowsTo.refl (h : a.Follows limit plans) {bound : Nat} (hlt : a.debt < bound) :
    GrowsTo limit plans a bound a plans :=
  ⟨List.prefix_rfl, h, .rfl, hlt⟩

theorem buildFuel_mono (limit : Nat) {debt debt' : Nat} (h : debt ≤ debt') :
    buildFuel limit debt ≤ buildFuel limit debt' :=
  Nat.succ_le_succ (Nat.mul_le_mul_right _ h)

theorem forceFuel_mono {debt debt' rank : Nat} (h : debt ≤ debt') :
    forceFuel limit debt rank ≤ forceFuel limit debt' rank :=
  Nat.add_le_add_right (Nat.add_le_add_right (Nat.mul_le_mul_right _ h) _) _

theorem buildFuel_succ (limit debt : Nat) :
    buildFuel limit (debt + 1) = buildFuel limit debt + limit + 2 := by
  rw [buildFuel, buildFuel, Nat.add_mul]
  omega

theorem forceFuel_eq (limit debt rank : Nat) :
    forceFuel limit debt rank = buildFuel limit debt + rank + 1 := by
  rw [buildFuel, forceFuel]
  omega

/-- Building grammars one after the other settles if there is enough fuel for all of them. -/
theorem Suffices.buildAll {fuel : Nat} (ih : Suffices limit fuel) {gs : List Grammar}
    (h : a.Follows limit plans) (hfits : ∀ g ∈ gs, g.Fits limit plans scope names)
    (hfuel : buildFuel limit (a.debt + Grammar.size.sizes gs) ≤ fuel) :
    Fault.Settles (fun out => ∃ plans',
      GrowsTo limit plans a (a.debt + Grammar.size.sizes gs + 1) out.2 plans' ∧
        List.Forall₂ (fun place (g : Grammar) => plans'[place]? = some (g.plan names)) out.1 gs)
      (buildAll (Assembly.build fuel scope) gs a) := by
  induction gs generalizing plans a with
  | nil => exact ⟨plans, .refl h (Nat.lt_succ_self _), .nil⟩
  | cons g gs ihgs =>
    rw [List.forall_mem_cons] at hfits
    rw [Grammar.size.sizes] at hfuel ⊢
    have hhead := ih.build h hfits.1 (Nat.le_trans (buildFuel_mono limit (by omega)) hfuel)
    refine hhead.bind fun first ⟨plans₁, hfirst, hplace⟩ => ?_
    have hdebt := hfirst.debt_lt
    have htail := ihgs hfirst.follows
      (fun other hother => (hfits.2 other hother).extend hfirst.extends_plans)
      (Nat.le_trans (buildFuel_mono limit (by omega)) hfuel)
    refine htail.bind fun rest ⟨plans₂, hrest, hplaces⟩ => ?_
    refine ⟨plans₂, (hfirst.trans hrest).mono (by omega), .cons ?_ hplaces⟩
    exact getElem?_extend hrest.extends_plans hplace

theorem settles_build_branch {fuel : Nat} (ih : Suffices limit fuel) {label : String} {rule : Rule}
    {children : List Grammar} (h : a.Follows limit plans)
    (hfits : (Grammar.branch label rule children).Fits limit plans scope names)
    (hfuel : buildFuel limit (a.debt + (Grammar.branch label rule children).size) ≤ fuel + 1) :
    Fault.Settles (Arrives limit plans a (a.debt + (Grammar.branch label rule children).size)
      ((Grammar.branch label rule children).plan names))
      (build (fuel + 1) scope (.branch label rule children) a) := by
  have hsize : (Grammar.branch label rule children).size = Grammar.size.sizes children + 1 := by
    rw [Grammar.size, Nat.add_comm]
  rw [hsize] at hfuel ⊢
  rw [← Nat.add_assoc, buildFuel_succ] at hfuel
  rw [build]
  refine (ih.buildAll h hfits.child (by omega)).bind fun built ⟨plans', hgrows, hplaces⟩ => ?_
  dsimp only
  split
  · exact trivial
  · have hchildren := ChildrenFollow.of_built hplaces (Nat.lt_succ_self _)
    rw [← Nat.one_add] at hchildren
    have hadded : Arrives limit plans' built.2 (built.2.debt + 1)
        ((Grammar.branch label rule children).plan names)
        (built.2.add (.finished (.branch label rule built.1))) :=
      hgrows.follows.arrives_add
        (.branch (hchildren.extend (List.prefix_append plans' _))) hfits.rank_le
    obtain ⟨plans'', hadd, hplace⟩ := hadded
    exact ⟨plans'', (hgrows.trans hadd).mono hgrows.debt_lt, hplace⟩

/-- Making a safe spot settles, and follows the promoted tree: it adds a leaf, or shows the defect
    that the leaf may match without consuming. -/
theorem settles_promote {tree : Tree} {below : Nat} (h : a.Follows limit plans)
    (hplan : plans[place]? = some ⟨tree, below⟩) :
    Fault.Settles (Arrives limit plans a (a.debt + 1) ⟨tree.promote, 0⟩) (a.promote place) := by
  unfold promote
  split
  · next leaf hcell =>
    cases h.cell hcell hplan with
    | leaf =>
      cases hsafe : leaf.toSafeSpot with
      | error defect => exact trivial
      | ok safe =>
        have harrives : Arrives limit plans a (a.debt + 1) ⟨.leaf safe, 0⟩
            (a.add (.finished (.leaf safe))) := h.arrives_add .leaf (Nat.zero_le limit)
        rw [Tree.promote, ← Leaf.eq_of_toSafeSpot hsafe]
        exact harrives
  · exact trivial
  · exact trivial

theorem settles_build_safe {fuel : Nat} (ih : Suffices limit fuel) {g : Grammar}
    (h : a.Follows limit plans) (hfits : (Grammar.safe g).Fits limit plans scope names)
    (hfuel : buildFuel limit (a.debt + (Grammar.safe g).size) ≤ fuel + 1) :
    Fault.Settles (Arrives limit plans a (a.debt + (Grammar.safe g).size)
      ((Grammar.safe g).plan names)) (build (fuel + 1) scope (.safe g) a) := by
  have hsize : (Grammar.safe g).size = g.size + 1 := by
    rw [Grammar.size, Nat.add_comm]
  rw [hsize] at hfuel ⊢
  rw [← Nat.add_assoc, buildFuel_succ] at hfuel
  have hinner : g.Fits limit plans scope names :=
    hfits.smaller hfits.free (by rw [hsize]; exact Nat.le_succ _)
  rw [build]
  refine (ih.build h hinner (by omega)).bind fun built ⟨plans₁, hbuilt, hplace⟩ => ?_
  have hdebt := hbuilt.debt_lt
  have hforceFuel : forceFuel limit built.2.debt (g.plan names).rank ≤ fuel := by
    have hrank := hinner.rank_le
    have hmono := buildFuel_mono limit (Nat.le_of_lt hdebt)
    rw [forceFuel_eq]
    omega
  refine (ih.force hbuilt.follows hplace hforceFuel).bind fun forced hforced => ?_
  obtain ⟨below, -, plans₂, hgrows, hplan⟩ := hforced.arrives
  refine (settles_promote hgrows.follows hplan).imp fun out hout => ?_
  obtain ⟨plans₃, hpromoted, hplan⟩ := hout
  have hdebt₂ := hgrows.debt_lt
  exact ⟨plans₃, ((hbuilt.trans hgrows).trans hpromoted).mono (by omega), hplan⟩

theorem settles_build_sharing {fuel : Nat} (ih : Suffices limit fuel) {name : String}
    {definition body : Grammar} (h : a.Follows limit plans)
    (hfits : (Grammar.sharing name definition body).Fits limit plans scope names)
    (hfuel : buildFuel limit (a.debt + (Grammar.sharing name definition body).size) ≤ fuel + 1) :
    Fault.Settles (Arrives limit plans a (a.debt + (Grammar.sharing name definition body).size)
      ((Grammar.sharing name definition body).plan names))
      (build (fuel + 1) scope (.sharing name definition body) a) := by
  have hsize : (Grammar.sharing name definition body).size = definition.size + body.size + 1 := by
    rw [Grammar.size]
    omega
  rw [hsize] at hfuel ⊢
  rw [← Nat.add_assoc, buildFuel_succ] at hfuel
  have hdefinition : definition.Fits limit plans scope names :=
    hfits.smaller hfits.free.1 (by omega)
  have hfuel : buildFuel limit (a.debt + (definition.size + body.size)) ≤ fuel := by omega
  have hfuel₁ : buildFuel limit (a.debt + definition.size) ≤ fuel :=
    Nat.le_trans (buildFuel_mono limit (by omega)) hfuel
  rw [build]
  refine (ih.build h hdefinition hfuel₁).bind fun built ⟨plans', hgrows, hplace⟩ => ?_
  have hdebt := hgrows.debt_lt
  have hbody : body.Fits limit plans' ((name, built.1) :: scope)
      ((name, definition.plan names) :: names) :=
    (hfits.extend hgrows.extends_plans).body hplace
  have hfuel₂ : buildFuel limit (built.2.debt + body.size) ≤ fuel :=
    Nat.le_trans (buildFuel_mono limit (by omega)) hfuel
  refine (ih.build hgrows.follows hbody hfuel₂).imp fun out hout => ?_
  obtain ⟨plans'', hbuilt, hplan⟩ := hout
  exact ⟨plans'', (hgrows.trans hbuilt).mono (by omega), hplan⟩

/-- Building settles with one more unit of fuel. -/
theorem settles_build_succ {fuel : Nat} (ih : Suffices limit fuel) {g : Grammar}
    (h : a.Follows limit plans) (hfits : g.Fits limit plans scope names)
    (hfuel : buildFuel limit (a.debt + g.size) ≤ fuel + 1) :
    Fault.Settles (Arrives limit plans a (a.debt + g.size) (g.plan names))
      (build (fuel + 1) scope g a) := by
  cases g with
  | leaf l =>
    rw [build]
    exact h.arrives_add .leaf hfits.rank_le
  | branch label rule children => exact settles_build_branch ih h hfits hfuel
  | safe g => exact settles_build_safe ih h hfits hfuel
  | named name =>
    rw [build]
    split
    · next place hlookup =>
      exact ⟨plans, .refl h (Nat.lt_succ_self _), hfits.scope.lookup hlookup⟩
    · exact trivial
  | sharing name definition body => exact settles_build_sharing ih h hfits hfuel
  | recursive name definition => exact absurd hfits.free id
  | deferred definition =>
    have hsize : (Grammar.deferred definition).size = definition.size + 1 := by
      rw [Grammar.size, Nat.add_comm]
    have hdefinition : definition.Fits limit plans scope names :=
      hfits.smaller hfits.free (by rw [hsize]; exact Nat.le_succ _)
    rw [build, hsize]
    exact h.arrives_add (.pending (hdefinition.extend (List.prefix_append plans _))) hfits.rank_le

/-- Forcing builds what was deferred, and goes on to what was built. The rank of that is smaller, so
    there is enough fuel for it. -/
theorem settles_force_pending {fuel : Nat} (ih : Suffices limit fuel) (h : a.Follows limit plans)
    {definition : Grammar} (hfits : definition.Fits limit plans scope names)
    (hcell : a.cells[place]? = some (.pending scope definition))
    (hplan : plans[place]? = some ((Grammar.deferred definition).plan names))
    (hfuel : forceFuel limit a.debt ((Grammar.deferred definition).plan names).rank ≤ fuel + 1) :
    Fault.Settles (Forced limit plans a place ((Grammar.deferred definition).plan names))
      (force (fuel + 1) place a) := by
  have hrank : ((Grammar.deferred definition).plan names).rank = (definition.plan names).rank + 1 :=
    Nat.add_comm _ _
  rw [forceFuel_eq, hrank] at hfuel
  rw [force, hcell]
  let begun : Assembly := { a.set place .underway with deferredBuilds := a.deferredBuilds + 1 }
  have hbegun : begun.Follows limit plans := by
    have hset : (a.set place .underway).Follows limit plans := h.set hplan .underway
    exact ⟨hset.length_eq, hset.cell, hset.rank_le⟩
  have hunderway : begun.cells[place]? = some .underway := getElem?_set hcell .underway
  have hdebt : begun.debt + definition.size = a.debt := debt_set hcell .underway
  refine (ih.build hbegun hfits (by rw [hdebt]; omega)).bind fun built hbuilt => ?_
  obtain ⟨plans', hgrows, htarget⟩ := hbuilt
  rw [hdebt] at hgrows
  have hbuilt : built.2.cells[place]? = some .underway := hgrows.keeps _ _ hunderway trivial
  let forwarded : Assembly := built.2.set place (.finished (.forward built.1))
  have hforwarded : forwarded.cells[place]? = some (.finished (.forward built.1)) :=
    getElem?_set hbuilt _
  have hfollows : forwarded.Follows limit plans' :=
    hgrows.follows.set (getElem?_extend hgrows.extends_plans hplan)
      (.forward htarget (Nat.lt_of_lt_of_eq (Nat.lt_succ_self _) hrank.symm))
  have hdebt' : forwarded.debt = built.2.debt := debt_set hbuilt _
  have hkeeps : a.Keeps forwarded := by
    have hkeeps : a.Keeps begun := Keeps.rfl.set_of_pending hcell .underway
    exact (hkeeps.trans hgrows.keeps).set_of_pending hcell _
  have hgrown : GrowsTo limit plans a (a.debt + 1) forwarded plans' :=
    ⟨hgrows.extends_plans, hfollows, hkeeps, by have := hgrows.debt_lt; omega⟩
  have hfuel' : forceFuel limit forwarded.debt (definition.plan names).rank ≤ fuel := by
    have hmono : buildFuel limit forwarded.debt ≤ buildFuel limit a.debt :=
      buildFuel_mono limit (by have := hgrows.debt_lt; omega)
    rw [forceFuel_eq]
    omega
  refine (ih.force hfollows htarget hfuel').imp fun out hout => ?_
  obtain ⟨below, hle, plans'', hforced, hplan'⟩ := hout.arrives
  have hstep : out.2.Forwards place built.1 := hforced.keeps _ _ hforwarded trivial
  have hbound : forwarded.debt + 1 ≤ a.debt + 1 := by
    have := hgrows.debt_lt
    omega
  exact ⟨⟨below, by omega, plans'', (hgrown.trans hforced).mono hbound, hplan'⟩,
    .head hstep hout.leads, hout.isWorker⟩

/-- Forcing settles with one more unit of fuel. -/
theorem settles_force_succ {fuel : Nat} (ih : Suffices limit fuel) (h : a.Follows limit plans)
    (hplan : plans[place]? = some plan) (hfuel : forceFuel limit a.debt plan.rank ≤ fuel + 1) :
    Fault.Settles (Forced limit plans a place plan) (force (fuel + 1) place a) := by
  have hself : Arrives limit plans a (a.debt + 1) plan (place, a) :=
    ⟨plans, .refl h (Nat.lt_succ_self _), hplan⟩
  cases hcell : a.cells[place]? with
  | none =>
    rw [force, hcell]
    exact trivial
  | some cell =>
    have hfollows := h.cell hcell hplan
    cases hfollows with
    | leaf =>
      rw [force, hcell]
      exact ⟨⟨_, Nat.le_refl _, hself⟩, .refl, _, hcell, trivial, fun _ heq => nomatch heq⟩
    | branch hchildren =>
      rw [force, hcell]
      exact ⟨⟨_, Nat.le_refl _, hself⟩, .refl, _, hcell, trivial, fun _ heq => nomatch heq⟩
    | @forward target below rank tree htarget hlt =>
      rw [force, hcell]
      have hfuel' : forceFuel limit a.debt below ≤ fuel := by
        rw [forceFuel_eq] at hfuel ⊢
        dsimp only at hfuel
        omega
      refine (ih.force h htarget hfuel').imp fun out hout => ?_
      obtain ⟨below', hle, harrives⟩ := hout.arrives
      have hstep : out.2.Forwards place target := by
        obtain ⟨plans', hgrows, -⟩ := harrives
        exact hgrows.keeps place _ hcell trivial
      exact ⟨⟨below', Nat.le_of_lt (Nat.lt_of_le_of_lt hle hlt), harrives⟩, .head hstep hout.leads,
        hout.isWorker⟩
    | pending hfits => exact settles_force_pending ih h hfits hcell hplan hfuel
    | underway =>
      rw [force, hcell]
      exact trivial

theorem suffices_all (limit fuel : Nat) : Suffices limit fuel := by
  induction fuel with
  | zero =>
    refine ⟨fun _ _ hfuel => ?_, fun _ _ hfuel => ?_⟩
    · rw [buildFuel] at hfuel
      omega
    · rw [forceFuel] at hfuel
      omega
  | succ fuel ih => exact ⟨settles_build_succ ih, settles_force_succ ih⟩

end Building

end Assembly

end Resync
