import Resync.Grammar.Assembly

namespace Resync.Assembly

/-- A condition on grammars passes to the cells that are built of them, and making a safe spot of a
    leaf keeps it. -/
structure Carries (G : Grammar → Prop) (C : Cell → Prop) : Prop where
  leaf : ∀ {leaf : Leaf}, G (.leaf leaf) → C (.finished (.leaf leaf))
  children : ∀ {label : String} {rule : Rule} {children : List Grammar},
    G (.branch label rule children) → ∀ g ∈ children, G g
  branch : ∀ {label : String} {rule : Rule} {children : List Grammar} {places : List Nat},
    G (.branch label rule children) → places.length = children.length →
      C (.finished (.branch label rule places))
  safe : ∀ {g : Grammar}, G (.safe g) → G g
  toSafeSpot : ∀ {leaf safe : Leaf}, C (.finished (.leaf leaf)) → leaf.toSafeSpot = .ok safe →
    C (.finished (.leaf safe))
  sharing : ∀ {name : String} {definition body : Grammar}, G (.sharing name definition body) →
    G definition ∧ G body
  recursive : ∀ {name : String} {definition : Grammar}, G (.recursive name definition) →
    G definition
  deferred : ∀ {scope : List (String × Nat)} {definition : Grammar}, G (.deferred definition) →
    C (.pending scope definition)
  pending : ∀ {scope : List (String × Nat)} {definition : Grammar},
    C (.pending scope definition) → G definition
  forward : ∀ target : Nat, C (.finished (.forward target))
  unused : C (.finished .unused)
  undefined : C .undefined
  underway : C .underway

/-- All cells of a graph under construction satisfy a condition. -/
def All (a : Assembly) (C : Cell → Prop) : Prop :=
  ∀ cell ∈ a.cells, C cell

variable {G : Grammar → Prop} {C : Cell → Prop} {a : Assembly} {cell : Cell} {place : Nat}
  {out : Nat × Assembly}

theorem All.add (h : a.All C) (hcell : C cell) : (a.add cell).2.All C := by
  intro found hfound
  obtain hold | hnew := List.mem_append.1 hfound
  · exact h found hold
  · cases List.mem_singleton.1 hnew
    exact hcell

/-- A cell that satisfies the condition may be put at any place. -/
theorem All.set (h : a.All C) (place : Nat) (hcell : C cell) : (a.set place cell).All C := by
  intro found hfound
  obtain hold | rfl := List.mem_or_eq_of_mem_set hfound
  · exact h found hold
  · exact hcell

/-- With so much fuel, building and forcing add nothing but cells that satisfy the condition. -/
structure BuildsAll (G : Grammar → Prop) (C : Cell → Prop) (fuel : Nat) : Prop where
  build : ∀ {scope : List (String × Nat)} {g : Grammar} {a : Assembly} {out : Nat × Assembly},
    a.All C → G g → build fuel scope g a = .ok out → out.2.All C
  force : ∀ {place : Nat} {a : Assembly} {out : Nat × Assembly},
    a.All C → force fuel place a = .ok out → out.2.All C

/-- Building grammars one after the other gives each of them a place, and keeps the condition if
    building each of them does. -/
theorem All.buildAll {build : Grammar → Assembly → Except Fault (Nat × Assembly)}
    (hbuild : ∀ {g : Grammar} {a : Assembly} {out : Nat × Assembly}, a.All C → G g →
      build g a = .ok out → out.2.All C)
    {gs : List Grammar} {built : List Nat × Assembly} (h : a.All C) (hgs : ∀ g ∈ gs, G g)
    (heq : Assembly.buildAll build gs a = .ok built) :
    built.2.All C ∧ built.1.length = gs.length := by
  induction gs generalizing a built with
  | nil =>
    cases heq
    exact ⟨h, rfl⟩
  | cons g gs ih =>
    obtain ⟨hg, hgs⟩ := List.forall_mem_cons.1 hgs
    unfold Assembly.buildAll at heq
    obtain ⟨first, hfirst, heq⟩ := Fault.bind_eq_ok_iff.1 heq
    obtain ⟨rest, hrest, heq⟩ := Fault.bind_eq_ok_iff.1 heq
    cases heq
    obtain ⟨hall, hlength⟩ := ih (hbuild h hg hfirst) hgs hrest
    exact ⟨hall, congrArg (· + 1) hlength⟩

theorem All.walkAll {walk : Nat → List Nat × Assembly → Except Fault (List Nat × Assembly)}
    (hwalk : ∀ {place : Nat} {reached found : List Nat × Assembly}, reached.2.All C →
      walk place reached = .ok found → found.2.All C)
    {places : List Nat} {reached found : List Nat × Assembly} (h : reached.2.All C)
    (heq : Assembly.walkAll walk places reached = .ok found) : found.2.All C := by
  induction places generalizing reached with
  | nil =>
    cases heq
    exact h
  | cons place places ih =>
    unfold Assembly.walkAll at heq
    obtain ⟨first, hfirst, heq⟩ := Fault.bind_eq_ok_iff.1 heq
    exact ih (hwalk h hfirst) heq

namespace Carries

variable (hcarries : Carries G C)
include hcarries

theorem all_promote (h : a.All C) (heq : a.promote place = .ok out) : out.2.All C := by
  unfold promote at heq
  split at heq
  · next leaf hcell =>
    cases hsafe : leaf.toSafeSpot with
    | error d =>
      rw [hsafe] at heq
      cases heq
    | ok safe =>
      rw [hsafe] at heq
      cases heq
      exact h.add (hcarries.toSafeSpot (h _ (List.mem_of_getElem? hcell)) hsafe)
  · cases heq
  · cases heq

/-- Building a grammar adds cells that satisfy the condition, if its parts do with less fuel. The
    cases are those of grammars: each adds a cell of its own behind the cells of its parts, or finds
    one in scope. -/
theorem all_build_succ {fuel : Nat} (ih : BuildsAll G C fuel) {scope : List (String × Nat)}
    {g : Grammar} (h : a.All C) (hg : G g) (heq : build (fuel + 1) scope g a = .ok out) :
    out.2.All C := by
  unfold build at heq
  cases g with
  | leaf leaf =>
    cases heq
    exact h.add (hcarries.leaf hg)
  | branch label rule children =>
    obtain ⟨built, hbuilt, heq⟩ := Fault.bind_eq_ok_iff.1 heq
    obtain ⟨hall, hlength⟩ := h.buildAll ih.build (hcarries.children hg) hbuilt
    dsimp only at heq
    split at heq
    · cases heq
    · cases heq
      exact hall.add (hcarries.branch hg hlength)
  | safe g =>
    obtain ⟨built, hbuilt, heq⟩ := Fault.bind_eq_ok_iff.1 heq
    obtain ⟨forced, hforced, heq⟩ := Fault.bind_eq_ok_iff.1 heq
    exact hcarries.all_promote (ih.force (ih.build h (hcarries.safe hg) hbuilt) hforced) heq
  | named name =>
    dsimp only at heq
    split at heq
    · cases heq
      exact h
    · cases heq
  | sharing name definition body =>
    obtain ⟨hdefinition, hbody⟩ := hcarries.sharing hg
    obtain ⟨built, hbuilt, heq⟩ := Fault.bind_eq_ok_iff.1 heq
    exact ih.build (ih.build h hdefinition hbuilt) hbody heq
  | recursive name definition =>
    have hhandled : (a.add .undefined).2.All C := h.add hcarries.undefined
    obtain ⟨built, hbuilt, heq⟩ := Fault.bind_eq_ok_iff.1 heq
    have hall := ih.build hhandled (hcarries.recursive hg) hbuilt
    dsimp only at heq
    split at heq
    · cases heq
    · cases heq
      exact hall.set _ (hcarries.forward built.1)
  | deferred definition =>
    cases heq
    exact h.add (hcarries.deferred hg)

/-- Forcing what was deferred puts a cell at its place that satisfies the condition, if building
    does with less fuel. -/
theorem all_force_succ {fuel : Nat} (ih : BuildsAll G C fuel) (h : a.All C)
    (heq : force (fuel + 1) place a = .ok out) : out.2.All C := by
  unfold force at heq
  split at heq
  · exact ih.force h heq
  · cases heq
    exact h
  · cases heq
  · cases heq
  · next scope definition hcell =>
    have hdefinition : G definition := hcarries.pending (h _ (List.mem_of_getElem? hcell))
    have hbegun : All { a.set place .underway with deferredBuilds := a.deferredBuilds + 1 } C :=
      h.set place hcarries.underway
    obtain ⟨built, hbuilt, heq⟩ := Fault.bind_eq_ok_iff.1 heq
    have hforwarded : (built.2.set place (.finished (.forward built.1))).All C :=
      (ih.build hbegun hdefinition hbuilt).set place (hcarries.forward built.1)
    exact ih.force hforwarded heq
  · cases heq

/-- Building and forcing keep the condition with any fuel. The induction is on the fuel, for both at
    once, as each of them calls the other. -/
theorem buildsAll (fuel : Nat) : BuildsAll G C fuel := by
  induction fuel with
  | zero => exact ⟨fun _ _ heq => (nomatch heq), fun _ heq => (nomatch heq)⟩
  | succ fuel ih => exact ⟨hcarries.all_build_succ ih, hcarries.all_force_succ ih⟩

/-- Walking a graph builds what was deferred in it, and keeps the condition, as only forcing changes
    what stands at a place. -/
theorem all_walk {fuel depth : Nat} {reached found : List Nat × Assembly} (h : reached.2.All C)
    (heq : walk fuel depth place reached = .ok found) : found.2.All C := by
  induction depth generalizing place reached found with
  | zero => cases heq
  | succ depth ih =>
    obtain ⟨seen, a⟩ := reached
    unfold walk at heq
    obtain ⟨forced, hforced, heq⟩ := Fault.bind_eq_ok_iff.1 heq
    have hall := (hcarries.buildsAll fuel).force h hforced
    dsimp only at heq
    split at heq
    · cases heq
      exact hall
    · split at heq
      · next label rule children hcell =>
        have hreached : (forced.1 :: seen, forced.2).2.All C := hall
        exact hreached.walkAll ih heq
      · cases heq
        exact hall

/-- What a cell has become in the end satisfies the condition, also if it was never built. -/
theorem finish (hcell : C cell) : C (.finished (Assembly.finish cell)) := by
  cases cell with
  | finished node => exact hcell
  | undefined => exact hcarries.unused
  | pending scope definition => exact hcarries.unused
  | underway => exact hcarries.unused

/-- Every parser of an assembled grammar satisfies the condition on cells that the condition on
    grammars passes to. -/
theorem assemble {g : Grammar} (hg : G g) {assembled : Assembled}
    (h : g.assemble = .ok assembled) : ∀ node ∈ assembled.graph.nodes, C (.finished node) := by
  unfold Grammar.assemble at h
  obtain ⟨built, hbuilt, h⟩ := Fault.bind_eq_ok_iff.1 h
  obtain ⟨walked, hwalked, h⟩ := Fault.bind_eq_ok_iff.1 h
  cases h
  have hempty : All ⟨[], 0⟩ C := nofun
  have hbuiltAll : (([] : List Nat), built.2).2.All C :=
    (hcarries.buildsAll _).build hempty hg hbuilt
  have hall := hcarries.all_walk hbuiltAll hwalked
  intro node hnode
  obtain ⟨cell, hcell, rfl⟩ := List.mem_map.1 hnode
  exact hcarries.finish (hall cell hcell)

end Carries

end Resync.Assembly
