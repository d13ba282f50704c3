import Resync.Proofs.Assembly.Places
import Resync.Proofs.Leaf.Cursors
import Resync.Proofs.Typing.Grammar

namespace Resync

/-- Places with the types that are expected there. -/
def PlacesHaveTypes (types : List Ty) (places : List Nat) (expected : List Ty) : Prop :=
  List.Forall₂ (fun place t => types[place]? = some t) places expected

/-- Names in scope with the types that are expected of them. -/
def ScopeHasTypes (types : List Ty) (scope : List (String × Nat)) (expected : List (String × Ty)) :
    Prop :=
  List.Forall₂ (fun entry name => entry.1 = name.1 ∧ types[entry.2]? = some name.2) scope expected

/-- What may stand at a place of a type, given the types of all places. -/
inductive Node.HasType (types : List Ty) : Node → Ty → Prop
  | leaf {leaf : Leaf} (h : leaf.IsPlain) : HasType types (.leaf leaf) leaf.type
  | branch {label : String} {rule : Rule} {places : List Nat} {read : List Ty}
      (hreads : rule.Reads read) (hplaces : PlacesHaveTypes types places read) :
      HasType types (.branch label rule places) rule.resultType
  | forward {target : Nat} {t : Ty} (h : types[target]? = some t) :
      HasType types (.forward target) t
  | unused (t : Ty) : HasType types .unused t

/-- What may stand at a place of a type during the construction. -/
inductive Cell.HasType (types : List Ty) : Cell → Ty → Prop
  | finished {node : Node} {t : Ty} (h : node.HasType types t) : HasType types (.finished node) t
  | undefined (t : Ty) : HasType types .undefined t
  | pending {scope : List (String × Nat)} {names : List (String × Ty)} {definition : Grammar}
      {t : Ty} (hscope : ScopeHasTypes types scope names) (h : definition.HasType names t) :
      HasType types (.pending scope definition) t
  | underway (t : Ty) : HasType types .underway t

/-- An assembly with a type for each place. -/
structure Assembly.HasTypes (a : Assembly) (types : List Ty) : Prop where
  length_eq : a.cells.length = types.length
  cell : ∀ {place : Nat} {cell : Cell} {t : Ty}, a.cells[place]? = some cell →
    types[place]? = some t → cell.HasType types t

/-- A graph with a type for each place. -/
structure Graph.HasTypes (g : Graph) (types : List Ty) : Prop where
  length_eq : g.nodes.length = types.length
  node : ∀ {place : Nat} {node : Node} {t : Ty}, g.nodes[place]? = some node →
    types[place]? = some t → node.HasType types t

variable {types types' : List Ty} {place : Nat} {t : Ty}

theorem PlacesHaveTypes.length_eq {expected : List Ty} {places : List Nat}
    (h : PlacesHaveTypes types places expected) : places.length = expected.length :=
  List.Forall₂.length_eq h

theorem placesHaveTypes_iff {expected : List Ty} {places : List Nat} :
    PlacesHaveTypes types places expected ↔ places.length = expected.length ∧
      ∀ {index place : Nat} {t : Ty}, places[index]? = some place → expected[index]? = some t →
        types[place]? = some t := by
  rw [PlacesHaveTypes, List.forall₂_iff_get]
  refine and_congr_right fun hlength => ⟨fun h => ?_, fun h index hplace ht => ?_⟩
  · intro index place t hplace ht
    obtain ⟨hlt, rfl⟩ := List.getElem?_eq_some_iff.1 hplace
    obtain ⟨hlt', rfl⟩ := List.getElem?_eq_some_iff.1 ht
    exact h index hlt hlt'
  · exact h (List.getElem?_eq_getElem hplace) (List.getElem?_eq_getElem ht)

/-- Places have types in one way only, so what a rule reads is determined by its children. -/
theorem PlacesHaveTypes.unique {expected expected' : List Ty} {places : List Nat}
    (h : PlacesHaveTypes types places expected) (h' : PlacesHaveTypes types places expected') :
    expected = expected' := by
  induction h generalizing expected' with
  | nil =>
    cases h'
    rfl
  | cons ht hplaces ih =>
    cases h' with
    | cons ht' hplaces' =>
      rw [ht] at ht'
      cases ht'
      rw [ih hplaces']

section Extending

theorem PlacesHaveTypes.extend {places : List Nat} {expected : List Ty}
    (hp : PlacesHaveTypes types places expected) (h : types <+: types') :
    PlacesHaveTypes types' places expected :=
  hp.imp fun _ _ => getElem?_extend h

theorem ScopeHasTypes.extend {scope : List (String × Nat)} {names : List (String × Ty)}
    (hs : ScopeHasTypes types scope names) (h : types <+: types') :
    ScopeHasTypes types' scope names :=
  hs.imp fun _ _ hentry => ⟨hentry.1, getElem?_extend h hentry.2⟩

theorem ScopeHasTypes.lookup {scope : List (String × Nat)} {names : List (String × Ty)}
    (h : ScopeHasTypes types scope names) {name : String} (hplace : scope.lookup name = some place)
    (htype : names.lookup name = some t) : types[place]? = some t := by
  obtain ⟨s, hname, hs⟩ := exists_lookup_of_forall₂ h hplace
  rw [← htype, hname]
  exact hs

/-- One more name may be in scope, if its place has the type that is expected of it. -/
theorem ScopeHasTypes.cons {scope : List (String × Nat)} {names : List (String × Ty)}
    (hs : ScopeHasTypes types scope names) (name : String) (ht : types[place]? = some t) :
    ScopeHasTypes types ((name, place) :: scope) ((name, t) :: names) :=
  List.Forall₂.cons ⟨rfl, ht⟩ hs

theorem Node.HasType.extend {node : Node} (hn : node.HasType types t) (h : types <+: types') :
    node.HasType types' t := by
  cases hn with
  | leaf hleaf => exact .leaf hleaf
  | branch hreads hplaces => exact .branch hreads (hplaces.extend h)
  | forward htarget => exact .forward (getElem?_extend h htarget)
  | unused => exact .unused t

theorem Cell.HasType.extend {cell : Cell} (hc : cell.HasType types t) (h : types <+: types') :
    cell.HasType types' t := by
  cases hc with
  | finished hnode => exact .finished (hnode.extend h)
  | undefined => exact .undefined t
  | pending hscope hdefinition => exact .pending (hscope.extend h) hdefinition
  | underway => exact .underway t

end Extending

namespace Assembly

/-- A construction has gone on to a place of a type, without changing the type of any place. -/
def Yields (types : List Ty) (t : Ty) (out : Nat × Assembly) : Prop :=
  ∃ types', types <+: types' ∧ out.2.HasTypes types' ∧ types'[out.1]? = some t

variable {a : Assembly} {cell : Cell}

theorem Yields.of_extends {out : Nat × Assembly} (h : types <+: types')
    (hout : Yields types' t out) : Yields types t out := by
  obtain ⟨types'', hprefix, hrest⟩ := hout
  exact ⟨types'', h.trans hprefix, hrest⟩

/-- A cell that is added gives its place its type, and the other places keep theirs. -/
theorem HasTypes.add (h : a.HasTypes types) (hcell : cell.HasType (types ++ [t]) t) :
    (a.add cell).2.HasTypes (types ++ [t]) ∧ (types ++ [t])[(a.add cell).1]? = some t := by
  refine ⟨⟨?_, fun {place found s} hfound hs => ?_⟩, getElem?_add h.length_eq cell t⟩
  · simp [Assembly.add, h.length_eq]
  · obtain ⟨hfound, hs⟩ | ⟨rfl, rfl⟩ := add_cases h.length_eq hfound hs
    · exact (h.cell hfound hs).extend (List.prefix_append types [t])
    · exact hcell

theorem HasTypes.yields_add (h : a.HasTypes types) (hcell : cell.HasType (types ++ [t]) t) :
    Yields types t (a.add cell) :=
  ⟨types ++ [t], List.prefix_append types [t], h.add hcell⟩

/-- What stands at a place may change, as long as it has the type of the place. This is how deferred
    and recursive parsers get their work. -/
theorem HasTypes.set (h : a.HasTypes types) (ht : types[place]? = some t)
    (hcell : cell.HasType types t) : (a.set place cell).HasTypes types where
  length_eq := by
    change (a.cells.set place cell).length = types.length
    rw [List.length_set]
    exact h.length_eq
  cell {other found s} hfound hs := by
    obtain ⟨rfl, rfl⟩ | hfound := set_cases hfound
    · cases ht.symm.trans hs
      exact hcell
    · exact h.cell hfound hs

section Building

variable {out : Nat × Assembly} {names : List (String × Ty)} {scope : List (String × Nat)}

/-- Building grammars one after the other, where building one of them yields a place of its type,
    gives places with the types of the grammars. -/
theorem haveTypes_buildAll {build : Grammar → Assembly → Except Fault (Nat × Assembly)}
    (hbuild : ∀ {g t types a out}, a.HasTypes types → ScopeHasTypes types scope names →
      g.HasType names t → build g a = .ok out → Yields types t out)
    {gs : List Grammar} {expected : List Ty} {built : List Nat × Assembly} (h : a.HasTypes types)
    (hscope : ScopeHasTypes types scope names) (hgs : Grammar.HasTypes names gs expected)
    (heq : buildAll build gs a = .ok built) :
    ∃ types', types <+: types' ∧ built.2.HasTypes types' ∧
      PlacesHaveTypes types' built.1 expected := by
  induction gs generalizing types a expected built with
  | nil =>
    cases hgs
    cases heq
    exact ⟨types, List.prefix_rfl, h, .nil⟩
  | cons g gs ih =>
    cases hgs with
    | cons hg hgs =>
      unfold buildAll at heq
      obtain ⟨first, hfirst, heq⟩ := Fault.bind_eq_ok_iff.1 heq
      obtain ⟨rest, hrest, heq⟩ := Fault.bind_eq_ok_iff.1 heq
      cases heq
      obtain ⟨types₁, hle₁, htypes₁, hplace⟩ := hbuild h hscope hg hfirst
      obtain ⟨types₂, hle₂, htypes₂, hplaces⟩ := ih htypes₁ (hscope.extend hle₁) hgs hrest
      exact ⟨types₂, hle₁.trans hle₂, htypes₂, .cons (getElem?_extend hle₂ hplace) hplaces⟩

/-- A safe spot has the type of the leaf that it is made of, at a place of its own. -/
theorem HasTypes.yields_promote (h : a.HasTypes types) (ht : types[place]? = some t)
    (heq : a.promote place = .ok out) : Yields types t out := by
  unfold promote at heq
  split at heq
  · next leaf hcell =>
    cases hsafe : leaf.toSafeSpot with
    | error d =>
      rw [hsafe] at heq
      cases heq
    | ok safe =>
      rw [hsafe] at heq
      cases heq
      cases h.cell hcell ht with
      | finished hnode =>
        cases hnode with
        | leaf hleaf =>
          have htype : safe.type = leaf.type := by rw [Leaf.eq_of_toSafeSpot hsafe]
          rw [← htype]
          exact h.yields_add (.finished (.leaf (hleaf.toSafeSpot hsafe)))
  · cases heq
  · cases heq

/-- With so much fuel, building and forcing lead to places of the right type. -/
structure BuildsTyped (fuel : Nat) : Prop where
  build : ∀ {scope : List (String × Nat)} {names : List (String × Ty)} {g : Grammar} {t : Ty}
    {types : List Ty} {a : Assembly} {out : Nat × Assembly}, a.HasTypes types →
      ScopeHasTypes types scope names → g.HasType names t → build fuel scope g a = .ok out →
        Yields types t out
  force : ∀ {place : Nat} {t : Ty} {types : List Ty} {a : Assembly} {out : Nat × Assembly},
    a.HasTypes types → types[place]? = some t → force fuel place a = .ok out → Yields types t out

/-- Building a grammar leads to a place of its type, if building its parts does with less fuel. The
    cases are those of grammars, and a name leads to the place that it has in scope. -/
theorem yields_build_succ {fuel : Nat} (ih : BuildsTyped fuel) {g : Grammar}
    (h : a.HasTypes types) (hscope : ScopeHasTypes types scope names) (hg : g.HasType names t)
    (heq : build (fuel + 1) scope g a = .ok out) : Yields types t out := by
  cases hg with
  | leaf primitive =>
    unfold build at heq
    cases heq
    exact h.yields_add (.finished (.leaf primitive.isPlain))
  | branch hreads hchildren =>
    unfold build at heq
    obtain ⟨built, hbuilt, heq⟩ := Fault.bind_eq_ok_iff.1 heq
    obtain ⟨types', hle, htypes', hplaces⟩ := haveTypes_buildAll ih.build h hscope hchildren hbuilt
    obtain ⟨places, grown⟩ := built
    dsimp only at heq
    split at heq
    · cases heq
    · cases heq
      refine Yields.of_extends hle (htypes'.yields_add (.finished (.branch hreads ?_)))
      exact hplaces.extend (List.prefix_append types' _)
  | safe hg =>
    unfold build at heq
    obtain ⟨built, hbuilt, heq⟩ := Fault.bind_eq_ok_iff.1 heq
    obtain ⟨forced, hforced, heq⟩ := Fault.bind_eq_ok_iff.1 heq
    obtain ⟨types₁, hle₁, htypes₁, hplace₁⟩ := ih.build h hscope hg hbuilt
    obtain ⟨types₂, hle₂, htypes₂, hplace₂⟩ := ih.force htypes₁ hplace₁ hforced
    exact Yields.of_extends (hle₁.trans hle₂) (htypes₂.yields_promote hplace₂ heq)
  | named hname =>
    rw [build] at heq
    split at heq
    · next place hlookup =>
      cases heq
      exact ⟨types, List.prefix_rfl, h, hscope.lookup hlookup hname⟩
    · cases heq
  | @sharing _ name _ _ _ _ hdefinition hbody =>
    unfold build at heq
    obtain ⟨built, hbuilt, heq⟩ := Fault.bind_eq_ok_iff.1 heq
    obtain ⟨types', hle, htypes', hplace⟩ := ih.build h hscope hdefinition hbuilt
    have hinner := (hscope.extend hle).cons name hplace
    exact Yields.of_extends hle (ih.build htypes' hinner hbody heq)
  | @recursive _ name _ _ hdefinition =>
    unfold build at heq
    obtain ⟨hhandled, hhandle⟩ := h.add (.undefined t)
    have hinner := (hscope.extend (List.prefix_append types [t])).cons name hhandle
    obtain ⟨built, hbuilt, heq⟩ := Fault.bind_eq_ok_iff.1 heq
    obtain ⟨types', hle, htypes', hplace⟩ := ih.build hhandled hinner hdefinition hbuilt
    obtain ⟨place, grown⟩ := built
    dsimp only at heq
    split at heq
    · cases heq
    · cases heq
      have hself := getElem?_extend hle hhandle
      exact ⟨types', (List.prefix_append types [t]).trans hle,
        htypes'.set hself (.finished (.forward hplace)), hself⟩
  | deferred hdefinition =>
    unfold build at heq
    cases heq
    exact h.yields_add (.pending (hscope.extend (List.prefix_append types [t])) hdefinition)

/-- Forcing a place leads to one of the same type, if building does with less fuel. What was
    deferred is built in its own scope, and forwarding leads to a place of the same type. -/
theorem yields_force_succ {fuel : Nat} (ih : BuildsTyped fuel) (h : a.HasTypes types)
    (ht : types[place]? = some t) (heq : force (fuel + 1) place a = .ok out) :
    Yields types t out := by
  unfold force at heq
  cases hcell : a.cells[place]? with
  | none =>
    rw [hcell] at heq
    cases heq
  | some cell =>
    rw [hcell] at heq
    have htyped := h.cell hcell ht
    cases htyped with
    | undefined => cases heq
    | underway => cases heq
    | pending hscope hdefinition =>
      obtain ⟨built, hbuilt, heq⟩ := Fault.bind_eq_ok_iff.1 heq
      have hset : (a.set place .underway).HasTypes types := h.set ht (.underway t)
      have hbegun : HasTypes { a.set place .underway with deferredBuilds := a.deferredBuilds + 1 }
          types := ⟨hset.length_eq, hset.cell⟩
      obtain ⟨types', hle, htypes', hplace⟩ := ih.build hbegun hscope hdefinition hbuilt
      have hforwarded := htypes'.set (getElem?_extend hle ht) (.finished (.forward hplace))
      exact Yields.of_extends hle (ih.force hforwarded hplace heq)
    | finished hnode =>
      cases hnode with
      | forward htarget => exact ih.force h htarget heq
      | leaf hleaf =>
        cases heq
        exact ⟨types, List.prefix_rfl, h, ht⟩
      | branch hreads hplaces =>
        cases heq
        exact ⟨types, List.prefix_rfl, h, ht⟩
      | unused =>
        cases heq
        exact ⟨types, List.prefix_rfl, h, ht⟩

/-- Building and forcing lead to places of the right type with any fuel. The induction is on the
    fuel, for both at once. -/
theorem buildsTyped (fuel : Nat) : BuildsTyped fuel := by
  induction fuel with
  | zero =>
    refine ⟨fun _ _ _ heq => ?_, fun _ _ heq => ?_⟩
    · unfold build at heq
      cases heq
    · unfold force at heq
      cases heq
  | succ fuel ih => exact ⟨yields_build_succ ih, yields_force_succ ih⟩

end Building

section Walking

/-- A walk has gone on without changing the type of any place. -/
def Extends (types : List Ty) (reached : List Nat × Assembly) : Prop :=
  ∃ types', types <+: types' ∧ reached.2.HasTypes types'

variable {reached found : List Nat × Assembly}

theorem extends_walkAll {walk : Nat → List Nat × Assembly → Except Fault (List Nat × Assembly)}
    (hwalk : ∀ {place t types reached found}, Assembly.HasTypes reached.2 types →
      types[place]? = some t → walk place reached = .ok found → Extends types found)
    {places : List Nat} {expected : List Ty} (h : reached.2.HasTypes types)
    (hplaces : PlacesHaveTypes types places expected)
    (heq : walkAll walk places reached = .ok found) : Extends types found := by
  induction places generalizing types reached expected with
  | nil =>
    cases heq
    exact ⟨types, List.prefix_rfl, h⟩
  | cons place places ih =>
    cases hplaces with
    | cons hplace hplaces =>
      unfold walkAll at heq
      obtain ⟨first, hfirst, heq⟩ := Fault.bind_eq_ok_iff.1 heq
      obtain ⟨types₁, hle₁, htypes₁⟩ := hwalk h hplace hfirst
      obtain ⟨types₂, hle₂, htypes₂⟩ := ih htypes₁ (PlacesHaveTypes.extend hplaces hle₁) heq
      exact ⟨types₂, hle₁.trans hle₂, htypes₂⟩

/-- A walk builds what was deferred at the type of its place, and changes no other type. -/
theorem extends_walk {fuel depth : Nat} (h : reached.2.HasTypes types) (ht : types[place]? = some t)
    (heq : walk fuel depth place reached = .ok found) : Extends types found := by
  induction depth generalizing types t place reached found with
  | zero => cases heq
  | succ depth ih =>
    obtain ⟨seen, a⟩ := reached
    unfold walk at heq
    obtain ⟨forced, hforced, heq⟩ := Fault.bind_eq_ok_iff.1 heq
    obtain ⟨types', hle, htypes', hplace⟩ := (buildsTyped fuel).force h ht hforced
    obtain ⟨place, grown⟩ := forced
    dsimp only at heq
    split at heq
    · cases heq
      exact ⟨types', hle, htypes'⟩
    · split at heq
      · next label rule children hcell =>
        cases htypes'.cell hcell hplace with
        | finished hnode =>
          cases hnode with
          | branch hreads hplaces =>
            have hreached : (place :: seen, grown).2.HasTypes types' := htypes'
            obtain ⟨types'', hle', htypes''⟩ := extends_walkAll ih hreached hplaces heq
            exact ⟨types'', hle.trans hle', htypes''⟩
      · cases heq
        exact ⟨types', hle, htypes'⟩

end Walking

theorem HasTypes.finish (h : a.HasTypes types) (root : Nat) :
    Graph.HasTypes ⟨a.cells.map Assembly.finish, root⟩ types where
  length_eq := by
    rw [List.length_map]
    exact h.length_eq
  node {place node t} hnode ht := by
    rw [List.getElem?_map] at hnode
    obtain ⟨cell, hcell, rfl⟩ := Option.map_eq_some_iff.1 hnode
    cases h.cell hcell ht with
    | finished hnode => exact hnode
    | undefined => exact .unused t
    | pending hscope hdefinition => exact .unused t
    | underway => exact .unused t

end Assembly

/-- The places of an assembled grammar have types, and its root has that of the grammar. A place has
    its type from the moment at which it is added, whatever comes to stand there. -/
theorem Grammar.HasType.assemble {g : Grammar} (hg : g.HasType [] t) {assembled : Assembled}
    (h : g.assemble = .ok assembled) :
    ∃ types, assembled.graph.HasTypes types ∧ types[assembled.graph.root]? = some t := by
  unfold Grammar.assemble at h
  obtain ⟨built, hbuilt, h⟩ := Fault.bind_eq_ok_iff.1 h
  obtain ⟨walked, hwalked, h⟩ := Fault.bind_eq_ok_iff.1 h
  cases h
  have hempty : Assembly.HasTypes ⟨[], 0⟩ [] := ⟨rfl, fun hcell => nomatch hcell⟩
  obtain ⟨types, -, htypes, hroot⟩ :=
    (Assembly.buildsTyped _).build hempty List.Forall₂.nil hg hbuilt
  have hreached : (([] : List Nat), built.2).2.HasTypes types := htypes
  obtain ⟨types', hle, htypes'⟩ := Assembly.extends_walk hreached hroot hwalked
  exact ⟨types', htypes'.finish built.1, getElem?_extend hle hroot⟩

end Resync
