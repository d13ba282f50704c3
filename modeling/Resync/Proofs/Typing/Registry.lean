import Resync.Proofs.Registry.Layout
import Resync.Proofs.Typing.Assembly

namespace Resync

/-- What an occurrence of a type does, given the types of all occurrences. -/
inductive Work.HasType (types : List Ty) (children : List Nat) : Work → Ty → Prop
  | leaf {leaf : Leaf} (h : leaf.IsPlain) : HasType types children (.leaf leaf) leaf.type
  | branch {rule : Rule} {read : List Ty} (hreads : rule.Reads read)
      (hchildren : PlacesHaveTypes types children read) :
      HasType types children (.branch rule) rule.resultType

/-- A registry with a type for each occurrence. -/
structure Registry.HasTypes (reg : Registry) (types : List Ty) : Prop where
  length_eq : reg.size = types.length
  work : ∀ {id : Nat} {entry : Entry} {t : Ty}, reg.entries[id]? = some entry →
    types[id]? = some t → entry.work.HasType types entry.children t

namespace Graph.HasTypes

variable {g : Graph} {types : List Ty} {place actual : Nat} {t : Ty}

theorem exists_type (h : g.HasTypes types) {node : Node} (hnode : g.nodes[place]? = some node) :
    ∃ t, types[place]? = some t := by
  have hlt : place < types.length := by
    rw [← h.length_eq]
    exact (List.getElem?_eq_some_iff.1 hnode).1
  exact ⟨_, List.getElem?_eq_getElem hlt⟩

/-- Forwarding does not change the type. -/
theorem follow (h : g.HasTypes types) {limit : Nat} (ht : types[place]? = some t)
    (hfollow : g.follow limit place = .ok actual) : types[actual]? = some t := by
  induction limit generalizing place with
  | zero =>
    unfold Graph.follow at hfollow
    split at hfollow
    · cases hfollow
    · cases hfollow
    · cases hfollow
      exact ht
  | succ limit ih =>
    unfold Graph.follow at hfollow
    split at hfollow
    · cases hfollow
    · next target hnode =>
      cases h.node hnode ht with
      | forward htarget => exact ih htarget hfollow
    · cases hfollow
      exact ht

/-- The parser that does the work of a place has the type of the place, as forwarding does not
    change it. -/
theorem resolve (h : g.HasTypes types) (ht : types[place]? = some t)
    (hresolve : g.resolve place = .ok actual) : types[actual]? = some t :=
  h.follow ht hresolve

end Graph.HasTypes

namespace Registry

variable {reg : Registry} {g : Graph}

/-- The types of occurrences are those of their places. -/
def typesBy (reg : Registry) (types : List Ty) : List Ty :=
  reg.entries.map fun entry => types[entry.place]?.getD .unit

theorem typesBy_eq_some {types : List Ty} {id place : Nat} {t : Ty} (h : g.HasTypes types)
    (hid : reg.Occupies g id place) (ht : types[place]? = some t) :
    (reg.typesBy types)[id]? = some t := by
  obtain ⟨entry, hentry, hresolve⟩ := hid
  rw [typesBy, List.getElem?_map, hentry, Option.map_some, h.resolve ht hresolve]
  rfl

/-- A registry has types if the graph has that it is laid out by: the children of a branch are
    occurrences of the parsers below it, and have the types that its rule reads. -/
theorem LaidOut.hasTypes (h : reg.LaidOut g) {types : List Ty} (hg : g.HasTypes types) :
    reg.HasTypes (reg.typesBy types) where
  length_eq := by
    rw [typesBy, List.length_map]
    rfl
  work {id entry t} hentry ht := by
    have hmirrors := h.mirrors hentry
    have htype : types[entry.place]?.getD .unit = t := by
      rw [typesBy, List.getElem?_map, hentry] at ht
      exact Option.some.inj ht
    obtain ⟨place, label, work, parent, children⟩ := entry
    cases work with
    | leaf leaf =>
      have hnode : g.nodes[place]? = some (.leaf leaf) := hmirrors.1
      obtain ⟨s, hs⟩ := hg.exists_type hnode
      rw [hs] at htype
      cases htype
      cases hg.node hnode hs with
      | leaf hleaf => exact .leaf hleaf
    | branch rule =>
      obtain ⟨places, hnode, hlength, hchildren⟩ := hmirrors
      obtain ⟨s, hs⟩ := hg.exists_type hnode
      rw [hs] at htype
      cases htype
      cases hg.node hnode hs with
      | branch hreads hplaces =>
        obtain ⟨hcount, hplaces⟩ := placesHaveTypes_iff.1 hplaces
        refine .branch hreads (placesHaveTypes_iff.2 ⟨hlength.trans hcount, ?_⟩)
        intro index child u hchild hu
        have hlt : index < places.length := by
          rw [← hlength]
          exact (List.getElem?_eq_some_iff.1 hchild).1
        have hplace := List.getElem?_eq_getElem hlt
        exact typesBy_eq_some hg (hchildren hplace hchild) (hplaces hplace hu)

end Registry

/-- The occurrences of a prepared grammar have types, and the first one has that of the grammar. -/
theorem Grammar.HasType.registry {grammar : Grammar} {t : Ty} (hg : grammar.HasType [] t)
    {assembled : Assembled} (hassemble : grammar.assemble = .ok assembled) {reg : Registry}
    (hreg : Registry.ofGraph assembled.graph = .ok reg) :
    ∃ types, reg.HasTypes types ∧ types[0]? = some t := by
  obtain ⟨types, htypes, hroot⟩ := hg.assemble hassemble
  have hlaid := Registry.laidOut_ofGraph hreg
  exact ⟨_, hlaid.hasTypes htypes, Registry.typesBy_eq_some htypes hlaid.root hroot⟩

end Resync
