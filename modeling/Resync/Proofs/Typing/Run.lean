import Resync.Proofs.Recovery.Rounds
import Resync.Proofs.Typing.Registry
import Resync.Proofs.Typing.Script

namespace Resync

namespace Registry

/-- What is saved for a branch suits the types of its children. -/
def SuitsSlots (reg : Registry) (types : List Ty) (id : Nat) (data : Saved) : Prop :=
  ∀ {entry : Entry} {read : List Ty}, reg.entries[id]? = some entry →
    PlacesHaveTypes types entry.children read → data.Suits read

/-- An outcome of an occurrence has its type. -/
def GivesType (reg : Registry) (types : List Ty) (id : Nat) (r : Result) : Prop :=
  ∃ t, types[id]? = some t ∧ r.HasType (reg.SuitsSlots types) t

variable {reg : Registry} {types : List Ty}

theorem suitsSlots_iff {id : Nat} {entry : Entry} {read : List Ty} {data : Saved}
    (hentry : reg.entries[id]? = some entry) (hread : PlacesHaveTypes types entry.children read) :
    reg.SuitsSlots types id data ↔ data.Suits read := by
  refine ⟨fun h => h hentry hread, ?_⟩
  intro h entry' read' hentry' hread'
  rw [hentry] at hentry'
  cases hentry'
  rw [hread'.unique hread]
  exact h

/-- Occurrences may be entered from anywhere, and give outputs of their types. -/
private def typing (reg : Registry) (types : List Ty) : Contract where
  enter _ id _ := id < reg.size
  leave id _ r := reg.GivesType types id r
  event _ := True
  fault f := f = .outOfFuel

variable (h : reg.HasTypes types)
include h

theorem HasTypes.exists_work {id : Nat} {entry : Entry} (hentry : reg.entries[id]? = some entry) :
    ∃ t, types[id]? = some t ∧ entry.work.HasType types entry.children t := by
  have hlt : id < types.length := by
    rw [← h.length_eq]
    exact (List.getElem?_eq_some_iff.1 hentry).1
  have ht := List.getElem?_eq_getElem hlt
  exact ⟨_, ht, h.work hentry ht⟩

private theorem typed_terms {depth : Nat} {entry : Entry} {read : List Ty}
    (hread : PlacesHaveTypes types entry.children read) :
    ((reg.typing types).terms depth entry).Typed read (reg.SuitsSlots types) where
  ask {index} s hindex := by
    obtain ⟨hlength, hplaces⟩ := placesHaveTypes_iff.1 hread
    refine Contract.terms_ask (fun child hchild => ?_) fun hmissing => ?_
    · have htype := hplaces hchild (List.getElem?_eq_getElem hindex)
      rw [typing, h.length_eq]
      exact (List.getElem?_eq_some_iff.1 htype).1
    · rw [List.getElem?_eq_none_iff] at hmissing
      omega
  answer {index s r t} ht hanswer := by
    obtain ⟨child, hchild, u, hu, htyped⟩ := hanswer
    have htype := (placesHaveTypes_iff.1 hread).2 hchild ht
    rw [hu] at htype
    cases htype
    exact htyped
  exhausted := rfl

private theorem meets_typing {id : Nat} {entry : Entry} {rule : Rule}
    (hentry : reg.entries[id]? = some entry) (hwork : entry.work = .branch rule) (depth : Nat)
    (step : Step) (hstep : ∀ read, PlacesHaveTypes types entry.children read →
      Rule.IsTyped read (reg.SuitsSlots types) id step) :
    (rule.script (reg.view id entry) step).Meets ((reg.typing types).terms depth entry)
      fun r => reg.GivesType types id (r.claim id) := by
  obtain ⟨t, ht, htyped⟩ := h.exists_work hentry
  rw [hwork] at htyped
  cases htyped with
  | @branch _ read hreads hread =>
    have hcount : (reg.view id entry).labels.length = read.length := by
      rw [view, List.length_map]
      exact hread.length_eq
    refine (Rule.meets_script_typed (typed_terms h hread) hreads (reg.view id entry) hcount
      (fun _ => suitsSlots_iff hentry hread) step (hstep read hread)).imp fun r hr => ?_
    exact ⟨_, ht, hr.claim id⟩

/-- Parsing from any occurrence gives an output of its type: leaves do, and the script of a branch
    does if its children do. -/
private theorem typing_keptBy : (reg.typing types).KeptBy reg where
  exhausted _ := rfl
  missing {_ id _} henter hmissing := by
    have hlt : id < reg.entries.length := henter
    rw [List.getElem?_eq_none_iff] at hmissing
    omega
  entered _ := trivial
  left _ := trivial
  leaf {_ id s entry leaf} _ hentry hwork := by
    obtain ⟨t, ht, htyped⟩ := h.exists_work hentry
    rw [hwork] at htyped
    cases htyped with
    | leaf hleaf =>
      refine ⟨_, ht, ?_⟩
      unfold Leaf.parse
      cases hrun : leaf.run s with
      | error e =>
        refine ⟨rfl, fun he => ?_⟩
        cases he
        rw [ParseError.claim, hleaf.saved hrun]
        exact fun _ hentry => nomatch hentry
      | ok found => exact Result.hasType_success found.2
  branch {_ id s _ _} _ hentry hwork :=
    meets_typing h hentry hwork _ (.descend s) fun _ _ => trivial

/-- Parsing from an occurrence gives an output of its type, and only a bound on the depth can stop
    it. -/
theorem HasTypes.ensures_parse {id : Nat} (hid : id < reg.size) (depth : Nat) (s : State) :
    (reg.parse depth id s).Ensures (fun _ => True) (· = .outOfFuel) (reg.GivesType types id) :=
  (typing_keptBy h).ensures_parse depth id s hid

omit h in
/-- A parent reads an occurrence below it at its type, so the outcome that a climb hands up is
    read. -/
private theorem exists_read {entry : Entry} {id index : Nat} {r : Result} {read : List Ty}
    (hchild : entry.children[index]? = some id) (hr : reg.GivesType types id r)
    (hread : PlacesHaveTypes types entry.children read) :
    ∃ t, read[index]? = some t ∧ r.HasType (reg.SuitsSlots types) t := by
  obtain ⟨t, ht, htyped⟩ := hr
  obtain ⟨hlength, hplaces⟩ := placesHaveTypes_iff.1 hread
  have hlt : index < read.length := by
    rw [← hlength]
    exact (List.getElem?_eq_some_iff.1 hchild).1
  have hget := List.getElem?_eq_getElem hlt
  have htype := hplaces hchild hget
  rw [ht] at htype
  cases htype
  exact ⟨_, hget, htyped⟩

/-- Going on after a child gives an output of the type of the branch, and only a bound on the depth
    can stop it. -/
theorem HasTypes.ensures_resume {g : Graph} (hlaid : reg.LaidOut g) {id parent index : Nat}
    {r : Result} {saved : Option Saved} (hparent : reg.parent? id = some (parent, index))
    (hr : reg.GivesType types id r)
    (hsaved : ∀ data, saved = some data → reg.SuitsSlots types parent data) (depth : Nat) :
    (reg.resume depth parent ⟨index, r, saved⟩).Ensures (fun _ => True) (· = .outOfFuel)
      (reg.GivesType types parent) := by
  obtain ⟨-, above, habove, hchild⟩ := hlaid.hangs hparent
  refine (typing_keptBy h).ensures_resume (fun hmissing => ?_) (fun _ _ => trivial)
    (fun entry leaf hentry hwork => ?_) (fun entry rule hentry hwork => ?_) fun _ _ => trivial
  · rw [habove] at hmissing
    cases hmissing
  · -- a leaf has no children, so it is no parent
    have hmirrors := hlaid.mirrors hentry
    rw [Mirrors, hwork] at hmirrors
    rw [habove] at hentry
    cases hentry
    rw [hmirrors.2] at hchild
    cases hchild
  · rw [habove] at hentry
    cases hentry
    refine meets_typing h habove hwork _ (.resume ⟨index, r, saved⟩) fun read hread => ?_
    exact ⟨exists_read hchild hr hread, hsaved⟩

end Registry

namespace Upkeep

/-- What a run keeps up whose occurrences have types. -/
def typing (reg : Registry) (types : List Ty) : Upkeep where
  outcome := reg.GivesType types
  saved := reg.SuitsSlots types
  error _ := True
  cursor _ := True
  summit id := id = 0
  event _ := True
  fault f := f = .outOfFuel

/-- Outcomes keep their types in a run, whatever is saved and resumed, since recovery hands outcomes
    to the parents that the registry names. -/
theorem typing_keptBy {reg : Registry} {types : List Ty} {g : Graph} (h : reg.HasTypes types)
    (hlaid : reg.LaidOut g) (depth maxErrors : Nat) :
    (typing reg types).KeptBy ⟨reg, depth, maxErrors⟩ where
  exhausted := rfl
  run {id s} hid _ := by
    refine h.ensures_parse ?_ depth s
    obtain rfl | hrecoverer := hid
    · obtain ⟨entry, hentry, -⟩ := hlaid.root
      exact (List.getElem?_eq_some_iff.1 hentry).1
    · apply Decidable.by_contra
      intro hmissing
      have hnone : reg.entries[id]? = none := List.getElem?_eq_none (Nat.le_of_not_lt hmissing)
      simp [Registry.recoverer?, hnone] at hrecoverer
  resume hparent hr hsaved := h.ensures_resume hlaid hparent hr hsaved depth
  root := rfl
  summit {id _} hr := by
    obtain ⟨t, ht, -⟩ := hr
    apply hlaid.wayEnd_ancestors
    rw [h.length_eq]
    exact (List.getElem?_eq_some_iff.1 ht).1
  moved _ _ := trivial
  search _ _ := trivial
  reports hr he := by
    obtain ⟨t, -, htyped⟩ := hr
    exact ⟨trivial, htyped.saved he⟩
  stripped hr _ := by
    obtain ⟨t, ht, htyped⟩ := hr
    exact ⟨t, ht, htyped.withoutSaved _⟩
  violation _ _ _ _ := trivial
  reported _ := trivial
  estimated _ _ _ _ _ := trivial
  gaveUp _ := trivial

end Upkeep

end Resync
