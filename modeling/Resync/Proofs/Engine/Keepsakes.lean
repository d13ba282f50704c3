import Resync.Proofs.Engine.Calls
import Resync.Proofs.Engine.Course
import Resync.Proofs.Registry.Layout

namespace Resync

/-- The number of children that a built-in rule works on. -/
def Rule.Takes : Rule → Nat → Prop
  | map _ _ _, count | tryMap _ _ _, count | many _, count => count = 1
  | _, _ => True

/-- A graph of built-in branches with as many children as they work on, over leaves that save
    nothing. -/
structure Graph.IsBuiltIn (g : Graph) : Prop where
  leaf : ∀ {place : Nat} {leaf : Leaf}, g.nodes[place]? = some (.leaf leaf) →
    ∀ {s e}, leaf.run s = .error e → e.saved = []
  branch : ∀ {place : Nat} {label : String} {rule : Rule} {children : List Nat},
    g.nodes[place]? = some (.branch label rule children) →
      rule.IsBuiltIn ∧ rule.Takes children.length

/-- What a node has to be in such a graph. -/
def Node.IsBuiltIn : Node → Prop
  | .leaf work => ∀ s e, work.run s = .error e → e.saved = []
  | .branch _ rule children => rule.IsBuiltIn ∧ rule.Takes children.length
  | _ => True

theorem Graph.isBuiltIn_of_nodes {g : Graph} (h : ∀ node ∈ g.nodes, node.IsBuiltIn) :
    g.IsBuiltIn where
  leaf hnode _ _ := h _ (List.mem_of_getElem? hnode) _ _
  branch hnode := h _ (List.mem_of_getElem? hnode)

namespace Registry

variable {reg : Registry} {g : Graph}

/-- What an occurrence may have saved, by its rule. -/
def Keepsakes (reg : Registry) (id : Nat) (data : Saved) : Prop :=
  ∃ entry rule, reg.entries[id]? = some entry ∧ entry.work = .branch rule ∧
    rule.Saves (fun _ => True) data

/-- Only what occurrences may save is saved in the error of an outcome, and only for the occurrence
    itself and for those below it, which come after it. -/
abbrev IsTidy (reg : Registry) (id : Nat) (r : Result) : Prop :=
  r.Carries (fun _ => True) fun key data => id ≤ key ∧ reg.Keepsakes key data

/-- What is tidy for an occurrence is tidy for those before it. -/
theorem IsTidy.anti {id id' : Nat} {r : Result} (h : reg.IsTidy id' r) (hle : id ≤ id') :
    reg.IsTidy id r := by
  refine ⟨trivial, trivial, fun e he => ?_⟩
  have hcarries := h.error e he
  refine ⟨hcarries.place, fun entry hentry => ?_⟩
  obtain ⟨hbelow, hkeepsake⟩ := hcarries.saved entry hentry
  exact ⟨Nat.le_trans hle hbelow, hkeepsake⟩

/-- Nothing is saved for the branches that come before an occurrence in what it leaves with. -/
theorem IsTidy.holdsNothingFor {id branch : Nat} {r : Result} (h : reg.IsTidy id r)
    (hlt : branch < id) : r.HoldsNothingFor branch := by
  intro e he data hmem
  have hle := ((h.error e he).saved _ hmem).1
  exact Nat.not_le.2 hlt hle

/-- Occurrences from `floor` on keep tidy, and spare the branches before it. -/
private def tidiness (reg : Registry) (floor : Nat) : Contract where
  enter _ id _ := floor ≤ id
  leave id _ r := floor ≤ id ∧ reg.IsTidy id r
  event e := ∀ branch < floor, e.Spares branch
  fault _ := True

private theorem follow_tidiness (hdescends : reg.Descends) {floor id : Nat} {entry : Entry}
    (hentry : reg.entries[id]? = some entry) (hle : floor ≤ id) (depth : Nat) :
    ((reg.tidiness floor).terms depth entry).Follow (fun _ => True)
      (fun key data => id ≤ key ∧ reg.Keepsakes key data) fun _ _ => True where
  trail := ⟨fun {s} _ => ⟨{ s with pos := min s.pos s.input.size }, trivial, rfl⟩,
    fun _ => trivial, fun _ _ => trivial⟩
  ask index s _ := Contract.terms_ask (fun child hchild => Nat.le_trans hle
    (Nat.le_of_lt (hdescends id entry hentry child (List.mem_of_getElem? hchild))))
    fun _ => trivial
  answer hanswer := by
    obtain ⟨child, hchild, hleave⟩ := hanswer
    have hlt := hdescends id entry hentry child (List.mem_of_getElem? hchild)
    exact ⟨IsTidy.anti hleave.2 (Nat.le_of_lt hlt), trivial⟩
  defect _ := trivial
  exhausted := .inl trivial

private theorem meets_tidiness (hdescends : reg.Descends) {floor id : Nat} {entry : Entry}
    {rule : Rule} (hrule : rule.IsBuiltIn) (hentry : reg.entries[id]? = some entry)
    (hle : floor ≤ id) (hwork : entry.work = .branch rule) (depth : Nat) (step : Step)
    (hstep : Rule.Hands (fun _ => True) (fun key data => id ≤ key ∧ reg.Keepsakes key data) id
      step) :
    (rule.script (reg.view id entry) step).Meets ((reg.tidiness floor).terms depth entry)
      fun r => reg.IsTidy id (r.claim id) := by
  have hfollow := follow_tidiness hdescends hentry hle depth
  have hsaves : ∀ data, rule.Saves (fun _ => True) data →
      id ≤ id ∧ reg.Keepsakes id data :=
    fun _ hdata => ⟨Nat.le_refl id, entry, rule, hentry, hwork, hdata⟩
  have hsaved : ∀ data, id ≤ id ∧ reg.Keepsakes id data → data.All fun _ => True := by
    intro data _
    cases data <;> exact trivial
  have hmeets := Rule.meets_script hfollow hrule (reg.view id entry) hsaves hsaved step hstep
  exact hmeets.imp fun _ hr => hr.1.claim id

section Prepared

variable (hg : g.IsBuiltIn) (h : reg.LaidOut g) (hdescends : reg.Descends)
include hg h

theorem LaidOut.isBuiltIn {id : Nat} {entry : Entry} {rule : Rule}
    (hentry : reg.entries[id]? = some entry) (hwork : entry.work = .branch rule) :
    rule.IsBuiltIn ∧ rule.Takes entry.children.length := by
  have hmirrors := h.mirrors hentry
  rw [Mirrors, hwork] at hmirrors
  obtain ⟨places, hnode, hlength, -⟩ := hmirrors
  rw [hlength]
  exact hg.branch hnode

/-- Leaves save nothing, so their errors carry nothing. -/
theorem LaidOut.saved_eq_nil_of_leaf {id : Nat} {s : State} {entry : Entry} {leaf : Leaf}
    {e : ParseError} (hentry : reg.entries[id]? = some entry) (hwork : entry.work = .leaf leaf)
    (he : (leaf.parse id s).error = some e) : e.saved = [] := by
  have hmirrors := h.mirrors hentry
  rw [Mirrors, hwork] at hmirrors
  unfold Leaf.parse at he
  cases hrun : leaf.run s with
  | ok found =>
    rw [hrun] at he
    cases he
  | error e' =>
    rw [hrun] at he
    cases he
    have hsaved : e'.saved = [] := hg.leaf hmirrors.1 hrun
    exact hsaved

include hdescends

private theorem tidiness_keptBy (floor : Nat) : (reg.tidiness floor).KeptBy reg where
  exhausted _ := trivial
  missing _ _ := trivial
  entered hle _ hlt := (Nat.ne_of_lt (Nat.lt_of_lt_of_le hlt hle)).symm
  left hleave _ hlt := by
    have hbelow := Nat.lt_of_lt_of_le hlt hleave.1
    exact ⟨(Nat.ne_of_lt hbelow).symm, hleave.2.holdsNothingFor hbelow⟩
  leaf {_ _ s _ _} hle hentry hwork := by
    refine ⟨hle, trivial, trivial, fun e he => ⟨⟨{ s with pos := _ }, trivial, rfl⟩, ?_⟩⟩
    rw [h.saved_eq_nil_of_leaf hg hentry hwork he]
    exact fun _ hentry => nomatch hentry
  branch {depth _ s _ _} hle hentry hwork := by
    obtain ⟨hrule, -⟩ := h.isBuiltIn hg hentry hwork
    have hmeets := meets_tidiness hdescends hrule hentry hle hwork depth (.descend s) trivial
    exact hmeets.imp fun _ hr => ⟨hle, hr⟩

/-- Parsing keeps tidy, and spares the branches that come before. -/
theorem ensures_parse_tidy (depth id : Nat) (s : State) :
    (reg.parse depth id s).Ensures (fun e => ∀ branch < id, e.Spares branch) (fun _ => True)
      (reg.IsTidy id) := by
  have hkept := tidiness_keptBy hg h hdescends id
  have hparse := hkept.ensures_parse depth id s (Nat.le_refl id)
  exact hparse.imp fun _ _ hr => hr.2

/-- A branch that is resumed keeps tidy, and spares the branches that come before it, if what it is
    handed is tidy for its child and what was saved for it is its own. -/
theorem ensures_resume_tidy (depth : Nat) {id parent index : Nat} {r : Result}
    {saved : Option Saved} (hparent : reg.parent? id = some (parent, index)) (hr : reg.IsTidy id r)
    (hsaved : ∀ data, saved = some data → reg.Keepsakes parent data) :
    (reg.resume depth parent ⟨index, r, saved⟩).Ensures
      (fun e => ∀ branch < parent, e.Spares branch) (fun _ => True) (reg.IsTidy parent) := by
  have hlt : parent < id := (h.hangs hparent).1
  have hkept := tidiness_keptBy hg h hdescends parent
  apply hkept.ensures_resume
  · intro _
    exact trivial
  · intro _ _ branch hbranch
    exact ⟨(Nat.ne_of_lt hbranch).symm, hr.holdsNothingFor (Nat.lt_trans hbranch hlt)⟩
  · intro _ _ _ _
    exact trivial
  · intro entry rule hentry hwork
    obtain ⟨hrule, -⟩ := h.isBuiltIn hg hentry hwork
    have htidy : reg.IsTidy parent r := IsTidy.anti hr (Nat.le_of_lt hlt)
    have hown : ∀ data, saved = some data → parent ≤ parent ∧ reg.Keepsakes parent data :=
      fun data hdata => ⟨Nat.le_refl _, hsaved data hdata⟩
    exact meets_tidiness hdescends hrule hentry (Nat.le_refl _) hwork depth
      (.resume ⟨index, r, saved⟩) ⟨htidy, hown⟩
  · intro result hresult branch hbranch
    exact ⟨(Nat.ne_of_lt hbranch).symm, IsTidy.holdsNothingFor hresult hbranch⟩

end Prepared

end Registry

end Resync
