import Resync.Proofs.Engine.Depth
import Resync.Proofs.Leaf.Cursors

namespace Resync.Registry

/-- Leaves that keep a property of cursors, under built-in rules. -/
structure Advances (reg : Registry) (P : State → Prop) : Prop where
  leaf : ∀ {id : Nat} {entry : Entry} {leaf : Leaf}, reg.entries[id]? = some entry →
    entry.work = .leaf leaf → leaf.Advances P
  branch : ∀ {id : Nat} {entry : Entry} {rule : Rule}, reg.entries[id]? = some entry →
    entry.work = .branch rule → rule.IsBuiltIn

/-- The children of every occurrence come after it, as they do where no parser lies below itself. -/
def Descends (reg : Registry) : Prop :=
  ∀ (id : Nat) (entry : Entry), reg.entries[id]? = some entry → ∀ child ∈ entry.children, id < child

instance (reg : Registry) : Decidable reg.Descends :=
  decidable_of_iff
    (∀ numbered ∈ reg.entries.zipIdx, ∀ child ∈ numbered.1.children, numbered.2 < child)
    ⟨fun h id entry hentry => h (entry, id) (List.mem_zipIdx_iff_getElem?.2 hentry),
      fun h numbered hmem => h numbered.2 numbered.1 (List.mem_zipIdx_iff_getElem?.1 hmem)⟩

/-- A grammar whose parsers, run or resumed at boundaries of an input, lead to boundaries: of all
    outcomes the cursors, the places of errors and the starts that are saved in them. -/
structure KeepsBoundaries (reg : Registry) (input : Input) : Prop where
  parse : ∀ {depth id s r}, s.SitsOn input → (reg.parse depth id s).result = .ok r →
    r.All (·.SitsOn input)
  resume : ∀ {depth id resumption r}, resumption.All (·.SitsOn input) →
    (reg.resume depth id resumption).result = .ok r → r.All (·.SitsOn input)

/-- A grammar whose parsers, run or resumed at boundaries of an input, come to an end at some
    depth. -/
structure EndsOn (reg : Registry) (input : Input) : Prop where
  parse : ∀ id {s : State}, s.SitsOn input → ∃ depth, (reg.parse depth id s).Ended
  resume : ∀ id {r : Resumption}, r.All (·.SitsOn input) → ∃ depth, (reg.resume depth id r).Ended

/-- Cursors have a property, parsing does not move them back, and every entry has room. -/
def course (P : State → Prop) (room : Nat → Nat → Prop) (fault : Fault → Prop) : Contract where
  enter depth id s := P s ∧ room depth id
  leave _ s r := r.All P ∧ s.pos ≤ r.stop.pos
  event := Event.All P
  fault := fault

variable {reg : Registry} {P : State → Prop} {input : Input} {room : Nat → Nat → Prop}
  {fault : Fault → Prop}

private theorem follow_course (hP : State.ClosedUnderMoves P input)
    (hdefect : ∀ d, fault (.defect d)) {depth : Nat} {entry : Entry}
    (hroom : ∀ (index child : Nat), entry.children[index]? = some child → room depth child) :
    ((course P room fault).terms depth entry).Follow P (fun _ data => data.All P)
      fun s t => s.pos ≤ t.pos where
  trail := ⟨fun hs => ⟨_, hs, (Nat.min_eq_left (hP.pos_le_size hs)).symm⟩, fun _ => Nat.le_refl _,
    Nat.le_trans⟩
  ask index s hs :=
    Contract.terms_ask (fun child hchild => ⟨hs, hroom index child hchild⟩) fun _ => hdefect _
  answer hanswer := by
    obtain ⟨_, _, hleave⟩ := hanswer
    exact hleave
  defect := hdefect
  exhausted := by
    refine .inr fun hs ht hle hne => ?_
    have hsize := hP.pos_le_size ht
    rw [hP.input_eq ht] at hsize
    rw [State.remaining, State.remaining, hP.input_eq hs, hP.input_eq ht]
    omega

private theorem course_keptBy (hreg : reg.Advances P) (hP : State.ClosedUnderMoves P input)
    (hdefect : ∀ d, fault (.defect d)) (hzero : ∀ id, room 0 id → fault .outOfFuel)
    (hroom : ∀ {depth id : Nat} {entry : Entry}, room (depth + 1) id →
      reg.entries[id]? = some entry → ∀ (index child : Nat), entry.children[index]? = some child →
        room depth child) :
    (course P room fault).KeptBy reg where
  exhausted henter := hzero _ henter.2
  missing _ _ := hdefect _
  entered henter := henter.1
  left hleave := hleave.1
  leaf henter hentry hwork := (hreg.leaf hentry hwork).parse hP _ henter.1
  branch {_ id s entry _} henter hentry hwork := by
    have hfollow := follow_course hP hdefect (hroom henter.2 hentry)
    have hmeets := Rule.meets_script_all hfollow (hreg.branch hentry hwork) (reg.view id entry)
      (.descend s) henter.1
    exact hmeets.imp fun _ hr => ⟨hr.1.claim _, hr.2⟩

private theorem ensures_resume_course (hreg : reg.Advances P)
    (hP : State.ClosedUnderMoves P input) (hdefect : ∀ d, fault (.defect d))
    (hkept : (course P room fault).KeptBy reg) (depth id : Nat) {r : Resumption} (hr : r.All P)
    (hroom : ∀ entry, reg.entries[id]? = some entry →
      ∀ (index child : Nat), entry.children[index]? = some child → room depth child) :
    (reg.resume depth id r).Ensures (Event.All P) fault fun result => result.All P := by
  apply hkept.ensures_resume
  · intro _
    exact hdefect _
  · intro _ _
    exact hr
  · intro _ _ _ _
    exact hdefect _
  · intro entry rule hentry hwork
    have hfollow := follow_course hP hdefect (hroom entry hentry)
    have hmeets := Rule.meets_script_all hfollow (hreg.branch hentry hwork) (reg.view id entry)
      (.resume r) ⟨hr.child, hr.saved⟩
    exact hmeets.imp fun _ hresult => hresult.1.claim id
  · intro _ hresult
    exact hresult

section Keeping

variable (hreg : reg.Advances P) (hP : State.ClosedUnderMoves P input)
include hreg hP

private theorem keeping : (course P (fun _ _ => True) fun _ => True).KeptBy reg :=
  course_keptBy hreg hP (fun _ => trivial) (fun _ _ => trivial) fun _ _ _ _ _ => trivial

/-- Parsing keeps what leaves keep, and does not move back. All cursors of the outcome and of its
    error have the property. -/
theorem Advances.ensures_parse (depth id : Nat) {s : State} (hs : P s) :
    (reg.parse depth id s).Ensures (Event.All P) (fun _ => True)
      fun r => r.All P ∧ s.pos ≤ r.stop.pos :=
  (keeping hreg hP).ensures_parse depth id s ⟨hs, trivial⟩

/-- Going on after a child keeps what leaves keep, if the outcome of the child and what is saved
    have it. -/
theorem Advances.ensures_resume (depth id : Nat) {r : Resumption} (hr : r.All P) :
    (reg.resume depth id r).Ensures (Event.All P) (fun _ => True) fun result => result.All P :=
  ensures_resume_course hreg hP (fun _ => trivial) (keeping hreg hP) depth id hr
    fun _ _ _ _ _ => trivial

omit hreg hP in
/-- Leaves that lead from boundaries to boundaries make a grammar of that kind. -/
theorem Advances.keepsBoundaries {reg : Registry} {input : Input}
    (hreg : reg.Advances (·.SitsOn input)) : reg.KeepsBoundaries input where
  parse {depth id _ r} hs hr :=
    ((hreg.ensures_parse (State.closedUnderMoves_sitsOn input) depth id hs).value r hr).1
  resume {depth id _ r} hresumption hr :=
    (hreg.ensures_resume (State.closedUnderMoves_sitsOn input) depth id hresumption).value r hr

end Keeping

section Ending

variable (hreg : reg.Advances P) (hP : State.ClosedUnderMoves P input) (hdescends : reg.Descends)
include hreg hP hdescends

omit hreg hP in
/-- A child comes after its branch, so there is room for it with one level of depth less. -/
private theorem room_child {depth id : Nat} {entry : Entry} (hroom : reg.size - id < depth + 1)
    (hentry : reg.entries[id]? = some entry) (index child : Nat)
    (hchild : entry.children[index]? = some child) : reg.size - child < depth := by
  have hlt := hdescends id entry hentry child (List.mem_of_getElem? hchild)
  have hid : id < reg.size := (List.getElem?_eq_some_iff.1 hentry).1
  omega

private theorem ending :
    (course P (fun depth id => reg.size - id < depth) (· ≠ .outOfFuel)).KeptBy reg := by
  apply course_keptBy hreg hP
  · intro d hfuel
    cases hfuel
  · intro id hroom
    exact absurd hroom (Nat.not_lt_zero _)
  · intro depth id entry hroom hentry
    exact room_child hdescends hroom hentry

/-- Where no parser lies below itself, a depth beyond the number of parsers is enough, since each
    level goes to a later parser. -/
theorem Advances.ended_parse {depth id : Nat} {s : State} (hs : P s) (hdepth : reg.size < depth) :
    (reg.parse depth id s).Ended := by
  have hensures := (ending hreg hP hdescends).ensures_parse depth id s ⟨hs, by omega⟩
  exact fun hfuel => hensures.fault _ hfuel rfl

/-- Where no parser lies below itself, a branch that is resumed ends too. -/
theorem Advances.ended_resume {depth id : Nat} {r : Resumption} (hr : r.All P)
    (hdepth : reg.size < depth) : (reg.resume depth id r).Ended := by
  have hensures := ensures_resume_course hreg hP (fun _ hfuel => nomatch hfuel)
    (ending hreg hP hdescends) depth id hr
    fun entry hentry index child hchild =>
      room_child hdescends (by omega) hentry index child hchild
  exact fun hfuel => hensures.fault _ hfuel rfl

omit hreg hP hdescends in
/-- Leaves that move forward, without recursion, make a grammar that ends on every input. -/
theorem Advances.endsOn {reg : Registry} {input : Input} (hreg : reg.Advances (·.SitsOn input))
    (hdescends : reg.Descends) : reg.EndsOn input where
  parse _ _ hs := ⟨reg.size + 1,
    hreg.ended_parse (State.closedUnderMoves_sitsOn input) hdescends hs (Nat.lt_succ_self _)⟩
  resume _ _ hr := ⟨reg.size + 1,
    hreg.ended_resume (State.closedUnderMoves_sitsOn input) hdescends hr (Nat.lt_succ_self _)⟩

end Ending

end Resync.Registry
