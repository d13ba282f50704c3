import Resync.Proofs.Cursor.Reader
import Resync.Proofs.Engine.Errors
import Resync.Proofs.Recovery.Listing

namespace Resync

/-- Sorting leaves no error out and adds none. -/
theorem sortErrors_perm (errors : List ParseError) : (sortErrors errors).Perm errors :=
  List.mergeSort_perm _ _

private theorem position_le_trans (e f g : ParseError) (hef : decide (e.position ≤ f.position) = true)
    (hfg : decide (f.position ≤ g.position) = true) : decide (e.position ≤ g.position) = true :=
  decide_eq_true (Nat.le_trans (of_decide_eq_true hef) (of_decide_eq_true hfg))

private theorem position_le_total (e f : ParseError) :
    (decide (e.position ≤ f.position) || decide (f.position ≤ e.position)) = true := by
  simpa using Nat.le_total e.position f.position

/-- Errors are in the order of their positions once they are sorted. -/
theorem pairwise_sortErrors (errors : List ParseError) :
    (sortErrors errors).Pairwise fun e f => e.position ≤ f.position :=
  (List.pairwise_mergeSort position_le_trans position_le_total errors).imp of_decide_eq_true

/-- Errors at one position stay in the order in which they were found, since sorting is stable. -/
theorem filter_sortErrors (errors : List ParseError) (pos : Nat) :
    (sortErrors errors).filter (·.position = pos) = errors.filter (·.position = pos) := by
  have hlevel : (errors.filter (·.position = pos)).Pairwise
      fun e f => decide (e.position ≤ f.position) = true := by
    refine List.pairwise_of_forall_mem_list fun e he f hf => ?_
    have hpos : e.position = pos ∧ f.position = pos := by
      simpa using And.intro (List.mem_filter.1 he).2 (List.mem_filter.1 hf).2
    exact decide_eq_true (by omega)
  have hsublist := (List.sublist_mergeSort position_le_trans position_le_total hlevel
    List.filter_sublist).filter (·.position = pos)
  rw [List.filter_filter] at hsublist
  simp only [Bool.and_self] at hsublist
  exact (hsublist.eq_of_length ((sortErrors_perm errors).filter _).length_eq.symm).symm

namespace Upkeep

/-- What a run keeps up whose errors are in order. -/
def errors (reg : Registry) (input : Input) : Upkeep where
  outcome _ r := r.Sound (·.Reached input) (· < reg.size) ∧ r.IsClaimed
  saved _ data := data.All (·.Reached input)
  error e := e.RaisedAt (·.Reached input) ∧ (∃ id, e.owner = some id ∧ id < reg.size) ∧ e.saved = []
  cursor s := s.Reached input
  summit _ := True
  event _ := True
  fault _ := True

/-- Every error of a run was raised at a cursor that was reached, is owned by an occurrence, and
    carries nothing any more. Recoverers play no part in it: an anchor that fails is itself the
    owner of an error. -/
theorem errors_keptBy {reg : Registry} (h : reg.IsStandard) (input : Input)
    (depth maxErrors : Nat) : (errors reg input).KeptBy ⟨reg, depth, maxErrors⟩ where
  exhausted := trivial
  run _ hs := ⟨fun _ _ => trivial, fun _ _ => trivial,
    fun _ hr => h.sound_parse (State.closedUnderMoves_reached input) hs hr⟩
  resume _ hchild hsaved := ⟨fun _ _ => trivial, fun _ _ => trivial,
    fun _ hr => h.sound_resume (State.closedUnderMoves_reached input) hchild.1 hsaved hr⟩
  root := trivial
  summit _ := trivial
  moved count hs := hs.moveByUnits count
  search {_ r e} hr _ := by
    unfold Session.searchFrom
    split
    · exact hr.1.stop
    · exact hr.1.stop.movedTo e.position
  reports {_ _ e} hr he := by
    have hsound := hr.1.error e he
    obtain ⟨owner, howner⟩ := Option.isSome_iff_exists.1 (hr.2 e he)
    exact ⟨⟨hsound.raised, ⟨owner, howner, hsound.owner owner howner⟩, rfl⟩, hsound.saved⟩
  stripped {_ _ e} hr he := by
    have hsound := hr.1.error e he
    refine ⟨⟨hr.1.start, hr.1.stop, fun e' he' => ?_⟩, fun e' he' => ?_⟩
    · cases he'
      exact ⟨hsound.raised, hsound.owner, fun _ hentry => nomatch hentry⟩
    · cases he'
      exact hr.2 e he
  violation {s} id label hrecoverer hs := by
    obtain ⟨recoverer, hrecoverer⟩ := Option.isSome_iff_exists.1 hrecoverer
    obtain ⟨entry, leaf, hentry, -⟩ := Registry.exists_leaf_of_recoverer? hrecoverer
    exact ⟨⟨s, hs, rfl, rfl⟩, ⟨id, rfl, (List.getElem?_eq_some_iff.1 hentry).1⟩, rfl⟩
  reported _ := trivial
  estimated _ _ _ _ _ := trivial
  gaveUp _ := trivial

end Upkeep

/-- An error that was raised at a cursor is where a reader of the whole input finds it, though the
    cursor has counted lines only along its own moves. -/
theorem ParseError.RaisedAt.location_eq_scan {e : ParseError} {input : Input}
    (h : e.RaisedAt (·.Reached input)) :
    e.position ≤ input.size ∧ e.location = input.scan e.position ∧
      e.location.line ≤ input.size + 1 ∧ e.location.column ≤ input.size + 1 := by
  obtain ⟨s, hs, hposition, hlocation⟩ := h
  obtain rfl := hs.input_eq
  have hscanned := hs.scanned
  rw [Nat.min_eq_left hscanned.pos_le] at hposition
  rw [hlocation, hposition]
  exact ⟨hscanned.pos_le, hscanned.locate_eq_scan, hscanned.locate_le⟩

/-- No two errors of a list are the same mismatch, in whatever order they are. The relation is
    symmetric, so sorting keeps it. -/
theorem pairwise_of_perm_listing {errors : List ParseError} {events : List Event}
    (h : errors.Perm (listing [] events)) :
    errors.Pairwise fun e f => ¬ (e.position = f.position ∧ e.message = f.message) := by
  have hdistinct : (listing [] events).Pairwise
      fun e f => ¬ (e.position = f.position ∧ e.message = f.message) :=
    (pairwise_listing .nil events).imp fun hdiffer hsame => by
      simp [ParseError.sameMismatch, hsame.1, hsame.2] at hdiffer
  exact (h.pairwise_iff fun hdiffer hsame => hdiffer ⟨hsame.1.symm, hsame.2.symm⟩).2 hdistinct

namespace Session

/-- The errors of a run over built-in branches and primitive leaves, whatever their recoverers
    propose. There are some if the descent has failed. They are in the order of their positions, those
    at one position in the order in which they were found, and no mismatch is among them twice. Each is
    owned by an occurrence, carries nothing, and is where a reader of the whole input finds it. -/
theorem errors_in_order {g : Graph} (hg : g.IsStandard) {reg : Registry}
    (hreg : Registry.ofGraph g = .ok reg) {input : Input} (hsize : input.size ≤ 2 ^ 32 - 2)
    (depth maxErrors : Nat) {output : Output} {errors : List ParseError}
    (hrun : (execute ⟨reg, depth, maxErrors⟩ .empty (State.start input)).result =
      .ok (output, errors)) :
    let session : Session := ⟨reg, depth, maxErrors⟩
    let run := session.execute .empty (State.start input)
    (∃ root, (session.run 0 (State.start input)).result = .ok root ∧
        (errors ≠ [] ↔ root.error.isSome)) ∧
      errors.Pairwise (fun e f => e.position ≤ f.position) ∧
      errors.Perm run.listed ∧
      (∀ pos, errors.filter (·.position = pos) = run.listed.filter (·.position = pos)) ∧
      errors.Pairwise (fun e f => ¬ (e.position = f.position ∧ e.message = f.message)) ∧
      ∀ e ∈ errors, e.position ≤ input.size ∧ (∃ id, e.owner = some id ∧ id < reg.size) ∧
        e.saved = [] ∧ e.location = input.scan e.position ∧
        e.location.line < 2 ^ 32 ∧ e.location.column < 2 ^ 32 := by
  intro session run
  have herrors : errors = sortErrors run.listed := by
    obtain ⟨summit, -, hlisted, hout⟩ := execute_eq_ok hrun
    cases hout
    exact congrArg sortErrors hlisted.symm
  have hperm : errors.Perm run.listed := herrors ▸ sortErrors_perm _
  refine ⟨?_, herrors ▸ pairwise_sortErrors _, hperm, fun pos => herrors ▸ filter_sortErrors _ pos,
    pairwise_of_perm_listing hperm, fun e he => ?_⟩
  · obtain ⟨root, hroot, -⟩ := Traced.result_bind_eq_ok_iff.1 hrun
    refine ⟨root, hroot, ?_⟩
    rw [← listed_ne_nil_iff hroot, Ne, Ne, ← List.length_eq_zero_iff, ← List.length_eq_zero_iff,
      hperm.length_eq]
  · have hstart : (State.start input).Reached input := .start
    have hkept := Upkeep.errors_keptBy ((Registry.laidOut_ofGraph hreg).isStandard hg) input depth
      maxErrors
    have hempty : WasteCache.empty.entries = [] := rfl
    have hensures := Upkeep.ensures_execute hkept (fun _ _ _ => trivial) hempty hstart
    obtain ⟨hraised, howner, hsaved⟩ := (hensures.value _ hrun).2 e he
    obtain ⟨hposition, hlocation, hline, hcolumn⟩ := hraised.location_eq_scan
    exact ⟨hposition, howner, hsaved, hlocation, by omega, by omega⟩

/-- A pair of scalars. The recoverer of the second one skips two units, whatever they are. -/
def misled : Graph where
  nodes :=
    [.leaf (Primitive.char 'a').leaf,
      .leaf { (Primitive.char 'z').leaf with
        recoverer := some (.fast fun _ => .units 2), safeSpot := true },
      .branch "map2" (.combine [(0, .char), (1, .char)] .text fun (a, b, ()) =>
        String.ofList [a, b]) [0, 1]]
  root := 2

/-- The leaves are primitive up to their recoverers, which the errors do not depend on. -/
theorem misled_isStandard : misled.IsStandard where
  leaf {place leaf} hnode := by
    match place, hnode with
    | 0, hnode => cases hnode; exact ⟨.char 'a', _, _, rfl⟩
    | 1, hnode => cases hnode; exact ⟨.char 'z', _, _, rfl⟩
    | 2, hnode => cases hnode
  branch {place label rule children} hnode := by
    match place, hnode with
    | 0, hnode => cases hnode
    | 1, hnode => cases hnode
    | 2, hnode => cases hnode; exact trivial

def misledRegistry : Registry :=
  (Registry.ofGraph misled).toOption.get rfl

/-- Behind the first scalar something else stands, and the recoverer sends the second one to the next
    line, where it fails too. -/
theorem errors_in_order_misled :
    let input := Input.text "ay\nxz"
    let run := execute ⟨misledRegistry, 2, 10⟩ .empty (State.start input)
    Registry.ofGraph misled = .ok misledRegistry ∧ input.size ≤ 2 ^ 32 - 2 ∧
      run.listed.length = 2 ∧
      ∃ output errors, run.result = .ok (output, errors) ∧ errors.Perm run.listed ∧
        errors.Pairwise (fun e f => e.position ≤ f.position) ∧
        ∀ e ∈ errors, e.saved = [] ∧ e.location = input.scan e.position := by
  intro input run
  have hreg : Registry.ofGraph misled = .ok misledRegistry := rfl
  have hrun : run.result.isOk = true ∧ run.listed.length = 2 := by decide +kernel
  have hsize : input.size ≤ 2 ^ 32 - 2 := by decide +kernel
  obtain ⟨-, hsorted, hperm, -, -, hall⟩ :=
    errors_in_order misled_isStandard hreg hsize 2 10 (Traced.result_eq_value hrun.1)
  exact ⟨hreg, hsize, hrun.2, _, _, Traced.result_eq_value hrun.1, hperm, hsorted,
    fun e he => ⟨(hall e he).2.2.1, (hall e he).2.2.2.1⟩⟩

end Session

end Resync
