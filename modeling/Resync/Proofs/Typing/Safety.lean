import Resync.Proofs.Cursor.Checked
import Resync.Proofs.Recovery.Cursors
import Resync.Proofs.Typing.Combinators
import Resync.Proofs.Typing.Run

namespace Resync

/-- A rule that reads its children at given types is built-in. -/
theorem Rule.Reads.isBuiltIn {rule : Rule} {types : List Ty} (h : rule.Reads types) :
    rule.IsBuiltIn := by
  cases rule with
  | bespoke result script => exact h.elim
  | _ => exact trivial

/-- What moving forward keeps, typed occurrences keep, as their leaves are primitive. -/
theorem Registry.HasTypes.advances {reg : Registry} {types : List Ty} (h : reg.HasTypes types)
    {P : State → Prop} {input : Input} (hP : State.ClosedUnderMoves P input) : reg.Advances P where
  leaf hentry hwork := by
    obtain ⟨t, -, htyped⟩ := h.exists_work hentry
    rw [hwork] at htyped
    cases htyped with
    | leaf hleaf => exact hleaf.advances hP
  branch hentry hwork := by
    obtain ⟨t, -, htyped⟩ := h.exists_work hentry
    rw [hwork] at htyped
    cases htyped with
    | branch hreads => exact hreads.isBuiltIn

/-- A run of typed occurrences meets no defect, and gives an output of the type of the first one.
    Only a bound on the depth can stop it. -/
theorem Registry.HasTypes.ensures_execute {reg : Registry} {types : List Ty} {g : Graph} {t : Ty}
    (h : reg.HasTypes types) (hlaid : reg.LaidOut g) (hroot : types[0]? = some t)
    (depth maxErrors : Nat) (s : State) :
    (Session.execute ⟨reg, depth, maxErrors⟩ .empty s).Ensures (fun _ => True) (· = .outOfFuel)
      fun out => out.1.type = t := by
  have hempty : WasteCache.empty.entries = [] := rfl
  have hrun := Upkeep.ensures_execute (Upkeep.typing_keptBy h hlaid depth maxErrors)
    (fun _ _ _ => trivial) hempty (s := s) trivial
  apply hrun.imp
  intro out _ hout
  obtain ⟨⟨id, r, hid, ⟨u, hu, htyped⟩, houtput⟩, -⟩ := hout
  cases hid
  rw [hroot] at hu
  cases hu
  rw [houtput]
  exact htyped.type_eq

namespace Prepared

variable {t : Ty} {parser : Parser t} {prepared : Prepared t}

theorem exists_hasTypes (ht : parser.grammar.HasType [] t) (h : parser.prepare = .ok prepared) :
    ∃ g types, prepared.registry.LaidOut g ∧ prepared.registry.HasTypes types ∧
      types[0]? = some t := by
  unfold Parser.prepare at h
  obtain ⟨assembled, hassemble, h⟩ := Fault.bind_eq_ok_iff.1 h
  obtain ⟨reg, hreg, h⟩ := Fault.bind_eq_ok_iff.1 h
  cases h
  obtain ⟨types, htypes, hroot⟩ := ht.registry hassemble hreg
  exact ⟨assembled.graph, types, Registry.laidOut_ofGraph hreg, htypes, hroot⟩

/-- A parser of the right type that was prepared runs without a defect, at any depth and with any
    error budget, and its output has its type. All cursors of the run are reached by moves from the
    start of the input, and at none of them does an operation leave the input or overflow. -/
theorem runs_safely (ht : parser.grammar.HasType [] t) (hprepare : parser.prepare = .ok prepared)
    {input : Input} (hsize : input.size ≤ 2 ^ 32 - 2) (depth maxErrors : Nat) :
    let session : Session := ⟨prepared.registry, depth, maxErrors⟩
    let run := session.execute .empty (State.start input)
    (∀ d, run.result ≠ .error (.defect d)) ∧
      (∀ out, run.result = .ok out → ∃ value, out.1.as? t = some value) ∧
      (∀ event ∈ run.events, event.All (·.Reached input)) ∧
      (∀ s : State, s.Reached input → s.Checked) ∧
      ∀ d, prepared.run input ≠ .error (.defect d) := by
  obtain ⟨g, types, hlaid, htypes, hroot⟩ := exists_hasTypes ht hprepare
  have hexecute := htypes.ensures_execute hlaid hroot
  refine ⟨?_, ?_, ?_, ?_, ?_⟩
  · intro d hd
    cases (hexecute depth maxErrors _).fault _ hd
  · intro out hout
    exact Output.exists_as?_eq_some ((hexecute depth maxErrors _).value out hout).symm
  · exact Upkeep.reached_of_mem_events (htypes.advances (State.closedUnderMoves_reached input)) _ _
  · intro s hs
    apply hs.scanned.checked
    rw [hs.input_eq]
    exact hsize
  · intro d hd
    have htrace : (prepared.trace .empty input).Ensures (fun _ => True) (· = .outOfFuel)
        fun _ => True := by
      apply (hexecute _ _ _).bind
      intro out _ hout
      obtain ⟨value, hvalue⟩ := Output.exists_as?_eq_some hout.symm
      dsimp only
      rw [hvalue]
      exact Traced.ensures_pure trivial
    cases htrace.fault _ hd

/-- Letters and lists of items in brackets, with an item as its own part. -/
def items : Parser .data :=
  .sharing "close" (.safe (.char ']')) <|
    .recursive "item" <|
      .first [
        .map (.deferred (.satisfy "letter" Char.isAlpha)) .data (Ty.toData .char),
        .map (.delimited (.safe (.char '[')) (.many (.named .data "item")) (.named .char "close"))
          .data (Ty.toData (.list .data))]

theorem items_hasType : items.grammar.HasType [] .data := by
  have hclose : (Parser.safe (.char ']')).grammar.HasType [] .char :=
    .safe (.leaf (.char ']'))
  refine .sharing hclose (.recursive (Parser.hasType_first fun alternative halternative => ?_))
  simp only [List.mem_cons, List.not_mem_nil, or_false] at halternative
  obtain rfl | rfl := halternative
  · exact Parser.hasType_map (.deferred (.leaf (.satisfy "letter" Char.isAlpha))) _
  · refine Parser.hasType_map (Parser.hasType_delimited ?_ ?_ ?_) _
    · exact .safe (.leaf (.char '['))
    · exact Parser.hasType_many (.named rfl)
    · exact .named rfl

def itemsPrepared : Prepared .data :=
  items.prepare.toOption.get rfl

theorem runs_safely_items :
    let input := Input.text "[x[,y]"
    let run := (Session.mk itemsPrepared.registry 20 10).execute .empty (State.start input)
    run.result.isOk = true ∧ (∀ d, run.result ≠ .error (.defect d)) ∧
      (∀ out, run.result = .ok out → ∃ value, out.1.as? .data = some value) ∧
      (∀ event ∈ run.events, event.All (·.Reached input)) ∧
      (∀ s : State, s.Reached input → s.Checked) ∧
      ∀ d, itemsPrepared.run input ≠ .error (.defect d) :=
  ⟨rfl, runs_safely items_hasType rfl (by decide) 20 10⟩

end Prepared

end Resync
