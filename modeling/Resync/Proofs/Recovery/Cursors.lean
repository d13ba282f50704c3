import Resync.Proofs.Engine.Course
import Resync.Proofs.Recovery.Rounds

namespace Resync.Upkeep

/-- What a run keeps up whose cursors are all reached from the start of its input. -/
def cursors (input : Input) : Upkeep where
  outcome _ r := r.All (·.Reached input)
  saved _ data := data.All (·.Reached input)
  error e := e.All (·.Reached input)
  cursor s := s.Reached input
  summit _ := True
  event := Event.All (·.Reached input)
  fault _ := True

variable {reg : Registry} {input : Input}

/-- Recovery makes no cursor of its own: it moves those of outcomes, to the place of an error and
    from there by units. So all cursors of a run have been reached from the start of its input, if
    those of single parses have. -/
theorem cursors_keptBy (h : reg.Advances (·.Reached input)) (depth maxErrors : Nat) :
    (cursors input).KeptBy ⟨reg, depth, maxErrors⟩ where
  exhausted := trivial
  run {id _} _ hs :=
    (h.ensures_parse (State.closedUnderMoves_reached input) depth id hs).imp fun _ _ hr => hr.1
  resume {_ parent index r saved} _ hr hsaved := by
    have hall : (Resumption.mk index r saved).All (·.Reached input) := ⟨hr, hsaved⟩
    exact h.ensures_resume (State.closedUnderMoves_reached input) depth parent hall
  root := trivial
  summit _ := trivial
  moved count hs := hs.moveByUnits count
  search {_ r e} hr _ := by
    unfold Session.searchFrom
    split
    · exact hr.stop
    · exact hr.stop.movedTo e.position
  reports hr he := ⟨(hr.error _ he).withoutSaved, (hr.error _ he).saved⟩
  stripped {_ r e} hr he := by
    refine ⟨hr.start, hr.stop, ?_⟩
    intro e' he'
    cases he'
    exact (hr.error e he).withoutSaved
  violation {s} id label _ hs := by
    have herror : (s.semanticError (Session.brokenPromise label)).All (·.Reached input) :=
      State.all_errorHere hs hs.scanned.pos_le .semantic _
    exact herror.claim id
  reported he := he
  estimated _ _ _ _ hs := ⟨_, hs, rfl⟩
  gaveUp hs := ⟨_, hs, rfl⟩

/-- The cursors of all events of a run are reached from the start of its input. -/
theorem reached_of_mem_events (h : reg.Advances (·.Reached input)) (depth maxErrors : Nat) :
    ∀ event ∈ (Session.execute ⟨reg, depth, maxErrors⟩ .empty (State.start input)).events,
      event.All (·.Reached input) := by
  have hstart : (State.start input).Reached input := .start
  exact (ensures_execute (cursors_keptBy h depth maxErrors) (fun _ _ hs => ⟨_, hs, rfl⟩) rfl
    hstart).event

end Resync.Upkeep
