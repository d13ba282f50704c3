import Resync.Proofs.Recovery.Reach
import Resync.Proofs.Traced.Extends

namespace Resync.Session

variable (session : Session) (start : State)

/-- The events of each round are good, and it leads from a summit where the statement holds to the
    next one, or to the end of the run. -/
structure Watches (good : List Event → Event → Prop) (settled ends : List Event → Summit → Prop) :
    Prop where
  done : ∀ {history summit}, settled history summit → summit.result.error = none →
    ends history summit
  report : ∀ {history summit e}, settled history summit → summit.result.error = some e →
    good history (.reported e.withoutSaved)
  round : ∀ {history summit e}, settled history summit → summit.result.error = some e →
    (session.seek start summit e).Extends (history ++ [.reported e.withoutSaved]) good
      fun later found =>
        match found with
        | (some (anchor, leaf), p) =>
          (session.climb false ⟨anchor, leaf, p⟩).Extends later good
            fun last next => settled last (session.settle next)
        | (none, p) =>
          (session.giveUp (searchFrom summit.result e)
            ⟨summit.id, { summit.result with error := some e.withoutSaved }, p⟩).Extends later good
            ends

variable {session start} {good : List Event → Event → Prop}
  {settled ends : List Event → Summit → Prop} {history : List Event}

/-- What is settled at a summit leads to what ends a run, through all rounds that are left. The
    induction is on the limit, and a step of it is one round: report, search, climb. -/
theorem Watches.extends_rounds (h : session.Watches start good settled ends) (limit : Nat)
    {summit : Summit} (hsummit : settled history summit) :
    (session.rounds (session.attemptBound start.input) limit summit).Extends history good ends := by
  induction limit generalizing history summit with
  | zero => exact Traced.extends_fault
  | succ limit ih =>
    cases herror : summit.result.error with
    | none =>
      have hdone : session.rounds (session.attemptBound start.input) (limit + 1) summit =
          pure summit := by rw [rounds, herror]
      rw [hdone]
      exact Traced.extends_pure (h.done hsummit herror)
    | some e =>
      rw [rounds_of_error herror]
      refine (Traced.extends_emit (h.report hsummit herror)).bind fun _ _ _ hreported => ?_
      cases hreported
      refine (h.round hsummit herror).bind fun later found _ hfound => ?_
      obtain ⟨_ | ⟨anchor, leaf⟩, p⟩ := found
      · exact hfound
      · exact Traced.Extends.bind hfound fun _ _ _ hnext => ih hnext

/-- What is watched over from the descent on is true of all events of a run, and its last summit is
    one that may end it. -/
theorem Watches.extends_execute (h : session.Watches start good settled ends) {cache : WasteCache}
    (hdescent : (session.run 0 start).Extends [] good fun later result =>
      settled later ⟨0, result, .initial cache⟩) :
    (session.execute cache start).Extends [] good fun later out =>
      ∃ summit, ends later summit ∧
        out = (summit.result.output, sortErrors summit.progress.errors) := by
  refine hdescent.bind fun _ _ _ hresult =>
    (h.extends_rounds _ hresult).bind fun _ _ _ hsummit => ?_
  exact Traced.extends_pure ⟨_, hsummit, rfl⟩

end Resync.Session
