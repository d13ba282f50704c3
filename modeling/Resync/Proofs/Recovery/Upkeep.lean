import Resync.Recovery.Rounds
import Resync.Proofs.Cursor.Scan
import Resync.Proofs.Recovery.Cache
import Resync.Proofs.Recovery.Progress
import Resync.Proofs.Registry.Anchors
import Resync.Proofs.Registry.Ways
import Resync.Proofs.Traced.Ensures

namespace Resync

theorem Bid.improve_eq_some {best : Option Bid} {anchor : Nat} {waste : Option Nat} {bid : Bid}
    (h : Bid.improve best anchor waste = some bid) :
    best = some bid ∨ ∃ count, waste = some count ∧ bid = (anchor, count) := by
  cases waste with
  | none => exact .inl h
  | some count =>
    cases best with
    | none =>
      cases h
      exact .inr ⟨count, rfl, rfl⟩
    | some best =>
      rw [improve] at h
      split at h
      · cases h
        exact .inr ⟨count, rfl, rfl⟩
      · exact .inl h

/-- What moves by one unit keep is true of all states ahead. -/
theorem State.forall_mem_ahead {P : State → Prop} {here : State} (hhere : P here)
    (hmove : ∀ {s}, P s → P (s.moveByUnits 1)) : ∀ s ∈ here.ahead, P s := by
  have hsteps (limit : Nat) {here : State} (hhere : P here) :
      ∀ s ∈ State.stepsAhead limit here, P s := by
    induction limit generalizing here with
    | zero => exact fun s hs => nomatch hs
    | succ limit ih =>
      unfold stepsAhead
      split
      · exact fun s hs => List.mem_singleton.1 hs ▸ hhere
      · intro s hs
        obtain rfl | hs := List.mem_cons.1 hs
        · exact hhere
        · exact ih (hmove hhere) s hs
  exact hsteps _ hhere

/-- What is kept up in a run. -/
structure Upkeep where
  outcome : Nat → Result → Prop
  saved : Nat → Saved → Prop
  error : ParseError → Prop
  /-- The cursors from which anchors are looked for. -/
  cursor : State → Prop
  /-- Where a climb may end that was not stopped. -/
  summit : Nat → Prop
  event : Event → Prop
  fault : Fault → Prop

namespace Upkeep

/-- What is known in a run is kept up. -/
structure Keeps (u : Upkeep) (p : Progress) : Prop where
  cached : ∀ entry ∈ p.cache.entries, ∀ offset, entry.answer = .anchor offset →
    ∃ s, u.cursor s ∧ s.pos = offset
  errors : ∀ e ∈ p.errors, u.error e
  salvage : ∀ entry ∈ p.salvage, u.saved entry.1 entry.2

/-- A cursor can stand at an offset that is not behind the place that was asked about. -/
structure Ahead (u : Upkeep) (here : State) (offset : Nat) : Prop where
  cursor : ∃ s, u.cursor s ∧ s.pos = offset
  le : here.pos ≤ here.input.size → here.pos ≤ offset

/-- A waste counts the units up to an offset ahead where the anchor was not tried. -/
def Counts (u : Upkeep) (tried : List (Nat × Nat)) (here : State) (id waste : Nat) : Prop :=
  ∃ offset, u.Ahead here offset ∧ (id, offset) ∉ tried ∧
    waste = here.unitsTo (here.movedTo offset)

/-- A session whose parses and resumptions keep up what is to be kept up. -/
structure KeptBy (u : Upkeep) (session : Session) : Prop where
  exhausted : u.fault .outOfFuel
  run : ∀ {id s}, id = 0 ∨ (session.registry.recoverer? id).isSome → u.cursor s →
    (session.run id s).Ensures u.event u.fault (u.outcome id)
  resume : ∀ {id parent index r saved}, session.registry.parent? id = some (parent, index) →
    u.outcome id r → (∀ data, saved = some data → u.saved parent data) →
    (session.registry.resume session.depth parent ⟨index, r, saved⟩).Ensures u.event u.fault
      (u.outcome parent)
  root : u.summit 0
  summit : ∀ {id r}, u.outcome id r →
    u.summit (Registry.wayEnd id (session.registry.ancestors id))
  moved : ∀ {s} count, u.cursor s → u.cursor (s.moveByUnits count)
  search : ∀ {id r e}, u.outcome id r → r.error = some e → u.cursor (Session.searchFrom r e)
  reports : ∀ {id r e}, u.outcome id r → r.error = some e →
    u.error e.withoutSaved ∧ ∀ entry ∈ e.saved, u.saved entry.1 entry.2
  stripped : ∀ {id r e}, u.outcome id r → r.error = some e →
    u.outcome id { r with error := some e.withoutSaved }
  violation : ∀ {s} id label, (session.registry.recoverer? id).isSome → u.cursor s →
    u.error ((s.semanticError (Session.brokenPromise label)).claim id)
  reported : ∀ {e}, u.error e → u.event (.reported e)
  estimated : ∀ {s} id label waste cached, u.cursor s →
    u.event (.estimated id label s.pos waste cached)
  gaveUp : ∀ {s}, u.cursor s → u.event (.gaveUp s.pos)

/-- A session that keeps up what is to be kept up while anchors are asked. -/
structure KeptByAsking (u : Upkeep) (session : Session) : Prop where
  run : ∀ {id s}, (session.registry.recoverer? id).isSome → u.cursor s →
    (session.run id s).Ensures u.event u.fault (u.outcome id)
  moved : ∀ {s} count, u.cursor s → u.cursor (s.moveByUnits count)
  estimated : ∀ {s} id label waste cached, u.cursor s →
    u.event (.estimated id label s.pos waste cached)

/-- A session that keeps up what is to be kept up while anchors are asked and resumed. -/
structure KeptByAnchors (u : Upkeep) (session : Session) : Prop extends u.KeptByAsking session where
  exhausted : u.fault .outOfFuel
  violation : ∀ {s} id label, (session.registry.recoverer? id).isSome → u.cursor s →
    u.error ((s.semanticError (Session.brokenPromise label)).claim id)
  reported : ∀ {e}, u.error e → u.event (.reported e)

variable {u : Upkeep} {session : Session} {p p' : Progress} {here : State} {id : Nat}

/-- What parses and resumptions keep up, anchors do, as they are parses. -/
theorem KeptBy.anchors (h : u.KeptBy session) : u.KeptByAnchors session where
  exhausted := h.exhausted
  run hid := h.run (.inr hid)
  moved := h.moved
  violation := h.violation
  reported := h.reported
  estimated := h.estimated

/-- At the beginning nothing is known, so it is kept up, if no answers are remembered. -/
theorem keeps_initial {cache : WasteCache} (h : cache.entries = []) :
    u.Keeps (.initial cache) where
  cached entry hentry := by
    rw [Progress.initial, h] at hentry
    cases hentry
  errors _ he := nomatch he
  salvage _ hentry := nomatch hentry

/-- What is known does not depend on which events are kept to. So events can be weakened in the
    middle of a run. -/
theorem Keeps.withEvent (h : u.Keeps p) (event : Event → Prop) :
    ({ u with event } : Upkeep).Keeps p :=
  ⟨h.cached, h.errors, h.salvage⟩

/-- An answer may be remembered if it names a place where a cursor may stand. -/
theorem Keeps.remember (h : u.Keeps p) {pos : Nat} {answer : Cached}
    (hanswer : ∀ offset, answer = .anchor offset → ∃ s, u.cursor s ∧ s.pos = offset) :
    u.Keeps (p.remember id pos answer) where
  cached entry hentry := by
    obtain rfl | hold := WasteCache.mem_entries_insert hentry
    · exact hanswer
    · exact h.cached entry hold
  errors := h.errors
  salvage := h.salvage

theorem Keeps.markTried (h : u.Keeps p) (anchor pos : Nat) : u.Keeps (p.markTried anchor pos) :=
  ⟨h.cached, h.errors, h.salvage⟩

theorem Keeps.dropStale (h : u.Keeps p) (reg : Registry) (stop : Nat) :
    u.Keeps (p.dropStale reg stop) :=
  ⟨h.cached, h.errors, fun entry hentry => h.salvage entry (List.mem_filter.1 hentry).1⟩

/-- An error is recorded without what it saves, and that is kept for the branches. Both have to be
    kept up. -/
theorem Keeps.record (h : u.Keeps p) {e : ParseError} (he : u.error e.withoutSaved)
    (hsaved : ∀ entry ∈ e.saved, u.saved entry.1 entry.2) : u.Keeps (p.record e) := by
  refine ⟨?_, fun f hf => ?_, fun entry hentry => ?_⟩
  · rw [Progress.record_cache]
    exact h.cached
  · obtain hold | rfl := Progress.mem_errors_record hf
    · exact h.errors f hold
    · exact he
  · obtain hold | hnew := Progress.mem_salvage_record hentry
    · exact h.salvage entry hold
    · exact hsaved entry hnew

/-- What is handed out to a branch was kept for it, and so has the property that saved data have. -/
theorem Keeps.release (h : u.Keeps p) (id : Nat) :
    (∀ data, (p.release id).1 = some data → u.saved id data) ∧ u.Keeps (p.release id).2 := by
  refine ⟨?_, h.cached, h.errors, ?_⟩
  · intro data hdata
    exact h.salvage (id, data) (Progress.mem_of_lookup hdata)
  · intro entry hentry
    exact h.salvage entry (List.mem_filter.1 hentry).1

end Upkeep

end Resync
