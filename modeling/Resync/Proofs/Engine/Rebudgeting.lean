import Resync.Diagnostic
import Resync.Proofs.Recovery.Progress
import Resync.Proofs.Traced.Ensures
import Resync.Recovery.Rounds

namespace Resync

/-- The same cursor over the same content under another error budget. The budget is a part of the
    input, so every cursor of a run shows it. -/
def State.withMaxErrors (s : State) (maxErrors : Nat) : State :=
  { s with input := s.input.withMaxErrors maxErrors }

/-- What a branch has saved, with its cursor under another error budget. -/
def Saved.withMaxErrors (data : Saved) (maxErrors : Nat) : Saved :=
  match data with
  | .sequence start slots => .sequence (start.withMaxErrors maxErrors) slots
  | .repetition start item items => .repetition (start.withMaxErrors maxErrors) item items
  | .output o => .output o

/-- What several branches have saved, with all cursors under another error budget. -/
def Saved.allWithMaxErrors (entries : List (Nat × Saved)) (maxErrors : Nat) : List (Nat × Saved) :=
  entries.map fun entry => (entry.1, entry.2.withMaxErrors maxErrors)

/-- The same error, carrying cursors under another error budget. Its own place is an offset, and so
    it stays as it is. -/
def ParseError.withMaxErrors (e : ParseError) (maxErrors : Nat) : ParseError :=
  { e with saved := Saved.allWithMaxErrors e.saved maxErrors }

def Result.withMaxErrors (r : Result) (maxErrors : Nat) : Result where
  start := r.start.withMaxErrors maxErrors
  stop := r.stop.withMaxErrors maxErrors
  output := r.output
  error := r.error.map (·.withMaxErrors maxErrors)

def Resumption.withMaxErrors (r : Resumption) (maxErrors : Nat) : Resumption where
  index := r.index
  child := r.child.withMaxErrors maxErrors
  saved := r.saved.map (·.withMaxErrors maxErrors)

def Step.withMaxErrors (step : Step) (maxErrors : Nat) : Step :=
  match step with
  | .descend s => .descend (s.withMaxErrors maxErrors)
  | .resume r => .resume (r.withMaxErrors maxErrors)

/-- The same event, showing cursors under another error budget. -/
def Event.withMaxErrors (event : Event) (maxErrors : Nat) : Event :=
  match event with
  | .entered id s => .entered id (s.withMaxErrors maxErrors)
  | .resumed branch label r => .resumed branch label (r.withMaxErrors maxErrors)
  | .left id r => .left id (r.withMaxErrors maxErrors)
  | .reported e => .reported (e.withMaxErrors maxErrors)
  | .noted line => .noted line
  | .estimated anchor label pos waste cached => .estimated anchor label pos waste cached
  | .anchored anchor label pos => .anchored anchor label pos
  | .gaveUp pos => .gaveUp pos

/-- What a run knows, with all cursors under another error budget. The answers of anchors and the
    attempts are offsets, and so they stay as they are. -/
def Progress.withMaxErrors (p : Progress) (maxErrors : Nat) : Progress :=
  { p with
    errors := p.errors.map (·.withMaxErrors maxErrors)
    salvage := Saved.allWithMaxErrors p.salvage maxErrors }

def Summit.withMaxErrors (summit : Summit) (maxErrors : Nat) : Summit where
  id := summit.id
  result := summit.result.withMaxErrors maxErrors
  progress := summit.progress.withMaxErrors maxErrors

namespace State

variable (s other : State) (maxErrors : Nat)

@[simp]
theorem atEnd_withMaxErrors : (s.withMaxErrors maxErrors).atEnd = s.atEnd := rfl

@[simp]
theorem moveBy_withMaxErrors (count : Nat) :
    (s.withMaxErrors maxErrors).moveBy count = (s.moveBy count).withMaxErrors maxErrors := rfl

/-- A move goes to the same place under any budget, since it counts nothing but the content. -/
@[simp]
theorem moveByUnits_withMaxErrors (count : Nat) :
    (s.withMaxErrors maxErrors).moveByUnits count =
      (s.moveByUnits count).withMaxErrors maxErrors := by
  have hbinary : (s.withMaxErrors maxErrors).input.binary = s.input.binary := rfl
  rw [moveByUnits, moveByUnits, hbinary]
  cases s.input.binary <;> rfl

@[simp]
theorem moveBackTo_withMaxErrors (pos : Nat) :
    (s.withMaxErrors maxErrors).moveBackTo pos = (s.moveBackTo pos).withMaxErrors maxErrors := by
  have hpos : (s.withMaxErrors maxErrors).pos = s.pos := rfl
  have hslice : (s.withMaxErrors maxErrors).input.slice pos s.pos = s.input.slice pos s.pos := rfl
  rw [moveBackTo, moveBackTo, hpos, hslice]
  dsimp only
  split
  · rfl
  · split <;> rfl

@[simp]
theorem movedTo_withMaxErrors (pos : Nat) :
    (s.withMaxErrors maxErrors).movedTo pos = (s.movedTo pos).withMaxErrors maxErrors := by
  have hpos : (s.withMaxErrors maxErrors).pos = s.pos := rfl
  rw [movedTo, movedTo, hpos]
  split
  · rfl
  · exact s.moveBackTo_withMaxErrors maxErrors pos

@[simp]
theorem unitsTo_withMaxErrors :
    (s.withMaxErrors maxErrors).unitsTo (other.withMaxErrors maxErrors) = s.unitsTo other := rfl

@[simp]
theorem crossedSafeSpotSince_withMaxErrors :
    (s.withMaxErrors maxErrors).crossedSafeSpotSince (other.withMaxErrors maxErrors) =
      s.crossedSafeSpotSince other := rfl

/-- The states ahead are at the same places under any budget. -/
theorem ahead_withMaxErrors :
    (s.withMaxErrors maxErrors).ahead = s.ahead.map (·.withMaxErrors maxErrors) := by
  have hsteps (limit : Nat) (s : State) : stepsAhead limit (s.withMaxErrors maxErrors) =
      (stepsAhead limit s).map (·.withMaxErrors maxErrors) := by
    induction limit generalizing s with
    | zero => rfl
    | succ limit ih =>
      rw [stepsAhead, stepsAhead, atEnd_withMaxErrors, moveByUnits_withMaxErrors, ih]
      cases s.atEnd <;> rfl
  exact hsteps _ s

end State

namespace Saved

variable (maxErrors : Nat)

theorem lookup_allWithMaxErrors (entries : List (Nat × Saved)) (id : Nat) :
    (allWithMaxErrors entries maxErrors).lookup id =
      (entries.lookup id).map (·.withMaxErrors maxErrors) := by
  induction entries with
  | nil => rfl
  | cons entry entries ih =>
    obtain ⟨key, data⟩ := entry
    change ((key, data.withMaxErrors maxErrors) :: allWithMaxErrors entries maxErrors).lookup id = _
    rw [List.lookup_cons, List.lookup_cons]
    cases id == key with
    | true => rfl
    | false => exact ih

theorem filter_allWithMaxErrors (entries : List (Nat × Saved)) (p : Nat → Bool) :
    (allWithMaxErrors entries maxErrors).filter (fun entry => p entry.1) =
      allWithMaxErrors (entries.filter fun entry => p entry.1) maxErrors :=
  List.filter_map

end Saved

namespace ParseError

variable (e : ParseError) (maxErrors : Nat)

/-- Saving under a budget is saving, and then showing the budget: what was saved before for the same
    branch is replaced in both orders. -/
theorem save_withMaxErrors (id : Nat) (data : Saved) :
    (e.withMaxErrors maxErrors).save id (data.withMaxErrors maxErrors) =
      (e.save id data).withMaxErrors maxErrors := by
  have hsome : ((e.withMaxErrors maxErrors).savedBy? id).isSome = (e.savedBy? id).isSome := by
    have hlookup : (e.withMaxErrors maxErrors).savedBy? id =
        (e.savedBy? id).map (·.withMaxErrors maxErrors) :=
      Saved.lookup_allWithMaxErrors maxErrors e.saved id
    rw [hlookup, Option.isSome_map]
  unfold save
  dsimp only
  rw [hsome]
  split
  · have hreplace : (Saved.allWithMaxErrors e.saved maxErrors).map
        (fun entry => if entry.1 = id then (id, data.withMaxErrors maxErrors) else entry) =
          Saved.allWithMaxErrors
            (e.saved.map fun entry => if entry.1 = id then (id, data) else entry) maxErrors := by
      unfold Saved.allWithMaxErrors
      rw [List.map_map, List.map_map]
      refine List.map_congr_left fun entry _ => ?_
      dsimp only [Function.comp]
      split <;> rfl
    exact congrArg (fun saved => { e with saved }) hreplace
  · have happend : Saved.allWithMaxErrors e.saved maxErrors ++ [(id, data.withMaxErrors maxErrors)] =
        Saved.allWithMaxErrors (e.saved ++ [(id, data)]) maxErrors := by
      unfold Saved.allWithMaxErrors
      rw [List.map_append]
      rfl
    exact congrArg (fun saved => { e with saved }) happend

/-- An error that carries nothing is the same under any budget. The errors that a run lists are of
    this kind. -/
theorem withMaxErrors_of_saved_eq_nil {e : ParseError} (h : e.saved = []) (maxErrors : Nat) :
    e.withMaxErrors maxErrors = e := by
  obtain ⟨_, _, _, _, _, _, _, saved⟩ := e
  cases h
  rfl

theorem withoutSaved_withMaxErrors :
    (e.withMaxErrors maxErrors).withoutSaved = e.withoutSaved.withMaxErrors maxErrors := rfl

end ParseError

namespace Result

variable (r : Result) (maxErrors : Nat)

@[simp]
theorem isOk_withMaxErrors : (r.withMaxErrors maxErrors).isOk = r.isOk := by
  rw [isOk, isOk, withMaxErrors, Option.isNone_map]

theorem claim_withMaxErrors (id : Nat) :
    (r.withMaxErrors maxErrors).claim id = (r.claim id).withMaxErrors maxErrors := by
  obtain ⟨start, stop, output, error⟩ := r
  cases error <;> rfl

end Result

namespace Progress

variable (p : Progress) (e : ParseError) (maxErrors : Nat)

theorem keep_withMaxErrors (id : Nat) (data : Saved) :
    (p.withMaxErrors maxErrors).keep id (data.withMaxErrors maxErrors) =
      (p.keep id data).withMaxErrors maxErrors := by
  have hfilter := Saved.filter_allWithMaxErrors maxErrors p.salvage (· != id)
  unfold keep
  exact congrArg (fun rest => { p.withMaxErrors maxErrors with
    salvage := (id, data.withMaxErrors maxErrors) :: rest }) hfilter

theorem keepAll_withMaxErrors (entries : List (Nat × Saved)) :
    (p.withMaxErrors maxErrors).keepAll (Saved.allWithMaxErrors entries maxErrors) =
      (p.keepAll entries).withMaxErrors maxErrors := by
  induction entries generalizing p with
  | nil => rfl
  | cons entry entries ih =>
    change ((p.withMaxErrors maxErrors).keep entry.1 (entry.2.withMaxErrors maxErrors)).keepAll
      (Saved.allWithMaxErrors entries maxErrors) = _
    rw [keep_withMaxErrors]
    exact ih (p.keep entry.1 entry.2)

theorem knows_withMaxErrors :
    (p.withMaxErrors maxErrors).knows (e.withMaxErrors maxErrors) = p.knows e := by
  unfold knows
  exact List.any_map

/-- The same mismatches are told apart under any budget, so the same errors are listed. -/
theorem record_withMaxErrors :
    (p.withMaxErrors maxErrors).record (e.withMaxErrors maxErrors) =
      (p.record e).withMaxErrors maxErrors := by
  have hkept : (p.withMaxErrors maxErrors).keepAll (e.withMaxErrors maxErrors).saved =
      (p.keepAll e.saved).withMaxErrors maxErrors := p.keepAll_withMaxErrors maxErrors e.saved
  rw [record_eq, record_eq, hkept, ParseError.withoutSaved_withMaxErrors, knows_withMaxErrors]
  split
  · rfl
  · have happend : p.errors.map (·.withMaxErrors maxErrors) ++ [e.withoutSaved.withMaxErrors maxErrors] =
        (p.errors ++ [e.withoutSaved]).map (·.withMaxErrors maxErrors) := by
      rw [List.map_append]
      rfl
    exact congrArg (fun errors => { (p.keepAll e.saved).withMaxErrors maxErrors with errors }) happend

theorem release_withMaxErrors (id : Nat) :
    (p.withMaxErrors maxErrors).release id =
      ((p.release id).1.map (·.withMaxErrors maxErrors),
        (p.release id).2.withMaxErrors maxErrors) := by
  have hlookup := Saved.lookup_allWithMaxErrors maxErrors p.salvage id
  have hfilter := Saved.filter_allWithMaxErrors maxErrors p.salvage (· != id)
  exact Prod.ext hlookup
    (congrArg (fun salvage => { p.withMaxErrors maxErrors with salvage }) hfilter)

theorem dropStale_withMaxErrors (reg : Registry) (stop : Nat) :
    (p.withMaxErrors maxErrors).dropStale reg stop =
      (p.dropStale reg stop).withMaxErrors maxErrors := by
  have hfilter := Saved.filter_allWithMaxErrors maxErrors p.salvage
    (reg.isWithin stop)
  exact congrArg (fun salvage => { p.withMaxErrors maxErrors with salvage }) hfilter

end Progress

/-- A remark on the extent of an outcome does not show the budget: of what an error carries it names
    the parsers alone. -/
theorem Diagnostic.ofExtent_withMaxErrors (r : Result) (maxErrors : Nat) :
    ofExtent (r.withMaxErrors maxErrors).start (r.withMaxErrors maxErrors).stop
        (r.withMaxErrors maxErrors).error =
      ofExtent r.start r.stop r.error := by
  have hsaved (e : ParseError) :
      (e.withMaxErrors maxErrors).saved.map (fun entry => toString entry.1) =
        e.saved.map fun entry => toString entry.1 := List.map_map
  have herror (e : ParseError) : ofError (e.withMaxErrors maxErrors) = ofError e := by
    rw [ofError, ofError, hsaved]
    rfl
  have hmap : (r.withMaxErrors maxErrors).error.map ofError = r.error.map ofError := by
    obtain ⟨start, stop, output, error⟩ := r
    cases error with
    | none => rfl
    | some e => exact congrArg some (herror e)
  rw [ofExtent, ofExtent, hmap]
  rfl

namespace Traced

variable {α β γ δ : Type}

/-- The second computation does under another error budget what the first one does: it has the same
    events, but for the budget that cursors show, and it stops with the same fault or gives what
    `change` makes of the result of the first one. -/
structure Rebudgets (maxErrors : Nat) (change : α → β) (x : Traced α) (y : Traced β) : Prop where
  events : y.events = x.events.map (·.withMaxErrors maxErrors)
  result : y.result = x.result.map change

variable {maxErrors : Nat} {change : α → β}

theorem rebudgets_pure {a : α} {b : β} (h : b = change a) :
    Rebudgets maxErrors change (pure a) (pure b) := by
  subst h
  exact ⟨rfl, rfl⟩

theorem rebudgets_fault (fault : Fault) :
    Rebudgets maxErrors change (Traced.fault fault) (Traced.fault fault) := ⟨rfl, rfl⟩

theorem rebudgets_emit (event : Event) :
    Rebudgets maxErrors id (emit event) (emit (event.withMaxErrors maxErrors)) := ⟨rfl, rfl⟩

/-- One step after the other: what follows has to do the same from each result that is possible, so
    what is known of results may be used. -/
theorem Rebudgets.bind {x : Traced α} {y : Traced β} {f : α → Traced γ} {g : β → Traced δ}
    {change' : γ → δ} (h : Rebudgets maxErrors change x y)
    (hfg : ∀ a, Rebudgets maxErrors change' (f a) (g (change a))) :
    Rebudgets maxErrors change' (x >>= f) (y >>= g) := by
  cases hresult : x.result with
  | error fault =>
    have hfault : y.result = .error fault := h.result.trans (congrArg _ hresult)
    rw [bind_of_result_eq_error hresult, bind_of_result_eq_error hfault]
    exact ⟨h.events, rfl⟩
  | ok a =>
    have hvalue : y.result = .ok (change a) := h.result.trans (congrArg _ hresult)
    rw [bind_of_result_eq_ok hresult, bind_of_result_eq_ok hvalue]
    have hnext := hfg a
    refine ⟨?_, hnext.result⟩
    dsimp only
    rw [h.events, hnext.events, List.map_append]

end Traced

end Resync
