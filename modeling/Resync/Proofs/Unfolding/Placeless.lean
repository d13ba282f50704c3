import Resync.Proofs.Registry.Changes
import Resync.Proofs.Unfolding.Registry
import Resync.Recovery.Rounds

namespace Resync

theorem Entry.hidden_unplaced : Entry.Hidden Entry.unplaced where
  label _ := rfl
  work entry := by
    obtain ⟨_, _, work, _, _⟩ := entry
    cases work with
    | leaf leaf => exact .leaf rfl fun _ _ => rfl
    | branch rule => exact .branch rule
  parent _ := rfl
  children _ := rfl

namespace Registry

/-- The registry without the places of its parsers in the graph. -/
def unplaced (reg : Registry) : Registry :=
  ⟨reg.entries.map Entry.unplaced⟩

variable (reg : Registry)

theorem runsLike_unplaced : reg.unplaced.RunsLike reg :=
  runsLike_changed Entry.hidden_unplaced reg

@[simp]
theorem size_unplaced : reg.unplaced.size = reg.size :=
  reg.runsLike_unplaced.size

@[simp]
theorem label_unplaced (id : Nat) : reg.unplaced.label id = reg.label id :=
  reg.runsLike_unplaced.label id

@[simp]
theorem parent?_unplaced (id : Nat) : reg.unplaced.parent? id = reg.parent? id :=
  reg.runsLike_unplaced.parent? id

@[simp]
theorem ancestors_unplaced (id : Nat) : reg.unplaced.ancestors id = reg.ancestors id :=
  reg.runsLike_unplaced.ancestors id

@[simp]
theorem isWithin_unplaced (id ancestor : Nat) :
    reg.unplaced.isWithin id ancestor = reg.isWithin id ancestor :=
  reg.runsLike_unplaced.isWithin id ancestor

@[simp]
theorem parse_unplaced (depth id : Nat) (s : State) :
    reg.unplaced.parse depth id s = reg.parse depth id s :=
  reg.runsLike_unplaced.parse depth id s

@[simp]
theorem resume_unplaced (depth id : Nat) (r : Resumption) :
    reg.unplaced.resume depth id r = reg.resume depth id r :=
  reg.runsLike_unplaced.resume depth id r

@[simp]
theorem recoverer?_unplaced (id : Nat) : reg.unplaced.recoverer? id = reg.recoverer? id := by
  have hentry : reg.unplaced.entries[id]? = reg.entries[id]?.map Entry.unplaced :=
    getElem?_changed reg _ id
  rw [recoverer?, recoverer?, hentry]
  cases reg.entries[id]? with
  | none => rfl
  | some entry =>
    obtain ⟨_, _, work, _, _⟩ := entry
    cases work <;> rfl

@[simp]
theorem fastAnchors_unplaced : reg.unplaced.fastAnchors = reg.fastAnchors := by
  rw [fastAnchors, unplaced, List.zipIdx_map, List.filterMap_map]
  rfl

@[simp]
theorem stepAnchors_unplaced : reg.unplaced.stepAnchors = reg.stepAnchors := by
  rw [stepAnchors, unplaced, List.zipIdx_map, List.filterMap_map]
  rfl

end Registry

namespace Session

/-- The same session under the registry without places. -/
def unplaced (session : Session) : Session :=
  { session with registry := session.registry.unplaced }

variable (session : Session)

@[simp]
theorem run_unplaced (id : Nat) (s : State) : session.unplaced.run id s = session.run id s :=
  session.registry.parse_unplaced session.depth id s

@[simp]
theorem appraise_unplaced (p : Progress) (id : Nat) (here : State) (offset : Option Nat)
    (cached : Bool) :
    session.unplaced.appraise p id here offset cached = session.appraise p id here offset cached := by
  simp only [appraise, unplaced, Registry.label_unplaced]

@[simp]
theorem fastWaste_unplaced (p : Progress) (id : Nat) (waste : State → Waste) (here : State) :
    session.unplaced.fastWaste p id waste here = session.fastWaste p id waste here := by
  simp only [fastWaste, appraise_unplaced]

@[simp]
theorem probe_unplaced (id : Nat) (limit : Option Nat) (states : List State) :
    session.unplaced.probe id limit states = session.probe id limit states := by
  induction states generalizing limit with
  | nil => rcases limit with _ | _ | limit <;> rfl
  | cons s states ih =>
    rcases limit with _ | _ | limit
    · simp only [probe, run_unplaced, ih]
    · rfl
    · simp only [probe, run_unplaced, ih]

@[simp]
theorem stepWaste_unplaced (p : Progress) (id : Nat) (here : State) (limit : Option Nat) :
    session.unplaced.stepWaste p id here limit = session.stepWaste p id here limit := by
  simp only [stepWaste, probe_unplaced, appraise_unplaced]
  simp only [unplaced, Registry.label_unplaced]

@[simp]
theorem ownBid_unplaced (p : Progress) (owner : Option Nat) (here : State) :
    session.unplaced.ownBid p owner here = session.ownBid p owner here := by
  simp only [ownBid, fastWaste_unplaced, stepWaste_unplaced]
  simp only [unplaced, Registry.recoverer?_unplaced]

@[simp]
theorem askFast_unplaced (owner : Option Nat) (here : State)
    (anchors : List (Nat × (State → Waste))) (best : Option Bid) (p : Progress) :
    session.unplaced.askFast owner here anchors best p =
      session.askFast owner here anchors best p := by
  induction anchors generalizing best p with
  | nil => rfl
  | cons anchor anchors ih => simp only [askFast, fastWaste_unplaced, ih]

@[simp]
theorem askStep_unplaced (owner : Option Nat) (here : State) (anchors : List Nat)
    (best : Option Bid) (p : Progress) :
    session.unplaced.askStep owner here anchors best p =
      session.askStep owner here anchors best p := by
  induction anchors generalizing best p with
  | nil => rfl
  | cons anchor anchors ih => simp only [askStep, stepWaste_unplaced, ih]

@[simp]
theorem chooseAnchor_unplaced (p : Progress) (owner : Option Nat) (here : State) :
    session.unplaced.chooseAnchor p owner here = session.chooseAnchor p owner here := by
  simp only [chooseAnchor, ownBid_unplaced, askFast_unplaced, askStep_unplaced]
  simp only [unplaced, Registry.fastAnchors_unplaced, Registry.stepAnchors_unplaced]

@[simp]
theorem climb_unplaced (unwinding : Bool) (summit : Summit) :
    session.unplaced.climb unwinding summit = session.climb unwinding summit := by
  have hthrough (way : List (Nat × Nat)) (summit : Summit) :
      session.unplaced.climbThrough unwinding way summit =
        session.climbThrough unwinding way summit := by
    induction way generalizing summit with
    | nil => rfl
    | cons step way ih =>
      simp only [climbThrough, ih]
      simp only [unplaced, Registry.resume_unplaced]
  rw [climb, climb, hthrough]
  simp only [unplaced, Registry.ancestors_unplaced]

@[simp]
theorem giveUp_unplaced (here : State) (summit : Summit) :
    session.unplaced.giveUp here summit = session.giveUp here summit := by
  simp only [giveUp, climb_unplaced]

@[simp]
theorem isSpent_unplaced (p : Progress) : session.unplaced.isSpent p = session.isSpent p :=
  rfl

@[simp]
theorem resynchronise_unplaced (owner : Option Nat) (here : State) (attempts : Nat)
    (p : Progress) :
    session.unplaced.resynchronise owner here attempts p =
      session.resynchronise owner here attempts p := by
  induction attempts generalizing p with
  | zero => rfl
  | succ attempts ih =>
    simp only [resynchronise, chooseAnchor_unplaced, run_unplaced, isSpent_unplaced, ih]
    simp only [unplaced, Registry.label_unplaced]

@[simp]
theorem dropStale_unplaced (p : Progress) (stop : Nat) :
    p.dropStale session.unplaced.registry stop = p.dropStale session.registry stop := by
  simp only [Progress.dropStale, unplaced, Registry.isWithin_unplaced]

@[simp]
theorem rounds_unplaced (attempts limit : Nat) (summit : Summit) :
    session.unplaced.rounds attempts limit summit = session.rounds attempts limit summit := by
  induction limit generalizing summit with
  | zero => rfl
  | succ limit ih =>
    simp only [rounds, resynchronise_unplaced, climb_unplaced, giveUp_unplaced, isSpent_unplaced,
      dropStale_unplaced, ih]

/-- A whole run does not look at places. -/
theorem execute_unplaced (cache : WasteCache) (s : State) :
    session.unplaced.execute cache s = session.execute cache s := by
  simp only [execute, run_unplaced, rounds_unplaced, attemptBound]
  simp only [unplaced, Registry.size_unplaced]

end Session

end Resync
