import Resync.Proofs.Reading.Interpreter

namespace Resync

/-- A cursor inside an input whose watermark is not ahead of it. -/
structure State.Starts (s : State) (input : Input) : Prop where
  input_eq : s.input = input
  pos_le_size : s.pos ≤ input.size
  safeSpot_le : s.safeSpot ≤ s.pos

/-- A cursor from which parsing has come to another one. A cut has raised the watermark beyond the
    first cursor, and without one it is where it was. -/
structure State.LeadsTo (s : State) (cut : Bool) (t : State) : Prop where
  input_eq : t.input = s.input
  pos_le : s.pos ≤ t.pos
  pos_le_size : t.pos ≤ s.input.size
  uncut : cut = false → t.safeSpot = s.safeSpot
  cut : cut = true → s.pos < t.safeSpot ∧ t.safeSpot ≤ t.pos

/-- An outcome as a reading from the state that the parse started at. -/
def Result.reading (r : Result) (s : State) : Reading where
  stop := r.stop.pos
  output := r.output
  mismatch := r.error.map (·.mismatch)
  cut := r.stop.crossedSafeSpotSince s

/-- A safe spot has matched. -/
def Registry.SafeSpotMatched (reg : Registry) : Event → Prop
  | .left id r => r.isOk = true ∧
      ∃ entry leaf, reg.entries[id]? = some entry ∧ entry.work = .leaf leaf ∧ leaf.safeSpot = true
  | _ => False

/-- A safe spot has matched in the course of some events. -/
def Registry.MakesCut (reg : Registry) (events : List Event) : Prop :=
  ∃ e ∈ events, reg.SafeSpotMatched e

/-- A reading tells the outcome of a parse that has left some events behind. The outcome is that of
    an attempt that began at `start`, of which `s` is where the part begins that is told. -/
structure Reading.Tells (reg : Registry) (start s : State) (events : List Event) (r : Result)
    (v : Reading) : Prop where
  start_eq : r.start = start
  leads : s.LeadsTo v.cut r.stop
  stop_eq : r.stop.pos = v.stop
  output_eq : r.output = v.output
  mismatch_eq : r.error.map (·.mismatch) = v.mismatch
  cut_iff : v.cut = true ↔ reg.MakesCut events

namespace State

variable {s t u : State} {a b : Bool} {input : Input}

theorem LeadsTo.refl (h : s.Starts input) : s.LeadsTo false s where
  input_eq := rfl
  pos_le := Nat.le_refl _
  pos_le_size := by rw [h.input_eq]; exact h.pos_le_size
  uncut _ := rfl
  cut hcut := nomatch hcut

/-- Two parts make a cut if one of them does. -/
theorem LeadsTo.trans (hst : s.LeadsTo a t) (htu : t.LeadsTo b u) : s.LeadsTo (a || b) u where
  input_eq := htu.input_eq.trans hst.input_eq
  pos_le := Nat.le_trans hst.pos_le htu.pos_le
  pos_le_size := by
    rw [← hst.input_eq]
    exact htu.pos_le_size
  uncut hcut := by
    obtain ⟨ha, hb⟩ := Bool.or_eq_false_iff.1 hcut
    rw [htu.uncut hb, hst.uncut ha]
  cut hcut := by
    have htu_le := htu.pos_le
    have hst_le := hst.pos_le
    cases b with
    | true =>
      have hmark := htu.cut rfl
      omega
    | false =>
      have hmark := hst.cut (by simpa using hcut)
      rw [htu.uncut rfl]
      omega

/-- What parsing leads to is a cursor whose watermark is not ahead of it, from which the next
    attempt can begin. -/
theorem LeadsTo.starts (h : s.LeadsTo a t) (hs : s.Starts input) : t.Starts input where
  input_eq := h.input_eq.trans hs.input_eq
  pos_le_size := by
    rw [← hs.input_eq]
    exact h.pos_le_size
  safeSpot_le := by
    have hpos := h.pos_le
    have hmark := hs.safeSpot_le
    cases a with
    | true => exact (h.cut rfl).2
    | false =>
      rw [h.uncut rfl]
      omega

/-- The watermark is ahead of the start of an attempt if there was a cut, and only then: the attempt
    begins with the watermark behind it, a safe spot that matches sets it to its end, and nothing
    sets it back. -/
theorem LeadsTo.crossedSafeSpotSince (h : s.LeadsTo a t) (hs : s.Starts input) :
    t.crossedSafeSpotSince s = a := by
  unfold State.crossedSafeSpotSince
  cases a with
  | true => exact decide_eq_true (h.cut rfl).1
  | false =>
    have hmark := hs.safeSpot_le
    rw [h.uncut rfl]
    exact decide_eq_false (by omega)

/-- What stands still has made no cut, as a safe spot that matches leads forward. -/
theorem LeadsTo.eq_false_of_pos_eq (h : s.LeadsTo a t) (hpos : t.pos = s.pos) : a = false := by
  cases a with
  | false => rfl
  | true =>
    have hmark := h.cut rfl
    omega

end State

namespace Registry

variable {reg : Registry}

@[simp]
theorem makesCut_nil : ¬ reg.MakesCut [] := fun ⟨_, he, _⟩ => nomatch he

theorem makesCut_append {before after : List Event} :
    reg.MakesCut (before ++ after) ↔ reg.MakesCut before ∨ reg.MakesCut after := by
  simp only [MakesCut, List.mem_append, or_and_right, exists_or]

theorem makesCut_cons {e : Event} {events : List Event} :
    reg.MakesCut (e :: events) ↔ reg.SafeSpotMatched e ∨ reg.MakesCut events := by
  simp only [MakesCut, List.mem_cons, or_and_right, exists_or, exists_eq_left]

end Registry

namespace Reading

variable {reg : Registry} {input : Input} {start s : State} {events later : List Event}
  {r : Result} {v : Reading}

/-- Nothing was parsed, and the outcome is where it began, without a cut. -/
theorem tells_stay (hs : s.Starts input) (hstart : r.start = start) (hstop : r.stop = s)
    (houtput : r.output = v.output) (hmismatch : r.error.map (·.mismatch) = v.mismatch)
    (hvstop : v.stop = s.pos) (hcut : v.cut = false) : Tells reg start s [] r v where
  start_eq := hstart
  leads := by
    rw [hcut, hstop]
    exact .refl hs
  stop_eq := by rw [hstop, hvstop]
  output_eq := houtput
  mismatch_eq := hmismatch
  cut_iff := by simp [hcut]

/-- The rest of an attempt, told behind its first part: the cuts of both count, and so do the
    events. -/
theorem Tells.behind {t : State} {cut : Bool} (h : Tells reg start t later r v)
    (hfirst : s.LeadsTo cut t) (hevents : cut = true ↔ reg.MakesCut events) :
    Tells reg start s (events ++ later) r (v.behind cut) where
  start_eq := h.start_eq
  leads := hfirst.trans h.leads
  stop_eq := h.stop_eq
  output_eq := h.output_eq
  mismatch_eq := h.mismatch_eq
  cut_iff := by
    rw [Reading.behind, Bool.or_eq_true, Registry.makesCut_append, hevents, h.cut_iff]

/-- An outcome that stops where another one does, and says what the reading says, is told by the
    same events. -/
theorem Tells.remade {first : State} (h : Tells reg first s events r v) {r' : Result} {v' : Reading}
    (hstart : r'.start = start) (hstop : r'.stop = r.stop) (houtput : r'.output = v'.output)
    (hmismatch : r'.error.map (·.mismatch) = v'.mismatch) (hvstop : v'.stop = v.stop)
    (hcut : v'.cut = v.cut) : Tells reg start s (events ++ []) r' v' where
  start_eq := hstart
  leads := by
    rw [hcut, hstop]
    exact h.leads
  stop_eq := by rw [hstop, hvstop, h.stop_eq]
  output_eq := houtput
  mismatch_eq := hmismatch
  cut_iff := by rw [hcut, List.append_nil, h.cut_iff]

/-- An attempt without a cut that is given up: the outcome is where it began. -/
theorem Tells.abandoned {first : State} (h : Tells reg first s events r v) (hs : s.Starts input)
    (huncut : v.cut = false) {r' : Result} {v' : Reading} (hr : Tells reg start s later r' v') :
    Tells reg start s (events ++ later) r' v' := by
  have hevents : false = true ↔ reg.MakesCut events := by rw [← h.cut_iff, huncut]
  exact hr.behind (.refl hs) hevents

theorem Tells.error_eq_none_iff (h : Tells reg start s events r v) :
    r.error = none ↔ v.mismatch = none := by
  rw [← h.mismatch_eq, Option.map_eq_none_iff]

/-- The output is of a type in the reading if it is in the outcome. -/
theorem Tells.read_eq (h : Tells reg start s events r v) (expected : Ty) :
    (r.read expected).mapError .defect = v.value expected := by
  unfold Result.read Reading.value
  rw [h.output_eq]
  cases v.output.as? expected <;> rfl

end Reading

end Resync
