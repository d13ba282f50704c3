import Resync.Proofs.Leaf.Scalars

namespace Resync

namespace State

variable {s : State} {input : Input}

/-- After a move by raw bytes that ends among the readable scalars, the last of these are read or, in
    the middle of one of them, nothing. -/
theorem SitsOn.scalars_moveByUnits_of_binary (h : s.SitsOn input) (hbinary : input.binary = true)
    {count : Nat} (hcount : count ≤ Utf8.width s.scalars) :
    (∃ front, s.scalars = front ++ (s.moveByUnits count).scalars ∧ Utf8.width front = count) ∨
      (s.moveByUnits count).scalars = [] := by
  obtain ⟨rest, hbytes, hrest⟩ := s.exists_currentBytes
  generalize s.scalars = cs at hbytes hcount ⊢
  have hahead : (s.moveByUnits count).scalars =
      Utf8.decodeLongest ((Utf8.encode cs).drop count ++ rest) := by
    rw [← List.drop_append_of_le_length (by rwa [Utf8.length_encode]), ← hbytes,
      ← h.currentBytes_moveByUnits hbinary]
    rfl
  rw [hahead]
  by_cases hinside : ∃ b, (Utf8.encode cs)[count]? = some b ∧ Utf8.isContinuation b = true
  · obtain ⟨b, hb, hcontinuation⟩ := hinside
    obtain ⟨hlt, rfl⟩ := List.getElem?_eq_some_iff.1 hb
    right
    rw [List.drop_eq_getElem_cons hlt]
    exact Utf8.decodeLongest_of_isContinuation hcontinuation _
  · left
    obtain ⟨front, back, rfl, rfl⟩ := Utf8.exists_append_of_not_isContinuation hcount
      (fun b hb => Bool.eq_false_iff.2 fun hcontinuation => hinside ⟨b, hb, hcontinuation⟩)
    refine ⟨front, ?_, rfl⟩
    rw [Utf8.encode_append, List.drop_left' (Utf8.length_encode front),
      Utf8.decodeLongest_encode_append, hrest, List.append_nil]

/-- The readable scalars lie inside the input, and may end before it does. -/
theorem width_scalars_le (s : State) : Utf8.width s.scalars ≤ s.currentBytes.length := by
  obtain ⟨rest, hbytes, -⟩ := s.exists_currentBytes
  rw [hbytes, List.length_append, Utf8.length_encode]
  exact Nat.le_add_right ..

end State

namespace Leaf

variable {leaf : Leaf} {input : Input} {waste : State → Waste} {s : State} {bound : Nat}

/-- A recoverer is exact on the next `bound` units: it answers with the least number of them after
    which the leaf matches, if there is one. -/
def ExactWithin (leaf : Leaf) (waste : State → Waste) (bound : Nat) (s : State) : Prop :=
  match waste s with
  | .units count => count < bound ∧ leaf.Accepts (s.moveByUnits count) ∧
      ∀ fewer < count, ¬ leaf.Accepts (s.moveByUnits fewer)
  | .tooMuch => ∀ count < bound, ¬ leaf.Accepts (s.moveByUnits count)
  | .never => False

/-- A recoverer that is exact on the next units answers with the least of them after which the leaf
    matches. -/
theorem ExactWithin.waste_eq_units_iff (h : leaf.ExactWithin waste bound s) (count : Nat) :
    waste s = .units count ↔ count < bound ∧ leaf.Accepts (s.moveByUnits count) ∧
      ∀ fewer < count, ¬ leaf.Accepts (s.moveByUnits fewer) := by
  rw [ExactWithin] at h
  cases hwaste : waste s with
  | units least =>
    rw [hwaste] at h
    obtain ⟨hlt, haccepts, hleast⟩ := h
    rw [Waste.units.injEq]
    constructor
    · rintro rfl
      exact ⟨hlt, haccepts, hleast⟩
    · rintro ⟨-, haccepts', hleast'⟩
      exact Nat.le_antisymm (Nat.not_lt.1 fun hlt' => hleast count hlt' haccepts')
        (Nat.not_lt.1 fun hlt' => hleast' least hlt' haccepts)
  | tooMuch =>
    rw [hwaste] at h
    exact iff_of_false (by simp) fun hfound => h count hfound.1 hfound.2.1
  | never =>
    rw [hwaste] at h
    exact h.elim

/-- A recoverer that is exact on the next units answers that there is too much waste if the leaf
    matches after none of them, whatever stands behind. -/
theorem ExactWithin.waste_eq_tooMuch_iff (h : leaf.ExactWithin waste bound s) :
    waste s = .tooMuch ↔ ∀ count < bound, ¬ leaf.Accepts (s.moveByUnits count) := by
  rw [ExactWithin] at h
  cases hwaste : waste s with
  | units least =>
    rw [hwaste] at h
    exact iff_of_false (by simp) fun hnone => hnone least h.1 h.2.1
  | tooMuch =>
    rw [hwaste] at h
    exact iff_of_true rfl h
  | never =>
    rw [hwaste] at h
    exact h.elim

/-- A recoverer that is exact on the next units is exact unless all matches are behind these. This
    is where a search for scalars misses a match on raw bytes. -/
theorem ExactWithin.exactAt_iff (h : leaf.ExactWithin waste bound s) :
    leaf.ExactAt waste s ↔ ((∃ count, leaf.Accepts (s.moveByUnits count)) →
      ∃ count < bound, leaf.Accepts (s.moveByUnits count)) := by
  rw [ExactWithin] at h
  rw [ExactAt]
  cases hwaste : waste s with
  | units least =>
    rw [hwaste] at h
    exact iff_of_true h.2 fun _ => ⟨least, h.1, h.2.1⟩
  | tooMuch =>
    rw [hwaste] at h
    constructor
    · rintro hnone ⟨count, haccepts⟩
      exact absurd haccepts (hnone count)
    · intro hwithin count haccepts
      obtain ⟨other, hlt, haccepts'⟩ := hwithin ⟨count, haccepts⟩
      exact h other hlt haccepts'
  | never =>
    rw [hwaste] at h
    exact h.elim

/-- A leaf that is served by a search does not match where nothing can be read. -/
theorem IsServedBy.not_demand_nil {search : List Char → Option Nat} {demand : List Char → Prop}
    (h : leaf.IsServedBy search demand) : ¬ demand [] := by
  cases hoffset : search [] with
  | none => exact h.of_none [] hoffset 0
  | some offset =>
    obtain ⟨count, hlt, -⟩ := h.of_some [] offset hoffset
    exact absurd hlt (Nat.not_lt_zero count)

/-- On raw bytes a search for scalars is exact on the bytes of the readable ones, and sees nothing
    behind the first ill-formed byte. -/
theorem IsServedBy.exactWithin {search : List Char → Option Nat} {demand : List Char → Prop}
    (h : leaf.IsServedBy search demand) (hbinary : input.binary = true) (hs : s.SitsOn input) :
    leaf.ExactWithin (fun s => Recoverer.wasteToOffset s (search s.scalars))
      (Utf8.width s.scalars) s := by
  -- Among the readable bytes, the leaf matches only where a scalar begins.
  have hstarts {count : Nat} (hcount : count ≤ Utf8.width s.scalars)
      (haccepts : leaf.Accepts (s.moveByUnits count)) :
      ∃ passed, demand (s.scalars.drop passed) ∧ Utf8.width (s.scalars.take passed) = count := by
    have hdemand := (h.accepts_iff _).1 haccepts
    obtain ⟨front, hsplit, hwidth⟩ | hnil := hs.scalars_moveByUnits_of_binary hbinary hcount
    · refine ⟨front.length, ?_, ?_⟩
      · rwa [hsplit, List.drop_left]
      · rwa [hsplit, List.take_left]
    · rw [hnil] at hdemand
      exact absurd hdemand h.not_demand_nil
  rw [ExactWithin]
  cases hoffset : search s.scalars with
  | none =>
    intro count hlt haccepts
    obtain ⟨passed, hdemand, -⟩ := hstarts (Nat.le_of_lt hlt) haccepts
    exact h.of_none _ hoffset passed hdemand
  | some offset =>
    obtain ⟨passed, hpassed, hdemand, rfl, hbefore⟩ := h.of_some _ offset hoffset
    have hsplit : Utf8.width s.scalars =
        Utf8.width (s.scalars.take passed) + Utf8.width (s.scalars.drop passed) := by
      rw [← Utf8.width_append, List.take_append_drop]
    have hbehind : 0 < Utf8.width (s.scalars.drop passed) := by
      have hlength := Utf8.length_le_width (s.scalars.drop passed)
      rw [List.length_drop] at hlength
      omega
    have hsize := s.width_scalars_le
    have hwaste : Recoverer.wasteToOffset s (some (Utf8.width (s.scalars.take passed))) =
        .units (Utf8.width (s.scalars.take passed)) := by
      rw [Recoverer.wasteToOffset, wasteTo, hs.unitsTo_moveBy hbinary (by omega)]
    rw [hwaste]
    refine ⟨by omega, (h.accepts_iff _).2 ?_, ?_⟩
    · rw [State.moveByUnits, hs.input_eq, if_pos hbinary,
        (hs.moveBy_width (List.take_append_drop passed s.scalars).symm).2]
      exact hdemand
    · intro fewer hfewer haccepts
      obtain ⟨other, hdemand', rfl⟩ := hstarts (by omega) haccepts
      refine hbefore other ?_ hdemand'
      by_contra hle
      obtain ⟨more, hmore⟩ := List.take_prefix_take_left (l := s.scalars) (Nat.not_lt.1 hle)
      rw [← hmore, Utf8.width_append] at hfewer
      omega

end Leaf

namespace Primitive

variable {primitive : Primitive} {input : Input} {s : State}

/-- The primitives that read scalars and consume what they match. -/
def ConsumesScalars : Primitive → Prop
  | char _ | satisfy _ _ | anyChar | someDigits => True
  | literal expected => expected ≠ ""
  | digits | endOfInput | upTo _ | byte _ | anyByte => False

/-- Such a primitive is searched for among the scalars ahead, by its own recoverer: a leaf for one
    scalar by the search for such a scalar, and a literal by the search for its text. -/
theorem ConsumesScalars.exists_isServedBy (h : primitive.ConsumesScalars) :
    ∃ search demand, primitive.leaf.IsServedBy search demand ∧
      primitive.leaf.recoverer =
        some (.fast fun s => Recoverer.wasteToOffset s (search s.scalars)) := by
  cases primitive with
  | char expected =>
    have hleaf : MatchesScalar (char expected).leaf (· == expected) := matchesScalar_iff
    exact ⟨_, _, hleaf.isServedBy, rfl⟩
  | satisfy label p =>
    have hleaf : MatchesScalar (satisfy label p).leaf p := matchesScalar_iff
    exact ⟨_, _, hleaf.isServedBy, rfl⟩
  | literal expected =>
    have hexpected : expected ≠ "" := h
    have hnonempty : ¬ expected.isEmpty = true := by simpa using hexpected
    refine ⟨_, _, literal_isServedBy hexpected, ?_⟩
    rw [leaf, if_neg hnonempty]
    rfl
  | anyChar =>
    have hleaf : MatchesScalar anyChar.leaf fun _ => true := matchesScalar_iff
    exact ⟨_, _, hleaf.isServedBy, rfl⟩
  | someDigits => exact ⟨_, _, matchesScalar_someDigits.isServedBy, rfl⟩
  | digits => exact h.elim
  | endOfInput => exact h.elim
  | upTo stop => exact h.elim
  | byte expected => exact h.elim
  | anyByte => exact h.elim

/-- On raw bytes the recoverer of a primitive that reads scalars sees the bytes ahead up to the first
    ill-formed one. It answers with the least number of them after which the leaf matches, and with
    too much waste just where the leaf matches after none of them. That is the least number of all,
    or right to be too much, unless the leaf matches behind the ill-formed byte only. -/
theorem recoverer_stops_at_malformed (hprimitive : primitive.ConsumesScalars)
    (hbinary : input.binary = true) (hs : s.SitsOn input) :
    ∃ waste, primitive.leaf.recoverer = some (.fast waste) ∧
      (∀ count, waste s = .units count ↔ count < Utf8.width s.scalars ∧
        primitive.leaf.Accepts (s.moveByUnits count) ∧
        ∀ fewer < count, ¬ primitive.leaf.Accepts (s.moveByUnits fewer)) ∧
      (waste s = .tooMuch ↔ ∀ count < Utf8.width s.scalars,
        ¬ primitive.leaf.Accepts (s.moveByUnits count)) ∧
      (primitive.leaf.ExactAt waste s ↔
        ((∃ count, primitive.leaf.Accepts (s.moveByUnits count)) →
          ∃ count < Utf8.width s.scalars, primitive.leaf.Accepts (s.moveByUnits count))) := by
  obtain ⟨search, demand, hserved, hrecoverer⟩ := hprimitive.exists_isServedBy
  have hwithin := hserved.exactWithin hbinary hs
  refine ⟨_, hrecoverer, fun count => ?_, ?_, ?_⟩
  · exact hwithin.waste_eq_units_iff count
  · exact hwithin.waste_eq_tooMuch_iff
  · exact hwithin.exactAt_iff

/-- A letter behind a byte that begins no scalar is matched there, and not found from before it. -/
theorem recoverer_stops_at_malformed_letter :
    (char 'a').ConsumesScalars ∧ (Input.ofBytes [0xFF, 0x61]).binary = true ∧
      (State.start (Input.ofBytes [0xFF, 0x61])).SitsOn (Input.ofBytes [0xFF, 0x61]) ∧
      ∃ waste, (char 'a').leaf.recoverer = some (.fast waste) ∧
        waste (State.start (Input.ofBytes [0xFF, 0x61])) = .tooMuch ∧
        (char 'a').leaf.Accepts ((State.start (Input.ofBytes [0xFF, 0x61])).moveByUnits 1) ∧
        ¬ (char 'a').leaf.ExactAt waste (State.start (Input.ofBytes [0xFF, 0x61])) := by
  have hprimitive : (char 'a').ConsumesScalars := trivial
  have hs := State.start_sitsOn (Input.ofBytes [0xFF, 0x61])
  have hnothing : Utf8.width (State.start (Input.ofBytes [0xFF, 0x61])).scalars = 0 := by decide
  have haccepts : (char 'a').leaf.Accepts
      ((State.start (Input.ofBytes [0xFF, 0x61])).moveByUnits 1) := ⟨_, rfl⟩
  obtain ⟨waste, hrecoverer, -, htooMuch, hexact⟩ := recoverer_stops_at_malformed hprimitive rfl hs
  rw [hnothing] at htooMuch hexact
  refine ⟨hprimitive, rfl, hs, waste, hrecoverer, htooMuch.2 ?_, haccepts, ?_⟩
  · exact fun count hlt => absurd hlt (Nat.not_lt_zero count)
  · intro h
    obtain ⟨count, hlt, -⟩ := hexact.1 h ⟨1, haccepts⟩
    exact Nat.not_lt_zero count hlt

end Primitive

end Resync
