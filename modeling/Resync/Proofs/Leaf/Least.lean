import Resync.Proofs.Probing.Leaf

namespace Resync

namespace Leaf

variable {leaf : Leaf} {input : Input} {waste : State → Waste} {s : State}

/-- Behind the end a leaf matches only as it does at the end, so no more units than are left need be
    looked at. -/
theorem Positional.accepts_of_units_le (hleaf : leaf.Positional input) (hs : s.SitsOn input)
    {count : Nat} (hle : input.units s.pos input.size ≤ count)
    (haccepts : leaf.Accepts (s.moveByUnits count)) :
    leaf.Accepts (s.moveByUnits (input.units s.pos input.size)) := by
  refine hleaf _ _ (hs.moveByUnits _) (hs.moveByUnits _) ?_ haccepts
  rw [hs.moveByUnits_pos_of_units_le hle, hs.moveByUnits_pos_of_units_le (Nat.le_refl _)]

/-- An exact recoverer answers with a number of units if it is the least one, among those that are
    left, after which the leaf matches. -/
theorem ExactAt.waste_eq_units_iff (h : leaf.ExactAt waste s) (hleaf : leaf.Positional input)
    (hs : s.SitsOn input) (count : Nat) :
    waste s = .units count ↔ count ≤ input.units s.pos input.size ∧
      leaf.Accepts (s.moveByUnits count) ∧ ∀ fewer < count, ¬ leaf.Accepts (s.moveByUnits fewer) := by
  rw [ExactAt] at h
  cases hwaste : waste s with
  | units least =>
    rw [hwaste] at h
    obtain ⟨haccepts, hleast⟩ := h
    rw [Waste.units.injEq]
    constructor
    · rintro rfl
      refine ⟨?_, haccepts, hleast⟩
      -- More units than are left lead no further than to the end.
      by_contra hover
      exact hleast _ (Nat.not_le.1 hover)
        (hleaf.accepts_of_units_le hs (Nat.le_of_not_le hover) haccepts)
    · rintro ⟨-, haccepts', hleast'⟩
      obtain hlt | heq | hlt := Nat.lt_trichotomy least count
      · exact absurd haccepts (hleast' least hlt)
      · exact heq
      · exact absurd haccepts' (hleast count hlt)
  | tooMuch =>
    rw [hwaste] at h
    constructor
    · intro hunits
      cases hunits
    · rintro ⟨-, haccepts, -⟩
      exact absurd haccepts (h count)
  | never =>
    rw [hwaste] at h
    exact h.elim

/-- An exact recoverer answers that there is too much waste if the leaf matches after no number of
    units that are left. -/
theorem ExactAt.waste_eq_tooMuch_iff (h : leaf.ExactAt waste s) (hleaf : leaf.Positional input)
    (hs : s.SitsOn input) :
    waste s = .tooMuch ↔
      ∀ count ≤ input.units s.pos input.size, ¬ leaf.Accepts (s.moveByUnits count) := by
  have hunits := h.waste_eq_units_iff hleaf hs
  rw [ExactAt] at h
  cases hwaste : waste s with
  | units least =>
    obtain ⟨hle, haccepts, -⟩ := (hunits least).1 hwaste
    constructor
    · intro htooMuch
      cases htooMuch
    · intro hnone
      exact absurd haccepts (hnone least hle)
  | tooMuch =>
    rw [hwaste] at h
    exact iff_of_true rfl fun count _ => h count
  | never =>
    rw [hwaste] at h
    exact h.elim

end Leaf

namespace Primitive

variable {primitive : Primitive} {input : Input} {s : State}

/-- The primitives that consume what they match, with the kind of input that they read: scalars of a
    text or raw bytes. -/
def ReadsKind (input : Input) : Primitive → Prop
  | char _ | satisfy _ _ | anyChar | someDigits => input.binary = false
  | literal expected => expected ≠ "" ∧ input.binary = false
  | byte _ | anyByte => input.binary = true
  | digits | endOfInput | upTo _ => False

/-- A primitive that reads its kind of input has an exact recoverer: searches over scalars are exact
    on text, and searches over bytes on raw bytes. -/
theorem ReadsKind.exists_exactAt (h : primitive.ReadsKind input) :
    ∃ waste, primitive.leaf.recoverer = some (.fast waste) ∧
      ∀ s : State, s.SitsOn input → primitive.leaf.ExactAt waste s := by
  cases primitive with
  | char expected => exact ⟨_, rfl, fun _ hs => MatchesScalar.exactAt_find matchesScalar_iff h hs⟩
  | satisfy label p => exact ⟨_, rfl, fun _ hs => MatchesScalar.exactAt_find matchesScalar_iff h hs⟩
  | literal expected =>
    obtain ⟨hexpected, htext⟩ := h
    have hnonempty : ¬ expected.isEmpty = true := by simpa using hexpected
    refine ⟨_, ?_, fun _ hs => exactAt_findText hexpected htext hs⟩
    rw [leaf, if_neg hnonempty]
    rfl
  | anyChar => exact ⟨_, rfl, fun _ hs => MatchesScalar.exactAt_find matchesScalar_iff h hs⟩
  | someDigits => exact ⟨_, rfl, fun _ hs => matchesScalar_someDigits.exactAt_find h hs⟩
  | byte expected => exact ⟨_, rfl, fun _ hs => MatchesByte.exactAt_findByte matchesByte_iff h hs⟩
  | anyByte => exact ⟨_, rfl, fun _ hs => exactAt_anyByteWaste h hs⟩
  | digits => exact h.elim
  | endOfInput => exact h.elim
  | upTo stop => exact h.elim

/-- The recoverer of a primitive leaf that consumes answers with the least number of units, among
    those that are left, after which the leaf matches, and with too much waste just where the leaf
    matches after none of them. -/
theorem recoverer_finds_least (hkind : primitive.ReadsKind input) (hs : s.SitsOn input) :
    ∃ waste, primitive.leaf.recoverer = some (.fast waste) ∧
      (∀ count, waste s = .units count ↔ count ≤ input.units s.pos input.size ∧
        primitive.leaf.Accepts (s.moveByUnits count) ∧
        ∀ fewer < count, ¬ primitive.leaf.Accepts (s.moveByUnits fewer)) ∧
      (waste s = .tooMuch ↔ ∀ count ≤ input.units s.pos input.size,
        ¬ primitive.leaf.Accepts (s.moveByUnits count)) := by
  obtain ⟨waste, hrecoverer, hexact⟩ := hkind.exists_exactAt
  have hleaf := primitive.positional input
  have hhere : primitive.leaf.ExactAt waste s := hexact s hs
  refine ⟨waste, hrecoverer, fun count => ?_, ?_⟩
  · exact hhere.waste_eq_units_iff hleaf hs count
  · exact hhere.waste_eq_tooMuch_iff hleaf hs

/-- The text occurs behind one scalar, with which it begins too. The search does not pass over that
    occurrence. -/
theorem recoverer_finds_least_overlapping :
    (literal "ééb").ReadsKind (Input.text "éééb") ∧
      (State.start (Input.text "éééb")).SitsOn (Input.text "éééb") ∧
      ∃ waste, (literal "ééb").leaf.recoverer = some (.fast waste) ∧
        waste (State.start (Input.text "éééb")) = .units 1 := by
  have hkind : (literal "ééb").ReadsKind (Input.text "éééb") := ⟨by decide, rfl⟩
  have hs := State.start_sitsOn (Input.text "éééb")
  obtain ⟨waste, hrecoverer, hunits, -⟩ := recoverer_finds_least hkind hs
  refine ⟨hkind, hs, waste, hrecoverer, (hunits 1).2 ⟨by decide, ⟨_, rfl⟩, ?_⟩⟩
  intro fewer hfewer haccepts
  obtain rfl := Nat.lt_one_iff.1 hfewer
  obtain ⟨found, hfound⟩ := haccepts
  cases hfound

end Primitive

end Resync
