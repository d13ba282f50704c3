import Resync.Proofs.Leaf.Consumption
import Resync.Proofs.Leaf.Exact
import Resync.Proofs.Leaf.Moves

namespace Resync

namespace State

variable {s : State} {input : Input}

/-- What can be read begins the bytes ahead, and nothing can be read behind it, where the input ends
    or a byte belongs to no scalar. -/
theorem exists_currentBytes (s : State) :
    ∃ rest, s.currentBytes = Utf8.encode s.scalars ++ rest ∧ Utf8.decodeLongest rest = [] := by
  obtain ⟨rest, hrest⟩ := Utf8.exists_encode_append_of_decodeAtMost s.currentBytes.length
    s.currentBytes
  refine ⟨rest, hrest, ?_⟩
  have hread : s.scalars ++ Utf8.decodeLongest rest = s.scalars ++ [] := by
    rw [← Utf8.decodeLongest_encode_append, List.append_nil]
    exact (congrArg Utf8.decodeLongest hrest).symm
  exact List.append_cancel_left hread

/-- A move by scalars that can be read passes just these, also in raw bytes: on text the end of the
    move is a boundary already, and raw bytes have boundaries everywhere. -/
theorem SitsOn.moveBy_width (h : s.SitsOn input) {front back : List Char}
    (hsplit : s.scalars = front ++ back) :
    (s.moveBy (Utf8.width front)).pos = s.pos + Utf8.width front ∧
      (s.moveBy (Utf8.width front)).scalars = back := by
  obtain ⟨rest, hbytes, hrest⟩ := exists_currentBytes s
  have hle : s.pos + Utf8.width front ≤ s.input.size := by
    have hlength := congrArg List.length hbytes
    rw [List.length_append, Utf8.length_encode, hsplit, Utf8.width_append, currentBytes,
      List.length_drop] at hlength
    have hpos := h.pos_le_size
    rw [← h.input_eq, Input.size] at hpos
    rw [Input.size]
    omega
  have hpos : (s.moveBy (Utf8.width front)).pos = s.pos + Utf8.width front := by
    rw [moveBy_pos, Nat.min_eq_left hle, h.input_eq]
    by_cases hbinary : input.binary = true
    · rw [Input.align, if_pos hbinary]
    · obtain ⟨before, hall, hwidth⟩ := h.exists_append (by simpa using hbinary)
      rw [hsplit, ← List.append_assoc] at hall
      rw [← hwidth, ← Utf8.width_append]
      exact (Input.isBoundary_of_append hall).align_eq
  refine ⟨hpos, ?_⟩
  have hahead : s.input.bytes.drop (s.pos + Utf8.width front) = Utf8.encode back ++ rest := by
    rw [← List.drop_drop, ← currentBytes, hbytes, hsplit, Utf8.encode_append, List.append_assoc,
      List.drop_left' (Utf8.length_encode front)]
  rw [scalars, Input.scalarsFrom, hpos, moveBy_input, hahead, Utf8.decodeLongest_encode_append,
    hrest, List.append_nil]

end State

namespace Leaf

variable {leaf : Leaf} {input : Input} {s : State}

/-- Counting the units up to a match and moving by as many leads to the match. -/
theorem accepts_of_wasteTo (hleaf : leaf.Positional input) (hs : s.SitsOn input)
    {offset count : Nat} (haccepts : leaf.Accepts (s.moveBy offset))
    (hcount : wasteTo s offset = .units count) :
    leaf.Accepts (s.moveByUnits count) := by
  cases hcount
  have hmoved := hs.moveBy offset
  have htarget := hs.moveByUnits_unitsTo hmoved (hs.pos_le_moveBy offset)
  exact hleaf _ _ hmoved (hs.moveByUnits _) htarget.symm haccepts

/-- A search for a scalar leads to a match of a leaf that matches wherever the scalar stands. -/
theorem accepts_of_find {p : Char → Bool} (hleaf : leaf.Positional input) (hs : s.SitsOn input)
    (hmatch : ∀ {t : State} {c back}, t.scalars = c :: back → p c = true → leaf.Accepts t)
    {count : Nat}
    (hcount : Recoverer.wasteToOffset s (Recoverer.offsetOf? p s.scalars) = .units count) :
    leaf.Accepts (s.moveByUnits count) := by
  cases hoffset : Recoverer.offsetOf? p s.scalars with
  | none =>
    rw [hoffset] at hcount
    cases hcount
  | some offset =>
    rw [hoffset] at hcount
    obtain ⟨front, c, back, hsplit, hp, rfl⟩ := Recoverer.exists_append_of_offsetOf? hoffset
    exact accepts_of_wasteTo hleaf hs (hmatch (hs.moveBy_width hsplit).2 hp) hcount

end Leaf

namespace Primitive

variable {input : Input} {s : State}

/-- Whether a primitive leaf matches depends on the position alone, and not on the watermark or on
    what was read before. -/
theorem positional (primitive : Primitive) (input : Input) : primitive.leaf.Positional input := by
  rintro s t hs ht hpos ⟨found, hfound⟩
  obtain ⟨move, -, hs', ht'⟩ := sameMove_run primitive
    (State.readsLike_of_pos_eq (hs.input_eq.trans ht.input_eq.symm) hpos)
  cases move with
  | refuse label => rw [hfound] at hs'; cases hs'
  | stay value => exact ⟨_, ht'⟩
  | advance count value => exact ⟨_, ht'⟩

private theorem accepts_matchScalar {label : String} {p : Char → Bool} {c : Char}
    {back : List Char} (hscalars : s.scalars = c :: back) (hp : p c = true) :
    ∃ found, matchScalar label p s = .ok found := by
  unfold matchScalar
  rw [hscalars]
  exact ⟨_, if_pos hp⟩

private theorem accepts_matchSomeDigits {c : Char} {back : List Char}
    (hscalars : s.scalars = c :: back) (hc : isDigit c = true) :
    ∃ found, matchSomeDigits s = .ok found := by
  unfold matchSomeDigits
  rw [hscalars, List.takeWhile_cons_of_pos hc]
  exact ⟨_, rfl⟩

/-- Bytes can be read one by one only from raw bytes. -/
def Suits (input : Input) : Primitive → Prop
  | byte _ | anyByte => input.binary = true
  | _ => True

/-- Scalars can be read from any input, from text as well as from raw bytes. -/
theorem ReadsScalars.suits {primitive : Primitive} (h : primitive.ReadsScalars) (input : Input) :
    primitive.Suits input := by
  cases primitive <;> first | exact trivial | exact h.elim

/-- A search for a text leads to a match of the leaf for the text. -/
private theorem accepts_of_findText {text : String} (hs : s.SitsOn input) {count : Nat}
    (hcount : Recoverer.wasteToOffset s (Recoverer.offsetOfList? text.toList s.scalars) =
      .units count) : (literal text).leaf.Accepts (s.moveByUnits count) := by
  cases hoffset : Recoverer.offsetOfList? text.toList s.scalars with
  | none =>
    rw [hoffset] at hcount
    cases hcount
  | some offset =>
    rw [hoffset] at hcount
    obtain ⟨front, back, hsplit, hprefix, rfl⟩ :=
      Recoverer.exists_append_of_offsetOfList? hoffset
    refine Leaf.accepts_of_wasteTo (positional _ input) hs ⟨_, if_pos ?_⟩ hcount
    rw [(hs.moveBy_width hsplit).2]
    exact List.isPrefixOf_iff_prefix.2 hprefix

/-- The wastes of primitive leaves are computed, so none of them is probed unless it is made to. -/
theorem isFast {primitive : Primitive} {recoverer : Recoverer}
    (h : primitive.leaf.recoverer = some recoverer) : ∃ waste, recoverer = .fast waste := by
  cases primitive with
  | literal expected =>
    rw [leaf] at h
    cases h
    split <;> exact ⟨_, rfl⟩
  | _ => cases h; exact ⟨_, rfl⟩

/-- The place that the recoverer of a primitive leaf proposes is one at which the leaf matches, and
    it consumes what it matches there. It need not be the first such place on raw bytes that are
    read as text. -/
theorem accepts_of_waste {primitive : Primitive} (hsuits : primitive.Suits input)
    {waste : State → Waste} (hrecoverer : primitive.leaf.recoverer = some (.fast waste))
    (hs : s.SitsOn input) {count : Nat} (hcount : waste s = .units count) :
    primitive.leaf.Accepts (s.moveByUnits count) ∧ primitive.Consumes := by
  have hleaf := primitive.positional input
  cases primitive with
  | char expected =>
    cases hrecoverer
    exact ⟨Leaf.accepts_of_find hleaf hs accepts_matchScalar hcount, trivial⟩
  | satisfy label p =>
    cases hrecoverer
    exact ⟨Leaf.accepts_of_find hleaf hs accepts_matchScalar hcount, trivial⟩
  | literal expected =>
    by_cases hempty : expected.isEmpty = true
    · rw [leaf, if_pos hempty] at hrecoverer
      cases hrecoverer
      cases hcount
    · rw [leaf, if_neg hempty] at hrecoverer
      cases hrecoverer
      refine ⟨accepts_of_findText hs hcount, ?_⟩
      rintro rfl
      exact hempty rfl
  | anyChar =>
    cases hrecoverer
    exact ⟨Leaf.accepts_of_find hleaf hs accepts_matchScalar hcount, trivial⟩
  | digits => cases hrecoverer; cases hcount
  | someDigits =>
    cases hrecoverer
    exact ⟨Leaf.accepts_of_find hleaf hs accepts_matchSomeDigits hcount, trivial⟩
  | endOfInput => cases hrecoverer; cases hcount
  | upTo stop => cases hrecoverer; cases hcount
  | byte expected =>
    cases hrecoverer
    have hleaf : MatchesByte (byte expected).leaf (· == expected) := fun s => matchesByte_iff s
    exact ⟨(hleaf.exactAt_findByte hsuits hs).accepts hcount, trivial⟩
  | anyByte =>
    cases hrecoverer
    exact ⟨(exactAt_anyByteWaste hsuits hs).accepts hcount, trivial⟩

end Primitive

end Resync
