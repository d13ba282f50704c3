import Resync.Proofs.Leaf.Texts

namespace Resync

namespace Utf8

/-- What is cut off begins the scalars and has the width that was asked for. If the cut falls inside
    a scalar, there is nothing to be cut off. -/
theorem exists_append_of_cut? {count : Nat} {cs front : List Char}
    (h : cut? count cs = some front) : ∃ back, cs = front ++ back ∧ width front = count := by
  induction cs generalizing count front with
  | nil =>
    cases count with
    | zero =>
      cases h
      exact ⟨[], rfl, rfl⟩
    | succ count => cases h
  | cons c cs ih =>
    cases count with
    | zero =>
      cases h
      exact ⟨c :: cs, rfl, rfl⟩
    | succ count =>
      rw [cut?, Option.ite_none_right_eq_some] at h
      obtain ⟨hfits, h⟩ := h
      obtain ⟨rest, hrest, rfl⟩ := Option.map_eq_some_iff.1 h
      obtain ⟨back, rfl, hwidth⟩ := ih hrest
      exact ⟨back, rfl, by rw [width_cons]; omega⟩

/-- Bytes that encode scalars are read as these, as no other scalars have the same bytes. -/
theorem fromUTF8?_encode (cs : List Char) :
    String.fromUTF8? (encode cs).toByteArray = some (String.ofList cs) :=
  dif_pos (.intro cs rfl)

/-- Bytes that encode no scalars are not read, not even in part. -/
theorem fromUTF8?_eq_none {bytes : List UInt8} (h : ∀ cs, bytes ≠ encode cs) :
    String.fromUTF8? bytes.toByteArray = none := by
  refine dif_neg ?_
  rintro ⟨cs, hcs⟩
  have hbytes := congrArg (fun b => b.data.toList) hcs
  rw [List.utf8Encode] at hbytes
  exact h cs (by simpa [encode] using hbytes)

end Utf8

namespace State

variable {s t : State} {input : Input} {cs : List Char}

/-- From a cursor to one ahead stand the first bytes that are ahead, and no fewer. -/
theorem bytesTo_eq_take (hlt : s.pos < t.pos) :
    s.bytesTo t = s.currentBytes.take (t.pos - s.pos) :=
  if_neg (Nat.not_le.2 hlt)

/-- Between a cursor and one ahead stand as many bytes as their places differ by. -/
theorem length_bytesTo (ht : t.pos ≤ s.input.size) : (s.bytesTo t).length = t.pos - s.pos := by
  unfold bytesTo
  split
  · next hle => rw [Nat.sub_eq_zero_of_le hle, List.length_nil]
  · rw [Input.size] at ht
    rw [Input.slice, List.length_take, List.length_drop]
    omega

/-- The bytes up to a cursor ahead stand between its place and that of the first one. -/
theorem exists_append_bytesTo (hlt : s.pos < t.pos) (ht : t.pos ≤ s.input.size) :
    ∃ before after, s.input.bytes = before ++ s.bytesTo t ++ after ∧ before.length = s.pos ∧
      (before ++ s.bytesTo t).length = t.pos := by
  have hle := Nat.le_of_lt hlt
  have hbefore := s.input.length_take_bytes (Nat.le_trans hle ht)
  refine ⟨s.input.bytes.take s.pos, s.input.bytes.drop t.pos, ?_, hbefore, ?_⟩
  · rw [bytesTo, if_neg (Nat.not_le.2 hlt), s.input.take_append_slice hle, List.take_append_drop]
  · rw [List.length_append, hbefore, length_bytesTo ht]
    omega

/-- The bytes between two places are the same in any input that begins as this one up to the second
    place. -/
theorem bytesTo_eq_of_take_eq {s' t' : State} (hs : s'.pos = s.pos) (ht : t'.pos = t.pos)
    (hsame : s'.input.bytes.take t.pos = s.input.bytes.take t.pos) :
    s'.bytesTo t' = s.bytesTo t := by
  rw [bytesTo, bytesTo, hs, ht, Input.slice, Input.slice, ← List.drop_take, ← List.drop_take, hsame]

/-- Bytes in between that encode scalars span these, also if the first cursor stands inside a
    scalar. -/
theorem spans_of_bytesTo_eq (hinput : t.input = s.input) (ht : t.pos ≤ s.input.size)
    (hlt : s.pos < t.pos) (hbytes : s.bytesTo t = Utf8.encode cs) : s.Spans t cs where
  input_eq := hinput
  pos_eq := by
    have hlength := length_bytesTo ht
    rw [hbytes, Utf8.length_encode] at hlength
    omega
  bytes := by
    rw [← hbytes, bytesTo_eq_take hlt]
    exact List.take_prefix ..

/-- Scalars that are cut off at a cursor ahead span the bytes up to it. -/
theorem spans_of_cut? (hinput : t.input = s.input) (hlt : s.pos < t.pos)
    (hcut : Utf8.cut? (t.pos - s.pos) s.scalars = some cs) : s.Spans t cs := by
  obtain ⟨back, hscalars, hwidth⟩ := Utf8.exists_append_of_cut? hcut
  obtain ⟨rest, hbytes, -⟩ := s.exists_currentBytes
  refine ⟨hinput, by omega, Utf8.encode back ++ rest, ?_⟩
  rw [hbytes, hscalars, Utf8.encode_append, List.append_assoc]

/-- The text between two cursors is what the bytes in between encode, and empty if these encode
    nothing. Both ways of reading it stop at the same ill-formed byte. -/
theorem stringTo_eq_fromUTF8? (hinput : t.input = s.input) (ht : t.pos ≤ s.input.size) :
    s.stringTo t = (String.fromUTF8? (s.bytesTo t).toByteArray).getD "" := by
  by_cases hle : t.pos ≤ s.pos
  · rw [stringTo, bytesTo, if_pos hle, if_pos hle]
    exact congrArg (·.getD "") (Utf8.fromUTF8?_encode []).symm
  have hlt := Nat.not_le.1 hle
  cases hcut : Utf8.cut? (t.pos - s.pos) s.scalars with
  | some cs =>
    have hspans := spans_of_cut? hinput hlt hcut
    rw [hspans.stringTo_eq, hspans.bytesTo_eq, Utf8.fromUTF8?_encode, Option.getD_some]
  | none =>
    have hnone (cs : List Char) : s.bytesTo t ≠ Utf8.encode cs := by
      intro hbytes
      -- What encodes scalars is read as them from the first cursor, whatever follows.
      have hspans := spans_of_bytesTo_eq hinput ht hlt hbytes
      obtain ⟨rest, hrest⟩ := hspans.bytes
      have hscalars : s.scalars = cs ++ Utf8.decodeLongest rest := by
        rw [← Utf8.decodeLongest_encode_append, hrest]
        rfl
      rw [hspans.pos_eq, Nat.add_sub_cancel_left, hscalars, Utf8.cut?_width] at hcut
      cases hcut
    rw [Utf8.fromUTF8?_eq_none hnone, stringTo, if_neg hle, hcut]
    rfl

/-- Each cursor of an input stands inside the input of any other one, since it is the same input. -/
theorem Reached.pos_le_size_of (hs : s.Reached input) (ht : t.Reached input) :
    t.pos ≤ s.input.size := by
  rw [hs.input_eq, ← ht.input_eq]
  exact ht.scanned.pos_le

/-- The bytes between two cursors of an input are those from the place of the first one up to the place
    of the second one, and none if that is not ahead. The text between them is what these bytes encode,
    if they are well-formed, and otherwise it is empty. So it is the same in any input that begins with
    the same bytes up to the second cursor. -/
theorem stringTo_decodes_slice (hs : s.Reached input) (ht : t.Reached input) :
    (t.pos ≤ s.pos → s.bytesTo t = [] ∧ s.stringTo t = "") ∧
      (s.pos < t.pos → ∃ before after, input.bytes = before ++ s.bytesTo t ++ after ∧
        before.length = s.pos ∧ (before ++ s.bytesTo t).length = t.pos) ∧
      s.stringTo t = (String.fromUTF8? (s.bytesTo t).toByteArray).getD "" ∧
      ∀ (other : Input) (s' t' : State), s'.Reached other → t'.Reached other → s'.pos = s.pos →
        t'.pos = t.pos → other.bytes.take t.pos = input.bytes.take t.pos →
        s'.bytesTo t' = s.bytesTo t ∧ s'.stringTo t' = s.stringTo t := by
  have hinside := hs.pos_le_size_of ht
  have hinput := ht.input_eq.trans hs.input_eq.symm
  have hdecoded := stringTo_eq_fromUTF8? hinput hinside
  refine ⟨fun hle => ⟨if_pos hle, if_pos hle⟩, fun hlt => ?_, hdecoded, ?_⟩
  · rw [← hs.input_eq]
    exact exists_append_bytesTo hlt hinside
  · intro other s' t' hs' ht' hspos htpos hsame
    rw [← hs'.input_eq, ← hs.input_eq] at hsame
    have hbytes := bytesTo_eq_of_take_eq hspos htpos hsame
    have hinput' := ht'.input_eq.trans hs'.input_eq.symm
    refine ⟨hbytes, ?_⟩
    rw [stringTo_eq_fromUTF8? hinput' (hs'.pos_le_size_of ht'), hbytes, hdecoded]

/-- A scalar of two bytes is read between the cursors, before a byte that belongs to none as well as
    before one that begins another scalar. Back from its end there is nothing. -/
theorem stringTo_decodes_slice_any_rest :
    let input := Input.ofBytes [0x61, 0xC3, 0xA9, 0xFF]
    let other := Input.ofBytes [0x61, 0xC3, 0xA9, 0xC3, 0xA9]
    let s := (start input).moveBy 1
    let t := (start input).moveBy 3
    s.Reached input ∧ t.Reached input ∧ s.bytesTo t = [0xC3, 0xA9] ∧ s.stringTo t = "é" ∧
      ((start other).moveBy 1).stringTo ((start other).moveBy 3) = "é" ∧ t.stringTo s = "" := by
  intro input other s t
  have hs : s.Reached input := .moveBy 1 .start
  have ht : t.Reached input := .moveBy 3 .start
  have hbytes : s.bytesTo t = Utf8.encode ['é'] := by decide
  obtain ⟨-, -, hdecoded, hany⟩ := stringTo_decodes_slice hs ht
  have htext : s.stringTo t = "é" := by
    rw [hdecoded, hbytes, Utf8.fromUTF8?_encode]
    rfl
  obtain ⟨-, hother⟩ := hany other _ _ (.moveBy 1 .start) (.moveBy 3 .start) (by decide) (by decide)
    (by decide)
  obtain ⟨hback, -⟩ := stringTo_decodes_slice ht hs
  exact ⟨hs, ht, hbytes, htext, hother.trans htext, (hback (by decide)).2⟩

end State

end Resync
