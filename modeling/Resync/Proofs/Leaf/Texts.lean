import Resync.Proofs.Leaf.Promises

namespace Resync

/-- As many bytes as the first scalars are encoded in are cut off as these. -/
theorem Utf8.cut?_width (front back : List Char) :
    cut? (width front) (front ++ back) = some front := by
  induction front with
  | nil => rw [width_nil, cut?]
  | cons c front ih =>
    have hpos := c.utf8Size_pos
    obtain ⟨count, hcount⟩ := Nat.exists_eq_add_one_of_ne_zero (n := width (c :: front)) (by
      rw [width_cons]
      omega)
    have hrest : count + 1 - c.utf8Size = width front := by
      rw [← hcount, width_cons, Nat.add_sub_cancel_left]
    have hfits : c.utf8Size ≤ count + 1 := by
      rw [← hcount, width_cons]
      omega
    rw [hcount, List.cons_append, cut?, if_pos hfits, hrest, ih]
    rfl

namespace State

/-- Just these scalars stand from a cursor to another one. -/
structure Spans (s stop : State) (cs : List Char) : Prop where
  input_eq : stop.input = s.input
  pos_eq : stop.pos = s.pos + Utf8.width cs
  bytes : Utf8.encode cs <+: s.currentBytes

variable {s t u : State} {input : Input} {cs ds : List Char}

theorem spans_refl (s : State) : s.Spans s [] :=
  ⟨rfl, rfl, List.nil_prefix⟩

/-- Stretches of text are put together end to end, also in raw bytes. -/
theorem Spans.trans (h : s.Spans t cs) (h' : t.Spans u ds) : s.Spans u (cs ++ ds) := by
  refine ⟨h'.input_eq.trans h.input_eq, ?_, ?_⟩
  · rw [h'.pos_eq, h.pos_eq, Utf8.width_append, Nat.add_assoc]
  · obtain ⟨rest, hrest⟩ := h.bytes
    obtain ⟨rest', hrest'⟩ := h'.bytes
    have hbehind : t.currentBytes = rest := by
      rw [currentBytes, h.input_eq, h.pos_eq, ← List.drop_drop]
      change s.currentBytes.drop (Utf8.width cs) = rest
      rw [← hrest, List.drop_left' (Utf8.length_encode cs)]
    refine ⟨rest', ?_⟩
    rw [Utf8.encode_append, List.append_assoc, hrest', hbehind, hrest]

theorem Spans.markSafeSpot (h : s.Spans t cs) : s.Spans t.markSafeSpot cs :=
  ⟨h.input_eq, h.pos_eq, h.bytes⟩

/-- Nothing stands between cursors at one place, or back from a cursor. -/
theorem Spans.eq_nil_of_pos_le (h : s.Spans t cs) (hle : t.pos ≤ s.pos) : cs = [] := by
  have hlength := Utf8.length_le_width cs
  have hpos := h.pos_eq
  exact List.eq_nil_of_length_eq_zero (by omega)

/-- The text between two cursors is made of the scalars that stand there. -/
theorem Spans.stringTo_eq (h : s.Spans t cs) : s.stringTo t = String.ofList cs := by
  unfold stringTo
  split
  · next hle =>
    rw [h.eq_nil_of_pos_le hle]
  · obtain ⟨rest, hrest⟩ := h.bytes
    have hscalars : s.scalars = cs ++ Utf8.decodeLongest rest := by
      rw [← Utf8.decodeLongest_encode_append, hrest]
      rfl
    rw [h.pos_eq, Nat.add_sub_cancel_left, hscalars, Utf8.cut?_width]
    rfl

/-- The bytes between two cursors are those of the scalars that stand there. -/
theorem Spans.bytesTo_eq (h : s.Spans t cs) : s.bytesTo t = Utf8.encode cs := by
  unfold bytesTo
  split
  · next hle =>
    rw [h.eq_nil_of_pos_le hle]
    rfl
  · obtain ⟨rest, hrest⟩ := h.bytes
    rw [Input.slice, h.pos_eq, Nat.add_sub_cancel_left]
    change s.currentBytes.take (Utf8.width cs) = Utf8.encode cs
    rw [← hrest, List.take_left' (Utf8.length_encode cs)]

/-- A move by scalars that can be read goes over these and no others. -/
theorem SitsOn.spans_moveBy (h : s.SitsOn input) {front back : List Char}
    (hsplit : s.scalars = front ++ back) : s.Spans (s.moveBy (Utf8.width front)) front := by
  obtain ⟨rest, hbytes, -⟩ := exists_currentBytes s
  refine ⟨rfl, (h.moveBy_width hsplit).1, Utf8.encode back ++ rest, ?_⟩
  rw [hbytes, hsplit, Utf8.encode_append, List.append_assoc]

end State

namespace Primitive

variable {primitive : Primitive} {s stop : State} {input : Input}

private theorem spans_matchScalar (hs : s.SitsOn input) {label : String} {p : Char → Bool}
    {c : Char} (h : matchScalar label p s = .ok (stop, c)) :
    s.Spans stop (String.singleton c).toList := by
  unfold matchScalar at h
  split at h
  · next found rest hscalars =>
    split at h
    · cases h
      have hone : s.scalars = [c] ++ rest := hscalars
      rw [String.toList_singleton]
      exact hs.spans_moveBy hone
    · cases h
  · cases h

/-- A text that is matched stands between the start and the end of the match. -/
private theorem spans_matchText (hs : s.SitsOn input) {expected found : String}
    (h : matchText expected s = .ok (stop, found)) : s.Spans stop found.toList := by
  unfold matchText at h
  split at h
  · next hprefix =>
    cases h
    obtain ⟨back, hback⟩ := List.isPrefixOf_iff_prefix.1 hprefix
    rw [Utf8.utf8ByteSize_eq_width]
    exact hs.spans_moveBy hback.symm
  · cases h

private theorem spans_matchDigits (hs : s.SitsOn input) :
    s.Spans (matchDigits s).1 (matchDigits s).2.toList := by
  rw [matchDigits, String.toList_ofList]
  exact hs.spans_moveBy List.takeWhile_append_dropWhile.symm

private theorem spans_matchSomeDigits (hs : s.SitsOn input) {found : String}
    (h : matchSomeDigits s = .ok (stop, found)) : s.Spans stop found.toList := by
  unfold matchSomeDigits at h
  split at h
  · cases h
  · have hdigits := spans_matchDigits hs
    rw [Except.ok.inj h] at hdigits
    exact hdigits

private theorem spans_matchEnd {found : Unit} (h : matchEnd s = .ok (stop, found)) :
    s.Spans stop [] := by
  unfold matchEnd at h
  split at h
  · cases h
    exact s.spans_refl
  · cases h

/-- What is matched up to a text stands between the start and the end of the match. -/
private theorem spans_matchUpTo (hs : s.SitsOn input) {text found : String}
    (h : matchUpTo text s = .ok (stop, found)) : s.Spans stop found.toList := by
  unfold matchUpTo at h
  split at h
  · next offset hoffset =>
    cases h
    obtain ⟨front, back, hsplit, -, rfl⟩ := Recoverer.exists_append_of_offsetOfList? hoffset
    have hspans := hs.spans_moveBy hsplit
    rw [hspans.stringTo_eq, String.toList_ofList]
    exact hspans
  · cases h

/-- A leaf that reads scalars and matches has read the text of its output: just that stands from its
    end back to its start. -/
theorem spans_run (hreads : primitive.ReadsScalars) (hs : s.SitsOn input)
    {value : primitive.leaf.type.Val} (h : primitive.leaf.run s = .ok (stop, value)) :
    s.Spans stop (Output.mk primitive.leaf.type value).toText.toList := by
  cases primitive with
  | char expected => exact spans_matchScalar hs h
  | satisfy label p => exact spans_matchScalar hs h
  | literal expected => exact spans_matchText hs h
  | anyChar => exact spans_matchScalar hs h
  | digits =>
    have hdigits := spans_matchDigits hs
    rw [Except.ok.inj h] at hdigits
    exact hdigits
  | someDigits => exact spans_matchSomeDigits hs h
  | endOfInput => exact spans_matchEnd h
  | upTo text => exact spans_matchUpTo hs h
  | byte expected => exact hreads.elim
  | anyByte => exact hreads.elim

end Primitive

end Resync
