import Mathlib.Data.List.Basic
import Resync.Text.Utf8

namespace Resync.Utf8

/-- What is to hold of all bytes is checked for each of them. -/
private theorem forall_uint8 {P : UInt8 → Prop} (h : ∀ n : Fin 256, P (UInt8.ofFin n)) (b : UInt8) :
    P b := by
  simpa using h b.toFin

/-- What is written behind the first byte of a scalar are continuation bytes. -/
private theorem isContinuation_and_or (b : UInt8) :
    isContinuation (b &&& 0x3f ||| 0x80) = true := by
  revert b
  exact forall_uint8 (by decide +kernel)

private theorem isContinuation_eq_false_of_isUTF8FirstByte {b : UInt8} (h : b.IsUTF8FirstByte) :
    isContinuation b = false := by
  revert b
  exact fun {b} => forall_uint8 (P := fun b => b.IsUTF8FirstByte → isContinuation b = false)
    (by decide +kernel) b

/-- Of the bytes of one scalar all but the first are continuation bytes. So the scalars of a text
    are counted by its other bytes. -/
theorem exists_utf8EncodeChar_eq_cons (c : Char) :
    ∃ lead tail, String.utf8EncodeChar c = lead :: tail ∧ isContinuation lead = false ∧
      ∀ b ∈ tail, isContinuation b = true := by
  obtain ⟨lead, tail, htail⟩ := List.exists_cons_of_ne_nil (String.utf8EncodeChar_ne_nil (c := c))
  have hlead : lead.IsUTF8FirstByte := by
    simpa [htail] using UInt8.isUTF8FirstByte_getElem_zero_utf8EncodeChar (c := c)
  refine ⟨lead, tail, htail, isContinuation_eq_false_of_isUTF8FirstByte hlead, ?_⟩
  match h : c.utf8Size, c.utf8Size_pos, c.utf8Size_le_four with
  | 1, _, _ =>
    rw [String.utf8EncodeChar_eq_singleton h] at htail
    simp_all
  | 2, _, _ =>
    rw [String.utf8EncodeChar_eq_cons_cons h] at htail
    obtain ⟨_, rfl⟩ := List.cons.inj htail
    simp [isContinuation_and_or]
  | 3, _, _ =>
    rw [String.utf8EncodeChar_eq_cons_cons_cons h] at htail
    obtain ⟨_, rfl⟩ := List.cons.inj htail
    simp [isContinuation_and_or]
  | 4, _, _ =>
    rw [String.utf8EncodeChar_eq_cons_cons_cons_cons h] at htail
    obtain ⟨_, rfl⟩ := List.cons.inj htail
    simp [isContinuation_and_or]

/-- From inside a scalar nothing can be read, since no scalar begins with a continuation byte. -/
theorem decodeLongest_of_isContinuation {b : UInt8} (h : isContinuation b = true)
    (bytes : List UInt8) : decodeLongest (b :: bytes) = [] := by
  rw [decodeLongest, List.length_cons, decodeAtMost]
  cases hfirst : decodeFirst? (b :: bytes) with
  | none => rfl
  | some c =>
    obtain ⟨rest, hrest⟩ := exists_of_decodeFirst?_eq_some hfirst
    obtain ⟨lead, tail, hlead, hstarts, -⟩ := exists_utf8EncodeChar_eq_cons c
    rw [hlead] at hrest
    cases hrest
    rw [hstarts] at h
    cases h

/-- Each scalar has one byte that is no continuation byte, so there are as many of these as
    scalars. -/
theorem countP_encode (cs : List Char) :
    (encode cs).countP (fun b => !isContinuation b) = cs.length := by
  induction cs with
  | nil => rfl
  | cons c cs ih =>
    obtain ⟨lead, tail, hcons, hlead, htail⟩ := exists_utf8EncodeChar_eq_cons c
    have hnone : tail.countP (fun b => !isContinuation b) = 0 := by
      rw [List.countP_eq_zero]
      intro b hb
      simp [htail b hb]
    rw [encode_cons, List.countP_append, ih, hcons, List.countP_cons, hnone]
    simp [hlead, Nat.add_comm]

/-- A text is told by its bytes. -/
theorem encode_injective : Function.Injective encode := by
  intro cs ds h
  have hcs := decode?_eq_some_iff.2 (rfl : encode cs = encode cs)
  have hds := decode?_eq_some_iff.2 h
  exact Option.some.inj (hcs.symm.trans hds)

/-- Where a scalar or nothing follows, no continuation byte stands. This is one half of telling
    where scalars begin. -/
theorem isContinuation_of_getElem?_encode_append {front back : List Char} {b : UInt8}
    (hb : (encode (front ++ back))[width front]? = some b) : isContinuation b = false := by
  rw [encode_append, List.getElem?_append_right (Nat.le_of_eq (length_encode front)), length_encode,
    Nat.sub_self] at hb
  cases back with
  | nil => simp at hb
  | cons c back =>
    obtain ⟨lead, tail, hcons, hlead, _⟩ := exists_utf8EncodeChar_eq_cons c
    rw [encode_cons, hcons] at hb
    simp only [List.cons_append, List.getElem?_cons_zero, Option.some.injEq] at hb
    rwa [← hb]

/-- An offset without a continuation byte lies between two scalars. This is the other half of
    telling where scalars begin. -/
theorem exists_append_of_not_isContinuation {cs : List Char} {pos : Nat} (hpos : pos ≤ width cs)
    (hb : ∀ b, (encode cs)[pos]? = some b → isContinuation b = false) :
    ∃ front back, cs = front ++ back ∧ width front = pos := by
  induction cs generalizing pos with
  | nil => exact ⟨[], [], rfl, (Nat.le_zero.1 hpos).symm⟩
  | cons c cs ih =>
    obtain ⟨lead, tail, hcons, _, htail⟩ := exists_utf8EncodeChar_eq_cons c
    have hsize : (String.utf8EncodeChar c).length = c.utf8Size := String.length_utf8EncodeChar c
    by_cases hzero : pos = 0
    · exact ⟨[], c :: cs, rfl, by simp [hzero]⟩
    by_cases hinside : pos < c.utf8Size
    · exfalso
      obtain ⟨before, rfl⟩ := Nat.exists_eq_succ_of_ne_zero hzero
      have hlt : before < tail.length := by
        rw [hcons, List.length_cons] at hsize
        omega
      have hat : (encode (c :: cs))[before + 1]? = some tail[before] := by
        rw [encode_cons, hcons, List.cons_append, List.getElem?_cons_succ,
          List.getElem?_append_left hlt, List.getElem?_eq_getElem hlt]
      have hfalse := hb _ hat
      rw [htail _ (List.getElem_mem hlt)] at hfalse
      cases hfalse
    · have hrest : pos - c.utf8Size ≤ width cs := by
        rw [width_cons] at hpos
        omega
      obtain ⟨front, back, rfl, hwidth⟩ := ih hrest fun b hget => hb b (by
        rw [encode_cons, List.getElem?_append_right (by omega), hsize]
        exact hget)
      exact ⟨c :: front, back, rfl, by rw [width_cons]; omega⟩

theorem width_append (cs ds : List Char) : width (cs ++ ds) = width cs + width ds := by
  rw [← length_encode, encode_append, List.length_append, length_encode, length_encode]

/-- The size of a string is the width of its scalars, in bytes. -/
theorem utf8ByteSize_eq_width (s : String) : s.utf8ByteSize = width s.toList := by
  have hbytes : s.toByteArray = (encode s.toList).toByteArray := by
    conv_lhs => rw [← String.ofList_toList (s := s)]
    rw [String.toByteArray_ofList]
    rfl
  rw [String.utf8ByteSize, hbytes, List.size_toByteArray, length_encode]

/-- Of two ways to cut a text, the one that cuts off less cuts off a beginning of the other. -/
theorem prefix_of_width_le {front back front' back' : List Char}
    (h : front ++ back = front' ++ back') (hle : width front ≤ width front') :
    front <+: front' := by
  obtain hprefix | hprefix := List.prefix_or_prefix_of_prefix ⟨back, h⟩ ⟨back', rfl⟩
  · exact hprefix
  · obtain ⟨rest, rfl⟩ := hprefix
    have hlength := length_le_width rest
    rw [width_append] at hle
    have hnil : rest = [] := List.length_eq_zero_iff.1 (by omega)
    simp [hnil]

end Resync.Utf8
