namespace Resync.Utf8

/-- The bytes of a list of scalars, one encoded scalar after the other. -/
def encode (cs : List Char) : List UInt8 :=
  cs.flatMap String.utf8EncodeChar

/-- The number of bytes that a list of scalars is encoded in. -/
def width (cs : List Char) : Nat :=
  cs.foldr (fun c total => c.utf8Size + total) 0

/-- A continuation byte has the form `10xxxxxx`; it never starts a scalar. -/
def isContinuation (b : UInt8) : Bool :=
  b &&& 0xC0 == 0x80

/-- The scalar that the bytes begin with, if they begin with a well-formed one. Four bytes are
    enough, because no scalar is longer. -/
def decodeFirst? (bs : List UInt8) : Option Char :=
  (bs.take 4).toByteArray.utf8DecodeChar? 0

/-- The first scalars of the bytes, at most `limit` of them, up to the first ill-formed byte. -/
def decodeAtMost : Nat → List UInt8 → List Char
  | 0, _ => []
  | limit + 1, bs =>
    match decodeFirst? bs with
    | none => []
    | some c => c :: decodeAtMost limit (bs.drop c.utf8Size)

/-- The longest well-formed run of scalars at the start of the bytes. A scalar takes at least one
    byte, so the number of bytes bounds the number of scalars. -/
def decodeLongest (bs : List UInt8) : List Char :=
  decodeAtMost bs.length bs

/-- The scalars that the bytes encode, or nothing when some part of them is ill-formed. -/
def decode? (bs : List UInt8) : Option (List Char) :=
  let cs := decodeLongest bs
  if width cs = bs.length then some cs else none

/-- The scalars that make up exactly the first `count` bytes of the encoded list, or nothing when
    the cut falls inside a scalar or beyond the end. -/
def cut? : Nat → List Char → Option (List Char)
  | 0, _ => some []
  | _ + 1, [] => none
  | count + 1, c :: cs =>
    if c.utf8Size ≤ count + 1 then (cut? (count + 1 - c.utf8Size) cs).map (c :: ·) else none

/-- The number of continuation bytes that a leading byte asks for. -/
def continuationsAfter (lead : UInt8) : Nat :=
  if 0xC2 ≤ lead ∧ lead ≤ 0xDF then 1
  else if 0xE0 ≤ lead ∧ lead ≤ 0xEF then 2
  else if 0xF0 ≤ lead ∧ lead ≤ 0xF4 then 3
  else 0

/-- Whether `b` may be the second byte of a scalar that begins with `lead`. The narrowed ranges
    keep out overlong forms, surrogates and values above the last scalar. -/
def mayFollow (lead b : UInt8) : Bool :=
  if lead = 0xE0 then 0xA0 ≤ b && b ≤ 0xBF
  else if lead = 0xED then 0x80 ≤ b && b ≤ 0x9F
  else if lead = 0xF0 then 0x90 ≤ b && b ≤ 0xBF
  else if lead = 0xF4 then 0x80 ≤ b && b ≤ 0x8F
  else isContinuation b

/-- The length of the maximal ill-formed piece that the bytes begin with: the leading byte and as
    many further bytes as could still have become a scalar. -/
def illFormedLength : List UInt8 → Nat
  | [] => 0
  | [_] => 1
  | lead :: second :: rest =>
    match continuationsAfter lead with
    | 0 => 1
    | more + 1 =>
      if mayFollow lead second then 2 + ((rest.take more).takeWhile isContinuation).length else 1

/-- Scalars of the first pieces of the bytes, at most `limit` of them. -/
def decodeLossyAtMost : Nat → List UInt8 → List Char
  | 0, _ => []
  | _ + 1, [] => []
  | limit + 1, b :: bs =>
    match decodeFirst? (b :: bs) with
    | some c => c :: decodeLossyAtMost limit ((b :: bs).drop c.utf8Size)
    | none => '\uFFFD' :: decodeLossyAtMost limit ((b :: bs).drop (illFormedLength (b :: bs)))

/-- Reads any bytes: well-formed scalars as they are, and one replacement scalar for each maximal
    ill-formed piece. -/
def decodeLossy (bs : List UInt8) : List Char :=
  decodeLossyAtMost bs.length bs

@[simp]
theorem encode_nil : encode [] = [] := rfl

theorem encode_cons (c : Char) (cs : List Char) :
    encode (c :: cs) = String.utf8EncodeChar c ++ encode cs := rfl

theorem encode_append (cs ds : List Char) : encode (cs ++ ds) = encode cs ++ encode ds := by
  simp [encode]

@[simp]
theorem width_nil : width [] = 0 := rfl

@[simp]
theorem width_cons (c : Char) (cs : List Char) : width (c :: cs) = c.utf8Size + width cs := rfl

theorem length_encode (cs : List Char) : (encode cs).length = width cs := by
  induction cs with
  | nil => rfl
  | cons c cs ih => simp [encode_cons, ih]

/-- A list of scalars is encoded in at least one byte per scalar. -/
theorem length_le_width (cs : List Char) : cs.length ≤ width cs := by
  induction cs with
  | nil => simp
  | cons c cs ih =>
    have := c.utf8Size_pos
    simp only [List.length_cons, width_cons]
    omega

/-- The first scalar is read back whatever bytes follow it, since the leading byte tells how many
    belong to it. -/
theorem decodeFirst?_encode_append (c : Char) (bs : List UInt8) :
    decodeFirst? (String.utf8EncodeChar c ++ bs) = some c := by
  have hsize : (String.utf8EncodeChar c).length ≤ 4 := by
    simpa using c.utf8Size_le_four
  rw [decodeFirst?, List.take_append, List.take_of_length_le hsize, List.toByteArray_append]
  exact ByteArray.utf8DecodeChar?_utf8EncodeChar_append

@[simp]
theorem decodeFirst?_nil : decodeFirst? [] = none := by
  decide

/-- A scalar that was read is what the bytes begin with. -/
theorem exists_of_decodeFirst?_eq_some {bs : List UInt8} {c : Char}
    (h : decodeFirst? bs = some c) : ∃ rest, bs = String.utf8EncodeChar c ++ rest := by
  obtain ⟨tail, htail⟩ := ByteArray.exists_of_utf8DecodeChar?_eq_some h
  refine ⟨tail.data.toList ++ bs.drop 4, ?_⟩
  have hfour : bs.take 4 = String.utf8EncodeChar c ++ tail.data.toList := by
    simpa using congrArg (fun b => b.data.toList) htail
  rw [← List.append_assoc, ← hfour, List.take_append_drop]

theorem decodeAtMost_encode_append (cs : List Char) (extra : Nat) (bs : List UInt8) :
    decodeAtMost (cs.length + extra) (encode cs ++ bs) = cs ++ decodeAtMost extra bs := by
  induction cs with
  | nil => simp
  | cons c cs ih =>
    have hdrop : (encode (c :: cs) ++ bs).drop c.utf8Size = encode cs ++ bs := by
      rw [encode_cons, List.append_assoc, List.drop_left' (by simp)]
    rw [show (c :: cs).length + extra = (cs.length + extra) + 1 by simp; omega, decodeAtMost,
      encode_cons, List.append_assoc, decodeFirst?_encode_append, ← List.append_assoc,
      ← encode_cons]
    simp only [hdrop, ih, List.cons_append]

/-- What was decoded is what the bytes begin with. -/
theorem exists_encode_append_of_decodeAtMost (limit : Nat) (bs : List UInt8) :
    ∃ rest, bs = encode (decodeAtMost limit bs) ++ rest := by
  induction limit generalizing bs with
  | zero => exact ⟨bs, rfl⟩
  | succ limit ih =>
    rw [decodeAtMost]
    split
    · exact ⟨bs, rfl⟩
    · next c hc =>
      obtain ⟨tail, rfl⟩ := exists_of_decodeFirst?_eq_some hc
      obtain ⟨rest, hrest⟩ := ih tail
      rw [List.drop_left' (by simp)]
      exact ⟨rest, by rw [encode_cons, List.append_assoc, ← hrest]⟩

/-- A limit that is not smaller than the number of bytes does not matter, since every scalar takes a
    byte at least. -/
theorem decodeAtMost_eq_decodeAtMost {limit other : Nat} {bs : List UInt8}
    (h : bs.length ≤ limit) (h' : bs.length ≤ other) :
    decodeAtMost limit bs = decodeAtMost other bs := by
  induction limit generalizing other bs with
  | zero =>
    obtain rfl : bs = [] := List.length_eq_zero_iff.1 (Nat.le_zero.1 h)
    cases other <;> simp [decodeAtMost]
  | succ limit ih =>
    cases other with
    | zero =>
      obtain rfl : bs = [] := List.length_eq_zero_iff.1 (Nat.le_zero.1 h')
      simp [decodeAtMost]
    | succ other =>
      rw [decodeAtMost, decodeAtMost]
      cases hc : decodeFirst? bs with
      | none => rfl
      | some c =>
        obtain ⟨rest, rfl⟩ := exists_of_decodeFirst?_eq_some hc
        have hpos := c.utf8Size_pos
        simp only [List.length_append, String.length_utf8EncodeChar] at h h'
        have hdrop : ((String.utf8EncodeChar c ++ rest).drop c.utf8Size) = rest :=
          List.drop_left' (by simp)
        simp only [hdrop]
        exact congrArg (c :: ·) (ih (by omega) (by omega))

/-- Encoded scalars are read back, and reading goes on behind them, whatever bytes follow. -/
theorem decodeLongest_encode_append (cs : List Char) (bs : List UInt8) :
    decodeLongest (encode cs ++ bs) = cs ++ decodeLongest bs := by
  have hlength := length_encode cs
  have hwidth := length_le_width cs
  have hsplit : (encode cs ++ bs).length = cs.length + (width cs - cs.length + bs.length) := by
    rw [List.length_append]
    omega
  rw [decodeLongest, hsplit, decodeAtMost_encode_append, decodeLongest]
  exact congrArg (cs ++ ·) (decodeAtMost_eq_decodeAtMost (by omega) (Nat.le_refl _))

theorem decodeLongest_encode (cs : List Char) : decodeLongest (encode cs) = cs := by
  have hread := decodeLongest_encode_append cs []
  have hnil : decodeLongest [] = [] := rfl
  rwa [List.append_nil, hnil, List.append_nil] at hread

/-- A byte list is accepted as the scalars that encode it, and as no others. So decoding undoes
    encoding, and nothing ill-formed is accepted. -/
theorem decode?_eq_some_iff {bs : List UInt8} {cs : List Char} :
    decode? bs = some cs ↔ bs = encode cs := by
  constructor
  · intro h
    obtain ⟨rest, hrest⟩ := exists_encode_append_of_decodeAtMost bs.length bs
    simp only [decode?, Option.ite_none_right_eq_some, Option.some.injEq] at h
    obtain ⟨hwidth, rfl⟩ := h
    have hlength := congrArg List.length hrest
    rw [List.length_append, length_encode] at hlength
    have hnil : rest = [] := by
      apply List.length_eq_zero_iff.1
      rw [decodeLongest] at hwidth
      omega
    rw [hnil, List.append_nil] at hrest
    exact hrest
  · rintro rfl
    simp [decode?, decodeLongest_encode, length_encode]

end Resync.Utf8
