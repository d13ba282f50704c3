import Mathlib.Data.List.DropRight
import Resync.Proofs.Cursor.Boundary
import Resync.Proofs.Cursor.Journey
import Resync.Proofs.Cursor.Reader

namespace Resync

section Splitting

variable {cs front back before after line : List Char} {above below : List (List Char)}

theorem newline_notMem_of_mem_splitOn (h : line ∈ cs.splitOn '\n') : '\n' ∉ line := by
  induction cs generalizing line with
  | nil =>
    rw [List.splitOn_nil, List.mem_singleton] at h
    simp [h]
  | cons c cs ih =>
    rw [List.splitOn_cons_eq_if_modifyHead] at h
    obtain ⟨first, rest, hsplit⟩ := List.exists_cons_of_ne_nil (List.splitOn_ne_nil '\n' cs)
    rw [hsplit] at h ih
    by_cases hc : c = '\n'
    · rw [if_pos (by simpa using hc), List.mem_cons] at h
      obtain rfl | h := h
      · exact List.not_mem_nil
      · exact ih h
    · rw [if_neg (by simpa using hc), List.modifyHead_cons, List.mem_cons] at h
      obtain rfl | h := h
      · have hfirst := ih (List.mem_cons_self (a := first))
        simp [hfirst, Ne.symm hc]
      · exact ih (List.mem_cons_of_mem _ h)

/-- The lines of a text with the newlines between them are the text, so any line of it has its
    place. -/
theorem eq_append_of_splitOn (h : cs.splitOn '\n' = above ++ line :: below) :
    cs = above.flatMap (· ++ ['\n']) ++ (line ++ below.flatMap ('\n' :: ·)) := by
  have hbelow (line : List Char) : ['\n'].intercalate (line :: below) =
      line ++ below.flatMap ('\n' :: ·) := by
    clear h
    induction below generalizing line with
    | nil => simp
    | cons next below ih => simp [List.intercalate_cons_cons, ih]
  have habove : ['\n'].intercalate (above ++ line :: below) =
      above.flatMap (· ++ ['\n']) ++ ['\n'].intercalate (line :: below) := by
    clear h
    induction above with
    | nil => rfl
    | cons first above ih =>
      rw [List.cons_append, List.intercalate_cons_of_ne_nil (by simp), ih]
      simp
  rw [← hbelow, ← habove, ← h, List.intercalate_splitOn]

/-- Where a text is cut, one of its lines is cut, and the others are above or below it. The
    induction is on what stands before the cut. -/
theorem exists_splitOn_append (front back : List Char) :
    ∃ above before after below,
      (front ++ back).splitOn '\n' = above ++ (before ++ after) :: below ∧
      front = above.flatMap (· ++ ['\n']) ++ before := by
  induction front with
  | nil =>
    obtain ⟨after, below, hback⟩ := List.exists_cons_of_ne_nil (List.splitOn_ne_nil '\n' back)
    exact ⟨[], [], after, below, hback, rfl⟩
  | cons c front ih =>
    obtain ⟨above, before, after, below, hsplit, hfront⟩ := ih
    rw [List.cons_append, List.splitOn_cons_eq_if_modifyHead, hsplit]
    by_cases hc : c = '\n'
    · refine ⟨[] :: above, before, after, below, if_pos (by simpa using hc), ?_⟩
      rw [hc, hfront]
      rfl
    · rw [if_neg (by simpa using hc)]
      cases above with
      | nil => exact ⟨[], c :: before, after, below, rfl, congrArg (c :: ·) hfront⟩
      | cons first above =>
        exact ⟨(c :: first) :: above, before, after, below, rfl, congrArg (c :: ·) hfront⟩

end Splitting

namespace Utf8

/-- Only the newline has the byte of a newline among its bytes, since all bytes of longer scalars
    are beyond ASCII. -/
theorem newline_mem_utf8EncodeChar_iff {c : Char} :
    newline ∈ String.utf8EncodeChar c ↔ c = '\n' := by
  constructor
  · intro h
    obtain ⟨lead, tail, hcons, hlead, htail⟩ := exists_utf8EncodeChar_eq_cons c
    rw [hcons, List.mem_cons] at h
    obtain rfl | h := h
    · -- What begins with a newline is read as one.
      have hread := decodeFirst?_encode_append c []
      have hnewline : String.utf8EncodeChar '\n' ++ tail = String.utf8EncodeChar c ++ [] := by
        rw [hcons, List.append_nil]
        rfl
      rw [← hnewline, decodeFirst?_encode_append] at hread
      exact (Option.some.inj hread).symm
    · have hcontinuation := htail _ h
      exact absurd hcontinuation (by decide)
  · rintro rfl
    decide

/-- The bytes of a text hold a newline if the text does, so lines can be counted in bytes. -/
theorem newline_mem_encode_iff {cs : List Char} : newline ∈ encode cs ↔ '\n' ∈ cs := by
  rw [encode, List.mem_flatMap]
  constructor
  · rintro ⟨c, hc, hnewline⟩
    rwa [newline_mem_utf8EncodeChar_iff.1 hnewline] at hc
  · exact fun h => ⟨'\n', h, newline_mem_utf8EncodeChar_iff.2 rfl⟩

/-- A line that is encoded counts as none, up to its newline, which is the only one that belongs to
    it. -/
theorem countNewlines_encode_line {line : List Char} (h : '\n' ∉ line) :
    countNewlines (encode line) = 0 :=
  List.count_eq_zero.2 (mt newline_mem_encode_iff.1 h)

/-- A line ends before the newline behind it, or at the end of the text. -/
theorem takeWhile_encode_line {line rest : List Char} (hline : '\n' ∉ line)
    (hrest : rest = [] ∨ ∃ more, rest = '\n' :: more) :
    (encode (line ++ rest)).takeWhile (· != newline) = encode line := by
  have hbytes (b : UInt8) (hb : b ∈ encode line) : (b != newline) = true := by
    rw [bne_iff_ne]
    rintro rfl
    exact hline (newline_mem_encode_iff.1 hb)
  have hstop : (encode rest).takeWhile (· != newline) = [] := by
    obtain rfl | ⟨more, rfl⟩ := hrest
    · rfl
    · rw [encode_cons]
      rfl
  rw [encode_append, List.takeWhile_append_of_pos hbytes, hstop, List.append_nil]

end Utf8

/-- A place in a text that is split into lines: the lines above it, and what stands before it and
    after it on its own line. -/
structure Spot where
  above : List (List Char)
  before : List Char
  after : List Char

namespace Spot

variable (spot : Spot)

/-- One of the lines of a text is the one of the spot, behind those that are above it. -/
def IsIn (cs : List Char) : Prop :=
  ∃ below, cs.splitOn '\n' = spot.above ++ (spot.before ++ spot.after) :: below

/-- The scalars of the lines above, each with the newline that ends it. -/
def head : List Char :=
  spot.above.flatMap (· ++ ['\n'])

/-- The number of bytes before the spot. -/
def offset : Nat :=
  Utf8.width (spot.head ++ spot.before)

/-- Lines are counted from one, and so are the scalars of a line unless it is empty. -/
def location : Location where
  line := spot.above.length + 1
  column := if spot.before ++ spot.after = [] then 0 else spot.before.length + 1

/-- The last ten scalars of the line before the spot and the first twenty after it. -/
def excerpt : String :=
  String.ofList (spot.before.rtake 10 ++ '▶' :: spot.after.take 20)

variable {spot} {cs : List Char}

/-- Every offset between scalars of a text is that of a spot in its lines. -/
theorem exists_isIn (front back : List Char) :
    ∃ spot : Spot, spot.IsIn (front ++ back) ∧ spot.offset = Utf8.width front := by
  obtain ⟨above, before, after, below, hsplit, hfront⟩ := exists_splitOn_append front back
  exact ⟨⟨above, before, after⟩, ⟨below, hsplit⟩, congrArg Utf8.width hfront.symm⟩

/-- Around the spot of a text stand the lines above, the two parts of its line, and the rest, which
    begins with a newline if there is any. No part of a line holds a newline. -/
theorem IsIn.exists_append (h : spot.IsIn cs) :
    ∃ rest, cs = (spot.head ++ spot.before) ++ (spot.after ++ rest) ∧
      (rest = [] ∨ ∃ more, rest = '\n' :: more) ∧ '\n' ∉ spot.before ∧ '\n' ∉ spot.after ∧
      ∀ line ∈ spot.above, '\n' ∉ line := by
  obtain ⟨below, hsplit⟩ := h
  have hlines (line : List Char) (hline : line ∈ spot.above ++ (spot.before ++ spot.after) :: below) :
      '\n' ∉ line :=
    newline_notMem_of_mem_splitOn (hsplit ▸ hline)
  have hhere := hlines (spot.before ++ spot.after) (by simp)
  rw [List.mem_append, not_or] at hhere
  refine ⟨below.flatMap ('\n' :: ·), ?_, ?_, hhere.1, hhere.2, fun line hline => hlines line ?_⟩
  · rw [head, eq_append_of_splitOn hsplit]
    simp only [List.append_assoc]
  · cases below with
    | nil => exact .inl rfl
    | cons next below => exact .inr ⟨_, rfl⟩
  · exact List.mem_append_left _ hline

/-- Every line above ends with a newline, so the number of lines above is the number of newlines
    before the line. -/
theorem IsIn.countNewlines_head (h : spot.IsIn cs) :
    countNewlines (Utf8.encode spot.head) = spot.above.length := by
  obtain ⟨-, -, -, -, -, habove⟩ := h.exists_append
  rw [head]
  generalize spot.above = above at habove
  induction above with
  | nil => rfl
  | cons line above ih =>
    have hnewline : countNewlines (Utf8.encode ['\n']) = 1 := by decide
    rw [List.flatMap_cons, Utf8.encode_append, Utf8.encode_append, countNewlines_append,
      countNewlines_append, Utf8.countNewlines_encode_line (habove line List.mem_cons_self), hnewline,
      ih fun line hline => habove line (List.mem_cons_of_mem _ hline), List.length_cons]
    omega

/-- The line of the spot starts behind the lines above, as none of its own scalars is a newline. -/
theorem IsIn.lastLineStart_eq (h : spot.IsIn cs) :
    lastLineStart (Utf8.encode (spot.head ++ spot.before)) = Utf8.width spot.head := by
  obtain ⟨-, -, -, hbefore, -⟩ := h.exists_append
  have hnone := lastNewline?_eq_none_iff.2 (Utf8.countNewlines_encode_line hbefore)
  have hhead : lastLineStart (Utf8.encode spot.head) = (Utf8.encode spot.head).length := by
    rw [lastLineStart_eq_length_iff, head]
    obtain habove | ⟨above, line, habove⟩ := List.eq_nil_or_concat' spot.above
    · rw [habove]
      rfl
    · rw [habove, List.flatMap_append, Utf8.encode_append]
      have hlast : Utf8.encode ([line].flatMap (· ++ ['\n'])) = Utf8.encode line ++ [newline] := by
        rw [List.flatMap_singleton, Utf8.encode_append]
        rfl
      rw [hlast, ← List.append_assoc, List.getLast?_concat]
      rfl
  rw [Utf8.encode_append, ← Utf8.length_encode spot.head, ← hhead, lastLineStart, lastNewline?_append,
    hnone]
  rfl

end Spot

namespace State

variable {s other : State} {input : Input} {target : Nat}

/-- There is no newline between the start of the line and the cursor, so an offset in between is on
    the same line. -/
theorem Scanned.countNewlines_take (h : s.Scanned) (hstart : s.lineStart ≤ target)
    (htarget : target ≤ s.pos) :
    countNewlines (s.input.bytes.take target) = countNewlines (s.input.bytes.take s.pos) := by
  have hslice : countNewlines (s.input.slice target s.pos) = 0 := by
    rw [← lastNewline?_eq_none_iff]
    cases hlast : lastNewline? (s.input.slice target s.pos) with
    | none => rfl
    | some i =>
      have hprev := h.prevNewline_eq
      rw [← s.input.take_append_slice htarget, lastNewline?_append, hlast,
        s.input.length_take_bytes (Nat.le_trans htarget h.pos_le)] at hprev
      rw [lineStart, hprev] at hstart
      dsimp only at hstart
      omega
  have hsum := s.input.countNewlines_take_add_slice htarget
  omega

/-- However the lines are counted, forward from the line of the cursor or from the start of the
    input, it comes to the newlines before the offset. -/
theorem Scanned.lineNumberAt_eq (h : s.Scanned) (target : Nat) :
    s.lineNumberAt target = 1 + countNewlines (s.input.bytes.take target) := by
  have hline := h.line_eq
  unfold lineNumberAt
  dsimp only
  split
  · next hahead =>
    have hsum := s.input.countNewlines_take_add_slice hahead
    omega
  · next hahead =>
    have hbehind := Nat.le_of_not_le hahead
    split
    · next hhere => rw [hline, h.countNewlines_take hhere hbehind]
    · next hhere =>
      split
      · rfl
      · have hsum := s.input.countNewlines_take_add_slice (Nat.le_of_not_le hhere)
        have hstart := h.countNewlines_take (Nat.le_refl _) h.lineStart_le_pos
        omega

/-- The line of an offset is told by the input alone: its number by the newlines before, and its
    ends by those around it. -/
theorem Scanned.lineSpan_eq (h : s.Scanned) (target : Nat) :
    s.lineSpan target =
      { line := 1 + countNewlines (s.input.bytes.take (min target s.input.size))
        start := lastLineStart (s.input.bytes.take (min target s.input.size))
        stop := min target s.input.size +
          ((s.input.bytes.drop (min target s.input.size)).takeWhile (· != newline)).length } := by
  rw [← h.lineNumberAt_eq]
  rfl

theorem Scanned.lineSpan_eq_of_input_eq (h : s.Scanned) (hother : other.Scanned)
    (hinput : s.input = other.input) (target : Nat) : s.lineSpan target = other.lineSpan target := by
  rw [h.lineSpan_eq, hother.lineSpan_eq, hinput]

/-- Cursors of one input locate every offset at the same place, wherever they stand. -/
theorem Scanned.locate_eq_of_input_eq (h : s.Scanned) (hother : other.Scanned)
    (hinput : s.input = other.input) (target : Nat) : s.locate target = other.locate target := by
  rw [locate, locate, h.lineSpan_eq_of_input_eq hother hinput, hinput]

/-- Cursors of one input show the same around every offset, wherever they stand. -/
theorem Scanned.excerpt_eq_of_input_eq (h : s.Scanned) (hother : other.Scanned)
    (hinput : s.input = other.input) (target : Nat) : s.excerpt target = other.excerpt target := by
  rw [excerpt, excerpt, hinput]
  dsimp only
  rw [h.lineSpan_eq_of_input_eq hother hinput]

section Text

variable {spot : Spot} {cs : List Char} (htext : s.input.binary = false)
  (hbytes : s.input.bytes = Utf8.encode cs) (hspot : spot.IsIn cs)
  (hoffset : spot.offset = min target s.input.size)
include hbytes hspot hoffset

/-- The line of an offset in a text is that of its spot: it starts behind the lines above, and stops
    before the next newline. -/
theorem Scanned.lineSpan_eq_of_isIn (h : s.Scanned) :
    s.lineSpan target =
      { line := spot.above.length + 1
        start := Utf8.width spot.head
        stop := Utf8.width (spot.head ++ spot.before ++ spot.after) } := by
  obtain ⟨rest, hcs, hrest, hbefore, hafter, -⟩ := hspot.exists_append
  have hsplit : s.input.bytes =
      Utf8.encode (spot.head ++ spot.before) ++ Utf8.encode (spot.after ++ rest) := by
    rw [hbytes, hcs, Utf8.encode_append]
  have hlength : (Utf8.encode (spot.head ++ spot.before)).length = min target s.input.size := by
    rw [Utf8.length_encode, ← hoffset, Spot.offset]
  have hnewlines : countNewlines (Utf8.encode (spot.head ++ spot.before)) = spot.above.length := by
    rw [Utf8.encode_append, countNewlines_append, hspot.countNewlines_head,
      Utf8.countNewlines_encode_line hbefore, Nat.add_zero]
  rw [h.lineSpan_eq, hsplit, List.take_left' hlength, List.drop_left' hlength, hnewlines,
    hspot.lastLineStart_eq, Utf8.takeWhile_encode_line hafter hrest, ← hoffset, Spot.offset,
    Utf8.length_encode, Utf8.width_append (spot.head ++ spot.before), Nat.add_comm 1]

include htext

/-- The location of an offset in a text is that of its spot, which is found by splitting the scalars
    at the newlines. -/
theorem Scanned.locate_eq_of_isIn (h : s.Scanned) : s.locate target = spot.location := by
  obtain ⟨rest, hcs, -⟩ := hspot.exists_append
  have hhere : s.input.bytes = Utf8.encode ((spot.head ++ spot.before) ++ (spot.after ++ rest)) := by
    rw [hbytes, hcs]
  have hstart : s.input.bytes = Utf8.encode (spot.head ++ (spot.before ++ (spot.after ++ rest))) := by
    rw [hhere, List.append_assoc]
  have hunits : s.input.units (Utf8.width spot.head) (min target s.input.size) =
      spot.before.length := by
    have hle : Utf8.width spot.head ≤ spot.offset := by
      rw [Spot.offset, Utf8.width_append]
      exact Nat.le_add_right ..
    rw [← hoffset, Input.units_eq_sub hle (hoffset ▸ Nat.min_le_right ..), Spot.offset,
      Input.unitsBefore_of_append htext hhere, Input.unitsBefore_of_append htext hstart,
      List.length_append, Nat.add_sub_cancel_left]
  have hempty : Utf8.width spot.head = Utf8.width (spot.head ++ spot.before ++ spot.after) ↔
      spot.before ++ spot.after = [] := by
    rw [List.append_assoc, Utf8.width_append]
    constructor
    · intro hwidth
      have hlength := Utf8.length_le_width (spot.before ++ spot.after)
      exact List.length_eq_zero_iff.1 (by omega)
    · intro hnil
      rw [hnil, Utf8.width_nil, Nat.add_zero]
  rw [locate, h.lineSpan_eq_of_isIn hbytes hspot hoffset]
  simp only [hunits, hempty]
  rfl

/-- What is shown around an offset of a text is what is shown around its spot: the last scalars of
    the line before it and the first ones after it. -/
theorem Scanned.excerpt_eq_of_isIn (h : s.Scanned) : s.excerpt target = spot.excerpt := by
  obtain ⟨rest, hcs, -⟩ := hspot.exists_append
  have hside {front side back : List Char} (hsplit : cs = front ++ (side ++ back)) :
      Utf8.decode? ((s.input.bytes.drop (Utf8.width front)).take
        (Utf8.width (front ++ side) - Utf8.width front)) = some side := by
    rw [hbytes, hsplit, Utf8.encode_append, Utf8.encode_append, Utf8.width_append,
      Nat.add_sub_cancel_left, List.drop_left' (Utf8.length_encode front),
      List.take_left' (Utf8.length_encode side), Utf8.decode?_eq_some_iff]
  have hbefore := hside (hcs.trans (List.append_assoc ..))
  have hafter := hside hcs
  have hclamped : spot.offset = min (min target s.input.size) s.input.size := by
    rw [hoffset, Nat.min_eq_left (Nat.min_le_right ..)]
  rw [excerpt, htext, if_neg Bool.false_ne_true]
  dsimp only
  rw [h.lineSpan_eq_of_isIn hbytes hspot hclamped, ← hoffset, Excerpt.ofText]
  dsimp only [Spot.offset]
  rw [hbefore, hafter]
  rfl

end Text

/-- Where moves have led a cursor does not matter for what it says of any offset: no check fails, and
    it locates and shows the offset as a new cursor does. In a text an offset between scalars is the
    one of a spot in the lines of the text, and it is located and shown as any such spot. -/
theorem locate_excerpt_match_lines (hsize : input.size ≤ 2 ^ 32 - 2) (hs : s.Reached input)
    (target : Nat) :
    s.locate? target = some ((start input).locate target) ∧
      s.excerpt? target = some ((start input).excerpt target) ∧
      s.locate target = (start input).locate target ∧
      s.excerpt target = (start input).excerpt target ∧
      (input.binary = false → input.IsBoundary (min target input.size) →
        ∀ cs, input.bytes = Utf8.encode cs →
          (∃ spot : Spot, spot.IsIn cs ∧ spot.offset = min target input.size) ∧
          ∀ spot : Spot, spot.IsIn cs → spot.offset = min target input.size →
            s.locate target = spot.location ∧ s.excerpt target = spot.excerpt) := by
  obtain rfl := hs.input_eq
  have hscanned := hs.scanned
  have hstart := scanned_start s.input
  have hlocate := hscanned.locate_eq_of_input_eq hstart rfl target
  have hexcerpt := hscanned.excerpt_eq_of_input_eq hstart rfl target
  refine ⟨?_, ?_, hlocate, hexcerpt, ?_⟩
  · rw [hscanned.locate?_eq hsize, hlocate]
  · rw [hscanned.excerpt?_eq hsize, hexcerpt]
  intro htext hboundary cs hbytes
  constructor
  · obtain ⟨front, back, hsplit, hwidth⟩ := hboundary.exists_append htext
    rw [Utf8.encode_injective (hbytes.symm.trans hsplit), ← hwidth]
    exact Spot.exists_isIn front back
  · intro spot hspot hoffset
    exact ⟨hscanned.locate_eq_of_isIn htext hbytes hspot hoffset,
      hscanned.excerpt_eq_of_isIn htext hbytes hspot hoffset⟩

/-- The cursor has turned back into the middle of a scalar. It finds the end of the text, behind an
    empty line, and the empty line where the lines of the text have them. -/
theorem locate_excerpt_match_lines_turned_back :
    (Input.text "b\n\nxéa").size ≤ 2 ^ 32 - 2 ∧
      let s := (start (Input.text "b\n\nxéa")).follow [.moveBy 7, .moveBackTo 5]
      s.Reached (Input.text "b\n\nxéa") ∧ s.pos = 5 ∧
        (s.locate 2 = ⟨2, 0⟩ ∧ s.excerpt 2 = "▶") ∧
        (s.locate 99 = ⟨3, 4⟩ ∧ s.excerpt 99 = "xéa▶") := by
  have hsize : (Input.text "b\n\nxéa").size ≤ 2 ^ 32 - 2 := by decide
  have hstart : (start (Input.text "b\n\nxéa")).Reached (Input.text "b\n\nxéa") := .start
  refine ⟨hsize, ?_⟩
  intro s
  have hs : s.Reached (Input.text "b\n\nxéa") := hstart.follow [.moveBy 7, .moveBackTo 5]
  refine ⟨hs, by decide, ?_, ?_⟩
  · obtain ⟨-, -, -, -, hlines⟩ := locate_excerpt_match_lines hsize hs 2
    have hbytes : (Input.text "b\n\nxéa").bytes =
        Utf8.encode (['b', '\n'] ++ ['\n', 'x', 'é', 'a']) := rfl
    have hboundary := Input.isBoundary_of_append hbytes
    exact (hlines rfl hboundary _ rfl).2 ⟨[['b']], [], []⟩ ⟨[['x', 'é', 'a']], by decide⟩ (by decide)
  · obtain ⟨-, -, -, -, hlines⟩ := locate_excerpt_match_lines hsize hs 99
    exact (hlines rfl (Input.isBoundary_size _) _ rfl).2 ⟨[['b'], []], ['x', 'é', 'a'], []⟩
      ⟨[], by decide⟩ (by decide)

end State

end Resync
