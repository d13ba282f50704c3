import Mathlib.Data.List.Basic
import Resync.Excerpt
import Resync.Proofs.Text.Hexadecimal

namespace Resync.Excerpt

/-- The two digits of a byte. -/
def pairOf (b : UInt8) : List Char :=
  [(b.toNat / 16).digitChar, (b.toNat % 16).digitChar]

/-- The bytes of the row that holds an offset. -/
def rowAt (bytes : List UInt8) (pos : Nat) : List UInt8 :=
  (bytes.drop (16 * (pos / 16))).take 16

/-- The pairs of a row, with blanks in place of those that it lacks. -/
def pairs (row : List UInt8) : List (List Char) :=
  (row.map pairOf).rightpad 16 [' ', ' ']

/-- The pairs of a row in two halves. A blank stands between neighbours, and one more between the
    halves. -/
def plainColumn (row : List UInt8) : List Char :=
  [' '].intercalate ((pairs row).take 8) ++ [' ', ' '] ++ [' '].intercalate ((pairs row).drop 8)

/-- The parts of a row in their places. -/
def layout (address column shown : List Char) : List Char :=
  ' ' :: address ++ [' ', ' '] ++ column ++ [' ', ' ', '|'] ++ shown ++ ['|']

/-- The bytes that digits stand for, two for each byte. -/
def readPairs : List Char → List UInt8
  | high :: low :: cs => UInt8.ofNat (Text.ofHexadecimal [high, low]) :: readPairs cs
  | _ => []

/-- Reads a marked row: the offset that is marked, and the bytes. The column of pairs with its marker
    takes up 49 places. -/
def readRow (s : String) : Nat × List UInt8 :=
  let cs := s.toList.drop 1
  let address := cs.takeWhile (· != ' ')
  let column := (cs.drop (address.length + 2)).take 49
  let passed := (column.takeWhile (· != marker)).filter (· != ' ')
  (Text.ofHexadecimal address + passed.length / 2,
    readPairs ((column.filter (· != marker)).filter (· != ' ')))

/-- The text is the row with two markers in it, and laid out as any row is without them. One marker
    stands in each column, behind as many bytes as the index says, and in the column of pairs there are
    but the pairs of these bytes and their gaps in front of it. -/
structure IsMarkedAt (marked : Nat) (row : List UInt8) (address text : List Char) : Prop where
  count_marker : text.count marker = 2
  unmarked : text.filter (· != marker) = layout address (plainColumn row) (row.map visibleByte)
  marked_le : marked ≤ row.length
  split : ∃ pairsBefore pairsAfter shownBefore shownAfter,
    text = layout address (pairsBefore ++ marker :: pairsAfter)
      (shownBefore ++ marker :: shownAfter) ∧
    pairsBefore ++ pairsAfter = plainColumn row ∧
    pairsBefore.filter (· != ' ') = (row.take marked).flatMap pairOf ∧
    pairsBefore.length = 3 * marked + marked / 8 ∧
    shownBefore ++ shownAfter = row.map visibleByte ∧ shownBefore.length = marked

/-- The blanks in front of a pair. -/
def gap (i : Nat) : List Char :=
  if i = 0 then [] else if i = 8 then [' ', ' '] else [' ']

/-- A pair of the row, or the blanks in place of it. -/
def pairAt (row : List UInt8) (i : Nat) : List Char :=
  match row[i]? with
  | some b => pairOf b
  | none => [' ', ' ']

/-- The first pairs of a row, each behind its gap. -/
def cells (row : List UInt8) (count : Nat) : List Char :=
  (List.range count).flatMap fun i => gap i ++ pairAt row i

/-- The pair at an index and those behind it. -/
def cellsFrom (row : List UInt8) (i : Nat) : List Char :=
  pairAt row i ++ (List.range' (i + 1) (15 - i)).flatMap fun i => gap i ++ pairAt row i

variable {row : List UInt8} {i count marked : Nat}

/-- A cell is its gap, the marker if it is the marked one, and the pair of its byte. -/
theorem hexCell_eq (row : List UInt8) (marked i : Nat) :
    hexCell row marked i = gap i ++ (if i = marked then [marker] else []) ++ pairAt row i := by
  unfold hexCell pairAt
  cases row[i]? with
  | none => rfl
  | some b =>
    dsimp only
    rw [Text.hexadecimal_two b.toNat_lt]
    rfl

/-- The first pairs are those before the last one of them, and that one behind its gap. -/
theorem cells_succ (row : List UInt8) (count : Nat) :
    cells row (count + 1) = cells row count ++ (gap count ++ pairAt row count) := by
  rw [cells, List.range_succ, List.flatMap_append, List.flatMap_singleton]
  rfl

/-- The columns are those before the marked one, that one, and those behind it. -/
private theorem range_split (h : marked < 16) :
    List.range 16 = List.range marked ++ marked :: List.range' (marked + 1) (15 - marked) := by
  have hcount : 16 - marked = 15 - marked + 1 := by omega
  have hsplit : List.range' 0 marked ++ List.range' (0 + marked) (16 - marked) =
      List.range' 0 (marked + (16 - marked)) := List.range'_append_1
  rw [Nat.zero_add, hcount, List.range'_succ, ← hcount, Nat.add_sub_cancel' (Nat.le_of_lt h)] at hsplit
  rw [List.range_eq_range', List.range_eq_range', hsplit]

/-- The marker stands in the gap of its pair, directly in front of the pair, and nothing else is
    changed by it. -/
theorem hexColumn_eq (row : List UInt8) (h : marked < 16) :
    hexColumn row marked = (cells row marked ++ gap marked) ++ marker :: cellsFrom row marked := by
  have hother (is : List Nat) (his : marked ∉ is) :
      is.flatMap (hexCell row marked) = is.flatMap fun i => gap i ++ pairAt row i := by
    refine List.flatMap_congr fun i hi => ?_
    have hne : i ≠ marked := fun heq => his (heq ▸ hi)
    rw [hexCell_eq, if_neg hne, List.append_nil]
  have hbefore := hother (List.range marked) (by simp)
  have hafter := hother (List.range' (marked + 1) (15 - marked)) fun hmem => by
    have hle := (List.mem_range'_1.1 hmem).1
    omega
  change (List.range 16).flatMap (hexCell row marked) = _
  rw [range_split h, List.flatMap_append, List.flatMap_cons, hbefore, hafter, hexCell_eq, if_pos rfl]
  simp [cells, cellsFrom]

theorem cells_append_cellsFrom (row : List UInt8) (h : marked < 16) :
    (cells row marked ++ gap marked) ++ cellsFrom row marked = cells row 16 := by
  rw [cells, cells, range_split h, List.flatMap_append, List.flatMap_cons, cellsFrom]
  simp only [List.append_assoc]

/-- The pairs of a row are told by their indices, with blanks for those that the row lacks. -/
theorem pairs_eq_map (h : row.length ≤ 16) : pairs row = (List.range 16).map (pairAt row) := by
  apply List.ext_getElem
  · simp [pairs, h]
  · intro i _ hi
    have hi : i < 16 := by simpa using hi
    rw [List.getElem_map, List.getElem_range, pairAt]
    by_cases hlt : i < row.length
    · simp [pairs, List.rightpad, hlt]
    · simp [pairs, List.rightpad, List.getElem_append, hlt]

/-- The column of pairs without a marker is made of all sixteen pairs, each behind its gap. -/
theorem plainColumn_eq_cells (h : row.length ≤ 16) : plainColumn row = cells row 16 := by
  rw [plainColumn, pairs_eq_map h]
  simp [cells, gap, List.range_succ, List.intercalate, List.intersperse]

theorem length_pairAt (row : List UInt8) (i : Nat) : (pairAt row i).length = 2 := by
  unfold pairAt
  split <;> rfl

/-- Each pair takes up three places with a gap, and there is one more in the middle. -/
theorem length_cells_append_gap (row : List UInt8) (h : marked < 16) :
    (cells row marked ++ gap marked).length = 3 * marked + marked / 8 := by
  induction marked with
  | zero => rfl
  | succ count ih =>
    have hlast := ih (by omega)
    have hgap : (gap (count + 1)).length = if count + 1 = 8 then 2 else 1 := by
      rw [gap, if_neg (Nat.succ_ne_zero count)]
      split <;> rfl
    rw [List.length_append] at hlast
    rw [cells_succ, List.length_append, List.length_append, List.length_append, length_pairAt, hgap]
    split <;> omega

/-- The column of pairs takes up 48 places, whatever is in the row. -/
theorem length_plainColumn (h : row.length ≤ 16) : (plainColumn row).length = 48 := by
  have hlast : (cells row 15 ++ gap 15).length = 3 * 15 + 15 / 8 :=
    length_cells_append_gap row (by decide)
  rw [List.length_append] at hlast
  rw [plainColumn_eq_cells h, cells_succ, List.length_append, List.length_append, length_pairAt]
  omega

private theorem filter_ne_eq_self {c : Char} {cs : List Char} (h : c ∉ cs) :
    cs.filter (· != c) = cs := by
  rw [List.filter_eq_self]
  intro other hother
  rw [bne_iff_ne]
  rintro rfl
  exact h hother

theorem mem_hexDigits_of_mem_pairOf {b : UInt8} {c : Char} (h : c ∈ pairOf b) :
    c ∈ Text.hexDigits := by
  have hlt := b.toNat_lt
  rw [pairOf, List.mem_cons, List.mem_singleton] at h
  obtain rfl | rfl := h
  · exact Text.digitChar_mem_hexDigits (by omega)
  · exact Text.digitChar_mem_hexDigits (by omega)

theorem filter_gap (i : Nat) : (gap i).filter (· != ' ') = [] := by
  unfold gap
  split
  · rfl
  · split <;> rfl

/-- Apart from the blanks, the first pairs of a row are those of its first bytes, as digits are no
    blanks and a pair that is missing is made of them. -/
theorem filter_cells (row : List UInt8) (count : Nat) :
    (cells row count).filter (· != ' ') = (row.take count).flatMap pairOf := by
  induction count with
  | zero => rfl
  | succ count ih =>
    have hpair : (pairAt row count).filter (· != ' ') = row[count]?.toList.flatMap pairOf := by
      unfold pairAt
      cases row[count]? with
      | none => rfl
      | some b =>
        have hblank : ' ' ∉ pairOf b := fun hmem =>
          absurd (mem_hexDigits_of_mem_pairOf hmem) (by decide)
        rw [Option.toList_some, List.flatMap_singleton, filter_ne_eq_self hblank]
    rw [cells_succ, List.filter_append, List.filter_append, ih, filter_gap, List.nil_append, hpair,
      List.take_add_one, List.flatMap_append]

theorem marker_notMem_pairAt (row : List UInt8) (i : Nat) : marker ∉ pairAt row i := by
  unfold pairAt
  split
  · exact fun hmem => absurd (mem_hexDigits_of_mem_pairOf hmem) (by decide)
  · decide

theorem marker_notMem_gap (i : Nat) : marker ∉ gap i := by
  unfold gap
  split
  · decide
  · split <;> decide

theorem marker_notMem_cells (row : List UInt8) (count : Nat) : marker ∉ cells row count := by
  induction count with
  | zero => exact List.not_mem_nil
  | succ count ih =>
    rw [cells_succ, List.mem_append, List.mem_append]
    rintro (hmem | hmem | hmem)
    · exact ih hmem
    · exact marker_notMem_gap count hmem
    · exact marker_notMem_pairAt row count hmem

theorem marker_notMem_plainColumn (h : row.length ≤ 16) : marker ∉ plainColumn row :=
  plainColumn_eq_cells h ▸ marker_notMem_cells row 16

/-- Only ASCII characters are shown for bytes, so the marker is not one of them. -/
theorem visibleByte_ne_marker (b : UInt8) : visibleByte b ≠ marker := by
  unfold visibleByte
  split
  · next hvisible =>
    have hascii : ∀ n : Fin 127, Char.ofNat n ≠ marker := by decide
    have hle : b.toNat ≤ 126 := hvisible.2
    exact hascii ⟨b.toNat, by omega⟩
  · decide

private theorem takeWhile_ne_append {c : Char} {front : List Char} (h : c ∉ front)
    (back : List Char) : (front ++ c :: back).takeWhile (· != c) = front := by
  have hfront (other : Char) (hother : other ∈ front) : (other != c) = true := by
    rw [bne_iff_ne]
    rintro rfl
    exact h hother
  rw [List.takeWhile_append_of_pos hfront, List.takeWhile_cons_of_neg (by simp), List.append_nil]

/-- What is laid out with one marker in each column is marked twice, and is laid out without a marker
    as the columns are without theirs. -/
theorem count_and_filter_layout {address column column' shown shown' : List Char}
    (haddress : marker ∉ address) (hcolumn : marker ∉ column ++ column')
    (hshown : marker ∉ shown ++ shown') :
    (layout address (column ++ marker :: column') (shown ++ marker :: shown')).count marker = 2 ∧
      (layout address (column ++ marker :: column') (shown ++ marker :: shown')).filter
        (· != marker) = layout address (column ++ column') (shown ++ shown') := by
  rw [List.mem_append, not_or] at hcolumn hshown
  have hbar : marker ≠ '|' := by decide
  have hblank : marker ≠ ' ' := by decide
  constructor
  · simp [layout, List.count_append, List.count_eq_zero_of_not_mem, haddress, hcolumn, hshown,
      hbar.symm, hblank.symm]
  · simp [layout, filter_ne_eq_self, haddress, hcolumn, hshown, hbar.symm, hblank.symm]

theorem ofHexadecimal_pairOf (b : UInt8) : Text.ofHexadecimal (pairOf b) = b.toNat := by
  rw [pairOf, ← Text.hexadecimal_two b.toNat_lt, Text.ofHexadecimal_hexadecimal]

/-- The bytes of a row can be read back from their pairs. -/
theorem readPairs_flatMap_pairOf (row : List UInt8) : readPairs (row.flatMap pairOf) = row := by
  induction row with
  | nil => rfl
  | cons b row ih =>
    rw [List.flatMap_cons]
    change UInt8.ofNat (Text.ofHexadecimal (pairOf b)) :: readPairs (row.flatMap pairOf) = b :: row
    rw [ofHexadecimal_pairOf, ih, UInt8.ofNat_toNat]

theorem length_flatMap_pairOf (row : List UInt8) : (row.flatMap pairOf).length = 2 * row.length := by
  induction row with
  | nil => rfl
  | cons b row ih =>
    rw [List.flatMap_cons, List.length_append, ih, List.length_cons, pairOf, List.length_cons,
      List.length_singleton]
    omega

/-- The address of a row ends before the first blank, so it can be read off. -/
theorem takeWhile_layout {address : List Char} (haddress : ' ' ∉ address)
    (column shown : List Char) :
    ((layout address column shown).drop 1).takeWhile (· != ' ') = address := by
  have hbehind : (layout address column shown).drop 1 =
      address ++ ' ' :: ' ' :: (column ++ [' ', ' ', '|'] ++ shown ++ ['|']) := by
    simp [layout]
  rw [hbehind, takeWhile_ne_append haddress]

/-- The column of pairs stands behind the address and two blanks, and takes up a known number of
    places. -/
theorem take_layout {column : List Char} {places : Nat} (hcolumn : column.length = places)
    (address shown : List Char) :
    (((layout address column shown).drop 1).drop (address.length + 2)).take places = column := by
  have hbehind : (layout address column shown).drop 1 =
      address ++ ' ' :: ' ' :: (column ++ ([' ', ' ', '|'] ++ shown ++ ['|'])) := by
    simp [layout]
  rw [hbehind, List.drop_length_add_append]
  exact List.take_left' hcolumn

/-- What a marked row says can be read from it: the offset is that of the row and the number of
    pairs before the marker, and the bytes are those of the pairs. -/
theorem IsMarkedAt.readRow_eq {s : String} {offset : Nat} {address : List Char}
    (h : IsMarkedAt marked row address s.toList) (haddress : Text.IsHexadecimal 8 offset address)
    (hrow : row.length ≤ 16) : readRow s = (offset + marked, row) := by
  obtain ⟨front, back, shown, shown', htext, hcolumn, hpairs, -⟩ := h.split
  have hdigits : ' ' ∉ address := fun hmem => absurd (haddress.digits _ hmem) (by decide)
  have hnone := marker_notMem_plainColumn hrow
  have hlength := length_plainColumn hrow
  rw [← hcolumn, List.mem_append, not_or] at hnone
  rw [← hcolumn, List.length_append] at hlength
  have hwidth : (front ++ marker :: back).length = 49 := by
    rw [List.length_append, List.length_cons]
    omega
  have hunmarked : (front ++ marker :: back).filter (· != marker) = plainColumn row := by
    rw [List.filter_append, List.filter_cons_of_neg (by simp), filter_ne_eq_self hnone.1,
      filter_ne_eq_self hnone.2, hcolumn]
  have hall : (plainColumn row).filter (· != ' ') = row.flatMap pairOf := by
    rw [plainColumn_eq_cells hrow, filter_cells, List.take_of_length_le hrow]
  rw [readRow, htext, takeWhile_layout hdigits, take_layout hwidth, takeWhile_ne_append hnone.1,
    hunmarked, hall, hpairs, readPairs_flatMap_pairOf, length_flatMap_pairOf, List.length_take,
    Nat.min_eq_left h.marked_le, haddress.value, Nat.mul_div_cancel_left marked (by decide)]

variable {bytes : List UInt8} {pos : Nat}

theorem length_rowAt_le (bytes : List UInt8) (pos : Nat) : (rowAt bytes pos).length ≤ 16 :=
  List.length_take_le ..

/-- An offset up to the end stands in its row, or directly behind it. -/
theorem mod_le_length_rowAt (h : pos ≤ bytes.length) : pos % 16 ≤ (rowAt bytes pos).length := by
  rw [rowAt, List.length_take, List.length_drop]
  omega

/-- Both columns of a dump are split where the offset stands in its row, and a marker is put in
    between. -/
theorem hexdump_eq_layout (bytes : List UInt8) (pos : Nat) :
    (hexdump bytes pos).toList =
      layout (Text.hexadecimal 8 (16 * (pos / 16)))
        ((cells (rowAt bytes pos) (pos % 16) ++ gap (pos % 16)) ++
          marker :: cellsFrom (rowAt bytes pos) (pos % 16))
        (((rowAt bytes pos).map visibleByte).take (pos % 16) ++
          marker :: ((rowAt bytes pos).map visibleByte).drop (pos % 16)) := by
  have hoffset : pos - pos % 16 = 16 * (pos / 16) := by omega
  have hmarked : pos - 16 * (pos / 16) = pos % 16 := by omega
  rw [← hexColumn_eq _ (Nat.mod_lt pos (by decide)), hexdump, String.toList_ofList]
  dsimp only [rowWidth]
  rw [hoffset, hmarked]
  rfl

/-- The dump of an offset is the row that holds it, marked at the offset: the address, both columns
    with one marker each, and sixteen places for pairs. -/
theorem isMarkedAt_hexdump (h : pos ≤ bytes.length) :
    IsMarkedAt (pos % 16) (rowAt bytes pos) (Text.hexadecimal 8 (16 * (pos / 16)))
      (hexdump bytes pos).toList := by
  have hrow := length_rowAt_le bytes pos
  have hmarked := mod_le_length_rowAt h
  have hlt : pos % 16 < 16 := Nat.mod_lt pos (by decide)
  have hcolumn := (cells_append_cellsFrom (rowAt bytes pos) hlt).trans (plainColumn_eq_cells hrow).symm
  have hshown := List.take_append_drop (pos % 16) ((rowAt bytes pos).map visibleByte)
  have haddress : marker ∉ Text.hexadecimal 8 (16 * (pos / 16)) := fun hmem =>
    absurd (Text.mem_hexDigits_of_mem_hexadecimal hmem) (by decide)
  have hnone : marker ∉ (rowAt bytes pos).map visibleByte := by
    rw [List.mem_map]
    rintro ⟨b, -, hb⟩
    exact visibleByte_ne_marker b hb
  obtain ⟨hcount, hfilter⟩ := count_and_filter_layout haddress
    (hcolumn ▸ marker_notMem_plainColumn hrow) (hshown.symm ▸ hnone)
  rw [hcolumn, hshown] at hfilter
  rw [← hexdump_eq_layout] at hcount hfilter
  refine ⟨hcount, hfilter, hmarked, _, _, _, _, hexdump_eq_layout bytes pos, hcolumn, ?_,
    length_cells_append_gap _ hlt, hshown, ?_⟩
  · rw [List.filter_append, filter_cells, filter_gap, List.append_nil]
  · rw [List.length_take, List.length_map]
    exact Nat.min_eq_left hmarked

/-- The offset and the bytes of its row are read back from the dump. -/
theorem readRow_hexdump (h : pos ≤ bytes.length) :
    readRow (hexdump bytes pos) = (pos, rowAt bytes pos) := by
  have haddress : Text.IsHexadecimal 8 (16 * (pos / 16)) (Text.hexadecimal 8 (16 * (pos / 16))) :=
    Text.isHexadecimal_hexadecimal (by decide) _
  rw [(isMarkedAt_hexdump h).readRow_eq haddress (length_rowAt_le bytes pos), Nat.div_add_mod]

/-- The row of a dump that holds an offset up to the end of the bytes is marked at the offset: behind
    the offset of the row stands a column of sixteen pairs in 48 places, and as many characters as the
    row has bytes. The offset and the bytes are read back from it, so that dumps that look the same mark
    one offset in rows of the same bytes. -/
theorem hexdump_decodable (hpos : pos ≤ bytes.length) :
    (∃ address, Text.IsHexadecimal 8 (16 * (pos / 16)) address ∧
        IsMarkedAt (pos % 16) (rowAt bytes pos) address (hexdump bytes pos).toList) ∧
      (plainColumn (rowAt bytes pos)).length = 48 ∧
      readRow (hexdump bytes pos) = (pos, rowAt bytes pos) ∧
      ∀ (other : List UInt8) (place : Nat), place ≤ other.length →
        hexdump other place = hexdump bytes pos → place = pos ∧ rowAt other place = rowAt bytes pos := by
  have haddress : Text.IsHexadecimal 8 (16 * (pos / 16)) (Text.hexadecimal 8 (16 * (pos / 16))) :=
    Text.isHexadecimal_hexadecimal (by decide) _
  have hread := readRow_hexdump hpos
  refine ⟨⟨_, haddress, isMarkedAt_hexdump hpos⟩, ?_, hread, ?_⟩
  · exact length_plainColumn (length_rowAt_le bytes pos)
  · -- dumps that look the same are read as the same, so the other offset and row are these
    intro other place hplace heq
    have hother := readRow_hexdump hplace
    rw [heq, hread, Prod.mk.injEq] at hother
    obtain ⟨hplaces, hrows⟩ := hother
    exact ⟨hplaces.symm, hrows.symm⟩

/-- Behind a full row the end is marked in a row without bytes. -/
theorem hexdump_decodable_full_row :
    16 ≤ (List.replicate 16 (0x61 : UInt8)).length ∧
      (hexdump (List.replicate 16 0x61) 16).toList.count marker = 2 ∧
      (hexdump (List.replicate 16 0x61) 16).toList.filter (· != marker) =
        " 00000010".toList ++ List.replicate 52 ' ' ++ ['|', '|'] ∧
      readRow (hexdump (List.replicate 16 0x61) 16) = (16, []) := by
  have hpos : 16 ≤ (List.replicate 16 (0x61 : UInt8)).length := by decide
  obtain ⟨⟨address, -, hmarked⟩, -, hread, -⟩ := hexdump_decodable hpos
  exact ⟨hpos, hmarked.count_marker, by decide, hread⟩

end Resync.Excerpt
