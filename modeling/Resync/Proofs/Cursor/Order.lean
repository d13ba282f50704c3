import Mathlib.Data.Prod.Lex
import Resync.Proofs.Cursor.Lines
import Resync.Proofs.Engine.Errors

namespace Resync

/-- Locations in reading order: by line, and on one line by column. -/
def Location.rank (l : Location) : ℕ ×ₗ ℕ :=
  toLex (l.line, l.column)

namespace Input

variable {input : Input} {p q : Nat}

/-- Further on in an input there are as many units before, or more. -/
theorem unitsBefore_mono (hle : p ≤ q) : input.unitsBefore p ≤ input.unitsBefore q := by
  unfold unitsBefore
  split
  · exact hle
  · exact (List.take_prefix_take_left hle).sublist.countP_le

/-- The units of two ranges, one behind the other, are those of both together, so columns add up. -/
theorem units_add_units {start : Nat} (hstart : start ≤ p) (hle : p ≤ q) (hq : q ≤ input.size) :
    input.units start p + input.units p q = input.units start q := by
  have hbefore := input.unitsBefore_mono hstart
  have hbetween := input.unitsBefore_mono hle
  rw [units_eq_sub hstart (Nat.le_trans hle hq), units_eq_sub hle hq,
    units_eq_sub (Nat.le_trans hstart hle) hq]
  omega

/-- Between two boundaries there is a unit at least, so the further one has a greater column on the
    same line. -/
theorem IsBoundary.units_pos (h : input.IsBoundary p) (hq : input.IsBoundary q) (hlt : p < q) :
    0 < input.units p q := by
  have hunits := h.unitsBefore_lt hq hlt
  rw [units_eq_sub (Nat.le_of_lt hlt) hq.1]
  omega

/-- A line on which an offset lies before another one is not empty, so locations on it have columns
    that can be compared. -/
theorem takeWhile_line_ne_nil (hlt : p < q) (hq : q ≤ input.size)
    (hnone : countNewlines (input.slice p q) = 0) :
    (input.bytes.drop p).takeWhile (· != newline) ≠ [] := by
  have hinside : p < input.bytes.length := Nat.lt_of_lt_of_le hlt hq
  have hdrop : input.bytes.drop p = input.bytes[p] :: input.bytes.drop (p + 1) :=
    List.drop_eq_getElem_cons hinside
  have hfirst : input.bytes[p] ∈ input.slice p q := by
    obtain ⟨count, hcount⟩ := Nat.exists_eq_add_one_of_ne_zero (Nat.sub_ne_zero_of_lt hlt)
    rw [slice, hdrop, hcount, List.take_succ_cons]
    exact List.mem_cons_self
  have hother : (input.bytes[p] != newline) = true := by
    rw [bne_iff_ne]
    intro hnewline
    exact List.count_eq_zero.1 hnone (hnewline ▸ hfirst)
  rw [hdrop, List.takeWhile_cons_of_pos (p := (· != newline)) hother]
  exact List.cons_ne_nil _ _

end Input

namespace State

variable {s : State} {input : Input} {p q : Nat}

/-- The location of an offset inside the input is told by the bytes before it, unless its line is
    empty. -/
theorem Scanned.locate_eq (h : s.Scanned) (hp : p ≤ s.input.size) :
    s.locate p =
      { line := 1 + countNewlines (s.input.bytes.take p)
        column :=
          if lastLineStart (s.input.bytes.take p) =
              p + ((s.input.bytes.drop p).takeWhile (· != newline)).length then 0
          else s.input.units (lastLineStart (s.input.bytes.take p)) p + 1 } := by
  rw [locate, h.lineSpan_eq, Nat.min_eq_left hp]

/-- Of two offsets the further one lies on a later line, or as many columns further on as there are
    units in between. -/
theorem Scanned.locate_cases (h : s.Scanned) (hlt : p < q) (hq : q ≤ s.input.size) :
    (s.locate p).line < (s.locate q).line ∨
      (s.locate p).line = (s.locate q).line ∧
        (s.locate q).column = (s.locate p).column + s.input.units p q := by
  have hle := Nat.le_of_lt hlt
  have hp := Nat.le_trans hle hq
  have hsum := s.input.countNewlines_take_add_slice hle
  rw [h.locate_eq hp, h.locate_eq hq]
  dsimp only
  obtain hnone | hsome := Nat.eq_zero_or_pos (countNewlines (s.input.slice p q))
  · right
    have hstart : lastLineStart (s.input.bytes.take q) = lastLineStart (s.input.bytes.take p) := by
      rw [← s.input.take_append_slice hle, lastLineStart, lastNewline?_append,
        lastNewline?_eq_none_iff.2 hnone]
      rfl
    have hbefore : lastLineStart (s.input.bytes.take p) ≤ p := by
      have hlength := lastLineStart_le_length (s.input.bytes.take p)
      rwa [s.input.length_take_bytes hp] at hlength
    have hline := List.length_pos_of_ne_nil (Input.takeWhile_line_ne_nil hlt hq hnone)
    have hunits := Input.units_add_units hbefore hle hq
    refine ⟨by omega, ?_⟩
    rw [hstart, if_neg (by omega), if_neg (by omega)]
    omega
  · left
    omega

/-- Locations never go back, also inside a scalar, where they may stay the same. -/
theorem Scanned.rank_locate_le (h : s.Scanned) (hle : p ≤ q) (hq : q ≤ s.input.size) :
    (s.locate p).rank ≤ (s.locate q).rank := by
  obtain rfl | hlt := Nat.eq_or_lt_of_le hle
  · exact le_refl _
  rw [Location.rank, Location.rank, Prod.Lex.toLex_le_toLex]
  obtain hline | ⟨hline, hcolumn⟩ := h.locate_cases hlt hq
  · exact .inl hline
  · exact .inr ⟨hline, hcolumn ▸ Nat.le_add_right _ _⟩

/-- From one boundary to the next one locations go on: the line is a later one, or the column is
    greater. -/
theorem Scanned.rank_locate_lt (h : s.Scanned) (hp : s.input.IsBoundary p)
    (hq : s.input.IsBoundary q) (hlt : p < q) : (s.locate p).rank < (s.locate q).rank := by
  rw [Location.rank, Location.rank, Prod.Lex.toLex_lt_toLex]
  obtain hline | ⟨hline, hcolumn⟩ := h.locate_cases hlt hq.1
  · exact .inl hline
  · exact .inr ⟨hline, hcolumn ▸ Nat.lt_add_of_pos_right (hp.units_pos hq hlt)⟩

/-- A boundary can be told from its location, since locations go on between boundaries. -/
theorem Scanned.eq_of_locate_eq (h : s.Scanned) (hp : s.input.IsBoundary p)
    (hq : s.input.IsBoundary q) (heq : s.locate p = s.locate q) : p = q := by
  have hrank := congrArg Location.rank heq
  obtain hlt | rfl | hlt := Nat.lt_trichotomy p q
  · exact absurd hrank (ne_of_lt (h.rank_locate_lt hp hq hlt))
  · rfl
  · exact absurd hrank.symm (ne_of_lt (h.rank_locate_lt hq hp hlt))

end State

/-- Any cursor of the input locates an error as the cursor did at which it was raised. -/
theorem ParseError.RaisedAt.location_eq_locate {e : ParseError} {s : State} {input : Input}
    (h : e.RaisedAt (·.Reached input)) (hs : s.Reached input) :
    e.position ≤ input.size ∧ e.location = s.locate e.position := by
  obtain ⟨raiser, hraiser, hposition, hlocation⟩ := h
  have hinput := hraiser.input_eq.trans hs.input_eq.symm
  have hinside := hraiser.scanned.pos_le
  rw [Nat.min_eq_left hinside] at hposition
  rw [hposition, hlocation]
  exact ⟨hraiser.input_eq ▸ hinside,
    hraiser.scanned.locate_eq_of_input_eq hs.scanned hinput raiser.pos⟩

namespace State

variable {s : State} {input : Input}

/-- Wherever a cursor has come to, it locates boundaries in the order in which they stand in the
    input, and no check fails. No two boundaries have one location, nor have errors that cursors of the
    input have raised at two of them. Errors that are sorted by position are sorted by location. -/
theorem locations_in_order (hsize : input.size ≤ 2 ^ 32 - 2) (hs : s.Reached input) :
    (∀ p q, input.IsBoundary p → input.IsBoundary q → p < q →
      ∃ here there, s.locate? p = some here ∧ s.locate? q = some there ∧ here.rank < there.rank) ∧
    (∀ p q, input.IsBoundary p → input.IsBoundary q → s.locate? p = s.locate? q → p = q) ∧
    ∀ errors : List ParseError, (∀ e ∈ errors, e.RaisedAt (·.Reached input)) →
      (∀ e ∈ errors, ∀ f ∈ errors, input.IsBoundary e.position → input.IsBoundary f.position →
        e.location = f.location → e.position = f.position) ∧
      (errors.Pairwise (fun e f => e.position ≤ f.position) →
        errors.Pairwise fun e f => e.location.rank ≤ f.location.rank) := by
  obtain rfl := hs.input_eq
  have hscanned := hs.scanned
  have hlocate := hscanned.locate?_eq hsize
  refine ⟨fun p q hp hq hlt => ?_, fun p q hp hq heq => ?_, fun errors hraised => ⟨?_, ?_⟩⟩
  · exact ⟨_, _, hlocate p, hlocate q, hscanned.rank_locate_lt hp hq hlt⟩
  · rw [hlocate, hlocate, Option.some.injEq] at heq
    exact hscanned.eq_of_locate_eq hp hq heq
  · intro e he f hf hposition hposition' heq
    rw [((hraised e he).location_eq_locate hs).2, ((hraised f hf).location_eq_locate hs).2] at heq
    exact hscanned.eq_of_locate_eq hposition hposition' heq
  · refine fun hsorted => hsorted.imp_of_mem fun {e f} he hf hle => ?_
    obtain ⟨-, hlocation⟩ := (hraised e he).location_eq_locate hs
    obtain ⟨hinside, hlocation'⟩ := (hraised f hf).location_eq_locate hs
    rw [hlocation, hlocation']
    exact hscanned.rank_locate_le hle hinside

/-- A newline belongs to the line that it ends, and behind it stands an empty line. -/
theorem locations_in_order_empty_line :
    let input := Input.text "é\n\nx"
    let s := (start input).follow [.moveBy 5, .moveBackTo 1]
    input.size ≤ 2 ^ 32 - 2 ∧ s.Reached input ∧ input.IsBoundary 2 ∧ input.IsBoundary 3 ∧
      s.locate 2 = ⟨1, 2⟩ ∧ s.locate 3 = ⟨2, 0⟩ ∧ s.locate? 2 ≠ s.locate? 3 ∧
      ∃ here there, s.locate? 2 = some here ∧ s.locate? 3 = some there ∧ here.rank < there.rank := by
  intro input s
  have hsize : input.size ≤ 2 ^ 32 - 2 := by decide
  have hstart : (start input).Reached input := .start
  have hs : s.Reached input := hstart.follow [.moveBy 5, .moveBackTo 1]
  have hbytes : input.bytes = Utf8.encode (['é'] ++ ['\n', '\n', 'x']) := rfl
  have hbytes' : input.bytes = Utf8.encode (['é', '\n'] ++ ['\n', 'x']) := rfl
  have hnewline : input.IsBoundary 2 := Input.isBoundary_of_append hbytes
  have hempty : input.IsBoundary 3 := Input.isBoundary_of_append hbytes'
  obtain ⟨horder, hdistinct, -⟩ := locations_in_order hsize hs
  have hne : s.locate? 2 ≠ s.locate? 3 := fun heq =>
    absurd (hdistinct 2 3 hnewline hempty heq) (by decide)
  have hbefore := horder 2 3 hnewline hempty (by decide)
  exact ⟨hsize, hs, hnewline, hempty, by decide, by decide, hne, hbefore⟩

end State

end Resync
