import Resync.Proofs.Leaf.Consumption
import Resync.Proofs.Leaf.Cursors
import Resync.Proofs.Leaf.Scalars

namespace Resync

namespace Leaf

variable {leaf : Leaf} {s : State} {id : Nat}

/-- The end of a parse that succeeds is that of the match, marked if the leaf is a safe spot. -/
theorem exists_run_of_isOk_parse (hok : (leaf.parse id s).isOk = true) :
    ∃ stop value, leaf.run s = .ok (stop, value) ∧
      (leaf.parse id s).stop = if leaf.safeSpot then stop.markSafeSpot else stop := by
  obtain ⟨⟨stop, value⟩, hrun⟩ := (isOk_parse_iff id).1 hok
  refine ⟨stop, value, hrun, ?_⟩
  rw [Leaf.parse, hrun]
  rfl

namespace Consumes

/-- A leaf that consumes what it matches ends beyond the cursor whenever it succeeds. -/
theorem pos_lt_stop (h : leaf.Consumes) (hs : s.pos ≤ s.input.size)
    (hok : (leaf.parse id s).isOk = true) : s.pos < (leaf.parse id s).stop.pos := by
  obtain ⟨stop, value, hrun, hstop⟩ := exists_run_of_isOk_parse hok
  have hlt : s.pos < stop.pos := h hs hrun
  rw [hstop]
  split
  · exact hlt
  · exact hlt

/-- A safe spot that consumes what it matches raises the watermark beyond its start, so that the
    attempt is seen to have crossed it. -/
theorem pos_lt_safeSpot (h : leaf.Consumes) (hsafe : leaf.safeSpot = true)
    (hs : s.pos ≤ s.input.size) (hok : (leaf.parse id s).isOk = true) :
    s.pos < (leaf.parse id s).stop.safeSpot := by
  obtain ⟨stop, value, hrun, hstop⟩ := exists_run_of_isOk_parse hok
  have hlt : s.pos < stop.pos := h hs hrun
  rw [hstop, if_pos hsafe]
  exact Nat.lt_of_lt_of_le hlt (Nat.le_max_right ..)

/-- There is nothing to consume in the empty input, so that the trial fails for a leaf that
    consumes. -/
theorem acceptsEmpty_eq_false (h : leaf.Consumes) (hplain : leaf.IsPlain) :
    leaf.acceptsEmpty = false := by
  have hstart := State.start_sitsOn (Input.text "")
  unfold acceptsEmpty
  cases hrun : leaf.run (State.start (Input.text "")) with
  | error e => rfl
  | ok found =>
    obtain ⟨stop, value⟩ := found
    have hlt : 0 < stop.pos := h (Nat.zero_le _) hrun
    have hstop := (hplain.advances (State.closedUnderMoves_sitsOn _)).stop hstart hrun
    exact absurd hlt (Nat.not_lt.2 hstop.1.pos_le_size)

end Consumes

end Leaf

namespace Recoverer

/-- A search finds a place or none, and never declines, so a leaf that is searched for passes the
    first test. -/
theorem wasteToOffset_ne_never (s : State) (offset : Option Nat) :
    wasteToOffset s offset ≠ .never := by
  cases offset <;> nofun

theorem offsetOfList?_self (cs : List Char) : offsetOfList? cs cs = some 0 := by
  cases cs with
  | nil => rfl
  | cons c cs => exact if_pos (List.isPrefixOf_iff_prefix.2 List.prefix_rfl)

end Recoverer

namespace Leaf

variable {leaf : Leaf}

/-- A leaf whose recoverer always declines is refused by the first test. -/
theorem neverAnchors_of_never (h : leaf.recoverer = some .never) : leaf.neverAnchors = true := by
  rw [neverAnchors, h]
  rfl

theorem neverAnchors_eq_false_of_search {search : State → Option Nat}
    (h : leaf.recoverer = some (.fast fun s => Recoverer.wasteToOffset s (search s))) :
    leaf.neverAnchors = false := by
  rw [neverAnchors, h]
  exact decide_eq_false (Recoverer.wasteToOffset_ne_never _ _)

end Leaf

namespace Primitive

variable {primitive : Primitive}

/-- The recoverers that decline are those of the primitives that may match without consuming, and no
    others. -/
theorem neverAnchors_eq_false_iff : primitive.leaf.neverAnchors = false ↔ primitive.Consumes := by
  cases primitive with
  | char expected => exact iff_of_true (Leaf.neverAnchors_eq_false_of_search rfl) trivial
  | satisfy label p => exact iff_of_true (Leaf.neverAnchors_eq_false_of_search rfl) trivial
  | literal expected =>
    by_cases hempty : expected = ""
    · subst hempty
      exact iff_of_false (ne_false_of_eq_true (Leaf.neverAnchors_of_never rfl)) fun h => h rfl
    · have hsearch : (literal expected).leaf.recoverer = some (.findText expected) := by
        rw [leaf, if_neg (by simpa using hempty)]
      exact iff_of_true (Leaf.neverAnchors_eq_false_of_search hsearch) hempty
  | anyChar => exact iff_of_true (Leaf.neverAnchors_eq_false_of_search rfl) trivial
  | digits => exact iff_of_false (ne_false_of_eq_true (Leaf.neverAnchors_of_never rfl)) id
  | someDigits => exact iff_of_true (Leaf.neverAnchors_eq_false_of_search rfl) trivial
  | endOfInput => exact iff_of_false (ne_false_of_eq_true (Leaf.neverAnchors_of_never rfl)) id
  | upTo stop => exact iff_of_false (ne_false_of_eq_true (Leaf.neverAnchors_of_never rfl)) id
  | byte expected => exact iff_of_true (Leaf.neverAnchors_eq_false_of_search rfl) trivial
  | anyByte => exact iff_of_true rfl trivial

/-- The trial on the empty input refuses no primitive that its recoverer does not refuse. -/
theorem toSafeSpot_eq_ok_iff_consumes {safe : Leaf} :
    primitive.leaf.toSafeSpot = .ok safe ↔
      primitive.Consumes ∧ safe = { primitive.leaf with safeSpot := true } := by
  rw [Leaf.toSafeSpot_eq_ok_iff, neverAnchors_eq_false_iff]
  constructor
  · rintro ⟨hconsumes, -, hsafe⟩
    exact ⟨hconsumes, hsafe⟩
  · rintro ⟨hconsumes, hsafe⟩
    exact ⟨hconsumes, hconsumes.leaf.acceptsEmpty_eq_false primitive.isPlain, hsafe⟩

/-- What stands before an occurrence at the cursor is nothing, and is matched without consuming. -/
private theorem upTo_stays (text : String) :
    ∃ value, (upTo text).leaf.run (State.start (Input.text text)) =
      .ok ((State.start (Input.text text)).moveBy 0, value) := by
  have hscalars : (State.start (Input.text text)).scalars = text.toList :=
    (State.faces_start rfl).scalars_eq
  refine ⟨(State.start (Input.text text)).stringTo ((State.start (Input.text text)).moveBy 0), ?_⟩
  change matchUpTo text _ = _
  rw [matchUpTo, hscalars, Recoverer.offsetOfList?_self]
  rfl

/-- A primitive that may match without consuming does so at the start of some text, so admitting it
    would be wrong. -/
theorem exists_stays (h : ¬ primitive.Consumes) (id : Nat) :
    ∃ text, (primitive.leaf.parse id (State.start (Input.text text))).isOk = true ∧
      (primitive.leaf.parse id (State.start (Input.text text))).stop.pos = 0 := by
  cases primitive with
  | literal expected =>
    obtain rfl : expected = "" := Classical.not_not.1 h
    exact ⟨"", rfl, rfl⟩
  | digits => exact ⟨"", rfl, rfl⟩
  | endOfInput => exact ⟨"", rfl, rfl⟩
  | upTo text =>
    -- The trial on the empty input would not tell, since it fails unless the text is empty.
    obtain ⟨value, hrun⟩ := upTo_stays text
    refine ⟨text, ?_⟩
    rw [Leaf.parse, hrun]
    refine ⟨rfl, ?_⟩
    change ((State.start (Input.text text)).moveBy 0).pos = 0
    rw [State.moveBy_pos]
    exact (Nat.zero_min _).symm ▸ (Input.text text).isBoundary_zero.align_eq
  | char expected => exact absurd trivial h
  | satisfy label p => exact absurd trivial h
  | anyChar => exact absurd trivial h
  | someDigits => exact absurd trivial h
  | byte expected => exact absurd trivial h
  | anyByte => exact absurd trivial h

/-- A primitive leaf is admitted as a safe spot just if it ends beyond the cursor wherever it
    succeeds, from any cursor of any input that stands on a boundary. Where an admitted one
    succeeds, it raises the watermark beyond its start, and so has crossed a safe spot since. -/
theorem admits_exactly_consuming (primitive : Primitive) :
    ((∃ safe, primitive.leaf.toSafeSpot = .ok safe) ↔
      ∀ (id : Nat) (s : State), s.input.IsBoundary s.pos →
        (primitive.leaf.parse id s).isOk = true → s.pos < (primitive.leaf.parse id s).stop.pos) ∧
    ∀ safe, primitive.leaf.toSafeSpot = .ok safe →
      ∀ (id : Nat) (s : State), s.input.IsBoundary s.pos → (safe.parse id s).isOk = true →
        s.pos < (safe.parse id s).stop.safeSpot ∧
          (safe.parse id s).stop.crossedSafeSpotSince s = true := by
  refine ⟨⟨?_, ?_⟩, ?_⟩
  · rintro ⟨safe, hsafe⟩ id s hs hok
    exact (toSafeSpot_eq_ok_iff_consumes.1 hsafe).1.leaf.pos_lt_stop hs.1 hok
  · intro hbeyond
    by_contra hrefused
    have hstays : ¬ primitive.Consumes := fun hconsumes =>
      hrefused ⟨_, toSafeSpot_eq_ok_iff_consumes.2 ⟨hconsumes, rfl⟩⟩
    obtain ⟨text, hok, hstop⟩ := exists_stays hstays 0
    have hlt := hbeyond 0 _ (Input.text text).isBoundary_zero hok
    rw [hstop] at hlt
    exact Nat.not_lt_zero _ hlt
  · intro safe hsafe id s hs hok
    obtain ⟨hconsumes, rfl⟩ := toSafeSpot_eq_ok_iff_consumes.1 hsafe
    have hlt : s.pos < (Leaf.parse { primitive.leaf with safeSpot := true } id s).stop.safeSpot :=
      Leaf.Consumes.pos_lt_safeSpot hconsumes.leaf rfl hs.1 hok
    exact ⟨hlt, decide_eq_true hlt⟩

/-- Behind one letter, an accented one is reached as a safe spot at the end of its two bytes. -/
theorem admits_exactly_consuming_accented :
    ∃ safe, (literal "é").leaf.toSafeSpot = .ok safe ∧
      ((State.start (Input.text "aé")).moveBy 1).input.IsBoundary
        ((State.start (Input.text "aé")).moveBy 1).pos ∧
      (safe.parse 0 ((State.start (Input.text "aé")).moveBy 1)).isOk = true ∧
      1 < ((literal "é").leaf.parse 0 ((State.start (Input.text "aé")).moveBy 1)).stop.pos ∧
      1 < (safe.parse 0 ((State.start (Input.text "aé")).moveBy 1)).stop.safeSpot := by
  have hsafe : (literal "é").leaf.toSafeSpot =
      .ok { (literal "é").leaf with safeSpot := true } := rfl
  have hs := ((State.start_sitsOn (Input.text "aé")).moveBy 1).boundary
  obtain ⟨hadmitted, hmarks⟩ := admits_exactly_consuming (literal "é")
  exact ⟨_, hsafe, hs, rfl, hadmitted.1 ⟨_, hsafe⟩ 0 _ hs rfl, (hmarks _ hsafe 0 _ hs rfl).1⟩

end Primitive

end Resync
