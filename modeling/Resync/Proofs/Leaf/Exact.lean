import Resync.Leaf.Primitive
import Resync.Proofs.Leaf.Search

namespace Resync

namespace Recoverer

variable {p : Char → Bool}

/-- A scalar that is not found does not stand ahead. -/
theorem offsetOf?_eq_none {cs : List Char} (h : offsetOf? p cs = none) : ∀ c ∈ cs, p c = false := by
  induction cs with
  | nil => exact fun c hc => nomatch hc
  | cons first cs ih =>
    unfold offsetOf? at h
    split at h
    · cases h
    · next hfirst =>
      intro c hc
      obtain rfl | hc := List.mem_cons.1 hc
      · exact Bool.eq_false_iff.2 hfirst
      · exact ih (Option.map_eq_none_iff.1 h) c hc

/-- The offset of a scalar is the width of those before it, none of which has the property. So no
    earlier place ahead would have been found. -/
theorem offsetOf?_eq_some {cs : List Char} {offset : Nat} (h : offsetOf? p cs = some offset) :
    ∃ count c, cs[count]? = some c ∧ p c = true ∧ offset = Utf8.width (cs.take count) ∧
      ∀ fewer < count, ∀ c, cs[fewer]? = some c → p c = false := by
  induction cs generalizing offset with
  | nil => cases h
  | cons first cs ih =>
    unfold offsetOf? at h
    split at h
    · next hfirst =>
      cases h
      exact ⟨0, first, rfl, hfirst, rfl, fun fewer hfewer => absurd hfewer (Nat.not_lt_zero _)⟩
    · next hfirst =>
      obtain ⟨rest, hrest, rfl⟩ := Option.map_eq_some_iff.1 h
      obtain ⟨count, c, hc, hp, rfl, hbefore⟩ := ih hrest
      refine ⟨count + 1, c, hc, hp, rfl, ?_⟩
      intro fewer hfewer other hother
      match fewer with
      | 0 =>
        cases hother
        exact Bool.eq_false_iff.2 hfirst
      | fewer + 1 => exact hbefore fewer (Nat.lt_of_succ_lt_succ hfewer) other hother

/-- The offset of a scalar is the width of those before it, so a search in bytes is one in
    scalars. -/
theorem offsetOf?_eq_findIdx? (cs : List Char) :
    offsetOf? p cs = (cs.findIdx? p).map fun count => Utf8.width (cs.take count) := by
  induction cs with
  | nil => rfl
  | cons c cs ih =>
    rw [offsetOf?, List.findIdx?_cons, ih]
    split
    · rfl
    · rw [Option.map_map, Option.map_map]
      rfl

/-- A scalar that is found stands behind the scalars that are passed, and has the property that is
    searched for. -/
theorem exists_append_of_offsetOf? {p : Char → Bool} {cs : List Char} {offset : Nat}
    (h : offsetOf? p cs = some offset) :
    ∃ front c back, cs = front ++ c :: back ∧ p c = true ∧ offset = Utf8.width front := by
  obtain ⟨count, c, hc, hp, rfl, -⟩ := offsetOf?_eq_some h
  obtain ⟨hlt, rfl⟩ := List.getElem?_eq_some_iff.1 hc
  refine ⟨cs.take count, cs[count], cs.drop (count + 1), ?_, hp, rfl⟩
  rw [List.getElem_cons_drop, List.take_append_drop]

/-- A text that is found stands behind the scalars that are passed, all of it. The induction is on
    the scalars ahead. -/
theorem exists_append_of_offsetOfList? {needle cs : List Char} {offset : Nat}
    (h : offsetOfList? needle cs = some offset) :
    ∃ front back, cs = front ++ back ∧ needle <+: back ∧ offset = Utf8.width front := by
  induction cs generalizing offset with
  | nil =>
    unfold offsetOfList? at h
    split at h
    · next hneedle =>
      cases h
      obtain rfl := List.isEmpty_iff.1 hneedle
      exact ⟨[], [], rfl, List.nil_prefix, rfl⟩
    · cases h
  | cons c cs ih =>
    unfold offsetOfList? at h
    split at h
    · next hprefix =>
      cases h
      exact ⟨[], c :: cs, rfl, List.isPrefixOf_iff_prefix.1 hprefix, rfl⟩
    · obtain ⟨rest, hrest, rfl⟩ := Option.map_eq_some_iff.1 h
      obtain ⟨front, back, rfl, hneedle, rfl⟩ := ih hrest
      exact ⟨c :: front, back, rfl, hneedle, (Utf8.width_cons c front).symm⟩

theorem offsetOfList?_eq_none {needle cs : List Char} (h : offsetOfList? needle cs = none)
    (count : Nat) : ¬ needle <+: cs.drop count := by
  induction cs generalizing count with
  | nil =>
    unfold offsetOfList? at h
    split at h
    · cases h
    · next hneedle =>
      intro hprefix
      rw [List.drop_nil, List.prefix_nil] at hprefix
      exact hneedle (List.isEmpty_iff.2 hprefix)
  | cons c cs ih =>
    unfold offsetOfList? at h
    split at h
    · cases h
    · next hfirst =>
      cases count with
      | zero => exact fun hprefix => hfirst (List.isPrefixOf_iff_prefix.2 hprefix)
      | succ count => exact ih (Option.map_eq_none_iff.1 h) count

/-- The offset of a text is the width of the scalars before it, behind fewer of which it does not
    stand. -/
theorem offsetOfList?_eq_some {needle cs : List Char} (hneedle : needle ≠ []) {offset : Nat}
    (h : offsetOfList? needle cs = some offset) :
    ∃ count < cs.length, needle <+: cs.drop count ∧ offset = Utf8.width (cs.take count) ∧
      ∀ fewer < count, ¬ needle <+: cs.drop fewer := by
  induction cs generalizing offset with
  | nil =>
    rw [offsetOfList?, if_neg fun hempty => hneedle (List.isEmpty_iff.1 hempty)] at h
    cases h
  | cons c cs ih =>
    unfold offsetOfList? at h
    split at h
    · next hprefix =>
      cases h
      exact ⟨0, Nat.succ_pos _, List.isPrefixOf_iff_prefix.1 hprefix, rfl,
        fun fewer hfewer => absurd hfewer (Nat.not_lt_zero _)⟩
    · next hfirst =>
      obtain ⟨rest, hrest, rfl⟩ := Option.map_eq_some_iff.1 h
      obtain ⟨count, hlt, hprefix, rfl, hbefore⟩ := ih hrest
      refine ⟨count + 1, Nat.succ_lt_succ hlt, hprefix, (Utf8.width_cons c _).symm, ?_⟩
      intro fewer hfewer
      cases fewer with
      | zero => exact fun hprefix => hfirst (List.isPrefixOf_iff_prefix.2 hprefix)
      | succ fewer => exact hbefore fewer (Nat.lt_of_succ_lt_succ hfewer)

end Recoverer

/-- The place that an exact recoverer answers with is one at which the leaf matches. -/
theorem Leaf.ExactAt.accepts {leaf : Leaf} {waste : State → Waste} {s : State}
    (h : leaf.ExactAt waste s) {count : Nat} (hcount : waste s = .units count) :
    leaf.Accepts (s.moveByUnits count) := by
  rw [ExactAt, hcount] at h
  exact h.1

/-- A leaf is served by a search over the scalars ahead: it matches where these are as demanded, and
    the search finds the first such place. -/
structure Leaf.IsServedBy (leaf : Leaf) (search : List Char → Option Nat)
    (demand : List Char → Prop) : Prop where
  accepts_iff : ∀ s, leaf.Accepts s ↔ demand s.scalars
  of_some : ∀ cs offset, search cs = some offset → ∃ count < cs.length,
    demand (cs.drop count) ∧ offset = Utf8.width (cs.take count) ∧
      ∀ fewer < count, ¬ demand (cs.drop fewer)
  of_none : ∀ cs, search cs = none → ∀ count, ¬ demand (cs.drop count)

/-- A search for the first scalars ahead that satisfy what the leaf demands of them is exact on a
    text: places between scalars are counted by the scalars before them, and at the end nothing is
    demanded. -/
theorem Leaf.IsServedBy.exactAt {leaf : Leaf} {demand : List Char → Prop}
    {search : List Char → Option Nat} {input : Input} {s : State}
    (h : leaf.IsServedBy search demand) (htext : input.binary = false) (hs : s.SitsOn input) :
    leaf.ExactAt (fun s => Recoverer.wasteToOffset s (search s.scalars)) s := by
  have haccepts (count : Nat) :
      leaf.Accepts (s.moveByUnits count) ↔ demand (s.scalars.drop count) := by
    rw [h.accepts_iff, hs.scalars_moveByUnits htext]
  rw [ExactAt]
  cases hoffset : search s.scalars with
  | none => exact fun count => mt (haccepts count).1 (h.of_none _ hoffset count)
  | some offset =>
    obtain ⟨count, hlt, hdemand, rfl, hbefore⟩ := h.of_some _ offset hoffset
    have hwaste : Recoverer.wasteToOffset s (some (Utf8.width (s.scalars.take count))) =
        .units count := by
      rw [Recoverer.wasteToOffset, wasteTo, ← hs.moveByUnits_eq_moveBy htext hlt,
        hs.unitsTo_moveByUnits htext (Nat.le_of_lt hlt)]
    rw [hwaste]
    exact ⟨(haccepts count).2 hdemand,
      fun fewer hfewer => mt (haccepts fewer).1 (hbefore fewer hfewer)⟩

namespace Primitive

variable {leaf : Leaf} {input : Input} {p : Char → Bool} {s : State}

/-- A leaf that matches one scalar with a property. -/
def MatchesScalar (leaf : Leaf) (p : Char → Bool) : Prop :=
  ∀ s, leaf.Accepts s ↔ ∃ c, s.scalars.head? = some c ∧ p c = true

theorem matchesScalar_iff {label : String} (s : State) :
    (∃ found, matchScalar label p s = .ok found) ↔ ∃ c, s.scalars.head? = some c ∧ p c = true := by
  unfold matchScalar
  cases s.scalars with
  | nil => simp
  | cons c cs => by_cases hp : p c = true <;> simp [hp]

/-- Whether a leaf for one scalar matches depends on the position alone. -/
theorem MatchesScalar.positional (h : MatchesScalar leaf p) : leaf.Positional input := by
  intro s t hs ht hpos haccepts
  rw [h t, ← hs.scalars_eq ht hpos]
  exact (h s).1 haccepts

/-- A leaf for one scalar is served by the search for it: it matches where such a scalar is the next
    one. -/
theorem MatchesScalar.isServedBy (h : MatchesScalar leaf p) :
    leaf.IsServedBy (Recoverer.offsetOf? p) fun cs => ∃ c, cs.head? = some c ∧ p c = true := by
  have hrejects {cs : List Char} {count : Nat} (hnone : ∀ c, cs[count]? = some c → p c = false) :
      ¬ ∃ c, (cs.drop count).head? = some c ∧ p c = true := by
    rintro ⟨c, hc, hp⟩
    rw [List.head?_drop] at hc
    rw [hnone c hc] at hp
    cases hp
  refine ⟨h, fun cs offset hoffset => ?_, fun cs hnone count => ?_⟩
  · obtain ⟨count, c, hc, hp, rfl, hbefore⟩ := Recoverer.offsetOf?_eq_some hoffset
    refine ⟨count, (List.getElem?_eq_some_iff.1 hc).1, ⟨c, ?_, hp⟩, rfl,
      fun fewer hfewer => hrejects (hbefore fewer hfewer)⟩
    rw [List.head?_drop, hc]
  · exact hrejects fun c hc => Recoverer.offsetOf?_eq_none hnone c (List.mem_of_getElem? hc)

/-- Searching for the scalar is exact on a text, from every boundary. -/
theorem MatchesScalar.exactAt_find (h : MatchesScalar leaf p) (htext : input.binary = false)
    (hs : s.SitsOn input) :
    leaf.ExactAt (fun s => Recoverer.wasteToOffset s (Recoverer.offsetOf? p s.scalars)) s :=
  h.isServedBy.exactAt htext hs

theorem accepts_literal_iff {expected : String} (s : State) :
    (literal expected).leaf.Accepts s ↔ expected.toList <+: s.scalars := by
  rw [← List.isPrefixOf_iff_prefix]
  change (∃ found, matchText expected s = .ok found) ↔ _
  unfold matchText
  by_cases hstarts : expected.toList.isPrefixOf s.scalars = true <;> simp [hstarts]

/-- A leaf for a text is served by the search for the text, if it is not empty. An empty one matches
    everywhere. -/
theorem literal_isServedBy {expected : String} (hexpected : expected ≠ "") :
    (literal expected).leaf.IsServedBy (Recoverer.offsetOfList? expected.toList)
      (expected.toList <+: ·) where
  accepts_iff := accepts_literal_iff
  of_some _ _ := Recoverer.offsetOfList?_eq_some (mt String.toList_eq_nil_iff.1 hexpected)
  of_none _ := Recoverer.offsetOfList?_eq_none

/-- Searching for a text is exact on a text, from every boundary. -/
theorem exactAt_findText {expected : String} (hexpected : expected ≠ "")
    (htext : input.binary = false) (hs : s.SitsOn input) :
    (literal expected).leaf.ExactAt
      (fun s => Recoverer.wasteToOffset s (Recoverer.offsetOfList? expected.toList s.scalars)) s :=
  (literal_isServedBy hexpected).exactAt htext hs

/-- A leaf that matches one byte with a property. -/
def MatchesByte (leaf : Leaf) (p : UInt8 → Bool) : Prop :=
  ∀ s, leaf.Accepts s ↔ ∃ b, s.currentBytes.head? = some b ∧ p b = true

theorem matchesByte_iff {label : String} {p : UInt8 → Bool} (s : State) :
    (∃ found, matchByte label p s = .ok found) ↔
      ∃ b, s.currentBytes.head? = some b ∧ p b = true := by
  unfold matchByte
  cases s.currentBytes with
  | nil => simp
  | cons b bytes => by_cases hp : p b = true <;> simp [hp]

/-- Searching for the byte is exact on raw bytes, of which each one is a unit, so the index of the
    byte is the number of units to skip. -/
theorem MatchesByte.exactAt_findByte {p : UInt8 → Bool} (h : MatchesByte leaf p)
    (hbinary : input.binary = true) (hs : s.SitsOn input) :
    leaf.ExactAt (fun s => Recoverer.wasteToOffset s (s.currentBytes.findIdx? p)) s := by
  have haccepts (count : Nat) :
      leaf.Accepts (s.moveByUnits count) ↔ ∃ b, s.currentBytes[count]? = some b ∧ p b = true := by
    rw [h, hs.currentBytes_moveByUnits hbinary, List.head?_drop]
  rw [Leaf.ExactAt]
  cases hoffset : s.currentBytes.findIdx? p with
  | none =>
    intro count hmatch
    obtain ⟨b, hb, hp⟩ := (haccepts count).1 hmatch
    rw [List.findIdx?_eq_none_iff.1 hoffset b (List.mem_of_getElem? hb)] at hp
    cases hp
  | some offset =>
    obtain ⟨hlt, hp, hbefore⟩ := List.findIdx?_eq_some_iff_getElem.1 hoffset
    have hwaste : Recoverer.wasteToOffset s (some offset) = .units offset := by
      rw [Recoverer.wasteToOffset, wasteTo, hs.unitsTo_moveBy hbinary (Nat.le_of_lt hlt)]
    rw [hwaste]
    refine ⟨(haccepts offset).2 ⟨_, List.getElem?_eq_getElem hlt, hp⟩, ?_⟩
    intro fewer hfewer hmatch
    obtain ⟨b, hb, hp'⟩ := (haccepts fewer).1 hmatch
    obtain ⟨hlt', rfl⟩ := List.getElem?_eq_some_iff.1 hb
    exact hbefore fewer hfewer hp'

/-- Any byte is found by looking whether there is one, which is a search that accepts the first
    one. -/
theorem anyByteWaste_eq (hbinary : input.binary = true) (hs : s.SitsOn input) :
    anyByteWaste s = Recoverer.wasteToOffset s (s.currentBytes.findIdx? fun _ => true) := by
  have hend : s.atEnd = true ↔ s.currentBytes = [] := by
    rw [State.atEnd, decide_eq_true_eq, State.currentBytes, List.drop_eq_nil_iff]
    exact Iff.rfl
  unfold anyByteWaste
  cases hbytes : s.currentBytes with
  | nil =>
    rw [if_pos (hend.2 hbytes)]
    rfl
  | cons b bytes =>
    rw [if_neg (mt hend.1 (by simp [hbytes])), List.findIdx?_cons, if_pos rfl,
      Recoverer.wasteToOffset, wasteTo, hs.unitsTo_moveBy hbinary (Nat.zero_le _)]

/-- Looking whether there is a byte is exact on raw bytes. -/
theorem exactAt_anyByteWaste (hbinary : input.binary = true) (hs : s.SitsOn input) :
    anyByte.leaf.ExactAt anyByteWaste s := by
  have hleaf : MatchesByte anyByte.leaf fun _ => true := fun s => matchesByte_iff s
  have hexact := hleaf.exactAt_findByte hbinary hs
  rw [Leaf.ExactAt, anyByteWaste_eq hbinary hs]
  exact hexact

end Primitive

end Resync
