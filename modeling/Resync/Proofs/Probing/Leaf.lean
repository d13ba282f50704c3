import Resync.Proofs.Leaf.Admission
import Resync.Proofs.Leaf.Promises
import Resync.Proofs.Recovery.Answers
import Resync.Proofs.Registry.Primitives

namespace Resync

namespace Leaf

/-- The leaf with probing in place of its recoverer. One that may match without consuming keeps its
    recoverer, which says so. -/
def probed (leaf : Leaf) : Leaf :=
  { leaf with
    recoverer :=
      if leaf.neverAnchors then leaf.recoverer else leaf.recoverer.map fun _ => .step }

variable {leaf : Leaf} {input : Input} {waste : State → Waste}

/-- How a leaf is found has no part in how it parses. -/
theorem parse_probed (leaf : Leaf) (id : Nat) (s : State) :
    leaf.probed.parse id s = leaf.parse id s := by
  have hrun : leaf.probed.run s = leaf.run s := rfl
  unfold parse
  cases hfound : leaf.run s with
  | ok found =>
    rw [hrun.trans hfound]
    rfl
  | error e =>
    rw [hrun.trans hfound]
    rfl

/-- A leaf with a recoverer is found by it, whether it is a safe spot or not. -/
theorem effectiveRecoverer_eq_some {recoverer : Recoverer} (h : leaf.recoverer = some recoverer) :
    leaf.effectiveRecoverer = some recoverer := by
  unfold effectiveRecoverer
  cases leaf.safeSpot <;> simp [h]

theorem recoverer_probed_of_never (h : leaf.recoverer = some .never) :
    leaf.probed.recoverer = some .never :=
  (if_pos (neverAnchors_of_never h)).trans h

/-- The leaf is found by an exact search on every text. -/
structure SearchesBy (leaf : Leaf) (waste : State → Waste) : Prop where
  recoverer : leaf.recoverer = some (.fast waste)
  exact : ∀ {input : Input}, input.binary = false → ∀ s : State, s.SitsOn input →
    leaf.ExactAt waste s

/-- An exact search finds a place or none, and does not decline. -/
theorem SearchesBy.ne_never (h : leaf.SearchesBy waste) (htext : input.binary = false) {s : State}
    (hs : s.SitsOn input) : waste s ≠ .never := by
  intro hnever
  have hexact := h.exact htext s hs
  rw [ExactAt, hnever] at hexact
  exact hexact

/-- A leaf that is searched for does not say that it may match without consuming. -/
theorem SearchesBy.neverAnchors_eq_false (h : leaf.SearchesBy waste) :
    leaf.neverAnchors = false := by
  have htext : (Input.text "").binary = false := rfl
  rw [neverAnchors, h.recoverer]
  exact decide_eq_false (h.ne_never htext (State.start_sitsOn _))

/-- A leaf that is searched for is probed instead. -/
theorem SearchesBy.recoverer_probed (h : leaf.SearchesBy waste) :
    leaf.probed.recoverer = some .step := by
  have hchanged : ¬ leaf.neverAnchors = true := by
    rw [h.neverAnchors_eq_false]
    exact Bool.false_ne_true
  refine (if_neg hchanged).trans ?_
  rw [h.recoverer]
  rfl

/-- A leaf that is searched for gives an answer on every text. -/
theorem SearchesBy.not_abstains (h : leaf.SearchesBy waste) (htext : input.binary = false) :
    ¬ leaf.Abstains input := by
  rintro ⟨other, hother, hnever⟩
  cases (effectiveRecoverer_eq_some h.recoverer).symm.trans hother
  have hs := State.start_sitsOn input
  exact h.ne_never htext hs (hnever _ hs)

end Leaf

namespace Primitive

/-- A leaf for one scalar that is found by a search for it is found by an exact search. -/
private theorem searchesBy_find {leaf : Leaf} {p : Char → Bool}
    (hrecoverer : leaf.recoverer = some (.find p)) (hleaf : MatchesScalar leaf p) :
    ∃ waste, leaf.SearchesBy waste :=
  ⟨_, hrecoverer, fun htext _ hs => hleaf.exactAt_find htext hs⟩

/-- A primitive leaf that reads scalars may match without consuming, or is found by a search that is
    exact on every text. -/
theorem never_or_searchesBy {primitive : Primitive} (hreads : primitive.ReadsScalars) :
    primitive.leaf.recoverer = some .never ∨ ∃ waste, primitive.leaf.SearchesBy waste := by
  cases primitive with
  | char expected => exact .inr (searchesBy_find rfl fun s => matchesScalar_iff s)
  | satisfy label p => exact .inr (searchesBy_find rfl fun s => matchesScalar_iff s)
  | literal expected =>
    by_cases hempty : expected.isEmpty = true
    · left
      rw [leaf, if_pos hempty]
    · right
      have hexpected : expected ≠ "" := by
        rintro rfl
        exact hempty rfl
      refine ⟨_, ?_, fun htext _ hs => exactAt_findText hexpected htext hs⟩
      rw [leaf, if_neg hempty]
      rfl
  | anyChar => exact .inr (searchesBy_find rfl fun s => matchesScalar_iff s)
  | digits => exact .inl rfl
  | someDigits => exact .inr (searchesBy_find rfl matchesScalar_someDigits)
  | endOfInput => exact .inl rfl
  | upTo stop => exact .inl rfl
  | byte expected => exact hreads.elim
  | anyByte => exact hreads.elim

end Primitive

namespace Leaf

/-- How a leaf is found, and how it is when it is probed: not at all both times, or by an exact
    search and by probing. -/
inductive Finding (leaf : Leaf) : Prop
  | never (h : leaf.effectiveRecoverer = some .never)
      (hprobed : leaf.probed.effectiveRecoverer = some .never)
  | search (waste : State → Waste) (h : leaf.SearchesBy waste)
      (hrecoverer : leaf.effectiveRecoverer = some (.fast waste))
      (hprobed : leaf.probed.effectiveRecoverer = some .step)

variable {leaf : Leaf} {primitive : Primitive}

/-- A primitive leaf that reads scalars is found not at all both times, or by an exact search and by
    probing. -/
theorem IsOf.finding (h : leaf.IsOf primitive) (hreads : primitive.ReadsScalars) :
    leaf.Finding := by
  obtain ⟨safeSpot, rfl⟩ := h
  obtain hnever | ⟨waste, hsearch⟩ := Primitive.never_or_searchesBy hreads
  · exact .never (effectiveRecoverer_eq_some hnever)
      (effectiveRecoverer_eq_some (recoverer_probed_of_never hnever))
  · have hsearches : ({ primitive.leaf with safeSpot } : Leaf).SearchesBy waste :=
      ⟨hsearch.recoverer, hsearch.exact⟩
    exact .search waste hsearches (effectiveRecoverer_eq_some hsearches.recoverer)
      (effectiveRecoverer_eq_some hsearches.recoverer_probed)

/-- Probing or not, a leaf abstains from an answer or does not, so the same anchors take part. -/
theorem Finding.abstains_probed_iff {input : Input} (h : leaf.Finding)
    (htext : input.binary = false) : leaf.probed.Abstains input ↔ leaf.Abstains input := by
  cases h with
  | never h hprobed =>
    have habstains : leaf.Abstains input := ⟨_, h, fun _ _ => rfl⟩
    have hprobing : leaf.probed.Abstains input := ⟨_, hprobed, fun _ _ => rfl⟩
    exact iff_of_true hprobing habstains
  | search waste h hrecoverer hprobed =>
    refine ⟨?_, fun habstains => absurd habstains (h.not_abstains htext)⟩
    rintro ⟨other, hother, -⟩
    cases hprobed.symm.trans hother

end Leaf

end Resync
