import Mathlib.Data.Nat.Find
import Resync.Recovery.Choice
import Resync.Proofs.Cursor.Boundary

namespace Resync

namespace Leaf

/-- A leaf matches from a state. -/
def Accepts (leaf : Leaf) (s : State) : Prop :=
  ∃ found, leaf.run s = .ok found

/-- A leaf matches at an offset of an input. -/
def MatchesAt (leaf : Leaf) (input : Input) (pos : Nat) : Prop :=
  ∃ s, s.SitsOn input ∧ s.pos = pos ∧ leaf.Accepts s

/-- Whether a leaf matches depends on the position alone, not on how the cursor came there. -/
def Positional (leaf : Leaf) (input : Input) : Prop :=
  ∀ s t : State, s.SitsOn input → t.SitsOn input → s.pos = t.pos → leaf.Accepts s → leaf.Accepts t

/-- The place of the first match at an offset or after it. -/
def FirstMatch (leaf : Leaf) (input : Input) (pos : Nat) : Cached → Prop
  | .anchor offset => pos ≤ offset ∧ leaf.MatchesAt input offset ∧
      ∀ other, pos ≤ other → other < offset → ¬ leaf.MatchesAt input other
  | .tooMuch => ∀ other, pos ≤ other → ¬ leaf.MatchesAt input other

/-- A recoverer is exact at a state: it answers with the least number of units after which the leaf
    matches, if there is one. -/
def ExactAt (leaf : Leaf) (waste : State → Waste) (s : State) : Prop :=
  match waste s with
  | .units count =>
    leaf.Accepts (s.moveByUnits count) ∧ ∀ fewer < count, ¬ leaf.Accepts (s.moveByUnits fewer)
  | .tooMuch => ∀ count, ¬ leaf.Accepts (s.moveByUnits count)
  | .never => False

variable {leaf : Leaf} {input : Input} {s : State} {pos : Nat} {answer other : Cached}

/-- An occurrence of a leaf succeeds where the leaf matches. -/
theorem isOk_parse_iff (id : Nat) : (leaf.parse id s).isOk = true ↔ leaf.Accepts s := by
  rw [Leaf.parse, Accepts]
  cases leaf.run s with
  | ok found => simp [Result.isOk, Result.success]
  | error e => simp [Result.isOk, Result.failure]

/-- There is one place at most that is the first match, so an answer that is remembered is the one
    that would be found anew. -/
theorem FirstMatch.unique (h : leaf.FirstMatch input pos answer)
    (h' : leaf.FirstMatch input pos other) : answer = other := by
  cases answer with
  | anchor offset =>
    obtain ⟨hle, hmatch, hfirst⟩ := h
    cases other with
    | anchor offset' =>
      obtain ⟨hle', hmatch', hfirst'⟩ := h'
      obtain hlt | rfl | hlt := Nat.lt_trichotomy offset offset'
      · exact absurd hmatch (hfirst' offset hle hlt)
      · rfl
      · exact absurd hmatch' (hfirst offset' hle' hlt)
    | tooMuch => exact absurd hmatch (h' offset hle)
  | tooMuch =>
    cases other with
    | anchor offset' => exact absurd h'.2.1 (h offset' h'.1)
    | tooMuch => rfl

/-- At every offset there is a first match ahead, or none, and that is an answer too. -/
theorem exists_firstMatch (leaf : Leaf) (input : Input) (pos : Nat) :
    ∃ answer, leaf.FirstMatch input pos answer := by
  classical
  by_cases hmatch : ∃ offset, pos ≤ offset ∧ leaf.MatchesAt input offset
  · obtain ⟨hle, hmatches⟩ := Nat.find_spec hmatch
    exact ⟨.anchor (Nat.find hmatch), hle, hmatches,
      fun other hother hlt hother' => Nat.find_min hmatch hlt ⟨hother, hother'⟩⟩
  · exact ⟨.tooMuch, fun other hother hother' => hmatch ⟨other, hother, hother'⟩⟩

/-- The answer for a position is the answer for later ones, up to the place of the match. This is
    what makes it safe to remember answers. -/
theorem FirstMatch.later {asked : Nat} (h : leaf.FirstMatch input asked answer) (hle : asked ≤ pos)
    (hahead : ∀ offset, answer = .anchor offset → pos ≤ offset) :
    leaf.FirstMatch input pos answer := by
  cases answer with
  | anchor offset =>
    exact ⟨hahead offset rfl, h.2.1, fun other hother => h.2.2 other (Nat.le_trans hle hother)⟩
  | tooMuch => exact fun other hother => h other (Nat.le_trans hle hother)

/-- An exact recoverer proposes the first match, as the offset that is remembered for it: the least
    number of units after which the leaf matches leads there. -/
theorem firstMatch_proposedOffset (hleaf : leaf.Positional input) (hs : s.SitsOn input)
    {waste : State → Waste} (hexact : leaf.ExactAt waste s) :
    leaf.FirstMatch input s.pos (Session.proposedOffset waste s) := by
  -- A match ahead is reached by counting the units up to it.
  have hreach : ∀ other, s.pos ≤ other → leaf.MatchesAt input other →
      ∃ count, leaf.Accepts (s.moveByUnits count) ∧ (s.moveByUnits count).pos = other := by
    rintro other hle ⟨t, ht, rfl, haccepts⟩
    have hpos := hs.moveByUnits_unitsTo ht hle
    exact ⟨_, hleaf t _ ht (hs.moveByUnits _) hpos.symm haccepts, hpos⟩
  unfold ExactAt at hexact
  unfold Session.proposedOffset
  cases hwaste : waste s with
  | never =>
    rw [hwaste] at hexact
    exact hexact.elim
  | tooMuch =>
    rw [hwaste] at hexact
    intro other hle hmatch
    obtain ⟨count, haccepts, -⟩ := hreach other hle hmatch
    exact hexact count haccepts
  | units count =>
    rw [hwaste] at hexact
    obtain ⟨haccepts, hleast⟩ := hexact
    refine ⟨hs.pos_le_moveByUnits count, ⟨_, hs.moveByUnits count, rfl, haccepts⟩, ?_⟩
    intro other hle hlt hmatch
    obtain ⟨fewer, haccepts', rfl⟩ := hreach other hle hmatch
    apply hleast fewer _ haccepts'
    by_contra hge
    have hunits :=
      (hs.moveByUnits fewer).boundary.unitsBefore_lt (hs.moveByUnits count).boundary hlt
    rw [hs.unitsBefore_moveByUnits, hs.unitsBefore_moveByUnits] at hunits
    omega

end Leaf

namespace State

variable {input : Input} {here : State}

private theorem stepsAhead_spec {limit : Nat} (hhere : here.SitsOn input)
    (hlimit : here.remaining < limit) :
    (stepsAhead limit here).length =
        input.unitsBefore input.size - input.unitsBefore here.pos + 1 ∧
      ∀ (i : Nat) t, (stepsAhead limit here)[i]? = some t →
        t.SitsOn input ∧ input.unitsBefore t.pos = input.unitsBefore here.pos + i := by
  induction limit generalizing here with
  | zero => exact absurd hlimit (Nat.not_lt_zero _)
  | succ limit ih =>
    have hend := hhere.boundary.unitsBefore_le input.isBoundary_size hhere.pos_le_size
    have hsize := hhere.pos_le_size
    unfold stepsAhead
    split
    · next hatEnd =>
      rw [atEnd, hhere.input_eq, decide_eq_true_eq] at hatEnd
      have hpos : here.pos = input.size := Nat.le_antisymm hsize hatEnd
      rw [hpos, Nat.sub_self]
      refine ⟨rfl, ?_⟩
      intro i t ht
      cases i with
      | zero =>
        cases ht
        rw [hpos]
        exact ⟨hhere, rfl⟩
      | succ i => cases ht
    · next hatEnd =>
      rw [atEnd, hhere.input_eq, decide_eq_true_eq] at hatEnd
      have hlt := hhere.boundary.unitsBefore_lt input.isBoundary_size (Nat.not_le.1 hatEnd)
      have hnext := hhere.unitsBefore_moveByUnits 1
      rw [Nat.min_eq_left hlt] at hnext
      have hmoved : here.pos < (here.moveByUnits 1).pos := by
        by_contra hle
        have hback := (hhere.moveByUnits 1).boundary.unitsBefore_le hhere.boundary
          (Nat.not_lt.1 hle)
        omega
      have hremaining : (here.moveByUnits 1).remaining < limit := by
        rw [remaining, hhere.input_eq] at hlimit
        rw [remaining, moveByUnits_input, hhere.input_eq]
        omega
      obtain ⟨hlength, hspec⟩ := ih (hhere.moveByUnits 1) hremaining
      refine ⟨?_, ?_⟩
      · rw [List.length_cons, hlength, hnext]
        omega
      · intro i t ht
        cases i with
        | zero =>
          cases ht
          exact ⟨hhere, rfl⟩
        | succ i =>
          obtain ⟨hsits, hunits⟩ := hspec i t ht
          exact ⟨hsits, by rw [hunits, hnext]; omega⟩

/-- Every boundary ahead is reached by the states ahead, after as many of them as there are units up
    to it. -/
theorem SitsOn.exists_ahead (hhere : here.SitsOn input) {other : Nat}
    (hother : input.IsBoundary other) (hle : here.pos ≤ other) :
    ∃ t, here.ahead[input.unitsBefore other - input.unitsBefore here.pos]? = some t ∧
      t.SitsOn input ∧ t.pos = other := by
  obtain ⟨hlength, hspec⟩ := stepsAhead_spec hhere (Nat.lt_succ_self _)
  have hunits := hhere.boundary.unitsBefore_le hother hle
  have hend := hother.unitsBefore_le input.isBoundary_size hother.1
  have hlt : input.unitsBefore other - input.unitsBefore here.pos < here.ahead.length := by
    rw [ahead, hlength]
    omega
  obtain ⟨hsits, hcount⟩ := hspec _ _ (List.getElem?_eq_getElem hlt)
  refine ⟨_, List.getElem?_eq_getElem hlt, hsits, hsits.boundary.eq_of_unitsBefore_eq hother ?_⟩
  omega

/-- The states ahead stand on boundaries, each one unit further than the one before it. -/
theorem SitsOn.getElem?_ahead (hhere : here.SitsOn input) {i : Nat} {t : State}
    (ht : here.ahead[i]? = some t) :
    t.SitsOn input ∧ input.unitsBefore t.pos = input.unitsBefore here.pos + i :=
  (stepsAhead_spec hhere (Nat.lt_succ_self _)).2 i t ht

/-- A cursor is moved to the end of its input from wherever it stands, also from inside a scalar. -/
theorem movedTo_size_pos (h : here.pos ≤ here.input.size) :
    (here.movedTo here.input.size).pos = here.input.size := by
  rw [movedTo, if_pos h, moveBy_pos, Nat.add_sub_cancel' h, Nat.min_self]
  exact here.input.isBoundary_size.align_eq

/-- Inside a scalar there is only the end ahead, as no move by units leads to a boundary from
    there. -/
theorem ahead_of_not_isBoundary (h : here.pos ≤ here.input.size)
    (hinside : ¬ here.input.IsBoundary here.pos) :
    ∃ stop : State, here.ahead = [here, stop] ∧ stop.pos = here.input.size := by
  have hcontinued : here.input.binary = false ∧
      ∃ b, here.input.bytes[here.pos]? = some b ∧ Utf8.isContinuation b = true := by
    simpa [Input.IsBoundary, h] using hinside
  obtain ⟨htext, b, hb, hcontinuation⟩ := hcontinued
  obtain ⟨hlt, rfl⟩ := List.getElem?_eq_some_iff.1 hb
  have hscalars : here.scalars = [] := by
    rw [scalars, Input.scalarsFrom, List.drop_eq_getElem_cons hlt]
    exact Utf8.decodeLongest_of_isContinuation hcontinuation _
  have hstop : (here.moveByUnits 1).pos = here.input.size := by
    rw [moveByUnits, htext, if_neg Bool.false_ne_true, hscalars]
    change (here.moveBy here.remaining).pos = _
    rw [moveBy_pos, remaining, Nat.add_sub_cancel' h, Nat.min_self]
    exact here.input.isBoundary_size.align_eq
  refine ⟨here.moveByUnits 1, ?_, hstop⟩
  have hremaining : here.remaining = here.remaining - 1 + 1 := by
    have hlt' : here.pos < here.input.size := hlt
    rw [remaining]
    omega
  have hhere : ¬ here.atEnd = true := by
    rw [atEnd, decide_eq_true_eq]
    exact Nat.not_le.2 hlt
  have hend : (here.moveByUnits 1).atEnd = true := by
    rw [atEnd, hstop, moveByUnits_input]
    exact decide_eq_true (Nat.le_refl _)
  rw [ahead, stepsAhead, if_neg hhere, hremaining, stepsAhead, if_pos hend]

/-- A state that comes late enough among those ahead is as far away as any bound on the way to the
    end, also from inside a scalar. -/
theorem Scanned.le_unitsTo_of_ahead (h : here.Scanned) {i bound : Nat} {t : State}
    (ht : here.ahead[i]? = some t) (hi : bound ≤ i)
    (hbound : bound ≤ here.input.units here.pos here.input.size) :
    bound ≤ here.unitsTo (here.movedTo t.pos) := by
  by_cases hboundary : here.input.IsBoundary here.pos
  · have hhere : here.SitsOn here.input := ⟨rfl, h, hboundary⟩
    obtain ⟨hsits, hunits⟩ := hhere.getElem?_ahead ht
    have hle : here.pos ≤ t.pos := by
      by_contra hlt
      have hback := hsits.boundary.unitsBefore_lt hboundary (Nat.not_le.1 hlt)
      omega
    rw [hhere.unitsTo_movedTo hsits.boundary hle]
    omega
  · obtain ⟨stop, hahead, hstop⟩ := ahead_of_not_isBoundary h.pos_le hboundary
    rw [hahead] at ht
    match i with
    | 0 =>
      rw [Nat.le_zero.1 hi]
      exact Nat.zero_le _
    | 1 =>
      cases ht
      rw [hstop, unitsTo, movedTo_size_pos h.pos_le]
      exact hbound

end State

namespace Leaf

variable {leaf : Leaf} {input : Input} {here : State}

/-- What probing a leaf comes to. A search that was cut short has seen no match up to its limit. -/
def Verdict (leaf : Leaf) (limit : Option Nat) (states : List State) : Probe → Prop
  | .found offset => ∃ (i : Nat) (t : State), states[i]? = some t ∧ t.pos = offset ∧
      leaf.Accepts t ∧ ∀ j < i, ∀ s, states[j]? = some s → ¬ leaf.Accepts s
  | .exhausted => ∀ s ∈ states, ¬ leaf.Accepts s
  | .cut => ∃ bound, limit = some bound ∧ ∀ j < bound, ∀ s, states[j]? = some s → ¬ leaf.Accepts s

/-- A match behind a state that does not match is a match of the whole, one unit further on. -/
theorem Verdict.cons {limit : Option Nat} {s : State} {states : List State} {probe : Probe}
    (hs : ¬ leaf.Accepts s) (h : leaf.Verdict limit states probe) :
    leaf.Verdict (limit.map (· + 1)) (s :: states) probe := by
  have hbefore {bound : Nat} (hstates : ∀ j < bound, ∀ t, states[j]? = some t → ¬ leaf.Accepts t) :
      ∀ j < bound + 1, ∀ t, (s :: states)[j]? = some t → ¬ leaf.Accepts t := by
    intro j hj t ht
    match j with
    | 0 =>
      cases ht
      exact hs
    | j + 1 => exact hstates j (Nat.lt_of_succ_lt_succ hj) t ht
  cases probe with
  | found offset =>
    obtain ⟨i, t, ht, hpos, haccepts, hfirst⟩ := h
    exact ⟨i + 1, t, ht, hpos, haccepts, hbefore hfirst⟩
  | exhausted =>
    intro t ht
    obtain rfl | ht := List.mem_cons.1 ht
    · exact hs
    · exact h t ht
  | cut =>
    obtain ⟨bound, rfl, hstates⟩ := h
    exact ⟨bound + 1, rfl, hbefore hstates⟩

/-- A probe with a limit comes to what one without a limit comes to, or it is cut short before. -/
theorem Verdict.eq_or_cut {limit : Option Nat} {probe full : Probe}
    (h : leaf.Verdict limit states probe) (hfull : leaf.Verdict none states full) :
    probe = full ∨ ∃ bound, limit = some bound ∧ probe = .cut ∧
      ∀ offset, full = .found offset →
        ∃ (i : Nat) (t : State), bound ≤ i ∧ states[i]? = some t ∧ t.pos = offset := by
  have hnotCut : full ≠ .cut := by
    rintro rfl
    obtain ⟨_, hlimit, -⟩ := hfull
    cases hlimit
  cases probe with
  | found offset =>
    obtain ⟨i, t, ht, rfl, haccepts, hfirst⟩ := h
    left
    cases full with
    | found offset' =>
      obtain ⟨j, t', ht', rfl, haccepts', hfirst'⟩ := hfull
      obtain hlt | rfl | hlt := Nat.lt_trichotomy i j
      · exact absurd haccepts (hfirst' i hlt t ht)
      · cases ht.symm.trans ht'
        rfl
      · exact absurd haccepts' (hfirst j hlt t' ht')
    | exhausted => exact absurd haccepts (hfull t (List.mem_of_getElem? ht))
    | cut => exact absurd rfl hnotCut
  | exhausted =>
    left
    cases full with
    | found offset =>
      obtain ⟨i, t, ht, -, haccepts, -⟩ := hfull
      exact absurd haccepts (h t (List.mem_of_getElem? ht))
    | exhausted => rfl
    | cut => exact absurd rfl hnotCut
  | cut =>
    obtain ⟨bound, hlimit, hrejects⟩ := h
    refine .inr ⟨bound, hlimit, rfl, ?_⟩
    rintro offset rfl
    obtain ⟨i, t, ht, hpos, haccepts, -⟩ := hfull
    exact ⟨i, t, Nat.not_lt.1 fun hlt => hrejects i hlt t ht haccepts, ht, hpos⟩

/-- A match ahead is met among the states ahead, after as many units as lie before it. -/
theorem MatchesAt.exists_ahead (hleaf : leaf.Positional input) (hhere : here.SitsOn input)
    {offset : Nat} (h : leaf.MatchesAt input offset) (hle : here.pos ≤ offset) :
    ∃ t, here.ahead[here.unitsTo (here.movedTo offset)]? = some t ∧ leaf.Accepts t ∧
      t.pos = offset := by
  obtain ⟨s, hs, rfl, haccepts⟩ := h
  obtain ⟨t, ht, hsits, hpos⟩ := hhere.exists_ahead hs.boundary hle
  refine ⟨t, ?_, hleaf s t hs hsits hpos.symm haccepts, hpos⟩
  rw [hhere.unitsTo_movedTo hs.boundary hle]
  exact ht

/-- A match that is found by probing is the first one, as the states ahead are probed in order and
    all boundaries are among them. -/
theorem firstMatch_of_found (hleaf : leaf.Positional input) (hhere : here.SitsOn input)
    {limit : Option Nat} {offset : Nat} (h : leaf.Verdict limit here.ahead (.found offset)) :
    leaf.FirstMatch input here.pos (.anchor offset) := by
  obtain ⟨i, t, ht, rfl, haccepts, hfirst⟩ := h
  obtain ⟨hsits, hunits⟩ := hhere.getElem?_ahead ht
  have hle : here.pos ≤ t.pos := by
    by_contra hlt
    have hback := hsits.boundary.unitsBefore_lt hhere.boundary (Nat.not_le.1 hlt)
    omega
  refine ⟨hle, ⟨t, hsits, rfl, haccepts⟩, ?_⟩
  intro other hother hlt hmatch
  obtain ⟨s, hs, haccepts', rfl⟩ := hmatch.exists_ahead hleaf hhere hother
  refine hfirst _ ?_ s hs haccepts'
  obtain ⟨hsits', hunits'⟩ := hhere.getElem?_ahead hs
  have hbefore := hsits'.boundary.unitsBefore_lt hsits.boundary hlt
  omega

/-- If probing finds nothing up to the end, there is no match ahead. -/
theorem firstMatch_of_exhausted (hleaf : leaf.Positional input) (hhere : here.SitsOn input)
    {limit : Option Nat} (h : leaf.Verdict limit here.ahead .exhausted) :
    leaf.FirstMatch input here.pos .tooMuch := by
  intro other hother hmatch
  obtain ⟨s, hs, haccepts, -⟩ := hmatch.exists_ahead hleaf hhere hother
  exact h s (List.mem_of_getElem? hs) haccepts

/-- A search that was cut short would have had to go on for at least as many units as its limit. -/
theorem le_unitsTo_of_cut (hleaf : leaf.Positional input) (hhere : here.SitsOn input) {bound : Nat}
    (h : leaf.Verdict (some bound) here.ahead .cut) {offset : Nat}
    (hmatch : leaf.MatchesAt input offset) (hle : here.pos ≤ offset) :
    bound ≤ here.unitsTo (here.movedTo offset) := by
  obtain ⟨limit, hlimit, hstates⟩ := h
  cases hlimit
  obtain ⟨s, hs, haccepts, -⟩ := hmatch.exists_ahead hleaf hhere hle
  by_contra hlt
  exact hstates _ (Nat.not_le.1 hlt) s hs haccepts

end Leaf

end Resync
