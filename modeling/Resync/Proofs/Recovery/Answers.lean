import Resync.Proofs.Leaf.Exact
import Resync.Proofs.Recovery.Attempts

namespace Resync

namespace Leaf

/-- A leaf whose recoverer says of every state that it may match without consuming. -/
def Abstains (leaf : Leaf) (input : Input) : Prop :=
  ∃ waste, leaf.effectiveRecoverer = some (.fast waste) ∧
    ∀ s : State, s.SitsOn input → waste s = .never

end Leaf

namespace Registry

/-- Whether leaves match depends on the position alone, and recoverers whose answer is computed are
    exact, unless they belong to leaves that may match without consuming. -/
structure Searchable (reg : Registry) (input : Input) : Prop where
  positional : ∀ {id : Nat} {entry : Entry} {leaf : Leaf}, reg.entries[id]? = some entry →
    entry.work = .leaf leaf → leaf.Positional input
  exact : ∀ {id : Nat} {entry : Entry} {leaf : Leaf} {waste : State → Waste},
    reg.entries[id]? = some entry → entry.work = .leaf leaf →
    leaf.effectiveRecoverer = some (.fast waste) →
    (∀ s : State, s.SitsOn input → waste s = .never) ∨
      ∀ s : State, s.SitsOn input → leaf.ExactAt waste s

/-- What an anchor answers at an offset: the place of its first match, or that it abstains. It does
    not say whether the answer was found anew or told by a cache, which makes no difference. -/
def Answers (reg : Registry) (input : Input) (id pos : Nat) (answer : Cached) : Prop :=
  ∃ entry leaf, reg.entries[id]? = some entry ∧ entry.work = .leaf leaf ∧
    (leaf.Abstains input → answer = .tooMuch) ∧
    (¬ leaf.Abstains input → leaf.FirstMatch input pos answer)

variable {reg : Registry} {input : Input} {id pos : Nat} {answer other : Cached}

/-- An anchor has one answer at an offset, so a remembered answer that is right is the one that
    would be found anew. -/
theorem Answers.unique (h : reg.Answers input id pos answer)
    (h' : reg.Answers input id pos other) : answer = other := by
  obtain ⟨entry, leaf, hentry, hwork, habstains, hfirst⟩ := h
  obtain ⟨entry', leaf', hentry', hwork', habstains', hfirst'⟩ := h'
  cases hentry.symm.trans hentry'
  cases hwork.symm.trans hwork'
  by_cases hleaf : leaf.Abstains input
  · rw [habstains hleaf, habstains' hleaf]
  · exact (hfirst hleaf).unique (hfirst' hleaf)

/-- An answer is still right further on, as long as the place that it names is not passed: nothing
    between the two places matched. That there is no match at all is right for good. -/
theorem Answers.later {asked : Nat} (h : reg.Answers input id asked answer) (hle : asked ≤ pos)
    (hahead : ∀ offset, answer = .anchor offset → pos ≤ offset) :
    reg.Answers input id pos answer := by
  obtain ⟨entry, leaf, hentry, hwork, habstains, hfirst⟩ := h
  exact ⟨entry, leaf, hentry, hwork, habstains, fun hleaf => (hfirst hleaf).later hle hahead⟩

/-- Whoever has a recoverer has an answer at every offset. Whether a leaf matches is not decided by
    a computation here, so the first match is had by excluded middle. -/
theorem exists_answers {recoverer : Recoverer} (h : reg.recoverer? id = some recoverer)
    (pos : Nat) : ∃ answer, reg.Answers input id pos answer := by
  obtain ⟨entry, leaf, hentry, hwork, -⟩ := exists_leaf_of_recoverer? h
  by_cases hleaf : leaf.Abstains input
  · exact ⟨.tooMuch, entry, leaf, hentry, hwork, fun _ => rfl, fun hnot => absurd hleaf hnot⟩
  · obtain ⟨answer, hanswer⟩ := leaf.exists_firstMatch input pos
    exact ⟨answer, entry, leaf, hentry, hwork, fun habstains => absurd habstains hleaf,
      fun _ => hanswer⟩

/-- What a recoverer computes is what its anchor answers. Units and bytes are the same place on a
    boundary, so the offset is that of the first match. -/
theorem Searchable.answers_proposedOffset (h : reg.Searchable input) {s : State}
    (hs : s.SitsOn input) {waste : State → Waste} (hid : reg.recoverer? id = some (.fast waste)) :
    reg.Answers input id s.pos (Session.proposedOffset waste s) := by
  obtain ⟨entry, leaf, hentry, hwork, hrecoverer⟩ := exists_leaf_of_recoverer? hid
  refine ⟨entry, leaf, hentry, hwork, ?_, ?_⟩
  · intro habstains
    obtain ⟨waste', hrecoverer', hnever⟩ := habstains
    cases hrecoverer.symm.trans hrecoverer'
    rw [Session.proposedOffset, hnever s hs]
  · intro hleaf
    obtain hnever | hexact := h.exact hentry hwork hrecoverer
    · exact absurd ⟨waste, hrecoverer, hnever⟩ hleaf
    · exact Leaf.firstMatch_proposedOffset (h.positional hentry hwork) hs (hexact s hs)

end Registry

/-- A cache that holds only what anchors answer. -/
def WasteCache.Truthful (cache : WasteCache) (reg : Registry) (input : Input) : Prop :=
  ∀ entry ∈ cache.entries, reg.Answers input entry.id entry.asked entry.answer

namespace WasteCache.Truthful

variable {cache : WasteCache} {reg : Registry} {input : Input} {id pos : Nat} {answer : Cached}

/-- A cache without entries says nothing that could be wrong. -/
theorem of_entries_eq_nil (h : cache.entries = []) : cache.Truthful reg input := by
  intro entry hentry
  rw [h] at hentry
  cases hentry

/-- What a truthful cache answers is what the anchor would answer. The cache may have been asked at
    an earlier position, from which the answer is carried forward. -/
theorem answers_of_get? (h : cache.Truthful reg input) (hget : cache.get? id pos = some answer) :
    reg.Answers input id pos answer := by
  obtain ⟨entry, hmem, rfl, hasked, rfl, hahead⟩ := exists_entry_of_get? hget
  exact (h entry hmem).later hasked hahead

/-- A cache stays truthful when it is told what an anchor answers, also if it forgets it at once. -/
theorem insert (h : cache.Truthful reg input) (hanswer : reg.Answers input id pos answer) :
    (cache.insert id pos answer).Truthful reg input := by
  intro entry hentry
  obtain rfl | hold := mem_entries_insert hentry
  · exact hanswer
  · exact h entry hold

end WasteCache.Truthful

namespace Session

variable {reg : Registry} {depth maxErrors : Nat} {input : Input} {here : State} {p q : Progress}
  {id : Nat} {answer : Cached}

/-- The waste that an answer comes to. Where the anchor was tried there is none. -/
def wasteOf (tried : List (Nat × Nat)) (id : Nat) (here : State) (answer : Cached) : Option Nat :=
  ((cachedOffset answer).filter fun offset => !tried.contains (id, offset)).map fun offset =>
    here.unitsTo (here.movedTo offset)

/-- An appraisal makes no attempt, and comes to the waste of the answer, together with whatever
    progress goes along. -/
theorem yields_appraise_with (session : Session) (p : Progress) (id : Nat) (here : State)
    (answer : Cached) (cached : Bool) :
    (do let w ← session.appraise p id here (cachedOffset answer) cached; return (w, p) :
      Traced (Option Nat × Progress)).Yields (wasteOf p.tried id here answer, p) :=
  ⟨rfl, rfl⟩

/-- However much is cached, an anchor with a computed waste gives the same answer, and leaves a
    truthful cache behind. -/
theorem yields_fastWaste (depth maxErrors : Nat) (hsearch : reg.Searchable input)
    (hhere : here.SitsOn input) (hp : p.cache.Truthful reg input) {waste : State → Waste}
    (hid : reg.recoverer? id = some (.fast waste)) :
    ∃ cache : WasteCache, cache.Truthful reg input ∧
      (fastWaste ⟨reg, depth, maxErrors⟩ p id waste here).Yields
        (wasteOf p.tried id here (proposedOffset waste here), { p with cache }) := by
  have hanswers := hsearch.answers_proposedOffset hhere hid
  unfold fastWaste
  cases hget : p.cache.get? id here.pos with
  | some answer =>
    cases (hp.answers_of_get? hget).unique hanswers
    exact ⟨p.cache, hp, yields_appraise_with _ p _ _ _ _⟩
  | none => exact ⟨_, hp.insert hanswers, yields_appraise_with _ _ _ _ _ _⟩

/-- Running a leaf makes no attempt and takes one level of depth, no more. -/
theorem yields_run (depth maxErrors : Nat) {entry : Entry} {leaf : Leaf}
    (hentry : reg.entries[id]? = some entry) (hwork : entry.work = .leaf leaf) (s : State) :
    (run ⟨reg, depth + 1, maxErrors⟩ id s).Yields (leaf.parse id s) := by
  rw [run, Registry.parse_of_leaf hentry hwork]
  exact ⟨rfl, rfl⟩

/-- Probing a leaf makes no attempts and always comes to a verdict, since a leaf cannot run out of
    depth. -/
theorem yields_probe (depth maxErrors : Nat) {entry : Entry} {leaf : Leaf}
    (hentry : reg.entries[id]? = some entry) (hwork : entry.work = .leaf leaf)
    (limit : Option Nat) (states : List State) :
    ∃ probe, (Session.probe ⟨reg, depth + 1, maxErrors⟩ id limit states).Yields probe ∧
      leaf.Verdict limit states probe := by
  induction states generalizing limit with
  | nil =>
    unfold Session.probe
    exact ⟨.exhausted, Traced.yields_pure _, by rintro _ ⟨⟩⟩
  | cons s states ih =>
    have hrun := yields_run depth maxErrors hentry hwork s
    have hnext (limit : Option Nat) {onward : Result → Traced Probe}
        (hfound : (leaf.parse id s).isOk = true → onward (leaf.parse id s) = pure (.found s.pos))
        (hrest : (leaf.parse id s).isOk = false → onward (leaf.parse id s) =
          Session.probe ⟨reg, depth + 1, maxErrors⟩ id limit states) :
        ∃ probe, (run ⟨reg, depth + 1, maxErrors⟩ id s >>= onward).Yields probe ∧
          leaf.Verdict (limit.map (· + 1)) (s :: states) probe := by
      cases hok : (leaf.parse id s).isOk with
      | true =>
        refine ⟨.found s.pos, hrun.bind (by rw [hfound hok]; exact Traced.yields_pure _), 0, s, rfl,
          rfl, (Leaf.isOk_parse_iff id).1 hok, fun j hj => absurd hj (Nat.not_lt_zero _)⟩
      | false =>
        have hrejects : ¬ leaf.Accepts s := by
          rw [← Leaf.isOk_parse_iff id, hok]
          exact Bool.false_ne_true
        obtain ⟨probe, hyields, hverdict⟩ := ih limit
        exact ⟨probe, hrun.bind (by rw [hrest hok]; exact hyields), hverdict.cons hrejects⟩
    obtain _ | _ | limit := limit
    · unfold Session.probe
      exact hnext none (fun hok => if_pos hok) fun hok => if_neg (by rw [hok]; decide)
    · unfold Session.probe
      exact ⟨.cut, Traced.yields_pure _, 0, rfl, fun j hj => absurd hj (Nat.not_lt_zero _)⟩
    · unfold Session.probe
      exact hnext (some limit) (fun hok => if_pos hok) fun hok => if_neg (by rw [hok]; decide)

/-- A waste that is no better than the best bid leaves that bid as it is. Equal is not better. -/
theorem improve_of_le {best : Option Bid} {bound waste : Nat}
    (hbest : best.map Prod.snd = some bound) (hle : bound ≤ waste) :
    Bid.improve best id (some waste) = best := by
  obtain ⟨bid, rfl, rfl⟩ := Option.map_eq_some_iff.1 hbest
  exact if_neg (Nat.not_lt.2 hle)

/-- An anchor whose probe was cut short is no better than the best bid. It does not match before the
    limit, which is the best waste, so its own waste is at least as large, if it has one. -/
theorem improve_of_cut {leaf : Leaf} (hleaf : leaf.Positional input) (hhere : here.SitsOn input)
    {best : Option Bid} (hcut : leaf.Verdict (best.map Prod.snd) here.ahead .cut)
    (hfirst : leaf.FirstMatch input here.pos answer) (tried : List (Nat × Nat)) (id : Nat) :
    Bid.improve best id (wasteOf tried id here answer) = best := by
  cases answer with
  | tooMuch => rfl
  | anchor offset =>
    obtain ⟨hle, hmatch, -⟩ := hfirst
    have hlimit : ∃ bound, best.map Prod.snd = some bound := hcut.imp fun _ h => h.1
    obtain ⟨bound, hbound⟩ := hlimit
    rw [hbound] at hcut
    have hfar := Leaf.le_unitsTo_of_cut hleaf hhere hcut hmatch hle
    cases hwaste : wasteOf tried id here (.anchor offset) with
    | none => rfl
    | some waste =>
      obtain ⟨_, hoffset, rfl⟩ := Option.map_eq_some_iff.1 hwaste
      cases (Option.filter_eq_some_iff.1 hoffset).1
      exact improve_of_le hbound hfar

/-- However much is cached, an anchor that has to be probed gives the same answer, or one that is no
    better than the best bid, which leaves that bid as it is. -/
theorem yields_stepWaste (depth maxErrors : Nat) (hsearch : reg.Searchable input)
    (hhere : here.SitsOn input) (hp : p.cache.Truthful reg input)
    (hid : reg.recoverer? id = some .step)
    (hanswer : reg.Answers input id here.pos answer) (best : Option Bid) :
    ∃ (waste : Option Nat) (cache : WasteCache), cache.Truthful reg input ∧
      (stepWaste ⟨reg, depth + 1, maxErrors⟩ p id here (best.map Prod.snd)).Yields
        (waste, { p with cache }) ∧
      Bid.improve best id waste = Bid.improve best id (wasteOf p.tried id here answer) := by
  unfold stepWaste
  cases hget : p.cache.get? id here.pos with
  | some cached =>
    cases (hp.answers_of_get? hget).unique hanswer
    exact ⟨_, p.cache, hp, yields_appraise_with _ p _ _ _ _, rfl⟩
  | none =>
    obtain ⟨entry, leaf, hentry, hwork, hrecoverer⟩ := Registry.exists_leaf_of_recoverer? hid
    have hleaf := hsearch.positional hentry hwork
    have hsearches : ¬ leaf.Abstains input := by
      rintro ⟨waste, hfast, -⟩
      rw [hrecoverer] at hfast
      cases hfast
    have hanswers {found : Cached} (hfound : leaf.FirstMatch input here.pos found) :
        reg.Answers input id here.pos found :=
      ⟨entry, leaf, hentry, hwork, fun habstains => absurd habstains hsearches, fun _ => hfound⟩
    obtain ⟨probe, hprobe, hverdict⟩ := yields_probe depth maxErrors hentry hwork
      (best.map Prod.snd) here.ahead
    cases probe with
    | found offset =>
      have hfound := hanswers (Leaf.firstMatch_of_found hleaf hhere hverdict)
      cases hfound.unique hanswer
      exact ⟨_, _, hp.insert hfound, hprobe.bind (yields_appraise_with _ _ _ _ (.anchor offset) _),
        rfl⟩
    | exhausted =>
      have hfound := hanswers (Leaf.firstMatch_of_exhausted hleaf hhere hverdict)
      cases hfound.unique hanswer
      exact ⟨_, _, hp.insert hfound, hprobe.bind (yields_appraise_with _ _ _ _ .tooMuch _), rfl⟩
    | cut =>
      refine ⟨none, p.cache, hp, hprobe.bind ⟨rfl, rfl⟩, ?_⟩
      obtain ⟨entry', leaf', hentry', hwork', -, hfirst⟩ := hanswer
      cases hentry.symm.trans hentry'
      cases hwork.symm.trans hwork'
      exact (improve_of_cut hleaf hhere hverdict (hfirst hsearches) p.tried id).symm

end Session

end Resync
