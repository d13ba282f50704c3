import Resync.Proofs.Leaf.Promises
import Resync.Proofs.Recovery.Answers
import Resync.Proofs.Registry.Primitives

namespace Resync

namespace Session

variable (session : Session) (p : Progress) (id : Nat) (waste : State → Waste) (here : State)

/-- The answer of an anchor whose waste is computed, and what is known then. -/
def consulted : Cached × Progress :=
  match p.cache.get? id here.pos with
  | some answer => (answer, p)
  | none => (proposedOffset waste here, p.remember id here.pos (proposedOffset waste here))

/-- Asking an anchor whose waste is computed leaves one event behind, and the answer in the cache.
    Nothing is parsed for it, so it has no other effect and cannot fail. -/
theorem fastWaste_eq :
    session.fastWaste p id waste here = do
      Traced.emit (.estimated id (session.registry.label id) here.pos
        (wasteOf p.tried id here (consulted p id waste here).1) (p.cache.get? id here.pos).isSome)
      return (wasteOf p.tried id here (consulted p id waste here).1,
        (consulted p id waste here).2) := by
  unfold fastWaste consulted
  cases p.cache.get? id here.pos <;> rfl

omit session in
/-- Consulting an anchor changes nothing but the cache. -/
theorem consulted_snd_eq : ∃ cache, (consulted p id waste here).2 = { p with cache } := by
  unfold consulted
  split
  · exact ⟨p.cache, rfl⟩
  · exact ⟨_, rfl⟩

end Session

namespace Registry

/-- A leaf matches at an offset, and consumes what it matches. -/
def AnchorsAt (reg : Registry) (input : Input) (id offset : Nat) : Prop :=
  ∃ entry leaf, reg.entries[id]? = some entry ∧ entry.work = .leaf leaf ∧ leaf.Consumes ∧
    leaf.Positional input ∧ leaf.MatchesAt input offset

/-- All wastes are computed, and lead to places at which the anchors match. -/
structure Computes (reg : Registry) (input : Input) : Prop where
  fast : ∀ {id recoverer}, reg.recoverer? id = some recoverer → ∃ waste, recoverer = .fast waste
  anchors : ∀ {id waste}, reg.recoverer? id = some (.fast waste) → ∀ {s : State},
    s.SitsOn input → ∀ {count}, waste s = .units count →
      reg.AnchorsAt input id (s.moveByUnits count).pos

variable {reg : Registry} {g : Graph} {input : Input}

/-- Nobody has to be probed where all wastes are computed. -/
theorem Computes.stepAnchors_eq_nil (h : reg.Computes input) : reg.stepAnchors = [] := by
  refine List.eq_nil_iff_forall_not_mem.2 fun id hid => ?_
  obtain ⟨waste, hwaste⟩ := h.fast (recoverer?_of_mem_stepAnchors hid)
  cases hwaste

/-- Primitive leaves are found by computing, wherever they may be used. On raw bytes the leaves have
    to suit the input, as one that reads scalars is not found behind a byte that belongs to none. -/
theorem LaidOut.computes (hlaid : reg.LaidOut g) (hg : g.IsPrimitive (Primitive.Suits input)) :
    reg.Computes input where
  fast {id recoverer} hrecoverer := by
    obtain ⟨entry, leaf, hentry, hwork, heffective⟩ := exists_leaf_of_recoverer? hrecoverer
    obtain ⟨primitive, -, hleaf⟩ := hg.leaf (hlaid.leaf_node hentry hwork)
    rw [hleaf.effectiveRecoverer] at heffective
    exact primitive.isFast heffective
  anchors {id waste} hrecoverer {s} hs {count} hcount := by
    obtain ⟨entry, leaf, hentry, hwork, heffective⟩ := exists_leaf_of_recoverer? hrecoverer
    obtain ⟨primitive, hsuits, hleaf⟩ := hg.leaf (hlaid.leaf_node hentry hwork)
    rw [hleaf.effectiveRecoverer] at heffective
    obtain ⟨haccepts, hconsumes⟩ := Primitive.accepts_of_waste hsuits heffective hs hcount
    refine ⟨entry, leaf, hentry, hwork, hleaf.consumes hconsumes, ?_, ?_⟩
    · obtain ⟨safeSpot, rfl⟩ := hleaf
      exact primitive.positional input
    · obtain ⟨safeSpot, rfl⟩ := hleaf
      exact ⟨_, hs.moveByUnits count, rfl, haccepts⟩

end Registry

/-- A cache that names only places at which anchors match. -/
def WasteCache.Honest (cache : WasteCache) (reg : Registry) (input : Input) : Prop :=
  ∀ entry ∈ cache.entries, ∀ offset, entry.answer = .anchor offset →
    reg.AnchorsAt input entry.id offset

namespace Session

variable {reg : Registry} {input : Input} {p : Progress} {id : Nat} {waste : State → Waste}
  {here : State}

/-- The answer of an anchor is a place ahead at which it matches, and it is as well remembered. An
    older answer is one too, because it is used only as long as its place still lies ahead. -/
theorem consulted_honest (hreg : reg.Computes input) (hhere : here.SitsOn input)
    (hcache : p.cache.Honest reg input) (hid : reg.recoverer? id = some (.fast waste)) :
    (consulted p id waste here).2.cache.Honest reg input ∧
      ∀ offset, (consulted p id waste here).1 = .anchor offset →
        reg.AnchorsAt input id offset ∧ here.pos ≤ offset := by
  unfold consulted
  cases hget : p.cache.get? id here.pos with
  | some answer =>
    refine ⟨hcache, fun offset hoffset => ?_⟩
    obtain ⟨entry, hmem, rfl, -, rfl, hahead⟩ := WasteCache.exists_entry_of_get? hget
    exact ⟨hcache entry hmem offset hoffset, hahead offset hoffset⟩
  | none =>
    have hproposed : ∀ offset, proposedOffset waste here = .anchor offset →
        reg.AnchorsAt input id offset ∧ here.pos ≤ offset := by
      intro offset hoffset
      unfold proposedOffset at hoffset
      split at hoffset
      · next count hcount =>
        cases hoffset
        exact ⟨hreg.anchors hid hhere hcount, hhere.pos_le_moveByUnits count⟩
      · cases hoffset
      · cases hoffset
    refine ⟨fun entry hentry offset hoffset => ?_, hproposed⟩
    obtain rfl | hold := WasteCache.mem_entries_insert hentry
    · exact (hproposed offset hoffset).1
    · exact hcache entry hold offset hoffset

/-- The waste of an anchor leads to a place ahead at which it matches: counting the units to a place
    and moving by them comes to the same place again, as both lie on boundaries. -/
theorem anchorsAt_of_wasteOf (hhere : here.SitsOn input) {answer : Cached} {count : Nat}
    {tried : List (Nat × Nat)} (hcount : wasteOf tried id here answer = some count)
    (hanswer : ∀ offset, answer = .anchor offset →
      reg.AnchorsAt input id offset ∧ here.pos ≤ offset) :
    reg.AnchorsAt input id (here.moveByUnits count).pos ∧
      here.pos ≤ (here.moveByUnits count).pos := by
  obtain ⟨offset, hoffset, rfl⟩ := Option.map_eq_some_iff.1 hcount
  cases answer with
  | tooMuch => cases (Option.filter_eq_some_iff.1 hoffset).1
  | anchor named =>
    cases (Option.filter_eq_some_iff.1 hoffset).1
    obtain ⟨hanchors, hle⟩ := hanswer offset rfl
    have hplace := hanchors
    obtain ⟨_, _, _, _, _, _, s, hs, rfl, _⟩ := hplace
    rw [hhere.moveByUnits_unitsTo_movedTo hs.boundary hle]
    exact ⟨hanchors, hle⟩

end Session

end Resync
