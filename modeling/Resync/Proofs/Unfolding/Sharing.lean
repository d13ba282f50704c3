import Resync.Parser.Combinators
import Resync.Proofs.Recovery.Listing
import Resync.Proofs.Traced.Agree
import Resync.Proofs.Unfolding.Placeless
import Resync.Proofs.Unfolding.Walking

namespace Resync

namespace Registry

/-- The children of an occurrence. -/
def childrenOf (reg : Registry) (id : Nat) : List Nat :=
  match reg.entries[id]? with
  | some entry => entry.children
  | none => []

@[simp]
theorem childrenOf_unplaced (reg : Registry) (id : Nat) :
    reg.unplaced.childrenOf id = reg.childrenOf id := by
  have hentry : reg.unplaced.entries[id]? = reg.entries[id]?.map Entry.unplaced :=
    getElem?_changed reg _ id
  rw [childrenOf, childrenOf, hentry]
  cases reg.entries[id]? <;> rfl

/-- Registries that have the same occurrences and ask the same anchors. -/
structure Alike (reg other : Registry) : Prop where
  size : reg.size = other.size
  label : ∀ id, reg.label id = other.label id
  parent : ∀ id, reg.parent? id = other.parent? id
  children : ∀ id, reg.childrenOf id = other.childrenOf id
  fastAnchors : reg.fastAnchors = other.fastAnchors
  stepAnchors : reg.stepAnchors = other.stepAnchors

/-- Registries that differ in places only have the same occurrences, and ask the same anchors. -/
theorem alike_of_unplaced_eq {reg other : Registry} (h : reg.unplaced = other.unplaced) :
    reg.Alike other where
  size := by rw [← size_unplaced, h, size_unplaced]
  label id := by rw [← label_unplaced, h, label_unplaced]
  parent id := by rw [← parent?_unplaced, h, parent?_unplaced]
  children id := by rw [← childrenOf_unplaced, h, childrenOf_unplaced]
  fastAnchors := by rw [← fastAnchors_unplaced, h, fastAnchors_unplaced]
  stepAnchors := by rw [← stepAnchors_unplaced, h, stepAnchors_unplaced]

end Registry

/-- Runs are the same under registries that differ in places only, since no part of a run looks at
    places. -/
theorem Prepared.trace_eq_of_unplaced_eq {t : Ty} {p q : Prepared t}
    (h : p.registry.unplaced = q.registry.unplaced) (cache : WasteCache) (input : Input) :
    p.trace cache input = q.trace cache input := by
  have hsize : p.registry.size = q.registry.size := (Registry.alike_of_unplaced_eq h).size
  have hsession : (p.session input).unplaced = (q.session input).unplaced := by
    simp only [Session.unplaced, session, depthBound, h, hsize]
  rw [trace, trace, ← Session.execute_unplaced, hsession, Session.execute_unplaced]

namespace Parser

variable {t : Ty}

/-- The construction of a parser has no defect. -/
def IsSound (parser : Parser t) : Prop :=
  ∀ defect, parser.prepare ≠ .error (.defect defect)

theorem isSound_of_isOk {parser : Parser t} (h : parser.prepare.isOk = true) : parser.IsSound := by
  intro defect hdefect
  rw [hdefect] at h
  cases h

/-- A parser without recursion and without defects is prepared to the occurrences of its tree,
    whatever is shared or deferred in it. -/
theorem exists_prepared {parser : Parser t} (hfree : parser.grammar.IsRecursionFree)
    (hsound : parser.IsSound) : ∃ prepared, parser.prepare = .ok prepared ∧
      prepared.registry.unplaced = ⟨parser.grammar.tree.entries none 0⟩ := by
  have hsettles := Grammar.settles_assemble hfree
  cases hassemble : parser.grammar.assemble with
  | error fault =>
    rw [hassemble] at hsettles
    cases fault with
    | defect defect =>
      refine absurd ?_ (hsound defect)
      rw [prepare, hassemble]
      rfl
    | outOfFuel => cases hsettles
  | ok assembled =>
    rw [hassemble] at hsettles
    obtain ⟨reg, hreg, hentries⟩ := Registry.exists_unplaced_ofGraph hsettles
    refine ⟨⟨reg, assembled.deferredBuilds⟩, ?_, congrArg Registry.mk hentries⟩
    rw [prepare]
    exact Fault.bind_eq_ok_iff.2
      ⟨assembled, hassemble, Fault.bind_eq_ok_iff.2 ⟨reg, hreg, rfl⟩⟩

/-- Two parsers that unfold to one tree have the same occurrences, as many as the tree has parsers,
    and their runs are the same on every input. -/
theorem only_tree_matters (x y : Parser t) (hx : x.grammar.IsRecursionFree)
    (hy : y.grammar.IsRecursionFree) (hxsound : x.IsSound) (hysound : y.IsSound)
    (htree : x.grammar.tree = y.grammar.tree) :
    ∃ p q, x.prepare = .ok p ∧ y.prepare = .ok q ∧ p.registry.Alike q.registry ∧
      p.registry.size = x.grammar.tree.size ∧
        ∀ cache input, p.trace cache input = q.trace cache input := by
  obtain ⟨p, hp, hpentries⟩ := exists_prepared hx hxsound
  obtain ⟨q, hq, hqentries⟩ := exists_prepared hy hysound
  have hsame : p.registry.unplaced = q.registry.unplaced := by
    rw [hpentries, hqentries, htree]
  refine ⟨p, q, hp, hq, Registry.alike_of_unplaced_eq hsame, ?_,
    Prepared.trace_eq_of_unplaced_eq hsame⟩
  rw [← Registry.size_unplaced, hpentries]
  exact Tree.length_entries none 0 x.grammar.tree

/-- Two commas, one parser for both of them that is built when it is first needed. -/
def sharedCommas : Parser .text :=
  sharing "comma" (deferred (safe (char ',')))
    (map2 (named .char "comma") (named .char "comma") .text fun a b => String.ofList [a, b])

/-- Two commas, a parser for each of them. -/
def separateCommas : Parser .text :=
  map2 (safe (deferred (char ','))) (safe (char ',')) .text fun a b => String.ofList [a, b]

def sharedCommasPrepared : Prepared .text :=
  sharedCommas.prepare.toOption.get rfl

/-- The output of a run on an input, the positions of the errors that it lists, and the anchors that
    it tries with the places where it does. -/
def gist (p : Prepared .text) (input : Input) : Option String × List Nat × List (Nat × Nat) :=
  ((p.run input).toOption.map Prod.fst, (p.trace .empty input).listed.map (·.position),
    (p.trace .empty input).attempts)

/-- Something else stands before each of the two commas. Both parsers skip it, report it, and find both
    commas. -/
theorem only_tree_matters_commas :
    let input := Input.text "x,y,"
    ∃ p q, sharedCommas.prepare = .ok p ∧ separateCommas.prepare = .ok q ∧
      p.registry.Alike q.registry ∧ p.registry.size = sharedCommas.grammar.tree.size ∧
      (∀ cache input, p.trace cache input = q.trace cache input) ∧
      gist p input = (some ",,", [0, 2], [(1, 1), (2, 3)]) ∧
      gist q input = (some ",,", [0, 2], [(1, 1), (2, 3)]) := by
  intro input
  obtain ⟨p, q, hp, hq, halike, hsize, htrace⟩ :=
    only_tree_matters sharedCommas separateCommas ⟨trivial, trivial, trivial, trivial⟩
      ⟨trivial, trivial, trivial⟩ (isSound_of_isOk rfl) (isSound_of_isOk rfl) rfl
  have hprepared : sharedCommas.prepare = .ok sharedCommasPrepared := rfl
  obtain rfl : p = sharedCommasPrepared := Except.ok.inj (hp.symm.trans hprepared)
  have hgist : gist sharedCommasPrepared input = (some ",,", [0, 2], [(1, 1), (2, 3)]) := by
    decide +kernel
  have hsame : gist q input = gist sharedCommasPrepared input := by
    rw [gist, gist, Prepared.run, Prepared.run, htrace]
  exact ⟨sharedCommasPrepared, q, hp, hq, halike, hsize, htrace, hgist, hsame.trans hgist⟩

end Parser

end Resync
