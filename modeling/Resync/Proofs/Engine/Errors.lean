import Resync.Proofs.Engine.Discipline
import Resync.Proofs.Engine.Failure
import Resync.Proofs.Leaf.Cursors
import Resync.Proofs.Registry.Layout

namespace Resync

/-- A primitive leaf with a recoverer of choice, which may be a safe spot. -/
def Leaf.IsStandard (leaf : Leaf) : Prop :=
  ∃ (primitive : Primitive) (recoverer : Option Recoverer) (safeSpot : Bool),
    leaf = { primitive.leaf with recoverer, safeSpot }

/-- A graph of built-in branches over primitive leaves with recoverers of choice. -/
structure Graph.IsStandard (g : Graph) : Prop where
  leaf : ∀ {place : Nat} {leaf : Leaf}, g.nodes[place]? = some (.leaf leaf) → leaf.IsStandard
  branch : ∀ {place : Nat} {label : String} {rule : Rule} {children : List Nat},
    g.nodes[place]? = some (.branch label rule children) → rule.IsBuiltIn

/-- Occurrences of primitive leaves with recoverers of choice, and of built-in branches. -/
structure Registry.IsStandard (reg : Registry) : Prop where
  leaf : ∀ {id : Nat} {entry : Entry} {leaf : Leaf}, reg.entries[id]? = some entry →
    entry.work = .leaf leaf → leaf.IsStandard
  branch : ∀ {id : Nat} {entry : Entry} {rule : Rule}, reg.entries[id]? = some entry →
    entry.work = .branch rule → rule.IsBuiltIn

theorem Registry.LaidOut.isStandard {reg : Registry} {g : Graph} (h : reg.LaidOut g)
    (hg : g.IsStandard) : reg.IsStandard where
  leaf hentry hwork := by
    have hmirrors := h.mirrors hentry
    rw [Mirrors, hwork] at hmirrors
    exact hg.leaf hmirrors.1
  branch hentry hwork := by
    have hmirrors := h.mirrors hentry
    rw [Mirrors, hwork] at hmirrors
    obtain ⟨places, hnode, -⟩ := hmirrors
    exact hg.branch hnode

/-- An error was raised at a cursor with a property. -/
def ParseError.RaisedAt (P : State → Prop) (e : ParseError) : Prop :=
  ∃ s, P s ∧ e.position = min s.pos s.input.size ∧ e.location = s.locate s.pos

/-- An error that was raised at a cursor, is owned by an occurrence if it is owned, and carries what
    was saved by branches that began at cursors. -/
structure ParseError.Sound (P : State → Prop) (owners : Nat → Prop) (e : ParseError) : Prop where
  raised : e.RaisedAt P
  owner : ∀ id, e.owner = some id → owners id
  saved : ∀ entry ∈ e.saved, entry.2.All P

/-- The cursors of an outcome have a property, and its error is sound. -/
structure Result.Sound (P : State → Prop) (owners : Nat → Prop) (r : Result) : Prop where
  start : P r.start
  stop : P r.stop
  error : ∀ e, r.error = some e → e.Sound P owners

/-- The error of an outcome is owned. -/
def Result.IsClaimed (r : Result) : Prop :=
  ∀ e, r.error = some e → e.owner.isSome

variable {P : State → Prop} {owners : Nat → Prop}

/-- A new error is raised at its cursor, is owned by nobody and carries nothing. -/
theorem State.sound_errorHere {s : State} (hs : P s) (kind : ErrorKind) (message : String) :
    (s.errorHere kind message).Sound P owners where
  raised := ⟨s, hs, rfl, rfl⟩
  owner _ howner := nomatch howner
  saved _ hentry := nomatch hentry

/-- An error stays sound when a branch saves something in it that began at a cursor. -/
theorem ParseError.Sound.save {e : ParseError} (h : e.Sound P owners) {id : Nat} {data : Saved}
    (hdata : data.All P) : (e.save id data).Sound P owners where
  raised := h.raised
  owner := h.owner
  saved entry hentry := by
    obtain hold | rfl := ParseError.mem_saved_save hentry
    · exact h.saved entry hold
    · exact hdata

/-- Claiming an error gives it an owner, and only if it has none. -/
theorem ParseError.Sound.claim {e : ParseError} (h : e.Sound P owners) {id : Nat} (hid : owners id) :
    (e.claim id).Sound P owners where
  raised := h.raised
  owner other hother := by
    change e.owner.or (some id) = some other at hother
    cases howner : e.owner with
    | none =>
      rw [howner] at hother
      cases hother
      exact hid
    | some owner =>
      rw [howner] at hother
      cases hother
      exact h.owner other howner
  saved := h.saved

theorem ParseError.isSome_owner_claim (e : ParseError) (id : Nat) : (e.claim id).owner.isSome := by
  change (e.owner.or (some id)).isSome
  cases e.owner <;> rfl

theorem Result.Sound.claim {r : Result} (h : r.Sound P owners) {id : Nat} (hid : owners id) :
    (r.claim id).Sound P owners ∧ (r.claim id).IsClaimed := by
  refine ⟨⟨h.start, h.stop, fun e he => ?_⟩, fun e he => ?_⟩
  · obtain ⟨e, he', rfl⟩ := Option.map_eq_some_iff.1 he
    exact (h.error e he').claim hid
  · obtain ⟨e, -, rfl⟩ := Option.map_eq_some_iff.1 he
    exact e.isSome_owner_claim id

theorem Result.sound_failure {start stop : State} {o : Output} {e : ParseError} (hstart : P start)
    (hstop : P stop) (he : e.Sound P owners) : (Result.failure start stop o e).Sound P owners := by
  refine ⟨hstart, hstop, fun e' he' => ?_⟩
  cases he'
  exact he

namespace Registry

variable {reg : Registry} {input : Input} {depth id : Nat} {r : Result}

/-- Branches begin and go on at cursors, and return sound outcomes. -/
private def soundness (P : State → Prop) (owners : Nat → Prop) : Discipline where
  begins := P
  stands _ := P
  gives _ r := r.Sound P owners

/-- Branches return sound outcomes if their children do: an error keeps its position and its
    location whoever hands it up. -/
private theorem soundness_keptBy {run : Nat → State → Traced Result}
    (hrun : ∀ index s r, P s → (run index s).result = .ok r → r.Sound P owners) (id : Nat) :
    (soundness P owners).KeptBy run (fun _ _ => True) id where
  run {_ s} index hs := ⟨fun _ => trivial, fun c hc => ⟨hrun index s c hs hc, hs⟩⟩
  proceed hc _ := hc.stop
  succeed _ hstart hs := ⟨hstart, hs, fun _ he => nomatch he⟩
  handUp {_ _ c e data} _ hstart hc he hdata := by
    refine Result.sound_failure hstart hc.stop ((hc.error e he).save ?_)
    obtain ⟨slots, rfl⟩ | ⟨item, items, rfl⟩ := hdata
    · exact hstart
    · exact hstart
  convert _ hc := ⟨hc.start, hc.stop, hc.error⟩
  reject _ message hc _ := Result.sound_failure hc.start hc.stop
    (State.sound_errorHere hc.start .semantic message)
  stall _ message hstart hs := Result.sound_failure hstart hs
    (State.sound_errorHere hs .semantic message)
  refuse _ _ hs := Result.sound_failure hs hs (State.sound_errorHere hs .syntactic _)

private theorem sound_leaf {leaf : Leaf} (hleaf : leaf.IsStandard)
    (hP : State.ClosedUnderMoves P input) (hid : owners id) {s : State} (hs : P s) :
    (leaf.parse id s).Sound P owners ∧ (leaf.parse id s).IsClaimed := by
  obtain ⟨primitive, recoverer, safeSpot, rfl⟩ := hleaf
  unfold Leaf.parse
  cases hrun : primitive.leaf.run s with
  | error e =>
    obtain ⟨label, rfl⟩ := primitive.exists_syntaxError hrun
    have hraised : (s.syntaxError label).Sound P owners := State.sound_errorHere hs .syntactic _
    refine ⟨Result.sound_failure hs hs (hraised.claim hid), fun e he => ?_⟩
    cases he
    exact ParseError.isSome_owner_claim _ id
  | ok found =>
    obtain ⟨stop, value⟩ := found
    have hstop := ((primitive.advances hP).stop hs hrun).1
    refine ⟨⟨hs, ?_, fun _ he => nomatch he⟩, fun _ he => nomatch he⟩
    dsimp only
    split
    · exact hP.markSafeSpot hstop
    · exact hstop

section Standard

variable (h : reg.IsStandard) (hP : State.ClosedUnderMoves P input)
include h hP

/-- Errors that leave an occurrence were raised at cursors, and are owned by an occurrence of the
    registry. The induction is on the depth: leaves raise errors at their cursors, and branches are
    sound if their children are. -/
theorem IsStandard.sound_parse {s : State} (hs : P s)
    (hr : (reg.parse depth id s).result = .ok r) :
    r.Sound P (· < reg.size) ∧ r.IsClaimed := by
  induction depth generalizing id s r with
  | zero => cases hr
  | succ depth ih =>
    cases hentry : reg.entries[id]? with
    | none =>
      rw [parse_of_missing hentry] at hr
      cases hr
    | some entry =>
      have hid : id < reg.size := (List.getElem?_eq_some_iff.1 hentry).1
      cases hwork : entry.work with
      | leaf leaf =>
        rw [parse_of_leaf hentry hwork] at hr
        cases hr
        refine sound_leaf (h.leaf hentry hwork) hP ?_ hs
        exact hid
      | branch rule =>
        rw [parse_of_branch hentry hwork] at hr
        obtain ⟨_, -, hr⟩ := Traced.result_bind_eq_ok_iff.1 hr
        obtain ⟨outcome, hscript, hr⟩ := Traced.result_bind_eq_ok_iff.1 hr
        obtain ⟨_, -, hr⟩ := Traced.result_bind_eq_ok_iff.1 hr
        cases hr
        have hkept : (soundness P (· < reg.size)).KeptBy (runChild (reg.parse depth) entry)
            (fun _ _ => True) id := by
          refine soundness_keptBy (fun index t c ht hc => ?_) id
          obtain ⟨child, hc⟩ := exists_child_of_runChild hc
          exact (ih ht hc).1
        have hstep : (soundness P (· < reg.size)).Admits [] (.descend s) := ⟨hs, hs⟩
        exact ((hkept.script (h.branch hentry hwork) hstep).value outcome hscript).claim hid

/-- Errors that leave a branch that is resumed were raised at cursors too, and are owned. -/
theorem IsStandard.sound_resume {index : Nat} {child : Result} {saved : Option Saved}
    (hchild : child.Sound P (· < reg.size)) (hsaved : ∀ data, saved = some data → data.All P)
    (hr : (reg.resume depth id ⟨index, child, saved⟩).result = .ok r) :
    r.Sound P (· < reg.size) ∧ r.IsClaimed := by
  obtain ⟨entry, rule, outcome, hentry, hwork, hscript, rfl⟩ := exists_script_of_resume hr
  have hid : id < reg.size := (List.getElem?_eq_some_iff.1 hentry).1
  have hkept : (soundness P (· < reg.size)).KeptBy (runChild (reg.parse depth) entry)
      (fun _ _ => True) id := by
    refine soundness_keptBy (fun index t c ht hc => ?_) id
    obtain ⟨child, hc⟩ := exists_child_of_runChild hc
    exact (h.sound_parse hP ht hc).1
  have hstep : (soundness P (· < reg.size)).Admits [] (.resume ⟨index, child, saved⟩) :=
    ⟨hchild, hchild.start, hsaved⟩
  exact ((hkept.script (h.branch hentry hwork) hstep).value outcome hscript).claim hid

end Standard

end Registry

end Resync
