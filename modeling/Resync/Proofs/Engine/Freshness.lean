import Resync.Proofs.Engine.Discipline
import Resync.Proofs.Engine.Histories
import Resync.Proofs.Engine.Keepsakes

namespace Resync

/-- All that is saved in an outcome was saved in the last calls of the branches. -/
def Result.HoldsFresh (r : Result) (history : List Event) : Prop :=
  ∀ e, r.error = some e → ∀ entry ∈ e.saved, IsFresh history entry.1 entry.2

/-- A branch that is resumed gets nothing but what was saved in its last call. -/
def Event.HandsFresh (history : List Event) : Event → Prop
  | .resumed branch _ r => ∀ data, r.saved = some data → IsFresh history branch data
  | _ => True

namespace Registry

/-- The call of a branch goes on, and children have saved nothing but in their last calls. -/
private def ongoing (id : Nat) (opened : List Event) : Discipline where
  begins _ := True
  stands history _ := ∃ inside, history = opened ++ inside ∧ ∀ e ∈ inside, e.Spares id
  gives history r := (∃ inside, history = opened ++ inside ∧ ∀ e ∈ inside, e.Spares id) ∧
    ∀ e, r.error = some e → ∀ entry ∈ e.saved, entry.1 = id ∨ IsFresh history entry.1 entry.2

variable {reg : Registry} {g : Graph}

/-- While the call of a branch goes on, what its children save is fresh, and the branch itself saves
    only when the call ends. -/
private theorem ongoing_keptBy {id : Nat} {opened : List Event}
    {run : Nat → State → Traced Result}
    (hrun : ∀ index s history, (run index s).Extends history Event.HandsFresh
      fun later r => r.HoldsFresh later)
    (hspares : ∀ index s, ∀ e ∈ (run index s).events, e.Spares id) :
    (ongoing id opened).KeptBy run Event.HandsFresh id where
  run {history s} index hstands := by
    obtain ⟨inside, rfl, hinside⟩ := hstands
    have hlater : ∃ inside', opened ++ inside ++ (run index s).events = opened ++ inside' ∧
        ∀ e ∈ inside', e.Spares id := by
      refine ⟨inside ++ (run index s).events, List.append_assoc .., fun e he => ?_⟩
      obtain he | he := List.mem_append.1 he
      · exact hinside e he
      · exact hspares index s e he
    have hchild := hrun index s (opened ++ inside)
    refine ⟨hchild.event, fun c hc => ⟨⟨hlater, ?_⟩, hlater⟩⟩
    intro e he entry hentry
    exact .inr (hchild.value c hc e he entry hentry)
  proceed hc _ := hc.1
  succeed _ _ hs := ⟨hs, fun _ he => nomatch he⟩
  handUp {_ _ c e data} _ _ hc he _ := by
    refine ⟨hc.1, fun e' he' entry hentry => ?_⟩
    cases he'
    obtain hold | rfl := ParseError.mem_saved_save hentry
    · exact hc.2 e he entry hold
    · exact .inl rfl
  convert _ hc := hc
  reject _ _ hc _ := ⟨hc.1, fun _ he _ hentry => by cases he; cases hentry⟩
  stall _ _ _ hs := ⟨hs, fun _ he _ hentry => by cases he; cases hentry⟩
  refuse _ _ hs := ⟨hs, fun _ he _ hentry => by cases he; cases hentry⟩

section Prepared

variable (hg : g.IsBuiltIn) (h : reg.LaidOut g) (hdescends : reg.Descends)
include hg h hdescends

private theorem ongoing_keptBy_runChild {id : Nat} {entry : Entry} {opened : List Event}
    {depth : Nat} (hentry : reg.entries[id]? = some entry)
    (hparse : ∀ child s history, (reg.parse depth child s).Extends history Event.HandsFresh
      fun later r => r.HoldsFresh later) :
    (ongoing id opened).KeptBy (runChild (reg.parse depth) entry) Event.HandsFresh id := by
  refine ongoing_keptBy (fun index s history => extends_runChild fun child _ =>
    hparse child s history) fun index s e he => ?_
  unfold runChild at he
  split at he
  · next child hchild =>
    have hlt := hdescends id entry hentry child (List.mem_of_getElem? hchild)
    exact (ensures_parse_tidy hg h hdescends depth child s).event e he id hlt
  · cases he

/-- What an error carries when a call ends was saved in the last calls of the branches, if it was so
    whenever a child ended. -/
private theorem extends_call {id depth : Nat} {history : List Event} {entry : Entry} {rule : Rule}
    {step : Step} (hentry : reg.entries[id]? = some entry) (hwork : entry.work = .branch rule)
    (hparse : ∀ child s history, (reg.parse depth child s).Extends history Event.HandsFresh
      fun later r => r.HoldsFresh later)
    (hcall : (step.call id entry.label).Opens id)
    (hgood : (step.call id entry.label).HandsFresh history)
    (hstep : (ongoing id (history ++ [step.call id entry.label])).Admits
      (history ++ [step.call id entry.label]) step) :
    (reg.callBranch depth id entry rule step).Extends history Event.HandsFresh
      fun later r => r.HoldsFresh later := by
  have hkept : (ongoing id (history ++ [step.call id entry.label])).KeptBy
      (runChild (reg.parse depth) entry) Event.HandsFresh (reg.view id entry).id :=
    ongoing_keptBy_runChild hg h hdescends hentry hparse
  refine (Traced.extends_emit hgood).bind fun later _ _ hlater => ?_
  cases hlater
  refine (hkept.script (h.isBuiltIn hg hentry hwork).1 hstep).bind fun later result _ hresult => ?_
  refine (Traced.extends_emit (e := .left id (result.claim id)) trivial).bind
    fun last _ _ hlast => ?_
  cases hlast
  refine Traced.extends_pure fun e he entry hentry => ?_
  obtain ⟨⟨inside, rfl, hinside⟩, hsaved⟩ := hresult
  obtain ⟨e, he', rfl⟩ := Option.map_eq_some_iff.1 he
  obtain ⟨key, data⟩ := entry
  obtain rfl | hfresh := hsaved e he' _ hentry
  · rw [List.append_assoc history]
    exact StoringCall.isFresh ⟨hcall, hinside, _, he, hentry⟩
  · exact hfresh.append fun e he => by
      cases List.mem_singleton.1 he
      exact not_false

/-- What an error carries when a parser is left was saved in the last calls of the branches.
    Where no parser lies below itself, a branch that is called again takes the place of what it
    has saved. -/
theorem extends_parse_fresh (depth id : Nat) (s : State) (history : List Event) :
    (reg.parse depth id s).Extends history Event.HandsFresh fun later r => r.HoldsFresh later := by
  refine extends_parse (fun _ _ _ => trivial) (fun hentry hwork => ⟨trivial, ?_⟩)
    (fun hentry hwork hparse => ?_) depth id s history
  · intro e he kept hkept
    rw [h.saved_eq_nil_of_leaf hg hentry hwork he] at hkept
    cases hkept
  · exact extends_call hg h hdescends hentry hwork hparse rfl trivial
      ⟨trivial, [], (List.append_nil _).symm, fun _ he => nomatch he⟩

/-- A branch that is resumed hands up what was saved in the last calls, and adds what it saves
    itself, in this call. -/
theorem extends_resume_fresh (depth : Nat) {id parent index : Nat} {child : Result}
    {saved : Option Saved} {history : List Event} (hparent : reg.parent? id = some (parent, index))
    (hchild : reg.IsTidy id child) (hfresh : child.HoldsFresh history)
    (hsaved : ∀ data, saved = some data → IsFresh history parent data) :
    (reg.resume depth parent ⟨index, child, saved⟩).Extends history Event.HandsFresh
      fun later r => r.HoldsFresh later := by
  have hnothing : child.HoldsNothingFor parent := hchild.holdsNothingFor (h.hangs hparent).1
  refine extends_resume (fun _ => hsaved) fun hentry hwork => ?_
  refine extends_call hg h hdescends hentry hwork (extends_parse_fresh hg h hdescends depth)
    ⟨rfl, hnothing⟩ hsaved ⟨⟨?_, ?_⟩, trivial, ?_⟩
  · exact ⟨[], (List.append_nil _).symm, fun _ he => nomatch he⟩
  · rintro e he ⟨key, data⟩ hkept
    refine .inr ((hfresh e he _ hkept).append fun call hcall hcalls => ?_)
    cases List.mem_singleton.1 hcall
    cases hcalls
    exact hnothing e he data hkept
  · intro data _
    cases data <;> exact trivial

end Prepared

end Registry

end Resync
