import Resync.Proofs.Engine.Freshness
import Resync.Proofs.Recovery.Salvage
import Resync.Proofs.Recovery.Watch

namespace Resync

/-- All that is kept for the branches up to an identifier was saved in their last calls. -/
def Progress.FreshUpTo (p : Progress) (history : List Event) (bound : Nat) : Prop :=
  ∀ entry ∈ p.salvage, entry.1 ≤ bound → IsFresh history entry.1 entry.2

/-- All that is kept for branches was saved in their last calls. -/
def Progress.HoldsFresh (p : Progress) (history : List Event) : Prop :=
  ∀ entry ∈ p.salvage, IsFresh history entry.1 entry.2

namespace Progress

variable {p : Progress} {history : List Event}

/-- What is kept stays fresh while other things happen, as long as no branch that something is kept
    for is called again. -/
theorem HoldsFresh.append (h : p.HoldsFresh history) (later : List Event)
    (hlater : ∀ entry ∈ p.salvage, ∀ e ∈ later, ¬ e.Calls entry.1) :
    p.HoldsFresh (history ++ later) :=
  fun entry hentry => (h entry hentry).append (hlater entry hentry)

/-- Recording an error keeps only fresh things, if what the error saves was stored by the branches
    in the calls that have just failed. -/
theorem HoldsFresh.record {e : ParseError} (h : p.HoldsFresh history)
    (he : ∀ entry ∈ e.saved, IsFresh history entry.1 entry.2) :
    (p.record e).HoldsFresh history := by
  intro entry hentry
  obtain hold | hnew := mem_salvage_record hentry
  · exact h entry hold
  · exact he entry hnew

end Progress

namespace Session

section

variable {g : Graph} {reg : Registry} {depth maxErrors : Nat} {cache : WasteCache} {start : State}
  {history : List Event}

/-- What a climb relies on and leaves behind: nothing stale in the outcome, nor among what is kept
    for the branches that it has not passed. -/
structure IsFreshAt (history : List Event) (summit : Summit) : Prop where
  outcome : summit.result.HoldsFresh history
  progress : summit.progress.FreshUpTo history summit.id

/-- An anchor is a leaf: where it is run, it is entered and left, and nothing else happens. So no
    branch is called while anchors are tried. -/
theorem mem_events_run_anchor {id : Nat} {s : State} {e : Event}
    (hid : (reg.recoverer? id).isSome) (he : e ∈ (run ⟨reg, depth, maxErrors⟩ id s).events) :
    e = .entered id s ∨ ∃ entry leaf, reg.entries[id]? = some entry ∧ entry.work = .leaf leaf ∧
      e = .left id (leaf.parse id s) := by
  obtain ⟨recoverer, hrecoverer⟩ := Option.isSome_iff_exists.1 hid
  obtain ⟨entry, leaf, hentry, hwork, -⟩ := Registry.exists_leaf_of_recoverer? hrecoverer
  cases depth with
  | zero => exact absurd he List.not_mem_nil
  | succ depth =>
    rw [run, Registry.parse_of_leaf hentry hwork] at he
    obtain hentered | he := List.mem_cons.1 he
    · exact .inl hentered
    · exact .inr ⟨entry, leaf, hentry, hwork, List.mem_singleton.1 he⟩

section Climbing

variable (hg : g.IsBuiltIn) (hlaid : reg.LaidOut g) (hdescends : reg.Descends)
include hg hlaid hdescends

/-- A climb hands out nothing stale. What is kept for a branch was saved in its last call, and the
    branches below it on the way do not call it, so it is still its last call when the climb comes
    to it. -/
theorem extends_climbThrough_fresh (unwinding : Bool) (way : List (Nat × Nat)) (summit : Summit)
    (hway : reg.IsWay summit.id way) (houtcome : reg.IsTidy summit.id summit.result)
    (hkeeps : reg.tidy.Keeps summit.progress) (hfresh : IsFreshAt history summit) :
    (climbThrough ⟨reg, depth, maxErrors⟩ unwinding way summit).Extends history Event.HandsFresh
      IsFreshAt := by
  induction way generalizing history summit with
  | nil => exact Traced.extends_pure hfresh
  | cons step way ih =>
    obtain ⟨parent, index⟩ := step
    obtain ⟨hparent, hway⟩ := hway
    have hlt : parent < summit.id := (hlaid.hangs hparent).1
    obtain ⟨hsaved, hreleased⟩ := hkeeps.release parent
    have hhanded : ∀ data, summit.progress.salvage.lookup parent = some data →
        IsFresh history parent data := fun data hdata =>
      hfresh.progress (parent, data) (Progress.mem_of_lookup hdata) (Nat.le_of_lt hlt)
    have htidy := Registry.ensures_resume_tidy hg hlaid hdescends depth hparent houtcome
      hsaved
    have hresume := Registry.extends_resume_fresh hg hlaid hdescends depth hparent
      houtcome hfresh.outcome hhanded
    -- the branch itself has nothing kept for it any more, and those above it have not been called
    have hkept : (summit.progress.release parent).2.FreshUpTo (history ++ (reg.resume depth parent
        ⟨index, summit.result, summit.progress.salvage.lookup parent⟩).events) parent := by
      rintro ⟨branch, data⟩ hentry hle
      obtain ⟨hold, hne⟩ := List.mem_filter.1 hentry
      have hbelow : branch < parent := Nat.lt_of_le_of_ne hle (by simpa using hne)
      exact (hfresh.progress _ hold (Nat.le_of_lt (Nat.lt_trans hbelow hlt))).append
        fun e he => (htidy.event e he branch hbelow).not_calls
    rw [climbThrough_cons]
    refine hresume.recorded.bind fun later result hresult hlater => ?_
    obtain ⟨rfl, hholds⟩ := hlater
    split
    · exact Traced.extends_pure ⟨hholds, hkept⟩
    · exact ih _ hway (htidy.value result hresult) hreleased ⟨hholds, hkept⟩

end Climbing

/-- A failed outcome whose error has nothing saved in it holds nothing that could be stale. -/
theorem holdsFresh_stripped {r : Result} {e : ParseError} :
    ({ r with error := some e.withoutSaved } : Result).HoldsFresh history := by
  intro e he entry hentry
  cases he
  cases hentry

/-- Nothing stale is known at the start of a round. -/
structure IsSettled (reg : Registry) (history : List Event) (summit : Summit) : Prop where
  tidy : reg.IsTidy summit.id summit.result
  keeps : reg.tidy.Keeps summit.progress
  outcome : summit.result.HoldsFresh history
  progress : summit.progress.HoldsFresh history

/-- Looking for an anchor runs leaves only, and resumes no branch. -/
def asking (reg : Registry) : Upkeep :=
  { reg.tidy with
    event := fun e => (∀ branch, e.Calls branch → (reg.recoverer? branch).isSome) ∧
      ∀ history, e.HandsFresh history }

section Prepared

variable (hg : g.IsBuiltIn) (hlaid : reg.LaidOut g) (hdescends : reg.Descends)
include hg hlaid hdescends

theorem asking_keptByAnchors (depth maxErrors : Nat) :
    (asking reg).KeptByAnchors ⟨reg, depth, maxErrors⟩ where
  exhausted := trivial
  run {id s} hid _ := by
    have htidy := Registry.ensures_parse_tidy hg hlaid hdescends depth id s
    refine ⟨fun e he => ?_, htidy.fault, htidy.value⟩
    obtain rfl | ⟨entry, leaf, -, -, rfl⟩ := mem_events_run_anchor hid he
    · exact ⟨fun _ hcalls => hcalls ▸ hid, fun _ => trivial⟩
    · exact ⟨fun _ hcalls => hcalls.elim, fun _ => trivial⟩
  moved _ _ := trivial
  violation _ _ _ _ := trivial
  reported _ := ⟨fun _ hcalls => hcalls.elim, fun _ => trivial⟩
  estimated _ _ _ _ _ := ⟨fun _ hcalls => hcalls.elim, fun _ => trivial⟩

/-- Looking for an anchor makes nothing stale, since anchors are leaves, and what is kept is kept
    for branches. -/
theorem extends_seek_fresh {summit : Summit} {e : ParseError}
    (hfresh : (summit.progress.record e).HoldsFresh history)
    (hkeeps : reg.tidy.Keeps (summit.progress.record e)) :
    (seek ⟨reg, depth, maxErrors⟩ start summit e).Extends history Event.HandsFresh
      fun later found => reg.tidy.Keeps found.2 ∧ found.2.HoldsFresh later ∧
        ∀ anchor leaf, found.1 = some (anchor, leaf) →
          reg.IsTidy anchor leaf ∧ leaf.isOk = true := by
  have hasking := asking_keptByAnchors hg hlaid hdescends depth maxErrors
  have hensures : (seek ⟨reg, depth, maxErrors⟩ start summit e).Ensures _ _ _ :=
    Upkeep.ensures_seek hasking (fun _ _ _ => ⟨fun _ hcalls => hcalls.elim, fun _ => trivial⟩)
      (hkeeps.withEvent _) trivial
  constructor
  · intro before event after heq
    have hevent : event ∈ (seek ⟨reg, depth, maxErrors⟩ start summit e).events := by
      rw [heq]
      exact List.mem_append_right _ List.mem_cons_self
    exact (hensures.event event hevent).2 _
  · intro found hfound
    have hresynced := hensures.value found hfound
    refine ⟨hresynced.keeps.withEvent reg.tidy.event, ?_, ?_⟩
    · unfold Progress.HoldsFresh
      rw [hresynced.salvage]
      refine Progress.HoldsFresh.append hfresh _ fun entry hentry event hevent hcalls => ?_
      -- whoever is called has a recoverer and is a leaf, while only branches have something kept
      have hanchor := (hensures.event event hevent).1 _ hcalls
      obtain ⟨recoverer, hrecoverer⟩ := Option.isSome_iff_exists.1 hanchor
      obtain ⟨_, leaf, hleaf, hwork, -⟩ := Registry.exists_leaf_of_recoverer? hrecoverer
      obtain ⟨_, rule, hbranch, hrule, -⟩ := hkeeps.salvage entry hentry
      rw [hleaf] at hbranch
      cases hbranch
      rw [hwork] at hrule
      cases hrule
    · intro anchor leaf heq
      obtain ⟨-, htidy, hok⟩ := hresynced.anchor anchor leaf heq
      exact ⟨htidy, hok⟩

/-- A climb calls the branches on its way, and what was kept for those below its end may be stale
    then. It is forgotten where the climb stops, so what is left is fresh again. -/
theorem extends_climb_fresh {anchor : Nat} {leaf : Result} {p : Progress}
    (htidy : reg.IsTidy anchor leaf) (hok : leaf.isOk = true) (hkeeps : reg.tidy.Keeps p)
    (hfresh : p.HoldsFresh history) :
    (climb ⟨reg, depth, maxErrors⟩ false ⟨anchor, leaf, p⟩).Extends history Event.HandsFresh
      fun later next => IsSettled reg later (settle ⟨reg, depth, maxErrors⟩ next) := by
  have houtcome : leaf.HoldsFresh history := fun e he => by
    rw [Result.isOk, he] at hok
    cases hok
  have hbegun : IsFreshAt history ⟨anchor, leaf, p⟩ :=
    ⟨houtcome, fun entry hentry _ => hfresh entry hentry⟩
  have hway := reg.isWay_ancestors anchor
  have hthrough : (climb ⟨reg, depth, maxErrors⟩ false ⟨anchor, leaf, p⟩).Extends history
      Event.HandsFresh IsFreshAt :=
    extends_climbThrough_fresh hg hlaid hdescends false _ _ hway htidy hkeeps hbegun
  have hkept := Registry.tidy_keptBy hg hlaid hdescends depth maxErrors
  have hclimb := Upkeep.ensures_climb hkept false ⟨anchor, leaf, p⟩ htidy hkeeps
  refine hthrough.imp fun later next hnext hlater => ?_
  have hclimbed := hclimb.value next hnext
  refine ⟨hclimbed.outcome, hclimbed.keeps.dropStale _ _, hlater.outcome, ?_⟩
  -- what is left belongs to branches that the end of the climb lies in, and these come before it
  intro entry hentry
  obtain ⟨hold, hwithin⟩ := List.mem_filter.1 hentry
  have hle : entry.1 ≤ next.id := hlaid.le_of_isWithin hwithin
  exact hlater.progress entry hold hle

/-- Giving up hands out only what is fresh. Nothing is claimed of what is kept afterwards, since the
    run is over. -/
theorem extends_giveUp_fresh (here : State) {id : Nat} {r : Result} {e : ParseError} {p : Progress}
    (htidy : reg.IsTidy id r) (he : r.error = some e) (hkeeps : reg.tidy.Keeps p)
    (hfresh : p.HoldsFresh history) :
    (giveUp ⟨reg, depth, maxErrors⟩ here
      ⟨id, { r with error := some e.withoutSaved }, p⟩).Extends history Event.HandsFresh
      fun _ _ => True := by
  have hkept := Registry.tidy_keptBy hg hlaid hdescends depth maxErrors
  have hgaveUp : Event.HandsFresh history (.gaveUp here.pos) := trivial
  refine (Traced.extends_emit hgaveUp).bind fun later _ _ hlater => ?_
  subst hlater
  -- to give up is no call, so what is kept stays fresh
  have hunwound : p.HoldsFresh (history ++ [.gaveUp here.pos]) := by
    refine hfresh.append _ fun entry hentry event hevent hcalls => ?_
    cases List.mem_singleton.1 hevent
    exact hcalls
  have hway := reg.isWay_ancestors id
  have hstripped := hkept.stripped htidy he
  have hbegun : IsFreshAt (history ++ [.gaveUp here.pos])
      ⟨id, { r with error := some e.withoutSaved }, p⟩ :=
    ⟨holdsFresh_stripped, fun entry hentry _ => hunwound entry hentry⟩
  have hthrough : (climb ⟨reg, depth, maxErrors⟩ true
      ⟨id, { r with error := some e.withoutSaved }, p⟩).Extends _ Event.HandsFresh IsFreshAt :=
    extends_climbThrough_fresh hg hlaid hdescends true _ ⟨id, _, p⟩ hway hstripped hkeeps hbegun
  exact hthrough.imp fun _ _ _ _ => trivial

/-- The parts of a round put together: from a settled summit, a round hands out only fresh things
    and comes to a settled summit again. -/
theorem watches_fresh (depth maxErrors : Nat) (start : State) :
    Watches ⟨reg, depth, maxErrors⟩ start Event.HandsFresh (IsSettled reg) fun _ _ => True where
  done _ _ := trivial
  report _ _ := trivial
  round {history summit e} hsettled herror := by
    have hcarried := (hsettled.tidy.error e herror).saved
    have hkeeps := hsettled.keeps.record (e := e) trivial fun entry hentry =>
      (hcarried entry hentry).2
    have hkept : (summit.progress.record e).HoldsFresh (history ++ [.reported e.withoutSaved]) := by
      have hrecorded := hsettled.progress.record (hsettled.outcome e herror)
      refine hrecorded.append _ fun entry hentry event hevent hcalls => ?_
      cases List.mem_singleton.1 hevent
      exact hcalls
    refine (extends_seek_fresh hg hlaid hdescends hkept hkeeps).imp fun later found _ hfound => ?_
    obtain ⟨hkeeps, hfresh, hanchor⟩ := hfound
    obtain ⟨_ | ⟨anchor, leaf⟩, p⟩ := found
    · exact extends_giveUp_fresh hg hlaid hdescends _ hsettled.tidy herror hkeeps hfresh
    · obtain ⟨htidy, hok⟩ := hanchor anchor leaf rfl
      exact extends_climb_fresh hg hlaid hdescends htidy hok hkeeps hfresh

end Prepared

/-- From the first call to the last, a run hands out nothing stale. At the beginning nothing is
    kept, and each round keeps it fresh. -/
theorem extends_execute_fresh (hg : g.IsBuiltIn) (hlaid : reg.LaidOut g)
    (hdescends : reg.Descends) (depth maxErrors : Nat) (cache : WasteCache) (start : State) :
    (execute ⟨reg, depth, maxErrors⟩ cache start).Extends [] Event.HandsFresh fun _ _ => True := by
  have hkept := Registry.tidy_keptBy hg hlaid hdescends depth maxErrors
  have hparse := Registry.extends_parse_fresh hg hlaid hdescends depth 0 start []
  have hdescent : (run ⟨reg, depth, maxErrors⟩ 0 start).Extends [] Event.HandsFresh
      fun later result => IsSettled reg later ⟨0, result, .initial cache⟩ := by
    refine hparse.imp fun later result hresult hfresh => ?_
    have hnothing : (Progress.initial cache).HoldsFresh later := by
      intro entry hentry
      cases hentry
    exact {
      tidy := (hkept.run (.inl rfl) trivial).value result hresult
      keeps := Registry.keeps_initial_tidy reg start cache
      outcome := hfresh
      progress := hnothing }
  have hwatches := watches_fresh hg hlaid hdescends depth maxErrors start
  have hrun := hwatches.extends_execute hdescent
  exact hrun.imp fun _ _ _ _ => trivial

/-- Whenever a branch is resumed with something that is saved for it, that was saved by the branch
    itself, in its last call, which ended with an error. -/
theorem resumed_with_fresh (hg : g.IsBuiltIn) (hreg : Registry.ofGraph g = .ok reg)
    (hdescends : reg.Descends) {before after : List Event} {branch : Nat} {label : String}
    {r : Resumption} {data : Saved}
    (h : (execute ⟨reg, depth, maxErrors⟩ cache start).events =
      before ++ .resumed branch label r :: after) (hdata : r.saved = some data) :
    IsFresh before branch data := by
  have hlaid := Registry.laidOut_ofGraph hreg
  have hrun := extends_execute_fresh hg hlaid hdescends depth maxErrors cache start
  -- every event of the run is judged in view of those before it, and this is one of them
  have hhanded : Event.HandsFresh before (.resumed branch label r) := hrun.event h
  exact hhanded data hdata

end

open Bracketed in
/-- The pair is called once, by the descent, before it is resumed after the letter. So what it gets
    is from its last call, although two errors have come up since. -/
theorem resumed_with_fresh_bracketed :
    (session.execute .empty start).events[52]? = some (.resumed 0 "pair" resumption) ∧
      resumption.saved = some (.sequence start [some ⟨.list .text, ["1"]⟩, none]) ∧
      IsFresh ((session.execute .empty start).events.take 52) 0
        (.sequence start [some ⟨.list .text, ["1"]⟩, none]) := by
  have hevent : (session.execute .empty start).events[52]? =
      some (.resumed 0 "pair" resumption) := by rfl
  have hsaved : resumption.saved =
      some (.sequence start [some ⟨.list .text, ["1"]⟩, none]) := by rfl
  have hsplit := Traced.events_eq_of_getElem? hevent
  exact ⟨hevent, hsaved, resumed_with_fresh isBuiltIn (by rfl) descends hsplit hsaved⟩

end Session

end Resync
