import Resync.Proofs.Engine.Forward
import Resync.Proofs.Recovery.Asking
import Resync.Proofs.Recovery.Climb
import Resync.Proofs.Recovery.Watch

namespace Resync

/-- What the events of a run tell about its skips. -/
structure Skipping where
  /-- Where anchors were asked about last. -/
  here : Nat
  /-- Where an anchor is about to be resumed. -/
  target : Option Nat
  /-- The skips of the rounds in which the anchor matched: from where to where. -/
  skips : List (Nat × Nat)
deriving DecidableEq, Repr

namespace Skipping

/-- An anchor is asked about at a place and picked at another. When it is left with a match, what
    lies between has been skipped. -/
def after (w : Skipping) : Event → Skipping
  | .estimated _ _ pos _ _ => { w with here := pos }
  | .anchored _ _ pos => { w with target := some pos }
  | .left _ r =>
    match w.target with
    | some target =>
      { w with
        target := none
        skips := if r.isOk then w.skips ++ [(w.here, target)] else w.skips }
    | none => w
  | _ => w

/-- What is known of skips after some events. -/
def of (history : List Event) : Skipping :=
  history.foldl after ⟨0, none, []⟩

/-- What has been skipped is found by going through the events one after the other. -/
theorem of_append (history later : List Event) :
    of (history ++ later) = later.foldl after (of history) :=
  List.foldl_append

theorem of_concat (history : List Event) (e : Event) : of (history ++ [e]) = (of history).after e :=
  of_append history [e]

/-- While no anchor is resumed, nothing is skipped, whatever branches and leaves do. -/
theorem after_of_quiet {w : Skipping} {e : Event} (hidle : w.target = none)
    (he : e.attempt? = none) : (w.after e).target = none ∧ (w.after e).skips = w.skips := by
  cases e with
  | anchored anchor label pos => cases he
  | left id r =>
    rw [after, hidle]
    exact ⟨hidle, rfl⟩
  | _ => exact ⟨hidle, rfl⟩

/-- A time in which no anchor is resumed leaves the skips as they are. -/
theorem of_append_of_quiet {history later : List Event} (hidle : (of history).target = none)
    (hquiet : ∀ e ∈ later, e.attempt? = none) :
    (of (history ++ later)).target = none ∧ (of (history ++ later)).skips = (of history).skips := by
  rw [of_append]
  generalize of history = w at hidle
  induction later generalizing w with
  | nil => exact ⟨hidle, rfl⟩
  | cons e later ih =>
    obtain ⟨hidle', hskips⟩ := after_of_quiet hidle (hquiet e List.mem_cons_self)
    obtain ⟨hlast, hsame⟩ := ih (fun e he => hquiet e (List.mem_cons_of_mem _ he)) _ hidle'
    exact ⟨hlast, hsame.trans hskips⟩

end Skipping

/-- What a run has skipped, in order: from where each search for an anchor began to where the anchor
    was resumed. -/
def Event.skips (events : List Event) : List (Nat × Nat) :=
  (Skipping.of events).skips

/-- Skips that lead forward, each of them behind the last one. -/
def Ordered (skips : List (Nat × Nat)) : Prop :=
  (∀ skip ∈ skips, skip.1 ≤ skip.2) ∧ skips.Pairwise fun skip next => skip.2 < next.1

/-- A place that lies inside none of the skips. -/
def Clear (skips : List (Nat × Nat)) (pos : Nat) : Prop :=
  ∀ skip ∈ skips, pos ≤ skip.1 ∨ skip.2 ≤ pos

/-- The skips of a run are in order after each of its events. -/
def KeepsOrder (history : List Event) (e : Event) : Prop :=
  Ordered (Event.skips (history ++ [e]))

variable {skips : List (Nat × Nat)} {skip : Nat × Nat}

/-- Skips stay in order when the next one leads forward and begins behind all others. -/
theorem Ordered.concat (h : Ordered skips) (hskip : skip.1 ≤ skip.2)
    (hbehind : ∀ earlier ∈ skips, earlier.2 < skip.1) : Ordered (skips ++ [skip]) := by
  refine ⟨fun other hother => ?_, List.pairwise_append.2 ⟨h.2, List.pairwise_singleton .., ?_⟩⟩
  · obtain hold | hnew := List.mem_append.1 hother
    · exact h.1 other hold
    · rw [List.mem_singleton.1 hnew]
      exact hskip
  · intro earlier hearlier next hnext
    rw [List.mem_singleton.1 hnext]
    exact hbehind earlier hearlier

/-- What lies before the next skip or behind it is clear of it as well. The ends of a skip do not
    lie inside it. -/
theorem Clear.concat {pos : Nat} (h : Clear skips pos) (hskip : pos ≤ skip.1 ∨ skip.2 ≤ pos) :
    Clear (skips ++ [skip]) pos := by
  intro other hother
  obtain hold | hnew := List.mem_append.1 hother
  · exact h other hold
  · rw [List.mem_singleton.1 hnew]
    exact hskip

/-- A computation that resumes no anchor skips nothing, and leaves the skips in order. -/
theorem Traced.extends_of_quiet {α : Type} {x : Traced α} {history : List Event}
    (hquiet : ∀ e ∈ x.events, e.attempt? = none) (hidle : (Skipping.of history).target = none)
    (hordered : Ordered (Event.skips history)) :
    x.Extends history KeepsOrder fun later _ =>
      (Skipping.of later).target = none ∧ Event.skips later = Event.skips history where
  event {before e after} heq := by
    have hpart : ∀ e' ∈ before ++ [e], e'.attempt? = none := by
      intro e' he'
      refine hquiet e' (heq ▸ ?_)
      rw [List.append_cons]
      exact List.mem_append_left _ he'
    have hskips : Event.skips (history ++ before ++ [e]) = Event.skips history := by
      rw [List.append_assoc]
      exact (Skipping.of_append_of_quiet hidle hpart).2
    rw [KeepsOrder, hskips]
    exact hordered
  value _ _ := Skipping.of_append_of_quiet hidle hquiet

namespace Session

variable {reg : Registry} {g : Graph} {depth maxErrors : Nat} {input : Input} {here start : State}
  {p : Progress} {history : List Event} {best : Option Bid} {clear : Nat → Prop} {floor : Nat}

/-- What asking anchors comes to. Nothing is skipped yet, only the cache may have changed, and the
    best bid leads to a place ahead at which the anchor matches. -/
structure Sought (reg : Registry) (input : Input) (here : State) (p : Progress)
    (skips : List (Nat × Nat)) (history : List Event) (choice : Option Bid × Progress) : Prop where
  idle : (Skipping.of history).target = none
  skips : Event.skips history = skips
  known : ∃ cache : WasteCache, choice.2 = { p with cache } ∧ cache.Honest reg input
  bid : ∀ bid, choice.1 = some bid → (Skipping.of history).here = here.pos ∧
    reg.AnchorsAt input bid.1 (here.moveByUnits bid.2).pos ∧
      here.pos ≤ (here.moveByUnits bid.2).pos

section Choosing

variable (hreg : reg.Computes input) (hhere : here.SitsOn input) (hordered : Ordered skips)
include hreg hhere hordered

/-- Asking one more anchor keeps up that the best bid is of an anchor which matches where its waste
    leads. -/
theorem Sought.ask {choice : Option Bid × Progress} {id : Nat} {waste : State → Waste}
    (h : Sought reg input here p skips history choice)
    (hid : reg.recoverer? id = some (.fast waste)) :
    (fastWaste ⟨reg, depth, maxErrors⟩ choice.2 id waste here).Extends history KeepsOrder
      fun later answer =>
        Sought reg input here p skips later (Bid.improve choice.1 id answer.1, answer.2) := by
  obtain ⟨cache, hknown, hcache⟩ := h.known
  have hhonest : choice.2.cache.Honest reg input := by
    rw [hknown]
    exact hcache
  obtain ⟨hremembered, hanswer⟩ := consulted_honest hreg hhere hhonest hid
  rw [fastWaste_eq]
  refine (Traced.extends_emit ?_).bind fun later _ _ hlater => ?_
  · rw [KeepsOrder, Event.skips, Skipping.of_concat, Skipping.after]
    change Ordered (Event.skips history)
    rw [h.skips]
    exact hordered
  · cases hlater
    refine Traced.extends_pure ?_
    obtain ⟨cache', hchanged⟩ := consulted_snd_eq choice.2 id waste here
    refine ⟨?_, ?_, ⟨cache', ?_, ?_⟩, fun bid hbid => ?_⟩
    · rw [Skipping.of_concat]
      exact h.idle
    · rw [Event.skips, Skipping.of_concat]
      exact h.skips
    · dsimp only
      rw [hchanged, hknown]
    · rw [hchanged] at hremembered
      exact hremembered
    · rw [Skipping.of_concat]
      refine ⟨rfl, ?_⟩
      obtain hold | ⟨count, hcount, rfl⟩ := Bid.improve_eq_some hbid
      · exact (h.bid bid hold).2
      · exact anchorsAt_of_wasteOf hhere hcount hanswer

/-- Asking fast anchors one after the other keeps it up, by induction on those that are left to
    ask. -/
theorem Sought.askFast (owner : Option Nat) (anchors : List (Nat × (State → Waste)))
    (hanchors : ∀ anchor ∈ anchors, reg.recoverer? anchor.1 = some (.fast anchor.2))
    {choice : Option Bid × Progress} (h : Sought reg input here p skips history choice) :
    (askFast ⟨reg, depth, maxErrors⟩ owner here anchors choice.1 choice.2).Extends history
      KeepsOrder (Sought reg input here p skips) := by
  induction anchors generalizing history choice with
  | nil => exact Traced.extends_pure h
  | cons anchor anchors ih =>
    obtain ⟨id, waste⟩ := anchor
    have hrest := fun anchor hanchor => hanchors anchor (List.mem_cons_of_mem _ hanchor)
    unfold Session.askFast
    split
    · exact Traced.extends_pure h
    · split
      · exact ih hrest h
      · exact (h.ask hreg hhere hordered (hanchors _ List.mem_cons_self)).bind
          fun _ _ _ hanswer => ih hrest hanswer

/-- The anchor that is chosen matches at the place ahead that its waste leads to. This is where
    primitive leaves are needed: other anchors may promise what they do not keep. -/
theorem extends_chooseAnchor (owner : Option Nat)
    (h : Sought reg input here p skips history (none, p)) :
    (chooseAnchor ⟨reg, depth, maxErrors⟩ p owner here).Extends history KeepsOrder
      (Sought reg input here p skips) := by
  have hown : (ownBid ⟨reg, depth, maxErrors⟩ p owner here).Extends history KeepsOrder
      (Sought reg input here p skips) := by
    cases owner with
    | none => exact Traced.extends_pure h
    | some id =>
      rw [ownBid]
      cases hrecoverer : reg.recoverer? id with
      | none => exact Traced.extends_pure h
      | some recoverer =>
        obtain ⟨waste, rfl⟩ := hreg.fast hrecoverer
        exact (h.ask hreg hhere hordered hrecoverer).bind
          fun _ _ _ hanswer => Traced.extends_pure hanswer
  refine hown.bind fun _ own _ hown => ?_
  refine (hown.askFast hreg hhere hordered owner _
    fun _ hanchor => Registry.recoverer?_of_mem_fastAnchors hanchor).bind fun _ fast _ hfast => ?_
  rw [hreg.stepAnchors_eq_nil]
  exact Traced.extends_pure hfast

end Choosing

/-- What looking for an anchor comes to. One that is found was resumed at a place ahead, and ends
    beyond it; the input up to there has been skipped. -/
structure Found (reg : Registry) (depth : Nat) (input : Input) (here : State) (p : Progress)
    (skips : List (Nat × Nat)) (history : List Event)
    (found : Option (Nat × Result) × Progress) : Prop where
  idle : (Skipping.of history).target = none
  known : ∃ (cache : WasteCache) (tried : List (Nat × Nat)),
    found.2 = { p with cache, tried } ∧ cache.Honest reg input
  nothing : found.1 = none → Event.skips history = skips
  anchor : ∀ anchor leaf, found.1 = some (anchor, leaf) → ∃ target : State,
    target.SitsOn input ∧ here.pos ≤ target.pos ∧
      (reg.parse depth anchor target).result = .ok leaf ∧ leaf.isOk = true ∧
        target.pos < leaf.stop.pos ∧ Event.skips history = skips ++ [(here.pos, target.pos)]

/-- An anchor that is resumed at a place where it matches has skipped the input from where the
    search began up to there. -/
theorem extends_run_anchor {anchor : Nat} {target : State} (htarget : target.SitsOn input)
    (hanchor : reg.AnchorsAt input anchor target.pos)
    (htargeted : (Skipping.of history).target = some target.pos)
    (hordered : Ordered (Event.skips history))
    (hskipped : Ordered (Event.skips history ++ [((Skipping.of history).here, target.pos)])) :
    (run ⟨reg, depth, maxErrors⟩ anchor target).Extends history KeepsOrder fun later leaf =>
      leaf.isOk = true ∧ target.pos < leaf.stop.pos ∧ (Skipping.of later).target = none ∧
        Event.skips later =
          Event.skips history ++ [((Skipping.of history).here, target.pos)] := by
  obtain ⟨entry, leaf, hentry, hwork, hconsumes, hpositional, s, hs, hpos, haccepts⟩ := hanchor
  have hmatches : leaf.Accepts target := hpositional s target hs htarget hpos haccepts
  have hok : (leaf.parse anchor target).isOk = true := (Leaf.isOk_parse_iff anchor).2 hmatches
  have hbeyond : target.pos < (leaf.parse anchor target).stop.pos := by
    obtain ⟨⟨stop, value⟩, hrun⟩ := hmatches
    have hlt := hconsumes (by rw [htarget.input_eq]; exact htarget.pos_le_size) hrun
    unfold Leaf.parse
    rw [hrun]
    dsimp only [Result.success]
    split <;> exact hlt
  cases depth with
  | zero => exact Traced.extends_fault
  | succ depth =>
    have hleft : (Skipping.of (history ++ [.entered anchor target] ++
        [.left anchor (leaf.parse anchor target)])) =
        { Skipping.of history with
          target := none
          skips := Event.skips history ++ [((Skipping.of history).here, target.pos)] } := by
      have hentered : Skipping.of (history ++ [.entered anchor target]) = Skipping.of history :=
        Skipping.of_concat ..
      rw [Skipping.of_concat, hentered, Skipping.after, htargeted]
      dsimp only
      rw [if_pos hok]
      rfl
    have hsteps : run ⟨reg, depth + 1, maxErrors⟩ anchor target = (do
        Traced.emit (.entered anchor target)
        Traced.emit (.left anchor (leaf.parse anchor target))
        return leaf.parse anchor target) := Registry.parse_of_leaf hentry hwork
    rw [hsteps]
    refine (Traced.extends_emit (e := .entered anchor target) ?_).bind fun later _ _ hlater => ?_
    · rw [KeepsOrder, Event.skips, Skipping.of_concat]
      exact hordered
    cases hlater
    refine (Traced.extends_emit (e := .left anchor (leaf.parse anchor target)) ?_).bind
      fun later _ _ hlater => ?_
    · rw [KeepsOrder, Event.skips, hleft]
      exact hskipped
    cases hlater
    refine Traced.extends_pure ⟨hok, hbeyond, ?_, ?_⟩
    · rw [hleft]
    · rw [Event.skips, hleft]

/-- The first anchor that is resumed matches, since no anchor breaks its promise. So there is one
    attempt and one skip, behind all others. -/
theorem extends_resynchronise (hreg : reg.Computes input) (hhere : here.SitsOn input)
    (hordered : Ordered skips) (hbehind : ∀ skip ∈ skips, skip.2 < here.pos)
    (owner : Option Nat) (attempts : Nat) (hcache : p.cache.Honest reg input)
    (hidle : (Skipping.of history).target = none) (hskips : Event.skips history = skips) :
    (resynchronise ⟨reg, depth, maxErrors⟩ owner here (attempts + 1) p).Extends history KeepsOrder
      (Found reg depth input here p skips) := by
  unfold resynchronise
  have hnothing : Sought reg input here p skips history (none, p) := by
    refine ⟨hidle, hskips, ⟨p.cache, rfl, hcache⟩, ?_⟩
    rintro _ ⟨⟩
  have hchoose : (chooseAnchor ⟨reg, depth, maxErrors⟩ p owner here).Extends history KeepsOrder
      (Sought reg input here p skips) := extends_chooseAnchor hreg hhere hordered owner hnothing
  refine hchoose.bind fun later choice _ hchoice => ?_
  obtain ⟨best, chosen⟩ := choice
  obtain ⟨cache, rfl, hhonest⟩ := hchoice.known
  cases best with
  | none =>
    exact Traced.extends_pure ⟨hchoice.idle, ⟨cache, p.tried, rfl, hhonest⟩,
      fun _ => hchoice.skips, by rintro _ _ ⟨⟩⟩
  | some bid =>
    obtain ⟨anchor, waste⟩ := bid
    obtain ⟨hasked, hanchor, hahead⟩ := hchoice.bid _ rfl
    have htarget := hhere.moveByUnits waste
    have hpicked : Skipping.of (later ++ [.anchored anchor (reg.label anchor)
        (here.moveByUnits waste).pos]) =
        { Skipping.of later with target := some (here.moveByUnits waste).pos } :=
      Skipping.of_concat ..
    have hsame : Event.skips (later ++ [.anchored anchor (reg.label anchor)
        (here.moveByUnits waste).pos]) = skips := by
      rw [Event.skips, hpicked]
      exact hchoice.skips
    refine (Traced.extends_emit (by rw [KeepsOrder, hsame]; exact hordered)).bind
      fun last _ _ hlast => ?_
    cases hlast
    refine (extends_run_anchor htarget hanchor (by rw [hpicked]) (by rw [hsame]; exact hordered)
      ?_).bind fun last leaf hleaf hresumed => ?_
    · rw [hsame, hpicked]
      dsimp only
      rw [hasked]
      exact hordered.concat hahead hbehind
    obtain ⟨hok, hbeyond, hidle', hskipped⟩ := hresumed
    rw [if_pos hok]
    refine Traced.extends_pure ⟨hidle', ⟨cache, _, rfl, hhonest⟩, (by rintro ⟨⟩),
      fun anchor' leaf' hfound => ?_⟩
    cases hfound
    refine ⟨_, htarget, hahead, hleaf, hok, hbeyond, ?_⟩
    rw [hskipped, hsame, hpicked]
    dsimp only
    rw [hasked]

end Session

end Resync
