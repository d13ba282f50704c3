import Mathlib.Data.List.ProdSigma
import Resync.Proofs.Engine.Course
import Resync.Proofs.Engine.Events
import Resync.Proofs.Recovery.Rounds
import Resync.Proofs.Traced.Agree

namespace Resync

namespace Traced

variable {α β : Type}

/-- What a computation tries that goes on from what was tried before: nothing twice, and only at
    given sites. Its result says what has been tried after it. A run marks its attempts, and asks
    anchors only about places where they are not marked. -/
structure Tries (x : Traced α) (sites tried : List (Nat × Nat)) (after : α → List (Nat × Nat)) :
    Prop where
  fresh : tried.Nodup → (x.attempts.reverse ++ tried).Nodup
  sites : ∀ attempt ∈ x.attempts, attempt ∈ sites
  after : ∀ a, x.result = .ok a → after a = x.attempts.reverse ++ tried

variable {sites tried : List (Nat × Nat)} {after : α → List (Nat × Nat)}

/-- A computation without attempts leaves what was tried as it was. -/
theorem tries_of_attempts_eq_nil {x : Traced α} (after : α → List (Nat × Nat))
    (h : x.attempts = []) (hafter : ∀ a, x.result = .ok a → after a = tried) :
    x.Tries sites tried after := by
  refine ⟨?_, ?_, ?_⟩
  · intro hnodup
    rwa [h]
  · intro attempt hattempt
    rw [h] at hattempt
    cases hattempt
  · intro a ha
    rw [h, hafter a ha]
    rfl

/-- The second part of a computation goes on from what the first one has tried, and so nothing is
    tried in both of them. -/
theorem Tries.bind {x : Traced α} {f : α → Traced β} {after' : β → List (Nat × Nat)}
    (hx : x.Tries sites tried after)
    (hf : ∀ a, x.result = .ok a → (f a).Tries sites (after a) after') :
    (x >>= f).Tries sites tried after' := by
  cases hresult : x.result with
  | error fault =>
    rw [bind_of_result_eq_error hresult]
    exact ⟨hx.fresh, hx.sites, fun _ hb => nomatch hb⟩
  | ok a =>
    have hnext := hf a hresult
    have hafter := hx.after a hresult
    have hattempts := attempts_bind_of_result_eq_ok hresult f
    have hbefore : (x >>= f).attempts.reverse ++ tried = (f a).attempts.reverse ++ after a := by
      rw [hattempts, hafter, List.reverse_append, List.append_assoc]
    refine ⟨?_, ?_, ?_⟩
    · intro hnodup
      rw [hbefore]
      apply hnext.fresh
      rw [hafter]
      exact hx.fresh hnodup
    · intro attempt hattempt
      rw [hattempts] at hattempt
      obtain hattempt | hattempt := List.mem_append.1 hattempt
      · exact hx.sites attempt hattempt
      · exact hnext.sites attempt hattempt
    · intro b hb
      rw [hbefore]
      rw [bind_of_result_eq_ok hresult] at hb
      exact hnext.after b hb

end Traced

namespace Registry

variable {reg : Registry}

/-- The occurrences that have a recoverer. -/
def recovering (reg : Registry) : List Nat :=
  (List.range reg.size).filter fun id => (reg.recoverer? id).isSome

/-- The places where an attempt can be made: an occurrence that has a recoverer, and an offset up to
    the end of the input. -/
def sites (reg : Registry) (input : Input) : List (Nat × Nat) :=
  reg.recovering ×ˢ List.range (input.size + 1)

/-- There are as many sites as there are occurrences with a recoverer, times the bytes of the input
    and one. This bounds the number of attempts that are all different. -/
theorem length_sites (input : Input) :
    (reg.sites input).length = reg.recovering.length * (input.size + 1) := by
  rw [sites, List.length_product, List.length_range]

/-- An occurrence with a recoverer can be tried at every offset up to the end of the input, and the
    end is among them. -/
theorem mem_sites {input : Input} {id pos : Nat} (hid : (reg.recoverer? id).isSome)
    (hpos : pos ≤ input.size) : (id, pos) ∈ reg.sites input := by
  have hlt : id < reg.size := by
    by_contra hge
    rw [recoverer?, List.getElem?_eq_none (Nat.not_lt.1 hge)] at hid
    cases hid
  exact List.mem_product.2
    ⟨List.mem_filter.2 ⟨List.mem_range.2 hlt, hid⟩, List.mem_range.2 (Nat.lt_succ_of_le hpos)⟩

/-- Parsing makes no attempts of its own: attempts are made by the recovery between parses. -/
theorem attempt?_of_isParsing {e : Event} (h : e.IsParsing) : e.attempt? = none := by
  cases e with
  | anchored anchor label pos => exact h.elim
  | _ => rfl

/-- No attempt is made while an occurrence is run, whatever it stops with. -/
theorem ensures_parse_quiet (reg : Registry) (depth id : Nat) (s : State) :
    (reg.parse depth id s).Ensures (fun e => e.attempt? = none) (fun _ => True) fun _ => True :=
  ⟨fun _ he => attempt?_of_isParsing (isParsing_of_mem_parse he), fun _ _ => trivial,
    fun _ _ => trivial⟩

/-- No attempt is made while a branch goes on, whatever it stops with. -/
theorem ensures_resume_quiet (reg : Registry) (depth id : Nat) (r : Resumption) :
    (reg.resume depth id r).Ensures (fun e => e.attempt? = none) (fun _ => True) fun _ => True := by
  refine ⟨fun e he => ?_, fun _ _ => trivial, fun _ _ => trivial⟩
  obtain hparsing | ⟨label, rfl⟩ := isParsing_of_mem_resume he
  · exact attempt?_of_isParsing hparsing
  · rfl

/-- What a run keeps up that stays on boundaries, and that parsing makes no attempts. -/
def boundaries (input : Input) : Upkeep where
  outcome _ r := r.All (·.SitsOn input)
  saved _ data := data.All (·.SitsOn input)
  error _ := True
  cursor s := s.SitsOn input
  summit _ := True
  event e := e.attempt? = none
  fault _ := True

variable {input : Input}

/-- The search for an anchor begins on a boundary. A syntactic error is at a place that a leaf has
    stood at, and a semantic one is looked for from the end of what was parsed. -/
theorem sitsOn_searchFrom {r : Result} {e : ParseError} (hr : r.All (·.SitsOn input))
    (he : r.error = some e) : (Session.searchFrom r e).SitsOn input := by
  unfold Session.searchFrom
  split
  · exact hr.stop
  · obtain ⟨s, hs, hpos⟩ := (hr.error e he).place
    rw [← hpos]
    exact hr.stop.movedTo hs.boundary

/-- Where every parse keeps to boundaries, so does everything that a run holds on to: outcomes, what
    branches have saved, and the cursors from which anchors are looked for. -/
theorem KeepsBoundaries.keptBy (h : reg.KeepsBoundaries input) (depth maxErrors : Nat) :
    (boundaries input).KeptBy ⟨reg, depth, maxErrors⟩ where
  exhausted := trivial
  run {id s} _ hs :=
    (ensures_parse_quiet reg depth id s).imp fun r hr _ => h.parse hs hr
  resume {_ parent index r saved} _ hr hsaved := by
    have hall : (Resumption.mk index r saved).All (·.SitsOn input) := ⟨hr, hsaved⟩
    exact (ensures_resume_quiet reg depth parent _).imp fun _ hresult _ => h.resume hall hresult
  root := trivial
  summit _ := trivial
  moved count hs := hs.moveByUnits count
  search hr he := sitsOn_searchFrom hr he
  reports hr he := ⟨trivial, (hr.error _ he).saved⟩
  stripped hr he := by
    refine ⟨hr.start, hr.stop, ?_⟩
    intro e he'
    cases he'
    exact (hr.error _ he).withoutSaved
  violation _ _ _ _ := trivial
  reported _ := rfl
  estimated _ _ _ _ _ := rfl
  gaveUp _ := rfl

end Registry

namespace Session

open Registry (boundaries)

variable {reg : Registry} {input : Input} {here : State} {p : Progress}

/-- The waste of an anchor leads to the very place that was asked about, so what is attempted was
    not attempted before. On a text this needs that the cursor stands on a boundary: a move by units
    would not come back to a place inside a scalar. -/
theorem attempt_of_offers {session : Session} {anchor waste : Nat} (hhere : here.SitsOn input)
    (h : (boundaries input).Offers session p.tried here (some (anchor, waste))) :
    (anchor, (here.moveByUnits waste).pos) ∉ p.tried ∧
      (anchor, (here.moveByUnits waste).pos) ∈ session.registry.sites input := by
  obtain ⟨hanchor, offset, ⟨⟨s, hs, rfl⟩, hahead⟩, huntried, hwaste⟩ := h _ rfl
  have hle : here.pos ≤ s.pos := hahead (by rw [hhere.input_eq]; exact hhere.pos_le_size)
  have htarget : (here.moveByUnits waste).pos = s.pos := by
    change waste = _ at hwaste
    rw [hwaste, hhere.moveByUnits_unitsTo_movedTo hs.boundary hle]
  rw [htarget]
  exact ⟨huntried, Registry.mem_sites hanchor hs.pos_le_size⟩

variable (h : reg.KeepsBoundaries input)
include h

/-- Resuming the cheapest anchor tries no place twice, also when several anchors fail one after the
    other, as each attempt is marked before it is made. -/
theorem tries_resynchronise (depth maxErrors : Nat) (hhere : here.SitsOn input)
    (hp : (boundaries input).Keeps p)
    (owner : Option Nat) (attempts : Nat) :
    (resynchronise ⟨reg, depth, maxErrors⟩ owner here attempts p).Tries (reg.sites input) p.tried
      fun found => found.2.tried := by
  have hkept := h.keptBy depth maxErrors
  induction attempts generalizing p with
  | zero => exact ⟨id, fun _ hattempt => (nomatch hattempt), fun _ hfound => nomatch hfound⟩
  | succ attempts ih =>
    have hchoose := Upkeep.ensures_chooseAnchor hkept.anchors.toKeptByAsking hhere hp owner
    unfold resynchronise
    -- Asking anchors makes no attempts, and keeps the marks.
    have hasking : (chooseAnchor ⟨reg, depth, maxErrors⟩ p owner here).Tries (reg.sites input)
        p.tried fun choice => choice.2.tried :=
      Traced.tries_of_attempts_eq_nil _ hchoose.attempts_eq_nil
        fun choice hchoice => (hchoose.value choice hchoice).1.tried
    refine hasking.bind fun choice hchoice => ?_
    obtain ⟨hsurveyed, hoffers⟩ := hchoose.value choice hchoice
    obtain ⟨best, chosen⟩ := choice
    cases best with
    | none => exact Traced.tries_of_attempts_eq_nil _ rfl fun found hfound => by cases hfound; rfl
    | some bid =>
      obtain ⟨anchor, waste⟩ := bid
      obtain ⟨hnew, hsite⟩ := attempt_of_offers hhere hoffers
      have htarget := hhere.moveByUnits waste
      have hrun := hkept.run (.inr (hoffers _ rfl).1) htarget
      -- The attempt itself: it is new, and it is marked before the anchor is run.
      have hattempt (label : String) :
          (Traced.emit (.anchored anchor label (here.moveByUnits waste).pos)).Tries
            (reg.sites input) chosen.tried
            fun _ => (anchor, (here.moveByUnits waste).pos) :: chosen.tried := by
        refine ⟨?_, ?_, fun _ _ => rfl⟩
        · intro hnodup
          refine List.nodup_cons.2 ⟨?_, hnodup⟩
          rw [hsurveyed.tried]
          exact hnew
        · intro attempt hattempt
          cases List.mem_singleton.1 hattempt
          exact hsite
      apply (hattempt _).bind
      intro _ _
      have hleaf : (run ⟨reg, depth, maxErrors⟩ anchor (here.moveByUnits waste)).Tries
          (reg.sites input) ((anchor, (here.moveByUnits waste).pos) :: chosen.tried)
          fun _ => (anchor, (here.moveByUnits waste).pos) :: chosen.tried :=
        Traced.tries_of_attempts_eq_nil _ hrun.attempts_eq_nil fun _ _ => rfl
      refine hleaf.bind fun result _ => ?_
      split
      · exact Traced.tries_of_attempts_eq_nil _ rfl fun found hfound => by cases hfound; rfl
      · refine (Traced.tries_of_attempts_eq_nil (fun reported : Progress => reported.tried)
          rfl fun reported hreported => ?_).bind fun reported hreported => ?_
        · cases hreported
          exact Progress.record_tried _ _
        · have hkeeps : (boundaries input).Keeps reported := by
            cases hreported
            exact (hsurveyed.keeps.markTried _ _).record trivial
              fun _ hentry => absurd hentry List.not_mem_nil
          split
          · exact Traced.tries_of_attempts_eq_nil _ rfl fun found hfound => by cases hfound; rfl
          · exact ih hkeeps

/-- The rounds of a run try no place twice. Climbs and reports in between make no attempts and keep
    the marks. -/
theorem tries_rounds (depth maxErrors attempts limit : Nat) (summit : Summit)
    (hsummit : summit.result.All (·.SitsOn input)) (hp : (boundaries input).Keeps summit.progress) :
    (rounds ⟨reg, depth, maxErrors⟩ attempts limit summit).Tries (reg.sites input)
      summit.progress.tried fun next => next.progress.tried := by
  have hkept := h.keptBy depth maxErrors
  induction limit generalizing summit with
  | zero => exact ⟨id, fun _ hattempt => (nomatch hattempt), fun _ hnext => nomatch hnext⟩
  | succ limit ih =>
    unfold rounds
    cases herror : summit.result.error with
    | none => exact Traced.tries_of_attempts_eq_nil _ rfl fun next hnext => by cases hnext; rfl
    | some e =>
      have hhere := Registry.sitsOn_searchFrom hsummit herror
      have hstripped : (boundaries input).outcome summit.id
          { summit.result with error := some e.withoutSaved } := hkept.stripped hsummit herror
      have hreport := Upkeep.ensures_report hkept.reported hp (e := e) trivial
        (hsummit.error e herror).saved
      refine (Traced.tries_of_attempts_eq_nil (fun reported => reported.tried)
        hreport.attempts_eq_nil fun reported hreported => ?_).bind fun reported hreported => ?_
      · rw [(hreport.value reported hreported).2]
        exact Progress.record_tried _ _
      have hkeeps := (hreport.value reported hreported).1
      have hgiveUp {q : Progress} (hq : (boundaries input).Keeps q) :
          (giveUp ⟨reg, depth, maxErrors⟩ (searchFrom summit.result e)
            ⟨summit.id, { summit.result with error := some e.withoutSaved }, q⟩).Tries
            (reg.sites input) q.tried fun next => next.progress.tried := by
        have hgave := Upkeep.ensures_giveUp hkept hhere ⟨summit.id, _, q⟩ hstripped hq
        exact Traced.tries_of_attempts_eq_nil _ hgave.attempts_eq_nil
          fun next hnext => (hgave.value next hnext).tried
      dsimp only
      split
      · exact hgiveUp hkeeps
      · refine (tries_resynchronise h depth maxErrors hhere hkeeps e.owner attempts).bind
          fun found hfound => ?_
        have hresynced := Upkeep.resynced_of_result_eq_ok hkept hkeeps hhere hfound
        obtain ⟨found, q⟩ := found
        cases found with
        | none => exact hgiveUp hresynced.keeps
        | some found =>
          obtain ⟨anchor, result⟩ := found
          obtain ⟨-, hresult, -⟩ := hresynced.anchor _ _ rfl
          have hclimb := Upkeep.ensures_climb hkept false ⟨anchor, result, q⟩ hresult
            hresynced.keeps
          have hclimbs : (climb ⟨reg, depth, maxErrors⟩ false ⟨anchor, result, q⟩).Tries
              (reg.sites input) q.tried fun next => next.progress.tried :=
            Traced.tries_of_attempts_eq_nil _ hclimb.attempts_eq_nil
              fun next hnext => (hclimb.value next hnext).tried
          refine hclimbs.bind fun next hnext => ?_
          have hclimbed := hclimb.value next hnext
          exact ih _ hclimbed.outcome (hclimbed.keeps.dropStale _ _)

/-- No attempt of a run is made twice, and each is made at an occurrence that has a recoverer and at
    an offset inside the input. So there are finitely many, whatever the input and the depth are. -/
theorem attempts_execute (depth maxErrors : Nat) (cache : WasteCache)
    (hcache : cache.entries = []) :
    (execute ⟨reg, depth, maxErrors⟩ cache (State.start input)).attempts.Nodup ∧
      (execute ⟨reg, depth, maxErrors⟩ cache (State.start input)).attempts ⊆ reg.sites input := by
  have hrun := (h.keptBy depth maxErrors).run (.inl rfl) (State.start_sitsOn input)
  have htries : (summit ⟨reg, depth, maxErrors⟩ cache (State.start input)).Tries
      (reg.sites input) [] fun next => next.progress.tried :=
    (Traced.tries_of_attempts_eq_nil (fun _ => []) hrun.attempts_eq_nil
      fun _ _ => rfl).bind fun result hresult =>
        tries_rounds h _ _ _ _ ⟨0, result, .initial cache⟩ (hrun.value result hresult)
          (Upkeep.keeps_initial hcache)
  rw [execute_eq, Traced.attempts_bind_pure]
  have hfresh := htries.fresh List.nodup_nil
  rw [List.append_nil] at hfresh
  exact ⟨(List.pairwise_reverse.1 hfresh).imp Ne.symm, htries.sites⟩

end Session

end Resync
