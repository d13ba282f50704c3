import Resync.Prepared
import Resync.Proofs.Reading.Rules
import Resync.Proofs.Recovery.Climb
import Resync.Proofs.Recovery.Nearest
import Resync.Proofs.Recovery.Reach

namespace Resync

/-- An attempt can begin at a cursor that has its watermark behind it or where it stands, so that
    reaching a safe spot will be seen from there. -/
theorem State.Faces.starts {s : State} {input : Input} {cs : List Char} (h : s.Faces input cs) :
    s.Starts input :=
  ⟨h.sits.input_eq, h.sits.pos_le_size, h.safeSpot_le⟩

/-- A failure of the leaf `owner`, which expected what its label names, where the outcome stops. -/
structure Result.FailsWith (r : Result) (owner : Nat) (label : String) (e : ParseError) : Prop where
  error_eq : r.error = some e
  owner_eq : e.owner = some owner
  mismatch_eq : e.mismatch = ⟨.syntactic, "expected \"" ++ label ++ "\"", r.stop.pos⟩

/-- What is known of a run that stands at an offset: what it has found and tried lies behind, its
    errors are in order, and its cache holds what anchors answer. -/
structure Progress.Behind (p : Progress) (reg : Registry) (input : Input) (pos : Nat) : Prop where
  truthful : p.cache.Truthful reg input
  sorted : p.errors.Pairwise fun e f => e.position ≤ f.position
  errors : ∀ e ∈ p.errors, e.position < pos
  tried : ∀ attempt ∈ p.tried, attempt.2 < pos

namespace Progress.Behind

variable {p : Progress} {reg : Registry} {input : Input} {pos pos' : Nat} {e : ParseError}

/-- At the beginning nothing is known, and all of it lies behind any place. -/
theorem initial (reg : Registry) (input : Input) (pos : Nat) :
    (Progress.initial .empty).Behind reg input pos where
  truthful _ hentry := nomatch hentry
  sorted := .nil
  errors _ he := nomatch he
  tried _ hmem := nomatch hmem

theorem mono (h : p.Behind reg input pos) (hle : pos ≤ pos') : p.Behind reg input pos' where
  truthful := h.truthful
  sorted := h.sorted
  errors e he := Nat.lt_of_lt_of_le (h.errors e he) hle
  tried attempt hmem := Nat.lt_of_lt_of_le (h.tried attempt hmem) hle

/-- Handing out what was saved leaves errors, attempts and answers as they are. -/
theorem release (h : p.Behind reg input pos) (id : Nat) : (p.release id).2.Behind reg input pos :=
  ⟨h.truthful, h.sorted, h.errors, h.tried⟩

/-- Forgetting what was saved leaves errors, attempts and answers as they are. -/
theorem dropStale (h : p.Behind reg input pos) (stop : Nat) :
    (p.dropStale reg stop).Behind reg input pos :=
  ⟨h.truthful, h.sorted, h.errors, h.tried⟩

/-- An error at the offset is new, and the last one, since all others lie before it. So the list
    stays in order without being sorted. -/
theorem record (h : p.Behind reg input pos) (he : e.position = pos) :
    (p.record e).errors = p.errors ++ [e.withoutSaved] ∧ (p.record e).Behind reg input (pos + 1) := by
  have hnew : (p.keepAll e.saved).knows e.withoutSaved = false := by
    refine Bool.eq_false_iff.2 fun hknows => ?_
    rw [Progress.knows, (Progress.keepAll_frame e.saved).2.1, List.any_eq_true] at hknows
    obtain ⟨f, hf, hsame⟩ := hknows
    have hpos : f.position = e.position := beq_iff_eq.1 (Bool.and_eq_true_iff.1 hsame).1
    exact Nat.ne_of_lt (h.errors f hf) (hpos.trans he)
  have herrors : (p.record e).errors = p.errors ++ [e.withoutSaved] := by
    rw [Progress.record_eq, hnew, if_neg Bool.false_ne_true]
  have hlast : e.withoutSaved.position = pos := he
  refine ⟨herrors, ?_, ?_, ?_, ?_⟩
  · rw [Progress.record_cache]
    exact h.truthful
  · rw [herrors, List.pairwise_append]
    refine ⟨h.sorted, List.pairwise_singleton _ _, fun f hf g hg => ?_⟩
    rw [List.mem_singleton.1 hg, hlast]
    exact Nat.le_of_lt (h.errors f hf)
  · rw [herrors]
    intro f hf
    obtain hold | hnew := List.mem_append.1 hf
    · exact Nat.lt_succ_of_lt (h.errors f hold)
    · rw [List.mem_singleton.1 hnew, hlast]
      exact Nat.lt_succ_self pos
  · rw [Progress.record_tried]
    exact fun attempt hmem => Nat.lt_succ_of_lt (h.tried attempt hmem)

end Progress.Behind

namespace Session

section Resynchronising

variable {session : Session} {owner : Option Nat} {here : State} {p p' : Progress}

/-- The cheapest anchor is resumed where its waste leads, if it succeeds there. -/
theorem resynchronise_of_chosen {anchor waste : Nat} {result : Result}
    (hchosen : (session.chooseAnchor p owner here).result = .ok (some (anchor, waste), p'))
    (hrun : (session.run anchor (here.moveByUnits waste)).result = .ok result)
    (hok : result.isOk = true) (attempts : Nat) :
    (session.resynchronise owner here (attempts + 1) p).result =
      .ok (some (anchor, result), p'.markTried anchor (here.moveByUnits waste).pos) := by
  rw [resynchronise]
  refine Traced.result_bind_eq_ok_iff.2 ⟨_, hchosen, ?_⟩
  refine Traced.result_bind_eq_ok_iff.2 ⟨(), rfl, ?_⟩
  refine Traced.result_bind_eq_ok_iff.2 ⟨_, hrun, ?_⟩
  rw [if_pos hok]
  rfl

/-- Without an anchor nothing is resumed, and the search is at its end. -/
theorem resynchronise_of_none
    (hchosen : (session.chooseAnchor p owner here).result = .ok (none, p')) (attempts : Nat) :
    (session.resynchronise owner here (attempts + 1) p).result = .ok (none, p') := by
  rw [resynchronise]
  exact Traced.result_bind_eq_ok_iff.2 ⟨_, hchosen, rfl⟩

end Resynchronising

/-- Where an anchor is resumed behind `front` after an error at a summit, and what is known then.
    The climb from there gets what the branches have saved in the error. -/
structure Regains (session : Session) (input : Input) (summit : Summit) (e : ParseError)
    (front rest : List Char) (target : State) (p : Progress) : Prop where
  faces : target.Faces input rest
  pos_eq : target.pos = summit.result.stop.pos + Utf8.width front
  behind : p.Behind session.registry input (target.pos + 1)
  errors_eq : p.errors = summit.progress.errors ++ [e.withoutSaved]
  salvage_eq : p.salvage = (summit.progress.record e).salvage

namespace Regains

variable {session : Session} {input : Input} {summit : Summit} {e : ParseError}
  {front rest : List Char} {target : State} {p : Progress}
  (h : session.Regains input summit e front rest target p)
include h

/-- One error is added in a round, as the place of the error is new. -/
theorem length_errors : p.errors.length = summit.progress.errors.length + 1 := by
  rw [h.errors_eq, List.length_append]
  rfl

/-- What a branch has saved in the error is kept for it when the anchor is resumed. -/
theorem lookup_of_mem {id : Nat} {data : Saved} (hkeys : (e.saved.map Prod.fst).Nodup)
    (hmem : (id, data) ∈ e.saved) : p.salvage.lookup id = some data := by
  rw [h.salvage_eq]
  exact Progress.lookup_record_of_mem hkeys hmem

end Regains

/-- The rounds from a summit at the root end with an error: it is listed behind the others, and
    unwinds. -/
def EndsWith (session : Session) (input : Input) (summit : Summit) (e : ParseError) : Prop :=
  ∃ p : Progress, p.errors = summit.progress.errors ++ [e.withoutSaved] ∧
    (p.errors.Pairwise fun e f => e.position ≤ f.position) ∧
    ∀ limit, (session.rounds (session.attemptBound input) (limit + 1) summit).result =
      .ok ⟨0, { summit.result with error := some e.withoutSaved }, p⟩

section Rounds

variable {session : Session} {sought : Nat → Char → Bool} {input : Input} {summit : Summit}
  {e : ParseError} {owner : Nat} {label : String} {cs : List Char}
  (hfails : summit.result.FailsWith owner label e)
  (hbehind : summit.progress.Behind session.registry input summit.result.stop.pos)
include hfails hbehind

/-- An error that nothing is resumed after is the last one, and unwinds from the root, which is its
    own climb. -/
private theorem endsWith_of_none {cache : WasteCache}
    (hfound : (session.seek (State.start input) summit e).result =
      .ok (none, { summit.progress.record e with cache }))
    (hroot : summit.id = 0) : session.EndsWith input summit e := by
  obtain ⟨herrors, hrecorded⟩ :=
    hbehind.record (congrArg Mismatch.position hfails.mismatch_eq)
  refine ⟨{ summit.progress.record e with cache }, herrors, hrecorded.sorted, fun limit => ?_⟩
  change (session.rounds (session.attemptBound (State.start input).input) (limit + 1)
    summit).result = _
  rw [rounds_of_error hfails.error_eq]
  refine Traced.result_bind_eq_ok_iff.2 ⟨(), rfl, ?_⟩
  refine Traced.result_bind_eq_ok_iff.2 ⟨_, hfound, ?_⟩
  refine Traced.result_bind_eq_ok_iff.2 ⟨(), rfl, ?_⟩
  rw [climb, hroot]
  rfl

/-- When the budget is spent by an error, it is the last one. It is listed all the same, because the
    budget is looked at after that. -/
theorem endsWith_of_spent (hspent : session.maxErrors ≤ summit.progress.errors.length + 1)
    (hroot : summit.id = 0) : session.EndsWith input summit e := by
  obtain ⟨herrors, -⟩ := hbehind.record (congrArg Mismatch.position hfails.mismatch_eq)
  have hends : session.isSpent (summit.progress.record e) = true := by
    rw [isSpent, herrors, List.length_append]
    exact decide_eq_true hspent
  have hfound : (session.seek (State.start input) summit e).result =
      .ok (none, { summit.progress.record e with cache := (summit.progress.record e).cache }) := by
    rw [seek, hends, Bool.or_true, if_pos rfl]
    rfl
  exact endsWith_of_none hfails hbehind hfound hroot

variable (hreg : session.registry.Finds input sought) (htext : input.binary = false)
  (howner : session.registry.recoverer? owner = none → ∀ c, sought owner c = false)
  (hdepth : 0 < session.depth) (hopen : summit.progress.errors.length + 1 < session.maxErrors)
include hreg htext howner hdepth hopen

/-- What is asked after an error: the search begins where the outcome stops, and the cheapest bid is
    that of the scalars ahead. Nothing was tried from there on, so no bid is left out. -/
private theorem exists_chosen (hfaces : summit.result.stop.Faces input cs) :
    ∃ here cache, searchFrom summit.result e = here ∧ here.Faces input cs ∧
      here.pos = summit.result.stop.pos ∧ cache.Truthful session.registry input ∧
      (session.chooseAnchor (summit.progress.record e) e.owner here).result =
        .ok (Bid.cheapest (fun id => cs.findIdx? (sought id)) (session.registry.bidders owner) none,
          { summit.progress.record e with cache }) ∧
      session.isSpent (summit.progress.record e) = false := by
  have hkind : e.kind = .syntactic := congrArg Mismatch.kind hfails.mismatch_eq
  have hposition : e.position = summit.result.stop.pos :=
    congrArg Mismatch.position hfails.mismatch_eq
  obtain ⟨hhere, hpos⟩ := hfaces.movedTo_pos
  obtain ⟨herrors, hrecorded⟩ := hbehind.record hposition
  have htried : ∀ attempt ∈ (summit.progress.record e).tried,
      attempt.2 < (summit.result.stop.movedTo summit.result.stop.pos).pos := by
    rw [Progress.record_tried, hpos]
    exact hbehind.tried
  obtain ⟨cache, hcache, hchosen⟩ := yields_chooseAnchor_find hreg htext hhere.sits
    hrecorded.truthful htried (session.depth - 1) session.maxErrors howner
  rw [hhere.scalars_eq, Nat.sub_add_cancel hdepth] at hchosen
  refine ⟨_, cache, ?_, hhere, hpos, hcache, ?_, ?_⟩
  · rw [searchFrom, hkind, hposition]
  · rw [hfails.owner_eq]
    exact hchosen.result
  · rw [isSpent, herrors, List.length_append]
    exact decide_eq_false (Nat.not_le.2 hopen)

/-- From an error, the nearest anchor is resumed where it finds what it seeks, and the rounds go on
    with the climb from it. One number is taken from the bound for each round. -/
theorem exists_rounds_nearest {front back : List Char} {c : Char}
    {anchor : Nat} {entry : Entry} {leaf : Leaf}
    (hfaces : summit.result.stop.Faces input (front ++ c :: back))
    (hnearest : session.registry.Nearest sought owner front c anchor)
    (hentry : session.registry.entries[anchor]? = some entry) (hwork : entry.work = .leaf leaf) :
    ∃ target p, session.Regains input summit e front (c :: back) target p ∧
      ∀ next, (session.climb false ⟨anchor, leaf.parse anchor target, p⟩).result = .ok next →
        ∀ limit, (session.rounds (session.attemptBound input) (limit + 1) summit).result =
          (session.rounds (session.attemptBound input) limit (session.settle next)).result := by
  obtain ⟨here, cache, hsearch, hhere, hpos, hcache, hchosen, hspent⟩ :=
    exists_chosen hfails hbehind hreg htext howner hdepth hopen hfaces
  obtain ⟨herrors, hrecorded⟩ :=
    hbehind.record (congrArg Mismatch.position hfails.mismatch_eq)
  rw [hnearest.cheapest_eq] at hchosen
  obtain ⟨htarget, htargetpos⟩ := hhere.moveByUnits htext
  rw [hpos] at htargetpos
  have hhead : (here.moveByUnits front.length).scalars.head? = some c := by
    rw [htarget.scalars_eq]
    rfl
  have hok := (Leaf.isOk_parse_iff anchor).2
    (hreg.starts hentry hwork hhead ((hnearest.found anchor hnearest.asked).2 rfl))
  have hrun : (session.run anchor (here.moveByUnits front.length)).result =
      .ok (leaf.parse anchor (here.moveByUnits front.length)) := by
    rw [run, ← Nat.succ_pred_eq_of_pos hdepth]
    exact Registry.result_parse_of_leaf hentry hwork
  let p := Progress.markTried { summit.progress.record e with cache } anchor
    (here.moveByUnits front.length).pos
  have hfound : (session.seek (State.start input) summit e).result =
      .ok (some (anchor, leaf.parse anchor (here.moveByUnits front.length)), p) := by
    have hend : here.atEnd = false := decide_eq_false (Nat.not_le.2
      (State.lt_size_of_scalars (by rw [hhere.scalars_eq]; simp)))
    rw [seek, hsearch, hend, hspent, if_neg (by decide)]
    exact resynchronise_of_chosen hchosen hrun hok _
  refine ⟨_, p, ⟨htarget, htargetpos, ⟨hcache, hrecorded.sorted, ?_, ?_⟩, herrors, rfl⟩, ?_⟩
  · exact fun f hf => Nat.lt_of_lt_of_le (hrecorded.errors f hf) (by omega)
  · intro attempt hmem
    obtain rfl | hmem := List.mem_cons.1 hmem
    · exact Nat.lt_succ_self _
    · exact Nat.lt_of_lt_of_le (hrecorded.tried attempt hmem) (by omega)
  · intro next hnext limit
    obtain ⟨before, hrounds⟩ := Round.rounds_eq ⟨hfails.error_eq, hfound⟩ hnext
    have hresult := congrArg Traced.result (hrounds limit)
    exact hresult

/-- An error with nothing ahead that any anchor seeks is the last one: there is no bid, and the run
    gives up. -/
theorem endsWith_of_lost (hfaces : summit.result.stop.Faces input cs)
    (hlost : ∀ id ∈ session.registry.bidders owner, ∀ x ∈ cs, sought id x = false)
    (hroot : summit.id = 0) : session.EndsWith input summit e := by
  obtain ⟨here, cache, hsearch, hhere, hpos, hcache, hchosen, hspent⟩ :=
    exists_chosen hfails hbehind hreg htext howner hdepth hopen hfaces
  rw [Bid.cheapest_of_forall_none fun id hid => List.findIdx?_eq_none_iff.2 (hlost id hid)]
    at hchosen
  have hfound : ∃ cache, (session.seek (State.start input) summit e).result =
      .ok (none, { summit.progress.record e with cache }) := by
    rw [seek, hsearch, hspent, Bool.or_false]
    split
    · exact ⟨_, rfl⟩
    · exact ⟨cache, resynchronise_of_none hchosen _⟩
  obtain ⟨cache', hfound⟩ := hfound
  exact endsWith_of_none hfails hbehind hfound hroot

end Rounds

/-- The rounds from an outcome of the root end with an output, and with some more reports behind
    those that are known. -/
def Completes (session : Session) (input : Input) (p : Progress) (r : Result) (output : Output)
    (reports : List Mismatch) : Prop :=
  ∃ final : Summit, final.result.output = output ∧
    final.progress.errors.map ParseError.mismatch = p.errors.map ParseError.mismatch ++ reports ∧
    (final.progress.errors.Pairwise fun e f => e.position ≤ f.position) ∧
    ∀ limit, reports.length ≤ limit →
      (session.rounds (session.attemptBound input) (limit + 1) ⟨0, r, p⟩).result = .ok final

section Completing

variable {session : Session} {input : Input} {p : Progress} {r : Result} {output : Output}
  {reports : List Mismatch} {pos : Nat}

/-- An outcome without an error completes the run, with no more reports. -/
theorem completes_of_success (hbehind : p.Behind session.registry input pos)
    (hok : r.error = none) : session.Completes input p r r.output [] := by
  refine ⟨⟨0, r, p⟩, rfl, (List.append_nil _).symm, hbehind.sorted, fun limit _ => ?_⟩
  rw [rounds]
  dsimp only
  rw [hok]
  rfl

/-- A run whose last error unwinds from the root is completed with what there is: the output of the
    root, and one more report. -/
private theorem completes_of_endsWith {e : ParseError}
    (hended : session.EndsWith input ⟨0, r, p⟩ e) :
    session.Completes input p r r.output [e.mismatch] := by
  obtain ⟨p', herrors, hsorted, hrounds⟩ := hended
  refine ⟨_, rfl, ?_, hsorted, fun limit _ => hrounds limit⟩
  rw [herrors, List.map_append]
  rfl

variable {sought : Nat → Char → Bool} {e : ParseError} {owner : Nat} {label : String}
  (hfails : r.FailsWith owner label e) (hbehind : p.Behind session.registry input r.stop.pos)
include hfails hbehind

/-- After a failure that spends the budget, the run is completed with what there is. -/
theorem completes_of_spent (hspent : session.maxErrors ≤ p.errors.length + 1) :
    session.Completes input p r r.output [e.mismatch] := by
  let summit : Summit := ⟨0, r, p⟩
  have hat : summit.result.FailsWith owner label e := hfails
  exact completes_of_endsWith (endsWith_of_spent hat hbehind hspent rfl)

variable (hreg : session.registry.Finds input sought) (htext : input.binary = false)
  (howner : session.registry.recoverer? owner = none → ∀ c, sought owner c = false)
  (hdepth : 0 < session.depth) (hopen : p.errors.length + 1 < session.maxErrors)
include hreg htext howner hdepth hopen

/-- After a failure in front of the nearest anchor, the run is completed from where the climb from
    that anchor ends. This is the step by which a run is followed from one failure to the next. -/
theorem completes_of_nearest {front back : List Char} {c : Char}
    {anchor : Nat} {entry : Entry} {leaf : Leaf}
    (hfaces : r.stop.Faces input (front ++ c :: back))
    (hnearest : session.registry.Nearest sought owner front c anchor)
    (hentry : session.registry.entries[anchor]? = some entry) (hwork : entry.work = .leaf leaf)
    (hclimb : ∀ target p', session.Regains input ⟨0, r, p⟩ e front (c :: back) target p' →
      ∃ r' p'', (session.climb false ⟨anchor, leaf.parse anchor target, p'⟩).result =
          .ok ⟨0, r', p''⟩ ∧ p''.errors = p'.errors ∧
        session.Completes input (p''.dropStale session.registry 0) r' output reports) :
    session.Completes input p r output (e.mismatch :: reports) := by
  let summit : Summit := ⟨0, r, p⟩
  have hat : summit.result.FailsWith owner label e := hfails
  obtain ⟨target, p', hregains, hrounds⟩ := exists_rounds_nearest hat hbehind hreg htext howner
    hdepth hopen hfaces hnearest hentry hwork
  obtain ⟨r', p'', hclimbed, herrors, final, houtput, hlisted, hsorted, hends⟩ :=
    hclimb target p' hregains
  refine ⟨final, houtput, ?_, hsorted, fun limit hlimit => ?_⟩
  · rw [hlisted, Progress.dropStale_errors, herrors, hregains.errors_eq, List.map_append,
      List.append_assoc]
    rfl
  · obtain ⟨limit, rfl⟩ := Nat.exists_eq_add_of_le' (Nat.lt_of_lt_of_le (Nat.succ_pos _) hlimit)
    rw [hrounds _ hclimbed]
    exact hends limit (Nat.le_of_succ_le_succ hlimit)

/-- After a failure with nothing ahead that any anchor seeks, the run is completed with what there
    is. -/
theorem completes_of_lost {cs : List Char} (hfaces : r.stop.Faces input cs)
    (hlost : ∀ id ∈ session.registry.bidders owner, ∀ x ∈ cs, sought id x = false) :
    session.Completes input p r r.output [e.mismatch] := by
  let summit : Summit := ⟨0, r, p⟩
  have hat : summit.result.FailsWith owner label e := hfails
  exact completes_of_endsWith
    (endsWith_of_lost hat hbehind hreg htext howner hdepth hopen hfaces hlost rfl)

omit hfails hbehind hreg htext howner hdepth hopen

/-- A run whose root descent is completed has the output, and the reports in their order. They are
    sorted already, so that sorting them by position changes nothing. -/
theorem Completes.execute_eq_ok (h : session.Completes input (.initial .empty) r output reports)
    (hrun : (session.run 0 (State.start input)).result = .ok r)
    (hreports : reports.length ≤ input.size + 1) (hsize : 0 < session.registry.size) :
    ∃ errors, (session.execute .empty (State.start input)).result = .ok (output, errors) ∧
      errors.map ParseError.mismatch = reports := by
  obtain ⟨final, rfl, hlisted, hsorted, hends⟩ := h
  have hsort : sortErrors final.progress.errors = final.progress.errors :=
    List.mergeSort_of_pairwise (hsorted.imp fun hle => decide_eq_true hle)
  have hbound : reports.length ≤ session.registry.size * (input.size + 1) + 1 := by
    have hle := Nat.le_mul_of_pos_left (input.size + 1) hsize
    omega
  refine ⟨final.progress.errors, ?_, hlisted⟩
  refine Traced.result_bind_eq_ok_iff.2 ⟨r, hrun, ?_⟩
  refine Traced.result_bind_eq_ok_iff.2 ⟨final, hends _ hbound, ?_⟩
  rw [hsort]
  rfl

end Completing

end Session

/-- A prepared parser gives what its session does, if the output has the type of the parser. -/
theorem Prepared.run_eq_ok {t : Ty} {p : Prepared t} {input : Input} {value : t.Val}
    {errors : List ParseError} (h : ((p.session input).execute .empty (State.start input)).result =
      .ok (⟨t, value⟩, errors)) : p.run input = .ok (value, errors) := by
  rw [Prepared.run, Prepared.trace]
  refine Traced.result_bind_eq_ok_iff.2 ⟨_, h, ?_⟩
  dsimp only
  rw [Output.as?_self]
  rfl

end Resync
