import Resync.Proofs.Recovery.Salvage
import Resync.Proofs.Recovery.Skips

namespace Resync.Session

section

variable {reg : Registry} {g : Graph} {allowed : Primitive → Prop} {depth maxErrors : Nat}
  {input : Input} {start : State} {clear : Nat → Prop} {floor : Nat} {history : List Event}

section Climbing

/-- A climb resumes no anchor, and therefore skips nothing, however far the branches on its way go
    on. -/
theorem attempt?_of_mem_climbThrough {session : Session} {unwinding : Bool}
    {way : List (Nat × Nat)} {summit : Summit} {e : Event}
    (he : e ∈ (session.climbThrough unwinding way summit).events) : e.attempt? = none := by
  have hquiet : (session.climbThrough unwinding way summit).Ensures (fun e => e.attempt? = none)
      (fun _ => True) fun _ => True := by
    clear he
    induction way generalizing summit with
    | nil => exact Traced.ensures_pure trivial
    | cons step way ih =>
      obtain ⟨parent, index⟩ := step
      rw [climbThrough_cons]
      refine (Registry.ensures_resume_quiet _ _ _ _).bind fun result _ _ => ?_
      split
      · exact Traced.ensures_pure trivial
      · exact ih
  exact hquiet.event e he

/-- Where a climb leads: forward, with no more kept for branches than before, and no other
    errors. -/
structure Leads (clear : Nat → Prop) (input : Input) (floor : Nat) (summit next : Summit) :
    Prop where
  result : next.result.Forward clear input floor
  le : summit.result.stop.pos ≤ next.result.stop.pos
  salvage : next.progress.salvage ⊆ summit.progress.salvage
  errors : next.progress.errors = summit.progress.errors
  cache : next.progress.cache = summit.progress.cache

/-- A climb leads forward from where it begins, if what is kept for branches lies before that. So
    all that comes of it lies behind the last skip. -/
theorem leads_of_climbThrough (hg : g.IsPrimitive allowed) (hlaid : reg.LaidOut g)
    (hclear : ∀ pos, floor ≤ pos → clear pos) {unwinding : Bool} {way : List (Nat × Nat)}
    {summit next : Summit} (hresult : summit.result.Forward clear input floor)
    (hsalvage : ∀ entry ∈ summit.progress.salvage,
      entry.2.All (·.Behind clear input summit.result.stop.pos))
    (h : (climbThrough ⟨reg, depth, maxErrors⟩ unwinding way summit).result = .ok next) :
    Leads clear input floor summit next := by
  induction way generalizing summit with
  | nil =>
    cases h
    exact ⟨hresult, Nat.le_refl _, List.Subset.refl _, rfl, rfl⟩
  | cons step way ih =>
    obtain ⟨parent, index⟩ := step
    obtain ⟨result, hresume, h⟩ := climbThrough_cons_eq_ok h
    have hsaved : ∀ data, summit.progress.salvage.lookup parent = some data →
        data.All (·.Behind clear input summit.result.stop.pos) :=
      fun data hdata => hsalvage (parent, data) (Progress.mem_of_lookup hdata)
    have hforward := Registry.forward_resume hg hlaid hclear hresult hsaved hresume
    have hreleased : (summit.progress.release parent).2.salvage ⊆ summit.progress.salvage :=
      fun entry hentry => (List.mem_filter.1 hentry).1
    split at h
    · cases h
      exact ⟨hforward.mono hresult.floor, hforward.floor, hreleased, rfl, rfl⟩
    · obtain ⟨hnext, hle, hkept, herrors, hcache⟩ := ih (hforward.mono hresult.floor)
        (fun entry hentry => (hsalvage entry (hreleased hentry)).imp fun hs =>
          hs.mono hforward.floor) h
      exact ⟨hnext, Nat.le_trans hforward.floor hle, List.Subset.trans hkept hreleased, herrors, hcache⟩

end Climbing

/-- What is known between two rounds. -/
structure IsOnward (reg : Registry) (input : Input) (history : List Event) (summit : Summit) :
    Prop where
  idle : (Skipping.of history).target = none
  ordered : Ordered (Event.skips history)
  result : summit.result.Forward (Clear (Event.skips history)) input 0
  beyond : ∀ skip ∈ Event.skips history, skip.2 < summit.result.stop.pos
  salvage : ∀ entry ∈ summit.progress.salvage,
    entry.2.All (·.Behind (Clear (Event.skips history)) input summit.result.stop.pos)
  errors : ∀ e ∈ summit.progress.errors,
    Clear (Event.skips history) e.position ∧ e.position ≤ summit.result.stop.pos
  cache : summit.progress.cache.Honest reg input

/-- Recovery begins at the end of the outcome that failed, which is a boundary of the input when the
    outcome leads forward. -/
theorem searchFrom_of_forward {r : Result} {e : ParseError} (hr : r.Forward clear input floor)
    (he : r.error = some e) :
    (searchFrom r e).SitsOn input ∧ (searchFrom r e).pos = r.stop.pos := by
  unfold searchFrom
  split
  · exact ⟨hr.stop, rfl⟩
  · next hkind =>
    rw [(hr.error e he).syntactic hkind]
    exact ⟨hr.stop.movedTo hr.stop.boundary, hr.stop.movedTo_pos hr.stop.boundary⟩

/-- All that is known once an error is recorded lies before the search for an anchor. -/
structure IsRecorded (reg : Registry) (input : Input) (skips : List (Nat × Nat)) (here : Nat)
    (p : Progress) : Prop where
  salvage : ∀ entry ∈ p.salvage, entry.2.All (·.Behind (Clear skips) input here)
  errors : ∀ e ∈ p.errors, Clear skips e.position ∧ e.position ≤ here
  cache : p.cache.Honest reg input

/-- Recording the error of a summit leaves everything known at the end of the outcome or before it,
    where the search for an anchor begins. -/
theorem IsOnward.record {summit : Summit} {e : ParseError} (h : IsOnward reg input history summit)
    (he : summit.result.error = some e) :
    IsRecorded reg input (Event.skips history) summit.result.stop.pos
      (summit.progress.record e) where
  salvage entry hentry := by
    obtain hold | hnew := Progress.mem_salvage_record hentry
    · exact h.salvage entry hold
    · exact (h.result.error e he).saved entry hnew
  errors f hf := by
    obtain hold | rfl := Progress.mem_errors_record hf
    · exact h.errors f hold
    · exact ⟨(h.result.error e he).place, (h.result.error e he).le⟩
  cache := by
    rw [Progress.record_cache]
    exact h.cache

section Rounds

variable (hg : g.IsPrimitive (Primitive.Suits input)) (hlaid : reg.LaidOut g)
include hg hlaid

/-- The next skip begins at the end of the outcome at hand. Everything that is known lies there or
    before, and so the skip leaves all of it before itself. -/
theorem extends_seek_onward {summit : Summit} {e : ParseError}
    (h : IsOnward reg input history summit) (he : summit.result.error = some e) :
    (seek ⟨reg, depth, maxErrors⟩ start summit e).Extends (history ++ [.reported e.withoutSaved])
      KeepsOrder (Found reg depth input (searchFrom summit.result e) (summit.progress.record e)
        (Event.skips history)) := by
  have hreported : Skipping.of (history ++ [.reported e.withoutSaved]) = Skipping.of history :=
    Skipping.of_concat ..
  have hskips : Event.skips (history ++ [.reported e.withoutSaved]) = Event.skips history := by
    rw [Event.skips, hreported, Event.skips]
  have hcache := (h.record he).cache
  obtain ⟨hhere, hpos⟩ := searchFrom_of_forward h.result he
  unfold seek
  split
  · exact Traced.extends_pure ⟨by rw [hreported]; exact h.idle, ⟨_, _, rfl, hcache⟩,
      fun _ => hskips, by rintro _ _ ⟨⟩⟩
  · exact extends_resynchronise (hlaid.computes hg) hhere h.ordered
      (by rw [hpos]; exact h.beyond) _ _ hcache (by rw [hreported]; exact h.idle) hskips

/-- An error that unwinds skips nothing, and no other errors are listed. So what was clear of all
    skips at the summit is clear of them at the end of the run. -/
theorem extends_giveUp_onward (depth maxErrors : Nat) (here : State) {summit : Summit}
    {e : ParseError} {p : Progress}
    (hresult : summit.result.Forward (Clear (Event.skips history)) input floor)
    (he : summit.result.error = some e)
    (hclear : ∀ pos, floor ≤ pos → Clear (Event.skips history) pos)
    (hsalvage : ∀ entry ∈ p.salvage,
      entry.2.All (·.Behind (Clear (Event.skips history)) input summit.result.stop.pos))
    (herrors : ∀ f ∈ p.errors, Clear (Event.skips history) f.position)
    (hidle : (Skipping.of history).target = none) (hordered : Ordered (Event.skips history)) :
    (giveUp ⟨reg, depth, maxErrors⟩ here
      ⟨summit.id, { summit.result with error := some e.withoutSaved }, p⟩).Extends history
        KeepsOrder fun later next =>
          ∀ f ∈ next.progress.errors, Clear (Event.skips later) f.position := by
  have hquiet : ∀ event ∈ (giveUp ⟨reg, depth, maxErrors⟩ here
      ⟨summit.id, { summit.result with error := some e.withoutSaved }, p⟩).events,
      event.attempt? = none := by
    intro event hevent
    obtain rfl | hevent := List.mem_cons.1 hevent
    · rfl
    · exact attempt?_of_mem_climbThrough hevent
  refine (Traced.extends_of_quiet hquiet hidle hordered).imp fun later next hnext hlater => ?_
  obtain ⟨_, -, hclimb⟩ := Traced.result_bind_eq_ok_iff.1 hnext
  have hstripped : ({ summit.result with error := some e.withoutSaved } : Result).Forward
      (Clear (Event.skips history)) input floor := by
    refine ⟨hresult.start, hresult.stop, hresult.floor, fun e' he' => ?_⟩
    cases he'
    have hbehind := hresult.error e he
    exact ⟨hbehind.place, hbehind.le, hbehind.syntactic, fun _ hentry => nomatch hentry⟩
  have hsame : next.progress.errors = p.errors :=
    (leads_of_climbThrough hg hlaid hclear hstripped hsalvage hclimb).errors
  rw [hsame, hlater.2]
  exact herrors

/-- After a skip everything goes on behind it, and what is known of before lies before it. So the
    summit at which the climb stops lies behind the skip, and is clear of all skips. -/
theorem extends_climb_onward {skips : List (Nat × Nat)} {here : Nat} {target : State}
    {anchor : Nat} {leaf : Result} {p : Progress} (hp : IsRecorded reg input skips here p)
    (hbehind : ∀ skip ∈ skips, skip.2 < here) (hordered : Ordered skips)
    (htarget : target.SitsOn input) (hle : here ≤ target.pos)
    (hleaf : (reg.parse depth anchor target).result = .ok leaf)
    (hbeyond : target.pos < leaf.stop.pos) (hidle : (Skipping.of history).target = none)
    (hskips : Event.skips history = skips ++ [(here, target.pos)]) :
    (climb ⟨reg, depth, maxErrors⟩ false ⟨anchor, leaf, p⟩).Extends history KeepsOrder
      fun later next => IsOnward reg input later (settle ⟨reg, depth, maxErrors⟩ next) := by
  have hafter : Ordered (Event.skips history) := by
    rw [hskips]
    exact hordered.concat hle hbehind
  have hclear : ∀ pos, target.pos ≤ pos → Clear (Event.skips history) pos := by
    intro pos hpos
    rw [hskips]
    refine Clear.concat (fun skip hskip => .inr ?_) (.inr hpos)
    have hlt := hbehind skip hskip
    omega
  have hbefore : ∀ {pos : Nat}, Clear skips pos → pos ≤ here → Clear (Event.skips history) pos := by
    intro pos hpos hlt
    rw [hskips]
    exact hpos.concat (.inl hlt)
  have hsalvage : ∀ entry ∈ p.salvage,
      entry.2.All (·.Behind (Clear (Event.skips history)) input leaf.stop.pos) :=
    fun entry hentry => (hp.salvage entry hentry).imp fun hs => ⟨hs.sits, hbefore hs.place hs.le, by
      have hlimit := hs.le
      omega⟩
  have hforward := Registry.forward_parse hg hlaid hclear depth anchor htarget (Nat.le_refl _) hleaf
  refine (Traced.extends_of_quiet (fun _ he => attempt?_of_mem_climbThrough he) hidle hafter).imp
    fun later next hnext hlater => ?_
  have hleads := leads_of_climbThrough hg hlaid hclear hforward hsalvage hnext
  have hstop : leaf.stop.pos ≤ next.result.stop.pos := hleads.le
  have hkept : ∀ entry ∈ (settle ⟨reg, depth, maxErrors⟩ next).progress.salvage,
      entry ∈ p.salvage := fun entry hentry => hleads.salvage (List.mem_filter.1 hentry).1
  refine ⟨hlater.1, ?_, ?_, ?_, ?_, ?_, ?_⟩
  · rw [hlater.2]
    exact hafter
  · rw [hlater.2]
    exact hleads.result.mono (Nat.zero_le _)
  · intro skip hskip
    rw [hlater.2, hskips] at hskip
    change skip.2 < next.result.stop.pos
    obtain hold | hnew := List.mem_append.1 hskip
    · have hlt := hbehind skip hold
      omega
    · rw [List.mem_singleton.1 hnew]
      exact Nat.lt_of_lt_of_le hbeyond hstop
  · rw [hlater.2]
    exact fun entry hentry => (hsalvage entry (hkept entry hentry)).imp fun hs => hs.mono hstop
  · intro e he
    have hrecorded : e ∈ p.errors := hleads.errors ▸ he
    obtain ⟨hplace, hlimit⟩ := hp.errors e hrecorded
    rw [hlater.2]
    refine ⟨hbefore hplace hlimit, ?_⟩
    change e.position ≤ next.result.stop.pos
    omega
  · have hcache : next.progress.cache = p.cache := hleads.cache
    change next.progress.cache.Honest reg input
    rw [hcache]
    exact hp.cache

/-- A round keeps the skips in order, and between two rounds everything that is known lies at the
    end of the outcome at hand or before it, and clear of all skips. -/
theorem watches_onward (depth maxErrors : Nat) (start : State) :
    Watches ⟨reg, depth, maxErrors⟩ start KeepsOrder (IsOnward reg input) fun history summit =>
      ∀ e ∈ summit.progress.errors, Clear (Event.skips history) e.position where
  done hsummit _ e he := (hsummit.errors e he).1
  report {history summit e} hsummit _ := by
    rw [KeepsOrder, Event.skips, Skipping.of_concat]
    exact hsummit.ordered
  round {history summit e} hsummit he := by
    obtain ⟨-, hpos⟩ := searchFrom_of_forward hsummit.result he
    have hrecorded := hsummit.record he
    refine (extends_seek_onward hg hlaid hsummit he).imp fun later found _ hfound => ?_
    obtain ⟨cache, tried, hknown, hcache⟩ := hfound.known
    obtain ⟨found, p⟩ := found
    dsimp only at hknown
    subst hknown
    cases found with
    | none =>
      have hskips := hfound.nothing rfl
      have hend : summit.result.Forward (Clear (Event.skips history)) input
          summit.result.stop.pos :=
        ⟨hsummit.result.start, hsummit.result.stop, Nat.le_refl _, hsummit.result.error⟩
      have hclear : ∀ pos, summit.result.stop.pos ≤ pos → Clear (Event.skips history) pos :=
        fun pos hpos skip hskip =>
          .inr (Nat.le_trans (Nat.le_of_lt (hsummit.beyond skip hskip)) hpos)
      rw [← hskips] at hend hclear hrecorded
      exact extends_giveUp_onward hg hlaid depth maxErrors _ hend he hclear hrecorded.salvage
        (fun f hf => (hrecorded.errors f hf).1) hfound.idle (hskips ▸ hsummit.ordered)
    | some found =>
      obtain ⟨anchor, leaf⟩ := found
      obtain ⟨target, htarget, hle, hleaf, -, hbeyond, hskips⟩ := hfound.anchor anchor leaf rfl
      rw [hpos] at hle hskips
      exact extends_climb_onward hg hlaid ⟨hrecorded.salvage, hrecorded.errors, hcache⟩
        hsummit.beyond hsummit.ordered htarget hle hleaf hbeyond hfound.idle hskips

end Rounds

/-- Recovery only moves forward, and what it skips is never reported: each skip leads forward and
    lies behind the last one, and no error that is returned stands inside a skip. -/
theorem skips_forward (hg : g.IsPrimitive (Primitive.Suits input))
    (hreg : Registry.ofGraph g = .ok reg) (depth maxErrors : Nat) {cache : WasteCache}
    (hcache : cache.entries = []) :
    Ordered (Event.skips (execute ⟨reg, depth, maxErrors⟩ cache (State.start input)).events) ∧
      ∀ output errors,
        (execute ⟨reg, depth, maxErrors⟩ cache (State.start input)).result = .ok (output, errors) →
        ∀ e ∈ errors, ∀ skip ∈ Event.skips
          (execute ⟨reg, depth, maxErrors⟩ cache (State.start input)).events,
          ¬ (skip.1 < e.position ∧ e.position < skip.2) := by
  have hlaid := Registry.laidOut_ofGraph hreg
  have hnone : Ordered (Event.skips []) :=
    show Ordered [] from ⟨fun _ hskip => (nomatch hskip), List.Pairwise.nil⟩
  have hdescent : (run ⟨reg, depth, maxErrors⟩ 0 (State.start input)).Extends [] KeepsOrder
      fun later result => IsOnward reg input later ⟨0, result, .initial cache⟩ := by
    refine (Traced.extends_of_quiet (Registry.ensures_parse_quiet reg depth 0 _).event rfl
      hnone).imp fun later result hresult hlater => ?_
    have hskips : Event.skips later = [] := hlater.2
    have hclear : ∀ pos, 0 ≤ pos → Clear [] pos := fun _ _ _ hskip => nomatch hskip
    have hforward := Registry.forward_parse hg hlaid hclear depth 0 (State.start_sitsOn input)
      (Nat.zero_le _) hresult
    refine ⟨hlater.1, by rw [hskips]; exact hnone, ?_, ?_, fun _ hentry => (nomatch hentry),
      fun _ he => (nomatch he), fun entry hentry => ?_⟩
    · rw [hskips]
      exact hforward.mono (Nat.zero_le _)
    · rw [hskips]
      exact fun _ hskip => nomatch hskip
    · have hempty : entry ∈ cache.entries := hentry
      rw [hcache] at hempty
      cases hempty
  have hwatches := watches_onward hg hlaid depth maxErrors (State.start input)
  have hrun := hwatches.extends_execute hdescent
  refine ⟨?_, fun output errors hresult e he skip hskip hinside => ?_⟩
  · obtain hnil | ⟨before, last, hlast⟩ := List.eq_nil_or_concat
      (execute ⟨reg, depth, maxErrors⟩ cache (State.start input)).events
    · rw [hnil]
      exact hnone
    · rw [hlast, List.concat_eq_append]
      exact hrun.event (hlast.trans List.concat_eq_append)
  · obtain ⟨summit, hends, hout⟩ := hrun.value _ hresult
    cases hout
    have hclear := hends e ((List.mergeSort_perm _ _).mem_iff.1 he) skip hskip
    omega

end

open Bracketed in
theorem Bracketed.isPrimitive :
    graph.IsPrimitive (Primitive.Suits (Input.text "[1][x][2][yA")) where
  leaf {place leaf} hnode := by
    match place, hnode with
    | 0, hnode => cases hnode; exact ⟨.char '[', trivial, true, rfl⟩
    | 1, hnode => cases hnode; exact ⟨.someDigits, trivial, false, rfl⟩
    | 2, hnode => cases hnode; exact ⟨.char ']', trivial, true, rfl⟩
    | 3, hnode => cases hnode
    | 4, hnode => cases hnode
    | 5, hnode => cases hnode; exact ⟨.char 'A', trivial, true, rfl⟩
    | 6, hnode => cases hnode
  branch {place label rule children} hnode := by
    match place, hnode with
    | 0, hnode => cases hnode
    | 1, hnode => cases hnode
    | 2, hnode => cases hnode
    | 3, hnode => cases hnode; exact trivial
    | 4, hnode => cases hnode; exact trivial
    | 5, hnode => cases hnode
    | 6, hnode => cases hnode; exact trivial

open Bracketed in
/-- One scalar is skipped up to the second bracket, and one up to the letter. The errors are
    reported where the skips begin. -/
theorem skips_forward_bracketed :
    Event.skips (session.execute .empty start).events = [(4, 5), (10, 11)] ∧
      Ordered [(4, 5), (10, 11)] ∧
        ∀ output errors, (session.execute .empty start).result = .ok (output, errors) →
          ∀ e ∈ errors, ∀ skip ∈ [(4, 5), (10, 11)],
            ¬ (skip.1 < e.position ∧ e.position < skip.2) := by
  have hskips : Event.skips (session.execute .empty start).events = [(4, 5), (10, 11)] := by rfl
  have hrun := skips_forward isPrimitive (by rfl) 5 10 (show WasteCache.empty.entries = [] from rfl)
  exact ⟨hskips, hskips ▸ hrun⟩

end Resync.Session
