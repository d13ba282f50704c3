import Resync.Proofs.Leaf.Cursors
import Resync.Proofs.Recovery.Climb
import Resync.Proofs.Recovery.Reach

namespace Resync

namespace Registry

variable {reg : Registry} {g : Graph}

/-- What branches save, in errors and in what a run knows, is kept up. -/
def tidy (reg : Registry) : Upkeep where
  outcome id r := reg.IsTidy id r
  saved := reg.Keepsakes
  error _ := True
  cursor _ := True
  summit _ := True
  event _ := True
  fault _ := True

/-- In a run without recursion, an outcome is always tidy: a branch has saved something in an error
    only if it was passed by it, and once at most. -/
theorem tidy_keptBy (hg : g.IsBuiltIn) (h : reg.LaidOut g) (hdescends : reg.Descends)
    (depth maxErrors : Nat) : reg.tidy.KeptBy ⟨reg, depth, maxErrors⟩ where
  exhausted := trivial
  run _ _ := (ensures_parse_tidy hg h hdescends _ _ _).imp_event fun _ _ => trivial
  resume hparent hr hsaved :=
    (ensures_resume_tidy hg h hdescends _ hparent hr hsaved).imp_event fun _ _ => trivial
  root := trivial
  summit _ := trivial
  moved _ _ := trivial
  search _ _ := trivial
  reports hr he := ⟨trivial, fun entry hentry => ((hr.error _ he).saved entry hentry).2⟩
  stripped hr he := ⟨hr.start, hr.stop, fun _ hstripped => by
    cases hstripped
    exact (hr.error _ he).withoutSaved⟩
  violation _ _ _ _ := trivial
  reported _ := trivial
  estimated _ _ _ _ _ := trivial
  gaveUp _ := trivial

/-- Nothing is kept for any branch when a run begins, which is tidy. -/
theorem keeps_initial_tidy (reg : Registry) (start : State) (cache : WasteCache) :
    reg.tidy.Keeps (.initial cache) where
  cached _ _ offset _ := ⟨{ start with pos := offset }, trivial, rfl⟩
  errors _ he := nomatch he
  salvage _ hentry := nomatch hentry

variable {id anchor branch index : Nat} {below : List (Nat × Nat)}

/-- The lowest branch above an occurrence that an anchor lies in, and the way below it. -/
structure Parts (reg : Registry) (id anchor branch index : Nat) (below : List (Nat × Nat)) :
    Prop where
  way : ∃ above, reg.ancestors id = below ++ (branch, index) :: above
  within : reg.isWithin anchor branch = true
  outside : reg.isWithin anchor id = false ∧ ∀ step ∈ below, reg.isWithin anchor step.1 = false

/-- The branch where ways part is not below itself. -/
theorem Parts.not_mem_below (h : reg.Parts id anchor branch index below) :
    ∀ step ∈ below, step.1 ≠ branch := by
  intro step hstep heq
  have hfalse := h.outside.2 step hstep
  rw [heq, h.within] at hfalse
  cases hfalse

/-- The child of the branch that the way comes through is not the one that the anchor lies in. -/
theorem Parts.not_isWithin_wayEnd (h : reg.Parts id anchor branch index below) :
    reg.isWithin anchor (wayEnd id below) = false := by
  obtain hend | ⟨step, hstep, hend⟩ := wayEnd_mem id below
  · rw [hend]
    exact h.outside.1
  · rw [← hend]
    exact h.outside.2 step hstep

/-- Ways part only under branches that may have several children: a sequence, a choice of the first
    success or of the longest match. -/
theorem Parts.rule_cases (hg : g.IsBuiltIn) (hlaid : reg.LaidOut g)
    (h : reg.Parts id anchor branch index below) (hanchor : (reg.recoverer? anchor).isSome)
    {entry : Entry} {rule : Rule} (hentry : reg.entries[branch]? = some entry)
    (hwork : entry.work = .branch rule) :
    (∃ t finish, rule = .sequence t finish) ∨ ∃ t, rule = .firstSuccess t := by
  have hne : anchor ≠ branch := by
    rintro rfl
    rw [recoverer?, hentry] at hanchor
    obtain ⟨_, _, _, _, _⟩ := entry
    cases hwork
    cases hanchor
  obtain ⟨above, hway⟩ := h.way
  obtain ⟨below', index', above', hway'⟩ := exists_ancestors_eq_append h.within hne
  have hchild {id index : Nat} {below above : List (Nat × Nat)}
      (hway : reg.ancestors id = below ++ (branch, index) :: above) :
      entry.children[index]? = some (wayEnd id below) := by
    obtain ⟨-, found, hfound, hchild⟩ := hlaid.hangs (parent?_wayEnd hway)
    rw [hentry] at hfound
    cases hfound
    exact hchild
  have hsingle (hcount : entry.children.length = 1) : False := by
    have hfirst := (List.getElem?_eq_some_iff.1 (hchild hway)).1
    have hsecond := (List.getElem?_eq_some_iff.1 (hchild hway')).1
    have hindex : index = index' := by omega
    have hsame := hchild hway
    rw [hindex, hchild hway'] at hsame
    have hwithin := isWithin_wayEnd hway'
    rw [Option.some.inj hsame, h.not_isWithin_wayEnd] at hwithin
    cases hwithin
  obtain ⟨hrule, htakes⟩ := hlaid.isBuiltIn hg hentry hwork
  cases rule with
  | sequence t finish => exact .inl ⟨t, finish, rfl⟩
  | firstSuccess t => exact .inr ⟨t, rfl⟩
  | bespoke t script => exact hrule.elim
  | map source t f => exact (hsingle htakes).elim
  | tryMap source t f => exact (hsingle htakes).elim
  | many item => exact (hsingle htakes).elim

end Registry

namespace Session

/-- Hands the outcome at a summit up along a way, as that of a failing child. -/
def handUp (session : Session) (summit : Summit) (e : ParseError) (way : List (Nat × Nat)) :
    Traced Summit :=
  session.climbThrough true way
    ⟨summit.id, { summit.result with error := some e.withoutSaved }, summit.progress.record e⟩

section

variable {g : Graph} {reg : Registry} {depth maxErrors : Nat} {cache : WasteCache} {start : State}
  {summit : Summit} {e : ParseError} {anchor : Nat} {leaf : Result} {p : Progress}
  {branch index : Nat} {below : List (Nat × Nat)}

/-- Nothing is saved for a choice, as it goes on with what it is handed. -/
theorem lookup_eq_none_of_choice {saved : List (Nat × Saved)}
    (hsaved : ∀ entry ∈ saved, reg.Keepsakes entry.1 entry.2) {entry : Entry} {t : Ty}
    (hentry : reg.entries[branch]? = some entry) (hwork : entry.work = .branch (.firstSuccess t)) :
    saved.lookup branch = none := by
  cases hlookup : saved.lookup branch with
  | none => rfl
  | some data =>
    obtain ⟨found, rule, hfound, hrule, hsaves⟩ :=
      hsaved (branch, data) (Progress.mem_of_lookup hlookup)
    rw [hentry] at hfound
    cases hfound
    rw [hwork] at hrule
    cases hrule
    exact hsaves.elim

/-- Handing up a failure to one more branch carries out the script that its rule has for being
    resumed with a failure, with what was kept for it. -/
theorem exists_script_of_handUp {child top : Summit}
    (h : (climbThrough ⟨reg, depth, maxErrors⟩ true [(branch, index)] child).result = .ok top) :
    ∃ entry rule outcome, reg.entries[branch]? = some entry ∧ entry.work = .branch rule ∧
      ((rule.script (reg.view branch entry) (.resume ⟨index, child.result,
        child.progress.salvage.lookup branch⟩)).exec
          (Registry.runChild (reg.parse depth) entry)).result = .ok outcome ∧
      top.result = outcome.claim branch := by
  obtain ⟨result, hresume, htop⟩ := climbThrough_cons_eq_ok h
  cases htop
  exact Registry.exists_script_of_resume hresume

/-- A sequence that was handed a failure keeps the output in the slot of the child, and the others
    as they were saved before. -/
theorem savedBy?_of_sequence {child : Result} {ce : ParseError} {outcome : Result} {t : Ty}
    {finish : Slots → Except Defect t.Val} {saved : Option Saved} {entry : Entry}
    {run : Nat → State → Traced Result} (hfailed : child.error = some ce)
    (h : (((Rule.sequence t finish).script (reg.view branch entry)
      (.resume ⟨index, child, saved⟩)).exec run).result = .ok outcome) :
    (outcome.claim branch).error.bind (·.savedBy? branch) = saved ↔
      ∃ first slots, saved = some (.sequence first slots) ∧
        slots[index]? = some (some child.output) := by
  obtain ⟨hlt, herror⟩ := Rule.exec_sequence_of_failed hfailed h
  have hkept : (outcome.claim branch).error.bind (·.savedBy? branch) =
      some (.sequence (Rule.savedSequence (reg.view branch entry).labels.length
          ⟨index, child, saved⟩).1
        ((Rule.savedSequence (reg.view branch entry).labels.length
          ⟨index, child, saved⟩).2.outputs.set index (some child.output))) := by
    rw [Result.claim, herror]
    exact ParseError.savedBy?_save _ _ _
  rw [hkept]
  constructor
  · intro hsame
    exact ⟨_, _, hsame.symm, List.getElem?_set_self hlt⟩
  · rintro ⟨first, slots, rfl, hslot⟩
    have hsame : slots.set index (some child.output) = slots := by
      obtain ⟨hindex, hvalue⟩ := List.getElem?_eq_some_iff.1 hslot
      rw [← hvalue]
      exact List.set_getElem_self hindex
    exact congrArg (fun slots => some (Saved.sequence first slots)) hsame

/-- A branch above a summit is resumed with what it had saved before the error at the summit. That
    error has not passed the branch, so it has nothing from it. -/
theorem saved_eq_of_resumed (hlaid : reg.LaidOut g)
    (hkept : reg.tidy.KeptBy ⟨reg, depth, maxErrors⟩)
    (hreach : Reaches ⟨reg, depth, maxErrors⟩ start cache summit)
    (hround : Round ⟨reg, depth, maxErrors⟩ start summit e anchor leaf p) (hlt : branch < summit.id)
    {label : String} {r : Resumption} (hresumed : .resumed branch label r ∈
      (climb ⟨reg, depth, maxErrors⟩ false ⟨anchor, leaf, p⟩).events) :
    r.saved = (summit.progress.record e).salvage.lookup branch ∧
      r.saved = summit.progress.salvage.lookup branch := by
  obtain ⟨houtcome, hkeeps⟩ :=
    hkept.reaches (Registry.keeps_initial_tidy reg start cache) trivial hreach
  obtain ⟨hreport, hsaved⟩ := hkept.reports houtcome hround.error
  have hresynced := Upkeep.resynced_of_result_eq_ok hkept (hkeeps.record hreport hsaved) trivial
    hround.resynchronise_eq_ok.2
  have hnewer : r.saved = (summit.progress.record e).salvage.lookup branch := by
    rw [← hresynced.salvage]
    exact (saved_of_mem_climbThrough hlaid (Registry.isWay_ancestors anchor) hresumed).2
  refine ⟨hnewer, hnewer.trans (Progress.lookup_record fun entry hentry => ?_)⟩
  have hbelow := ((houtcome.error e hround.error).saved entry hentry).1
  exact Nat.ne_of_lt (Nat.lt_of_lt_of_le hlt hbelow)

/-- A branch that was handed a failure has saved what it had, if it is a choice, or a sequence that
    had the same output in the slot of the child. -/
theorem savedBy?_eq_iff (hg : g.IsBuiltIn) (hlaid : reg.LaidOut g) {child top : Summit}
    {ce : ParseError} (hce : child.result.error = some ce)
    (hcarried : ∀ entry ∈ ce.saved, reg.Keepsakes entry.1 entry.2)
    (hkept : ∀ entry ∈ child.progress.salvage, reg.Keepsakes entry.1 entry.2)
    (hparts : reg.Parts summit.id anchor branch index below)
    (hanchor : (reg.recoverer? anchor).isSome)
    (htop : (climbThrough ⟨reg, depth, maxErrors⟩ true [(branch, index)] child).result = .ok top) :
    child.progress.salvage.lookup branch = top.result.error.bind (·.savedBy? branch) ↔
      ∀ entry t finish, reg.entries[branch]? = some entry →
        entry.work = .branch (.sequence t finish) →
        ∃ first slots, child.progress.salvage.lookup branch = some (.sequence first slots) ∧
          slots[index]? = some (some child.result.output) := by
  obtain ⟨entry, rule, outcome, hentry, hwork, hscript, htop⟩ := exists_script_of_handUp htop
  rw [htop, eq_comm]
  obtain ⟨t, finish, rfl⟩ | ⟨t, rfl⟩ := hparts.rule_cases hg hlaid hanchor hentry hwork
  · rw [savedBy?_of_sequence hce hscript]
    constructor
    · exact fun hslot _ _ _ _ _ => hslot
    · exact fun hslot => hslot entry t finish hentry hwork
  · have hchoice : (Rule.firstSuccess t).IsBuiltIn := trivial
    have herror := Rule.exec_of_failed hchoice (fun _ hsaves => hsaves.elim) hce hscript
    have hnone : (outcome.claim branch).error.bind (·.savedBy? branch) = none := by
      rw [Result.claim, herror]
      exact lookup_eq_none_of_choice hcarried hentry hwork
    have hsalvage := lookup_eq_none_of_choice hkept hentry hwork
    apply iff_of_true (hnone.trans hsalvage.symm)
    intro other t' finish hother hsequence
    rw [hentry] at hother
    cases hother
    rw [hwork] at hsequence
    cases hsequence

/-- After an error that came up below a branch, an anchor elsewhere in the branch resumes it with
    what it saved in an older error. That is the state which it would have if the outcome at the
    newer error had been handed up to it, if and only if it is a choice, or a sequence that has
    saved the same output for the child already. -/
theorem resumed_with_newest_iff (hg : g.IsBuiltIn) (hreg : Registry.ofGraph g = .ok reg)
    (hdescends : reg.Descends)
    (hreach : Reaches ⟨reg, depth, maxErrors⟩ start cache summit)
    (hround : Round ⟨reg, depth, maxErrors⟩ start summit e anchor leaf p)
    (hparts : reg.Parts summit.id anchor branch index below) {label : String} {r : Resumption}
    (hresumed : .resumed branch label r ∈
      (climb ⟨reg, depth, maxErrors⟩ false ⟨anchor, leaf, p⟩).events) {top : Summit}
    (htop : (handUp ⟨reg, depth, maxErrors⟩ summit e (below ++ [(branch, index)])).result =
      .ok top) :
    r.saved = summit.progress.salvage.lookup branch ∧
      ∃ child, (handUp ⟨reg, depth, maxErrors⟩ summit e below).result = .ok child ∧
        (r.saved = top.result.error.bind (·.savedBy? branch) ↔
          ∀ entry t finish, reg.entries[branch]? = some entry →
            entry.work = .branch (.sequence t finish) →
            ∃ first slots, r.saved = some (.sequence first slots) ∧
              slots[index]? = some (some child.result.output)) := by
  have hlaid := Registry.laidOut_ofGraph hreg
  have hkept := Registry.tidy_keptBy hg hlaid hdescends depth maxErrors
  obtain ⟨above, hway⟩ := hparts.way
  have hbelow : reg.IsWay summit.id (reg.ancestors summit.id) := Registry.isWay_ancestors summit.id
  have hlt : branch < summit.id := by
    refine hlaid.lt_of_mem_way hbelow (branch, index) ?_
    rw [hway]
    exact List.mem_append_right _ List.mem_cons_self
  rw [hway, Registry.isWay_append] at hbelow
  obtain ⟨hnewer, holder⟩ := saved_eq_of_resumed hlaid hkept hreach hround hlt hresumed
  refine ⟨holder, ?_⟩
  rw [handUp, climbThrough_append] at htop
  obtain ⟨child, hchild, htop⟩ := Traced.result_bind_eq_ok_iff.1 htop
  refine ⟨child, hchild, ?_⟩
  obtain ⟨houtcome, hkeeps⟩ :=
    hkept.reaches (Registry.keeps_initial_tidy reg start cache) trivial hreach
  obtain ⟨hreport, hsaved⟩ := hkept.reports houtcome hround.error
  have hrecorded := hkeeps.record hreport hsaved
  have hresynced := Upkeep.resynced_of_result_eq_ok hkept hrecorded trivial
    hround.resynchronise_eq_ok.2
  obtain ⟨hanchor, -, -⟩ := hresynced.anchor _ _ rfl
  -- the failure is handed up to the branch under the same upkeep, so what it carries is known
  have hhanded : (handUp ⟨reg, depth, maxErrors⟩ summit e below).Ensures reg.tidy.event
      reg.tidy.fault (reg.tidy.Climbed true below ⟨summit.id, _, summit.progress.record e⟩) :=
    Upkeep.ensures_climbThrough hkept true below hbelow.1
      (hkept.stripped houtcome hround.error) hrecorded
  have hclimbed := hhanded.value child hchild
  have hfails : child.result.error.isSome := isSome_error_climbThrough hg hlaid rfl hchild
  obtain ⟨ce, hce⟩ := Option.isSome_iff_exists.1 hfails
  have hlookup : child.progress.salvage.lookup branch = r.saved := by
    rw [hnewer]
    exact lookup_climbThrough hchild hparts.not_mem_below
  rw [← hlookup]
  exact savedBy?_eq_iff hg hlaid hce
    (fun entry hentry => ((hclimbed.outcome.error ce hce).saved entry hentry).2)
    hclimbed.keeps.salvage hparts hanchor htop

end

namespace Bracketed

def graph : Graph where
  nodes :=
    [.leaf { (Primitive.char '[').leaf with safeSpot := true }, .leaf Primitive.someDigits.leaf,
      .leaf { (Primitive.char ']').leaf with safeSpot := true },
      .branch "delimited" (.combine [(1, .text)] .text Prod.fst) [0, 1, 2],
      .branch "many0" (.many .text) [3],
      .leaf { (Primitive.char 'A').leaf with safeSpot := true },
      .branch "pair" (.combine [(0, .list .text)] (.list .text) Prod.fst) [4, 5]]
  root := 6

theorem isBuiltIn : graph.IsBuiltIn := by
  apply Graph.isBuiltIn_of_nodes
  simp only [graph, List.forall_mem_cons]
  exact ⟨fun _ _ => (Primitive.char '[').isPlain.saved, fun _ _ => Primitive.someDigits.isPlain.saved,
    fun _ _ => (Primitive.char ']').isPlain.saved, ⟨trivial, trivial⟩, ⟨trivial, rfl⟩,
    fun _ _ => (Primitive.char 'A').isPlain.saved, ⟨trivial, trivial⟩, fun _ hnode => nomatch hnode⟩

def registry : Registry :=
  match Registry.ofGraph graph with
  | .ok reg => reg
  | .error _ => ⟨[]⟩

theorem descends : registry.Descends := by
  decide

def session : Session := ⟨registry, 5, 10⟩

def start : State := State.start (Input.text "[1][x][2][yA")

def descent : Summit := ⟨0, (session.run 0 start).value rfl, .initial .empty⟩

def firstError : ParseError := descent.result.error.get rfl

def firstFound : Option (Nat × Result) × Progress :=
  (session.seek start descent firstError).value rfl

def bracket : Nat × Result := firstFound.1.get rfl

/-- The climb from the bracket after the first error stops at the repetition, with the second. -/
def second : Summit :=
  session.settle ((session.climb false ⟨bracket.1, bracket.2, firstFound.2⟩).value rfl)

def secondError : ParseError := second.result.error.get rfl

def secondFound : Option (Nat × Result) × Progress :=
  (session.seek start second secondError).value rfl

def letter : Nat × Result := secondFound.1.get rfl

/-- What the pair is resumed with in the climb from the letter. -/
def resumption : Resumption := ⟨1, letter.2, secondFound.2.salvage.lookup 0⟩

/-- The pair if it had been handed the repetition. -/
def top : Summit := (session.handUp second secondError [(0, 0)]).value rfl

/-- The run comes to the second error, behind the third bracket. -/
theorem reaches_second : session.Reaches start .empty second := by
  have hround : session.Round start descent firstError bracket.1 bracket.2 firstFound.2 :=
    ⟨(Option.some_get _).symm, by rfl⟩
  exact .climb (.descent (Traced.result_eq_value _)) hround (Traced.result_eq_value _)

/-- The ways from the second error and from the letter part at the pair. -/
theorem parts : registry.Parts second.id letter.1 0 0 [] :=
  ⟨⟨[], by rfl⟩, by rfl, by rfl, fun _ hstep => nomatch hstep⟩

theorem mem_events : .resumed 0 "pair" resumption ∈
    (session.climb false ⟨letter.1, letter.2, secondFound.2⟩).events := by
  apply List.mem_of_getElem? (i := 0)
  rfl

end Bracketed

open Bracketed in
/-- The repetition has three items when the second error comes up, but the pair goes on with the one
    that it had at the first error, and that is what the run gives. -/
theorem resumed_with_newest_iff_bracketed :
    resumption.saved = some (.sequence start [some ⟨.list .text, ["1"]⟩, none]) ∧
      second.result.output = ⟨.list .text, ["1", "", "2"]⟩ ∧
      resumption.saved ≠ top.result.error.bind (·.savedBy? 0) ∧
      (session.execute .empty start).result.toOption.map Prod.fst =
        some ⟨.list .text, ["1"]⟩ := by
  have hsaved : resumption.saved =
      some (.sequence start [some ⟨.list .text, ["1"]⟩, none]) := by rfl
  have houtput : second.result.output = ⟨.list .text, ["1", "", "2"]⟩ := by rfl
  refine ⟨hsaved, houtput, fun hsame => ?_, by rfl⟩
  obtain ⟨-, child, hchild, hiff⟩ := resumed_with_newest_iff isBuiltIn (by rfl) descends
    reaches_second ⟨(Option.some_get _).symm, by rfl⟩ parts mem_events
    (Traced.result_eq_value (x := session.handUp second secondError [(0, 0)]) rfl)
  obtain ⟨first, slots, hsequence, hslot⟩ := hiff.1 hsame _ _ _ (by rfl) (by rfl)
  cases hchild
  rw [hsaved] at hsequence
  cases hsequence
  have htexts := congrArg (fun slot => slot.bind fun o => o.bind (·.as? (.list .text))) hslot
  change some ["1"] = second.result.output.as? (.list .text) at htexts
  rw [houtput] at htexts
  revert htexts
  decide

end Session

end Resync
