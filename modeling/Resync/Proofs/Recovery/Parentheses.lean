import Resync.Parser.Combinators
import Resync.Proofs.Engine.Scripts
import Resync.Proofs.Recovery.Climb
import Resync.Proofs.Recovery.Completion

namespace Resync

namespace Parentheses

open Primitive (landmark)

/-- A parenthesis around a smaller one, or the letter in the middle. -/
def nested : Parser .char :=
  .recursive "inner"
    (.first
      [.delimited (Parser.char '(').safe (.named .char "inner") (Parser.char ')').safe, .char 'x'])

/-- Parentheses, and nothing behind them. -/
def parser : Parser .char :=
  nested.terminated .endOfInput

/-- Takes the letter out of the slot at an index. -/
def finish (index : Nat) (slots : Slots) : Except Defect (Ty.Val .char) :=
  (slots.takeAll [(index, .char)]).map Prod.fst

/-- The parentheses with the end of the input. -/
def root : Entry :=
  ⟨9, "terminated", .branch (.sequence .char (finish 0)), none, [1, 6]⟩

/-- The choice that every level begins with. -/
def level : Entry :=
  ⟨7, "first_success", .branch (.firstSuccess .char), some (0, 0), [2, 5]⟩

/-- The parenthesis of a level, around the choice again. -/
def group : Entry :=
  ⟨5, "delimited", .branch (.sequence .char (finish 1)), some (1, 0), [3, 1, 4]⟩

/-- The parentheses as they are prepared. However deep they are, every part has one occurrence. -/
def registry : Registry where
  entries :=
    [root, level, group, ⟨2, "(", .leaf (landmark '('), some (2, 0), []⟩,
      ⟨4, ")", .leaf (landmark ')'), some (2, 2), []⟩,
      ⟨6, "x", .leaf (Primitive.char 'x').leaf, some (1, 1), []⟩,
      ⟨8, "end of input", .leaf Primitive.endOfInput.leaf, some (0, 1), []⟩]

/-- Two places of the description stand for one branch: the level below a parenthesis is the level
    itself, so all levels have one identifier. -/
theorem prepare_parentheses : parser.prepare = .ok ⟨registry, 0⟩ := rfl

section Leaves

variable (depth : Nat) {s : State}

/-- The first child of a parenthesis is the safe spot that opens it. -/
theorem runs_opening :
    (Registry.runChild (registry.parse (depth + 1)) group 0 s).result =
      .ok ((landmark '(').parse 3 s) := by
  have hentry : registry.entries[3]? = some ⟨2, "(", .leaf (landmark '('), some (2, 0), []⟩ := rfl
  exact Registry.result_parse_of_leaf hentry rfl

/-- The second child of a level is the letter, which is no safe spot. -/
theorem runs_letter :
    (Registry.runChild (registry.parse (depth + 1)) level 1 s).result =
      .ok ((Primitive.char 'x').leaf.parse 5 s) := by
  have hentry : registry.entries[5]? =
      some ⟨6, "x", .leaf (Primitive.char 'x').leaf, some (1, 1), []⟩ := rfl
  exact Registry.result_parse_of_leaf hentry rfl

/-- The second child of the whole is the end of the input. -/
theorem runs_end :
    (Registry.runChild (registry.parse (depth + 1)) root 1 s).result =
      .ok (Primitive.endOfInput.leaf.parse 6 s) := by
  have hentry : registry.entries[6]? =
      some ⟨8, "end of input", .leaf Primitive.endOfInput.leaf, some (0, 1), []⟩ := rfl
  exact Registry.result_parse_of_leaf hentry rfl

end Leaves

/-- So many opening parentheses, something in the middle, and as many closing ones. -/
def text (n : Nat) (c : Char) : String :=
  String.ofList (List.replicate n '(' ++ c :: List.replicate n ')')

/-- What is neither a parenthesis nor the letter that belongs in the middle. -/
def IsForeign (c : Char) : Prop :=
  c ≠ '(' ∧ c ≠ ')' ∧ c ≠ 'x'

instance : DecidablePred IsForeign := fun c =>
  inferInstanceAs (Decidable (c ≠ '(' ∧ c ≠ ')' ∧ c ≠ 'x'))

/-- The report of a level that could not begin. -/
def misfit (pos : Nat) : Mismatch :=
  ⟨.syntactic, "expected \"delimited or x\"", pos⟩

/-- The report of something behind the parentheses. -/
def rest (pos : Nat) : Mismatch :=
  ⟨.syntactic, "expected \"end of input\"", pos⟩

/-- The scalars that the leaves can start with. The end of the input starts with none. -/
def sought : Nat → Char → Bool
  | 3 => (· == '(')
  | 4 => (· == ')')
  | 5 => (· == 'x')
  | _ => fun _ => false

/-- Each leaf is found by a search for the scalar that it starts with, or it is the end of the
    input. -/
theorem leaf_cases {id : Nat} {entry : Entry} {leaf : Leaf}
    (hentry : registry.entries[id]? = some entry) (hwork : entry.work = .leaf leaf) :
    (leaf.effectiveRecoverer = some (.find (sought id)) ∧
        Primitive.MatchesScalar leaf (sought id)) ∨
      leaf = Primitive.endOfInput.leaf ∧ sought id = fun _ => false := by
  match id, hentry with
  | 0, hentry => cases hentry; cases hwork
  | 1, hentry => cases hentry; cases hwork
  | 2, hentry => cases hentry; cases hwork
  | 3, hentry => cases hentry; cases hwork; exact .inl ⟨rfl, Primitive.matchesScalar_landmark '('⟩
  | 4, hentry => cases hentry; cases hwork; exact .inl ⟨rfl, Primitive.matchesScalar_landmark ')'⟩
  | 5, hentry =>
    cases hentry
    cases hwork
    exact .inl ⟨rfl, fun s => Primitive.matchesScalar_iff s⟩
  | 6, hentry => cases hentry; cases hwork; exact .inr ⟨rfl, rfl⟩

/-- Every leaf is found by a search for the scalar that it starts with, as long as the input is
    text. -/
theorem finds {input : Input} (htext : input.binary = false) : registry.Finds input sought where
  searchable := by
    refine ⟨fun hentry hwork => ?_, fun hentry hwork hfast => ?_⟩
    · obtain ⟨-, hstarts⟩ | ⟨rfl, -⟩ := leaf_cases hentry hwork
      · exact hstarts.positional
      · exact Primitive.endOfInput.positional input
    · obtain ⟨hfind, hstarts⟩ | ⟨rfl, -⟩ := leaf_cases hentry hwork
      · cases hfind.symm.trans hfast
        exact .inr fun s hs => hstarts.exactAt_find htext hs
      · cases hfast
        exact .inl fun _ _ => rfl
  recoverer hid := by
    obtain ⟨entry, leaf, hentry, hwork, hrecoverer⟩ := Registry.exists_leaf_of_recoverer? hid
    obtain ⟨hfind, -⟩ | ⟨rfl, hnone⟩ := leaf_cases hentry hwork
    · exact .inl (Option.some.inj (hrecoverer.symm.trans hfind))
    · exact .inr ⟨Option.some.inj hrecoverer.symm, fun c => by rw [hnone]⟩
  starts {id _ _} hentry hwork s c hhead hsought := by
    obtain ⟨-, hstarts⟩ | ⟨-, hnone⟩ := leaf_cases hentry hwork
    · exact (hstarts s).2 ⟨c, hhead, hsought⟩
    · rw [hnone] at hsought
      cases hsought

/-- Behind something foreign the closing parenthesis is the nearest anchor: the foreign scalar is
    not sought by any leaf, so no other anchor has less waste. -/
theorem nearest_misfit {c : Char} (h : IsForeign c) : registry.Nearest sought 1 [c] ')' 4 := by
  have hbidders : registry.bidders 1 = [1, 3, 4] := rfl
  refine ⟨by rw [hbidders]; decide, ?_, ?_⟩
  · intro id hid x hx
    rw [List.mem_singleton.1 hx]
    rw [hbidders] at hid
    simp only [List.mem_cons, List.not_mem_nil, or_false] at hid
    obtain rfl | rfl | rfl := hid
    · rfl
    · exact beq_false_of_ne h.1
    · exact beq_false_of_ne h.2.1
  · rw [hbidders]
    decide

/-- A closing parenthesis that is left over is the nearest anchor itself, with no waste, for an
    error that the end of the input has reported there. -/
theorem nearest_rest : registry.Nearest sought 6 [] ')' 4 := by
  have hbidders : registry.bidders 6 = [6, 3, 4] := rfl
  refine ⟨by rw [hbidders]; decide, fun _ _ _ hx => absurd hx List.not_mem_nil, ?_⟩
  rw [hbidders]
  decide

/-- What the parenthesis of a level has saved that could not be filled. -/
def held : List (Option Output) :=
  [some ⟨.char, '('⟩, some ⟨.char, '\x00'⟩, none]

/-- What is saved of all levels that are suspended: that of the outermost one. -/
def suspended (n : Nat) (s : State) : List (Nat × Saved) :=
  if n = 0 then [] else [(2, .sequence s held)]

section Parsing

variable {input : Input} {c : Char} {back : List Char}

/-- The first occurrence is the whole, made of the level and the end of the input. -/
theorem registry_root : registry.entries[0]? = some root := rfl

/-- The second occurrence is the level, however deep, as the choice below a parenthesis refers back
    to it. -/
theorem registry_level : registry.entries[1]? = some level := rfl

/-- The third occurrence is the parenthesis, with its two landmarks and the level between them. -/
theorem registry_group : registry.entries[2]? = some group := rfl

/-- Where no level begins and no letter stands, the choice fails without having moved, and its error
    is its own, with nothing saved in it. -/
theorem exists_parse_misfit (depth : Nat) {s : State} (h : s.Faces input (c :: back))
    (hc : IsForeign c) :
    ∃ e, (registry.parse (depth + 3) 1 s).result = .ok (.failure s s ⟨.char, '\x00'⟩ e) ∧
      e.owner = some 1 ∧ e.mismatch = misfit s.pos ∧ e.saved = [] := by
  have hhead (expected : Char) (hne : c ≠ expected) : s.scalars.head? ≠ some expected := by
    rw [h.scalars_eq]
    exact fun heq => hne (Option.some.inj heq)
  have huncrossed : s.crossedSafeSpotSince s = false := decide_eq_false (Nat.not_lt.2 h.safeSpot_le)
  have hopening := Primitive.parse_landmark_of_ne 3 (hhead '(' hc.1)
  have hletter := Primitive.parse_char_of_ne false 5 (hhead 'x' hc.2.2)
  obtain ⟨e, hgroup⟩ : ∃ e, (Registry.runChild (registry.parse (depth + 2)) level 0 s).result =
      .ok (.failure s s ⟨.char, '\x00'⟩ e) :=
    ⟨_, Registry.result_parse_of_branch registry_group rfl (Rule.exec_fillSlots_of_failure
      ((runs_opening depth).trans (congrArg _ hopening)) rfl rfl rfl)⟩
  refine ⟨(s.syntaxError "delimited or x").claim 1, ?_, rfl,
    Rule.mismatch_syntaxError h.starts "delimited or x", rfl⟩
  have hrun : ((Rule.tryChildren .char ["delimited", "x"] s [0, 1]).exec
      (Registry.runChild (registry.parse (depth + 2)) level)).result =
        .ok (.failure s s ⟨.char, '\x00'⟩ (s.syntaxError "delimited or x")) := by
    have hread (e : ParseError) :
        (Result.failure s s ⟨.char, '\x00'⟩ e).read .char = .ok '\x00' := rfl
    refine (Rule.exec_tryChildren_of_uncrossed hgroup (hread e) rfl huncrossed).trans ?_
    exact Rule.exec_tryChildren_of_uncrossed ((runs_letter (depth + 1)).trans (congrArg _ hletter))
      (hread _) rfl huncrossed
  exact Registry.result_parse_of_branch registry_level rfl hrun

/-- What a level saves takes the place of what the level inside has saved, because both are saved
    for one identifier. -/
theorem save_group {e : ParseError} {n : Nat} {s : State} (h : e.saved = suspended n s)
    (data : Saved) : (e.save 2 data).saved = [(2, data)] := by
  rw [ParseError.save, ParseError.savedBy?, h]
  cases n <;> rfl

/-- What the whole saves is kept beside what a level has saved, as the whole has an identifier of
    its own. -/
theorem save_root {e : ParseError} {n : Nat} {s : State} (h : e.saved = suspended n s)
    (data : Saved) : (e.save 0 data).saved = suspended n s ++ [(0, data)] := by
  rw [ParseError.save, ParseError.savedBy?, h]
  cases n <;> rfl

/-- A level that has been opened fails with the failure of the level inside, where that one stops,
    and saves its own parenthesis. -/
theorem parse_level_of_failure (depth : Nat) {s opened stop : State} {e : ParseError}
    (hopening : (landmark '(').parse 3 s = .success s opened ⟨.char, '('⟩)
    (hinner : (registry.parse (depth + 1) 1 opened).result =
      .ok (.failure opened stop ⟨.char, '\x00'⟩ e))
    (hcrossed : s.pos < stop.safeSpot) :
    (registry.parse (depth + 3) 1 s).result = .ok (.failure s stop ⟨.char, '\x00'⟩
      (((e.save 2 (.sequence s held)).claim 2).claim 1)) := by
  have hchild : (Registry.runChild (registry.parse (depth + 1)) group 1 opened).result =
      .ok (.failure opened stop ⟨.char, '\x00'⟩ e) := hinner
  have hgroup : (Registry.runChild (registry.parse (depth + 2)) level 0 s).result =
      .ok (.failure s stop ⟨.char, '\x00'⟩ ((e.save 2 (.sequence s held)).claim 2)) := by
    refine Registry.result_parse_of_branch registry_group rfl (r := .failure s stop
      ⟨.char, '\x00'⟩ (e.save 2 (.sequence s held))) ?_
    refine (Rule.exec_fillSlots_of_success ((runs_opening depth).trans (congrArg _ hopening))
      rfl rfl).trans ?_
    exact Rule.exec_fillSlots_of_failure hchild rfl rfl rfl
  have hread : (Result.failure s stop ⟨.char, '\x00'⟩
      ((e.save 2 (.sequence s held)).claim 2)).read .char = .ok '\x00' := rfl
  exact Registry.result_parse_of_branch registry_level rfl
    (Rule.exec_tryChildren_of_crossed hgroup hread (decide_eq_true hcrossed))

/-- However deep the levels are, they fail where the innermost one does, and the outermost of them
    is what is saved. -/
theorem exists_parse_nested (hc : IsForeign c) (n : Nat) {depth : Nat} (hdepth : 2 * n + 3 ≤ depth)
    {s : State} (h : s.Faces input (List.replicate n '(' ++ c :: back)) :
    ∃ stop e, (registry.parse depth 1 s).result = .ok (.failure s stop ⟨.char, '\x00'⟩ e) ∧
      stop.Faces input (c :: back) ∧ stop.pos = s.pos + n ∧
      (stop = s ∨ s.pos < stop.safeSpot) ∧ e.owner = some 1 ∧ e.mismatch = misfit stop.pos ∧
      e.saved = suspended n s := by
  induction n generalizing depth s with
  | zero =>
    obtain ⟨depth, rfl⟩ := Nat.exists_eq_add_of_le' hdepth
    obtain ⟨e, hparse, he⟩ := exists_parse_misfit depth h hc
    exact ⟨s, e, hparse, h, rfl, .inl rfl, he⟩
  | succ n ih =>
    obtain ⟨depth, rfl⟩ : ∃ d, depth = d + 3 := Nat.exists_eq_add_of_le' (by omega)
    rw [List.replicate_succ, List.cons_append] at h
    obtain ⟨opened, hopening, hopened, hpos, hcrossed⟩ := Primitive.exists_parse_landmark 3 h
    obtain ⟨stop, e, hinner, hstop, hstoppos, hmoved, howner, hmismatch, hsaved⟩ :=
      ih (show 2 * n + 3 ≤ depth + 1 by omega) hopened
    have hbehind : s.pos < stop.safeSpot := by
      obtain rfl | hlater := hmoved
      · exact hcrossed
      · omega
    have hopen : '('.utf8Size = 1 := rfl
    have hparse := parse_level_of_failure depth hopening hinner hbehind
    refine ⟨stop, _, hparse, hstop, by omega, .inr hbehind, ?_, hmismatch, save_group hsaved _⟩
    -- the error is owned by the innermost level, whose identifier the other levels have too
    exact congrArg (fun owner => (owner.or (some 2)).or (some 1)) howner

end Parsing

/-- Whatever is kept for the parenthesis of a level is one that could not be filled. -/
def Holds (salvage : List (Nat × Saved)) : Prop :=
  ∀ entry ∈ salvage, entry.1 = 2 → ∃ s, entry.2 = .sequence s held

/-- What the nested levels save is the slots of a parenthesis without a letter in them, or nothing
    where there is no level. -/
theorem holds_suspended (n : Nat) (s : State) : Holds (suspended n s) := by
  intro entry hentry _
  cases n with
  | zero => cases hentry
  | succ n => exact ⟨s, congrArg Prod.snd (List.mem_singleton.1 hentry)⟩

section Holding

variable {salvage : List (Nat × Saved)} {p : Progress}

theorem Holds.lookup_cases (h : Holds salvage) :
    salvage.lookup 2 = none ∨ ∃ s, salvage.lookup 2 = some (.sequence s held) := by
  cases hlookup : salvage.lookup 2 with
  | none => exact .inl rfl
  | some data =>
    obtain ⟨s, hs⟩ := h _ (Progress.mem_of_lookup hlookup) rfl
    exact .inr ⟨s, congrArg some hs⟩

/-- Recording an error that has been saved by levels without letters keeps it so. -/
theorem Holds.record (h : Holds p.salvage) {e : ParseError} (he : Holds e.saved) :
    Holds (p.record e).salvage := by
  intro entry hentry
  obtain hkept | hsaved := Progress.mem_salvage_record hentry
  · exact h entry hkept
  · exact he entry hsaved

/-- Handing out what is kept for one branch keeps it so for the others. -/
theorem Holds.release (h : Holds p.salvage) (id : Nat) : Holds (p.release id).2.salvage :=
  fun entry hentry => h entry (List.mem_filter.1 hentry).1

theorem Holds.dropStale (h : Holds p.salvage) (reg : Registry) (stop : Nat) :
    Holds (p.dropStale reg stop).salvage :=
  fun entry hentry => h entry (List.mem_filter.1 hentry).1

end Holding

/-- What the whole has saved when there is no letter. -/
def unfilled (first : State) (last : Option Output) : Saved :=
  .sequence first [some ⟨.char, '\x00'⟩, last]

/-- The whole, begun at `first`, fails at `s` with the error of a leaf or a level. The error has
    saved what the whole had until then, and at most one parenthesis for all levels. -/
structure Suspends (first s : State) (last : Option Output) (owner : Nat) (label : String)
    (e : ParseError) : Prop where
  fails : (Result.failure first s ⟨.char, '\x00'⟩ e).FailsWith owner label e
  keys : (e.saved.map Prod.fst).Nodup
  root : (0, unfilled first last) ∈ e.saved
  holds : Holds e.saved

/-- A failure that the levels and the whole have saved something in is suspended at the whole,
    whatever the levels have saved. -/
theorem suspends_of_saved {n owner : Nat} {label : String} {e : ParseError} {begun first s : State}
    {last : Option Output}
    (hfails : (Result.failure first s ⟨.char, '\x00'⟩ e).FailsWith owner label e)
    (hsaved : e.saved = suspended n begun ++ [(0, unfilled first last)]) :
    Suspends first s last owner label e where
  fails := hfails
  keys := by
    rw [hsaved]
    cases n <;> simp [suspended]
  root := by
    rw [hsaved]
    exact List.mem_append_right _ (List.mem_singleton_self _)
  holds := by
    rw [hsaved]
    intro entry hentry hid
    obtain hlevel | hroot := List.mem_append.1 hentry
    · exact holds_suspended n begun entry hlevel hid
    · rw [List.mem_singleton.1 hroot] at hid
      cases hid

section Resuming

variable {input : Input} {first start stop target : State} {last : Option Output} {r : Result}
  (depth : Nat)

/-- A parenthesis that is resumed behind its closing has no letter in it, whatever was saved. -/
theorem resume_group {saved : Option Saved}
    (hsaved : saved = none ∨ ∃ s, saved = some (.sequence s held)) :
    ∃ start, (registry.resume depth 2 ⟨2, .success target stop ⟨.char, ')'⟩, saved⟩).result =
      .ok (.success start stop ⟨.char, '\x00'⟩) := by
  obtain rfl | ⟨s, rfl⟩ := hsaved
  · exact ⟨target, rfl⟩
  · exact ⟨s, rfl⟩

/-- The choice hands on the parenthesis that it is resumed with, and has nothing to go back to. -/
theorem resume_level (saved : Option Saved) :
    (registry.resume depth 1 ⟨0, .success start stop ⟨.char, '\x00'⟩, saved⟩).result =
      .ok (.success start stop ⟨.char, '\x00'⟩) := rfl

/-- Behind the outermost parenthesis the whole goes on with the end of the input. -/
def goOn (depth : Nat) (first : State) (last : Option Output) (s : State) : Traced Result :=
  (Rule.fillSlots 0 (finish 0) first [1] ⟨[some ⟨.char, '\x00'⟩, last]⟩ s).exec
    (Registry.runChild (registry.parse depth) root)

/-- The whole goes on behind the level with the end of the input, and claims what comes of it. -/
theorem resume_root (hr : (goOn depth first last stop).result = .ok r) :
    (registry.resume depth 0
      ⟨0, .success start stop ⟨.char, '\x00'⟩, some (unfilled first last)⟩).result =
        .ok (r.claim 0) :=
  Registry.result_resume_of_branch registry_root rfl hr

/-- The climb from a closing parenthesis leaves all levels at once, because they have one identifier
    and the way from an anchor to the root has it only once. It ends at the whole. -/
theorem exists_climb (session : Session) (hreg : session.registry = registry) {p : Progress}
    {back : List Char} (htarget : target.Faces input (')' :: back)) (hholds : Holds p.salvage)
    (hroot : p.salvage.lookup 0 = some (unfilled first last)) :
    ∃ stop, stop.Faces input back ∧ stop.pos = target.pos + 1 ∧
      ∀ r, (goOn session.depth first last stop).result = .ok r →
        (session.climb false ⟨4, (landmark ')').parse 4 target, p⟩).result =
          .ok ⟨0, r.claim 0, (((p.release 2).2.release 1).2.release 0).2⟩ := by
  obtain ⟨stop, hclosing, hstop, hpos, -⟩ := Primitive.exists_parse_landmark 4 htarget
  refine ⟨stop, hstop, hpos, fun r hr => ?_⟩
  have hway : session.registry.ancestors 4 = [(2, 2), (1, 0), (0, 0)] := by rw [hreg]; rfl
  obtain ⟨start, hresumed⟩ : ∃ start, (session.registry.resume session.depth 2
      ⟨2, .success target stop ⟨.char, ')'⟩, p.salvage.lookup 2⟩).result =
        .ok (.success start stop ⟨.char, '\x00'⟩) := by
    rw [hreg]
    exact resume_group session.depth hholds.lookup_cases
  have hlevel (saved : Option Saved) : (session.registry.resume session.depth 1
      ⟨0, .success start stop ⟨.char, '\x00'⟩, saved⟩).result =
        .ok (.success start stop ⟨.char, '\x00'⟩) := by
    rw [hreg]
    exact resume_level session.depth saved
  have hrest : (session.registry.resume session.depth 0
      ⟨0, .success start stop ⟨.char, '\x00'⟩,
        ((p.release 2).2.release 1).2.salvage.lookup 0⟩).result = .ok (r.claim 0) := by
    rw [hreg, Progress.lookup_release (by decide), Progress.lookup_release (by decide), hroot]
    exact resume_root session.depth hr
  rw [Session.climb, hway, hclosing, Session.climbThrough_cons_of_isOk hresumed rfl,
    Session.climbThrough_cons_of_isOk (hlevel _) rfl]
  exact Session.climbThrough_last hrest

end Resuming

section Going

variable {input : Input} {first s : State} {depth maxErrors : Nat} {last : Option Output}
  {p : Progress} (htext : input.binary = false)
include htext

/-- After a failure of the whole with a closing parenthesis as the nearest anchor, the run is
    completed from where the whole goes on behind that parenthesis. -/
theorem completes_of_closing {owner : Nat} {label : String} {e : ParseError}
    {front back : List Char} {output : Output} {reports : List Mismatch}
    (hsuspends : Suspends first s last owner label e)
    (howner : registry.recoverer? owner = none → ∀ c, sought owner c = false)
    (hnearest : registry.Nearest sought owner front ')' 4)
    (hfaces : s.Faces input (front ++ ')' :: back)) (hbehind : p.Behind registry input s.pos)
    (hholds : Holds p.salvage) (hopen : p.errors.length + 1 < maxErrors)
    (hrest : ∀ stop q, stop.Faces input back → stop.pos = s.pos + Utf8.width front + 1 →
      q.Behind registry input stop.pos → Holds q.salvage →
        q.errors.length = p.errors.length + 1 →
          ∃ r, (goOn (depth + 1) first last stop).result = .ok r ∧
            Session.Completes ⟨registry, depth + 1, maxErrors⟩ input q (r.claim 0) output
              reports) :
    Session.Completes ⟨registry, depth + 1, maxErrors⟩ input p
      (.failure first s ⟨.char, '\x00'⟩ e) output (e.mismatch :: reports) := by
  have hclosing : registry.entries[4]? = some ⟨4, ")", .leaf (landmark ')'), some (2, 2), []⟩ :=
    rfl
  refine Session.completes_of_nearest hsuspends.fails hbehind (finds htext) htext howner
    (Nat.succ_pos _) hopen hfaces hnearest hclosing rfl fun target p' hregains => ?_
  have hkept : Holds p'.salvage := hregains.salvage_eq ▸ hholds.record hsuspends.holds
  have hroot := hregains.lookup_of_mem hsuspends.keys hsuspends.root
  obtain ⟨stop, hstop, hpos, hclimb⟩ := exists_climb ⟨registry, depth + 1, maxErrors⟩ rfl
    hregains.faces hkept hroot
  have hahead : p'.Behind registry input stop.pos := hpos ▸ hregains.behind
  have hend : stop.pos = s.pos + Utf8.width front + 1 := by
    rw [hpos, hregains.pos_eq]
    rfl
  obtain ⟨r, hr, hcompletes⟩ := hrest stop _ hstop hend
    ((((hahead.release 2).release 1).release 0).dropStale 0)
    ((((hkept.release 2).release 1).release 0).dropStale registry 0) hregains.length_errors
  exact ⟨r.claim 0, _, hclimb r hr, rfl, hcompletes⟩

/-- At the end of the input the whole is complete, and its output is what the levels have come
    to. -/
theorem goOn_end (depth : Nat) (last : Option Output) (h : s.Faces input []) :
    (goOn (depth + 1) first last s).result = .ok (.success first s ⟨.char, '\x00'⟩) := by
  have hend := Primitive.parse_endOfInput 6 htext h
  have hrun := (runs_end depth).trans (congrArg _ hend)
  exact (Rule.exec_fillSlots_of_success hrun rfl rfl).trans (Rule.exec_fillSlots_nil rfl)

/-- A closing parenthesis that is left over is an error where the end of the input is expected,
    since all levels have been left already. The whole is suspended there. -/
theorem exists_goOn_rest (depth : Nat) (last : Option Output) {c : Char} {back : List Char}
    (h : s.Faces input (c :: back)) :
    ∃ r e, (goOn (depth + 1) first last s).result = .ok r ∧
      r.claim 0 = .failure first s ⟨.char, '\x00'⟩ e ∧
      Suspends first s (some ⟨.unit, ()⟩) 6 "end of input" e := by
  have hend := Primitive.parse_endOfInput_of_cons 6 htext h
  let lost := ((s.syntaxError "end of input").claim 6).save 0 (unfilled first (some ⟨.unit, ()⟩))
  have hkept : lost.saved = suspended 0 s ++ [(0, unfilled first (some ⟨.unit, ()⟩))] := rfl
  have hmismatch := Rule.mismatch_syntaxError h.starts "end of input"
  refine ⟨.failure first s ⟨.char, '\x00'⟩ lost, lost.claim 0, ?_, rfl,
    suspends_of_saved ⟨rfl, rfl, hmismatch⟩ hkept⟩
  exact Rule.exec_fillSlots_of_failure ((runs_end depth).trans (congrArg _ hend)) rfl rfl rfl

/-- The parentheses that are left over are reported one by one, each in a round of its own, and the
    budget cuts the list short. The induction is on how many are left. -/
theorem exists_goOn (m : Nat) (last : Option Output) {s : State} {p : Progress}
    (hfaces : s.Faces input (List.replicate m ')')) (hbehind : p.Behind registry input s.pos)
    (hholds : Holds p.salvage) (hbudget : p.errors.length < maxErrors) :
    ∃ r, (goOn (depth + 1) first last s).result = .ok r ∧
      Session.Completes ⟨registry, depth + 1, maxErrors⟩ input p (r.claim 0) ⟨.char, '\x00'⟩
        (((List.range' s.pos m).map rest).take (maxErrors - p.errors.length)) := by
  induction m generalizing last s p with
  | zero =>
    rw [List.range'_zero, List.map_nil, List.take_nil]
    exact ⟨_, goOn_end htext depth last hfaces, Session.completes_of_success hbehind rfl⟩
  | succ m ih =>
    obtain ⟨r, e, hrun, hclaim, hsuspends⟩ := exists_goOn_rest htext depth last hfaces
    refine ⟨r, hrun, ?_⟩
    obtain ⟨left, hleft⟩ : ∃ left, maxErrors - p.errors.length = left + 1 :=
      Nat.exists_eq_add_of_le' (Nat.sub_pos_of_lt hbudget)
    have hmismatch : e.mismatch = rest s.pos := hsuspends.fails.mismatch_eq
    rw [hclaim, hleft, List.range'_succ, List.map_cons, List.take_succ_cons, ← hmismatch]
    obtain _ | left := left
    · -- The budget is spent by this report.
      rw [List.take_zero]
      exact Session.completes_of_spent hsuspends.fails hbehind
        (Nat.sub_le_iff_le_add'.1 (Nat.le_of_eq hleft))
    · have hfirst : s.Faces input ([] ++ ')' :: List.replicate m ')') := hfaces
      refine completes_of_closing htext hsuspends (fun _ _ => rfl) nearest_rest hfirst hbehind
        hholds (by omega) fun stop q hstop hpos hbehind' hholds' herrors => ?_
      have hcount : maxErrors - q.errors.length = left + 1 := by omega
      have hnext : stop.pos = s.pos + 1 := hpos
      rw [← hnext, ← hcount]
      exact ih _ hstop hbehind' hholds' (by omega)

end Going

/-- What is reported: the level that could not begin, and one after the other the closing
    parentheses that are left over behind the first one. -/
def reports (n : Nat) (c : Char) : List Mismatch :=
  misfit n :: (List.range' (n + c.utf8Size + 1) (n - 1)).map rest

/-- There is a report for what stands in the middle, and one for every closing parenthesis but the
    first. -/
theorem length_reports (n : Nat) (c : Char) : (reports n c).length = n - 1 + 1 := by
  rw [reports, List.length_cons, List.length_map, List.length_range']

section Running

variable {input : Input} {maxErrors : Nat} {c : Char} (depth : Nat)

/-- The whole fails where its innermost level does, with what the outermost level and the whole
    itself have saved. -/
theorem exists_parse_root (hc : IsForeign c) (n : Nat) {s : State} {back : List Char}
    (hdepth : 2 * n + 3 ≤ depth) (hfaces : s.Faces input (List.replicate n '(' ++ c :: back)) :
    ∃ stop e, (registry.parse (depth + 1) 0 s).result =
        .ok (.failure s stop ⟨.char, '\x00'⟩ e) ∧
      stop.Faces input (c :: back) ∧ stop.pos = s.pos + n ∧
      Suspends s stop none 1 "delimited or x" e := by
  obtain ⟨stop, e, hinner, hstop, hpos, -, howner, hmismatch, hsaved⟩ :=
    exists_parse_nested hc n hdepth hfaces
  have hchild : (Registry.runChild (registry.parse depth) root 0 s).result =
      .ok (.failure s stop ⟨.char, '\x00'⟩ e) := hinner
  let lost := (e.save 0 (unfilled s none)).claim 0
  have hrun : (registry.parse (depth + 1) 0 s).result =
      .ok (.failure s stop ⟨.char, '\x00'⟩ lost) :=
    Registry.result_parse_of_branch registry_root rfl (r := .failure s stop ⟨.char, '\x00'⟩
      (e.save 0 (unfilled s none))) (Rule.exec_fillSlots_of_failure hchild rfl rfl rfl)
  have hkept : lost.saved = suspended n s ++ [(0, unfilled s none)] := save_root hsaved _
  exact ⟨stop, lost, hrun, hstop, hpos,
    suspends_of_saved ⟨rfl, congrArg (·.or (some 0)) howner, hmismatch⟩ hkept⟩

/-- From the failure in the middle, the run is completed with what is left over behind it: the first
    closing parenthesis is where it is resumed, and the others are reported. -/
theorem completes_reports (htext : input.binary = false) (hc : IsForeign c)
    (hbudget : 2 ≤ maxErrors) (n : Nat) {first stop : State} {e : ParseError}
    (hsuspends : Suspends first stop none 1 "delimited or x" e)
    (hfaces : stop.Faces input (c :: List.replicate n ')')) (hpos : stop.pos = n) :
    Session.Completes ⟨registry, depth + 1, maxErrors⟩ input (.initial .empty)
      (.failure first stop ⟨.char, '\x00'⟩ e) ⟨.char, '\x00'⟩ ((reports n c).take maxErrors) := by
  have hbehind := Progress.Behind.initial registry input stop.pos
  have howner : registry.recoverer? 1 = none → ∀ c, sought 1 c = false := fun _ _ => rfl
  have hopen : (Progress.initial .empty).errors.length + 1 < maxErrors := hbudget
  have hmismatch : e.mismatch = misfit n := hpos ▸ hsuspends.fails.mismatch_eq
  obtain ⟨budget, rfl⟩ := Nat.exists_eq_add_of_le' hbudget
  rw [reports, ← hmismatch, List.take_succ_cons]
  cases n with
  | zero =>
    rw [List.range'_zero, List.map_nil, List.take_nil]
    exact Session.completes_of_lost hsuspends.fails hbehind (finds htext) htext howner
      (Nat.succ_pos _) hopen hfaces (nearest_misfit hc).passed
  | succ n =>
    have hahead : stop.Faces input ([c] ++ ')' :: List.replicate n ')') := hfaces
    have hnothing : Holds (Progress.initial .empty).salvage := fun _ hentry => nomatch hentry
    refine completes_of_closing htext hsuspends howner (nearest_misfit hc) hahead hbehind hnothing
      hopen ?_
    intro closed q hclosed hend hbehind' hholds herrors
    have hknown : q.errors.length = 1 := herrors
    have hwidth : Utf8.width [c] = c.utf8Size := Utf8.width_cons c []
    have hplace : closed.pos = n + 1 + c.utf8Size + 1 := by omega
    have hcount : budget + 1 = budget + 2 - q.errors.length := by omega
    rw [Nat.add_sub_cancel, ← hplace, hcount]
    exact exists_goOn htext n none hclosed hbehind' hholds (by omega)

end Running

/-- However deep the parentheses are, the climb from the first closing one leaves all of them: what
    stands in the middle is reported, and then every closing parenthesis behind the first one, up to
    the budget. There is a single error only if there is at most one level. -/
theorem reports_what_is_left (n : Nat) (c : Char) (hc : IsForeign c) (maxErrors : Nat)
    (hbudget : 2 ≤ maxErrors) :
    ∃ prepared errors, parser.prepare = .ok prepared ∧
      prepared.run ((Input.text (text n c)).withMaxErrors maxErrors) = .ok ('\x00', errors) ∧
      errors.map ParseError.mismatch = (reports n c).take maxErrors ∧
      (errors.length = 1 ↔ n ≤ 1) := by
  let input := (Input.text (text n c)).withMaxErrors maxErrors
  let scalars := List.replicate n '(' ++ c :: List.replicate n ')'
  have hbytes : input.bytes = Utf8.encode scalars :=
    congrArg Utf8.encode (String.toList_ofList (l := scalars))
  have hsize : 2 * n + 1 ≤ input.size := by
    have hwidth := Utf8.length_le_width scalars
    have hlength : scalars.length = 2 * n + 1 := by
      simp only [scalars, List.length_append, List.length_cons, List.length_replicate]
      omega
    rw [Input.size, hbytes, Utf8.length_encode]
    omega
  have hdepth : 2 * n + 3 ≤ 8 * input.size + 15 := by omega
  obtain ⟨stop, e, hrun, hfaces, hpos, hsuspends⟩ :=
    exists_parse_root _ hc n hdepth (State.faces_start hbytes)
  have hcompletes := completes_reports (8 * input.size + 15) rfl hc hbudget n hsuspends hfaces
    (hpos.trans (Nat.zero_add n))
  have hreports : ((reports n c).take maxErrors).length ≤ input.size + 1 := by
    rw [List.length_take, length_reports]
    omega
  obtain ⟨errors, hexecute, herrors⟩ := hcompletes.execute_eq_ok hrun hreports (Nat.succ_pos 6)
  refine ⟨⟨registry, 0⟩, errors, prepare_parentheses, Prepared.run_eq_ok hexecute, herrors, ?_⟩
  have hcount := congrArg List.length herrors
  rw [List.length_map, List.length_take, length_reports] at hcount
  omega

/-- Of two levels, the second closing parenthesis is reported as well, though nothing is wrong with
    it. -/
theorem reports_what_is_left_two :
    ∃ prepared errors, parser.prepare = .ok prepared ∧
      prepared.run ((Input.text "((a))").withMaxErrors 10) = .ok ('\x00', errors) ∧
      errors.map ParseError.mismatch =
        [⟨.syntactic, "expected \"delimited or x\"", 2⟩,
          ⟨.syntactic, "expected \"end of input\"", 4⟩] ∧
      (errors.length = 1 ↔ 2 ≤ 1) :=
  reports_what_is_left 2 'a' (by decide) 10 (by decide)

end Parentheses

end Resync
