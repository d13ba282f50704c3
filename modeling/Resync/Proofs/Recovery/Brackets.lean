import Resync.Parser.Combinators
import Resync.Proofs.Engine.Scripts
import Resync.Proofs.Recovery.Climb
import Resync.Proofs.Recovery.Completion

namespace Resync

namespace Brackets

open Primitive (isDigit landmark someDigits)

/-- Numbers in brackets, one after the other. -/
def parser : Parser (.list .text) :=
  ((Parser.char '[').safe.delimited Parser.someDigits (Parser.char ']').safe).many

/-- Takes the number out of the slots of a bracket. -/
def finish (slots : Slots) : Except Defect (Ty.Val .text) :=
  (slots.takeAll [(1, .text)]).map Prod.fst

/-- The repetition. -/
def root : Entry :=
  ⟨6, "many0", .branch (.many .text), none, [1]⟩

/-- One bracket. -/
def bracket : Entry :=
  ⟨5, "delimited", .branch (.sequence .text finish), some (0, 0), [2, 3, 4]⟩

/-- The list as it is prepared: the repetition, one bracket, and the parts of a bracket. The
    brackets are safe spots, and the digits between them are not. -/
def registry : Registry where
  entries :=
    [root, bracket, ⟨1, "[", .leaf (landmark '['), some (1, 0), []⟩,
      ⟨2, "digit", .leaf someDigits.leaf, some (1, 1), []⟩,
      ⟨4, "]", .leaf (landmark ']'), some (1, 2), []⟩]

/-- The grammar is prepared to this registry, so the results below are about what is prepared and
    run. -/
theorem prepare_brackets : parser.prepare = .ok ⟨registry, 0⟩ := rfl

/-- The second occurrence is a bracket, with its three parts as children. -/
theorem registry_bracket : registry.entries[1]? = some bracket := rfl

section Leaves

variable (depth : Nat) {s : State}

/-- The first child of a bracket is the safe spot that opens it. -/
theorem runs_opening :
    (Registry.runChild (registry.parse (depth + 1)) bracket 0 s).result =
      .ok ((landmark '[').parse 2 s) := by
  have hentry : registry.entries[2]? = some ⟨1, "[", .leaf (landmark '['), some (1, 0), []⟩ := rfl
  exact Registry.result_parse_of_leaf hentry rfl

/-- The second child of a bracket are its digits, one of them at least. -/
theorem runs_digits :
    (Registry.runChild (registry.parse (depth + 1)) bracket 1 s).result =
      .ok (someDigits.leaf.parse 3 s) := by
  have hentry : registry.entries[3]? = some ⟨2, "digit", .leaf someDigits.leaf, some (1, 1), []⟩ :=
    rfl
  exact Registry.result_parse_of_leaf hentry rfl

/-- The third child of a bracket is the safe spot that closes it. -/
theorem runs_closing :
    (Registry.runChild (registry.parse (depth + 1)) bracket 2 s).result =
      .ok ((landmark ']').parse 4 s) := by
  have hentry : registry.entries[4]? = some ⟨4, "]", .leaf (landmark ']'), some (1, 2), []⟩ := rfl
  exact Registry.result_parse_of_leaf hentry rfl

end Leaves

/-- The text with the given bodies in brackets. -/
def text (bodies : List String) : String :=
  String.join (bodies.map fun body => "[" ++ body ++ "]")

def IsNumber (body : String) : Prop :=
  ∀ c ∈ body.toList, isDigit c = true

instance : DecidablePred IsNumber := fun body =>
  List.decidableBAll (isDigit · = true) body.toList

/-- A body without brackets and digits. -/
def IsForeign (body : String) : Prop :=
  ∀ c ∈ body.toList, c ≠ '[' ∧ c ≠ ']' ∧ isDigit c = false

instance : DecidablePred IsForeign := fun body =>
  List.decidableBAll (fun c => c ≠ '[' ∧ c ≠ ']' ∧ isDigit c = false) body.toList

/-- What the list has for a body: the number, or nothing. The list has an item for each body, as a
    bracket that is resumed is an item too. -/
def content (body : String) : String :=
  if IsNumber body then body else ""

/-- Where the bodies begin that are no numbers, in a text that begins at `pos`. -/
def misfits : (pos : Nat) → List String → List Nat
  | _, [] => []
  | pos, body :: bodies =>
    if IsNumber body then misfits (pos + (body.utf8ByteSize + 2)) bodies
    else (pos + 1) :: misfits (pos + (body.utf8ByteSize + 2)) bodies

/-- The report of a number that is missing. -/
def report (pos : Nat) : Mismatch :=
  ⟨.syntactic, "expected \"digit\"", pos⟩

/-- The scalars that the leaves can start with. -/
def sought : Nat → Char → Bool
  | 2 => (· == '[')
  | 3 => isDigit
  | 4 => (· == ']')
  | _ => fun _ => false

/-- All leaves are found by a search: the brackets by their own scalar, and the digits by any
    digit. -/
theorem seeks : registry.Seeks sought where
  recoverer {id _ _} hentry hwork := by
    match id, hentry with
    | 0, hentry => cases hentry; cases hwork
    | 1, hentry => cases hentry; cases hwork
    | 2, hentry => cases hentry; cases hwork; rfl
    | 3, hentry => cases hentry; cases hwork; rfl
    | 4, hentry => cases hentry; cases hwork; rfl
  starts {id _ _} hentry hwork := by
    match id, hentry with
    | 0, hentry => cases hentry; cases hwork
    | 1, hentry => cases hentry; cases hwork
    | 2, hentry => cases hentry; cases hwork; exact Primitive.matchesScalar_landmark '['
    | 3, hentry => cases hentry; cases hwork; exact Primitive.matchesScalar_someDigits
    | 4, hentry => cases hentry; cases hwork; exact Primitive.matchesScalar_landmark ']'

/-- Behind a body that is no number, the closing bracket is the nearest anchor. There is no opening
    one in the body, and no digit, so nobody else finds anything there. -/
theorem nearest {body : String} (h : IsForeign body) :
    registry.Nearest sought 3 body.toList ']' 4 := by
  have hbidders : registry.bidders 3 = [3, 2, 4] := rfl
  refine ⟨by rw [hbidders]; decide, ?_, ?_⟩
  · intro id hid x hx
    obtain ⟨hopening, hclosing, hdigit⟩ := h x hx
    rw [hbidders] at hid
    simp only [List.mem_cons, List.not_mem_nil, or_false] at hid
    obtain rfl | rfl | rfl := hid
    · exact hdigit
    · exact beq_false_of_ne hopening
    · exact beq_false_of_ne hclosing
  · rw [hbidders]
    decide

/-- What a bracket has saved that held no number. -/
def broken : List (Option Output) :=
  [some ⟨.char, '['⟩, some ⟨.text, ""⟩, none]

section Parsing

variable {input : Input} {s : State} {back : List Char} {body : String} (depth : Nat)

/-- A bracket fills its slots, and claims the outcome, so that an error of the digits is owned by
    them and saved for the bracket. -/
private theorem parse_bracket {r : Result}
    (hr : ((Rule.fillSlots 1 finish s [0, 1, 2] (Slots.empty 3) s).exec
      (Registry.runChild (registry.parse (depth + 1)) bracket)).result = .ok r) :
    (registry.parse (depth + 2) 1 s).result = .ok (r.claim 1) :=
  Registry.result_parse_of_branch registry_bracket rfl hr

/-- A bracket with a number is read to its end, and its output is the number as it stands there. -/
theorem exists_parse_number (h : s.Faces input ('[' :: (body.toList ++ ']' :: back)))
    (hbody : body ≠ "") (hnumber : IsNumber body) :
    ∃ stop, (registry.parse (depth + 2) 1 s).result = .ok (.success s stop ⟨.text, body⟩) ∧
      stop.Faces input back ∧ stop.pos = s.pos + (body.utf8ByteSize + 2) := by
  obtain ⟨opened, hopening, hopened, hpos₁, -⟩ := Primitive.exists_parse_landmark 2 h
  obtain ⟨read, hdigits, hread, hpos₂⟩ := Primitive.exists_parse_someDigits 3 hopened
    (by simpa using hbody) hnumber (by decide)
  obtain ⟨closed, hclosing, hclosed, hpos₃, -⟩ := Primitive.exists_parse_landmark 4 hread
  refine ⟨closed, ?_, hclosed, ?_⟩
  · refine parse_bracket depth (r := .success s closed ⟨.text, body⟩) ?_
    rw [String.ofList_toList] at hdigits
    refine (Rule.exec_fillSlots_of_success ((runs_opening depth).trans (congrArg _ hopening))
      rfl rfl).trans ?_
    refine (Rule.exec_fillSlots_of_success ((runs_digits depth).trans (congrArg _ hdigits))
      rfl rfl).trans ?_
    refine (Rule.exec_fillSlots_of_success ((runs_closing depth).trans (congrArg _ hclosing))
      rfl rfl).trans ?_
    exact Rule.exec_fillSlots_nil rfl
  · have hwidth := Utf8.utf8ByteSize_eq_width body
    have hopen : '['.utf8Size = 1 := rfl
    have hclose : ']'.utf8Size = 1 := rfl
    omega

/-- A bracket without a number fails behind its opening, and has crossed it, so the list
    propagates the failure and does not end with the items before. The error is at the first byte
    of the body. -/
theorem exists_parse_misfit (h : s.Faces input ('[' :: (body.toList ++ ']' :: back)))
    (hbody : body ≠ "") (hforeign : IsForeign body) :
    ∃ stop e, (registry.parse (depth + 2) 1 s).result = .ok (.failure s stop ⟨.text, ""⟩ e) ∧
      stop.Faces input (body.toList ++ ']' :: back) ∧ stop.pos = s.pos + 1 ∧
      stop.crossedSafeSpotSince s = true ∧ e.owner = some 3 ∧ e.mismatch = report stop.pos ∧
      e.saved = [(1, .sequence s broken)] := by
  obtain ⟨opened, hopening, hopened, hpos, hcrossed⟩ := Primitive.exists_parse_landmark 2 h
  have hfirst : ∃ c rest, body.toList = c :: rest :=
    List.exists_cons_of_ne_nil (by simpa using hbody)
  obtain ⟨c, rest, hcons⟩ := hfirst
  have hc := (hforeign c (by rw [hcons]; exact List.mem_cons_self)).2.2
  have hdigits := Primitive.parse_someDigits_of_not 3 (hcons ▸ hopened) hc
  refine ⟨opened, ((opened.syntaxError "digit").claim 3).save 1 (.sequence s broken), ?_, hopened,
    hpos, decide_eq_true hcrossed, rfl, Rule.mismatch_syntaxError hopened.starts "digit", rfl⟩
  refine parse_bracket depth (r := .failure s opened ⟨.text, ""⟩
    (((opened.syntaxError "digit").claim 3).save 1 (.sequence s broken))) ?_
  refine (Rule.exec_fillSlots_of_success ((runs_opening depth).trans (congrArg _ hopening))
    rfl rfl).trans ?_
  exact Rule.exec_fillSlots_of_failure ((runs_digits depth).trans (congrArg _ hdigits)) rfl rfl rfl

/-- Behind the last bracket there is none that has begun, which ends the list as a success. -/
theorem exists_parse_end (h : s.Faces input []) :
    ∃ e, (registry.parse (depth + 2) 1 s).result = .ok (.failure s s ⟨.text, ""⟩ e) ∧
      s.crossedSafeSpotSince s = false := by
  have hopening := Primitive.parse_landmark_of_ne (s := s) (c := '[') 2 (by rw [h.scalars_eq]; simp)
  have hrun := parse_bracket depth
    (Rule.exec_fillSlots_of_failure ((runs_opening depth).trans (congrArg _ hopening)) rfl rfl rfl)
  exact ⟨_, hrun, decide_eq_false (Nat.not_lt.2 h.safeSpot_le)⟩

end Parsing

section Resuming

variable {input : Input} {first s stop target : State} {items : List String} {r : Result}
  (depth : Nat)

/-- A bracket that is resumed behind its closing has nothing in it: the slot of the digits was left
    with the placeholder by the first call. -/
theorem resume_bracket :
    (registry.resume depth 1 ⟨2, .success target stop ⟨.char, ']'⟩, some (.sequence s broken)⟩).result
      = .ok (.success s stop ⟨.text, ""⟩) := rfl

/-- The repetition goes on from what has been collected. Descending and being resumed both come to
    this. -/
def goOn (depth bound : Nat) (first : State) (items : List String) (s : State) : Traced Result :=
  (Rule.repeatItem 0 .text first bound items s).exec
    (Registry.runChild (registry.parse depth) root)

/-- A list that is resumed behind a bracket adds what the bracket gives to its items, and goes on
    behind it, up to the bound that the rest of the input allows. -/
theorem resume_list
    (hr : (goOn depth (stop.remaining + 1) first (items ++ [""]) stop).result = .ok r) :
    (registry.resume depth 0
      ⟨0, .success s stop ⟨.text, ""⟩, some (.repetition first .text items)⟩).result =
        .ok (r.claim 0) := by
  have hroot : registry.entries[0]? = some root := rfl
  exact Registry.result_resume_of_branch hroot rfl hr

end Resuming

variable {input : Input} {depth maxErrors : Nat}

/-- The scalars of the text with the given bodies in brackets. -/
def scalars (bodies : List String) : List Char :=
  bodies.flatMap fun body => '[' :: (body.toList ++ [']'])

/-- A text is its first bracket and the text of the others. -/
theorem scalars_cons (body : String) (bodies : List String) :
    scalars (body :: bodies) = '[' :: (body.toList ++ ']' :: scalars bodies) := by
  simp [scalars]

/-- The climb from a closing bracket ends at the list, which goes on behind it. Both the bracket and
    the list get what the error has saved for them. -/
theorem exists_climb (session : Session) (hreg : session.registry = registry)
    {first s target : State} {items : List String} {p : Progress} {back : List Char}
    (htarget : target.Faces input (']' :: back))
    (hitem : p.salvage.lookup 1 = some (.sequence s broken))
    (hlist : p.salvage.lookup 0 = some (.repetition first .text items)) :
    ∃ stop, stop.Faces input back ∧ stop.pos = target.pos + 1 ∧
      ∀ r, (goOn session.depth (stop.remaining + 1) first (items ++ [""]) stop).result = .ok r →
        (session.climb false ⟨4, (landmark ']').parse 4 target, p⟩).result =
          .ok ⟨0, r.claim 0, ((p.release 1).2.release 0).2⟩ := by
  obtain ⟨stop, hclosing, hstop, hpos, -⟩ := Primitive.exists_parse_landmark 4 htarget
  refine ⟨stop, hstop, hpos, fun r hr => ?_⟩
  have hway : session.registry.ancestors 4 = [(1, 2), (0, 0)] := by rw [hreg]; rfl
  have hbracket : (session.registry.resume session.depth 1
      ⟨2, .success target stop ⟨.char, ']'⟩, p.salvage.lookup 1⟩).result =
        .ok (.success s stop ⟨.text, ""⟩) := by
    rw [hreg, hitem]
    exact resume_bracket session.depth
  have hroot : (session.registry.resume session.depth 0
      ⟨0, .success s stop ⟨.text, ""⟩, (p.release 1).2.salvage.lookup 0⟩).result =
        .ok (r.claim 0) := by
    rw [hreg, Progress.lookup_release (by decide), hlist]
    exact resume_list session.depth hr
  rw [Session.climb, hway, hclosing, Session.climbThrough_cons_of_isOk hbracket rfl]
  exact Session.climbThrough_last hroot

section Going

variable {first s : State} {items : List String} {p : Progress} {back : List Char} {body : String}
  {output : Output} {reports : List Mismatch} (d bound : Nat)
  (hfaces : s.Faces input ('[' :: (body.toList ++ ']' :: back))) (hbody : body ≠ "")
include hfaces hbody

/-- A number is an item, and the list goes on behind its bracket. It takes one step of the bound. -/
theorem exists_goOn_number (hnumber : IsNumber body) :
    ∃ stop, stop.Faces input back ∧ stop.pos = s.pos + (body.utf8ByteSize + 2) ∧
      (goOn (d + 2) (bound + 1) first items s).result =
        (goOn (d + 2) bound first (items ++ [body]) stop).result := by
  obtain ⟨stop, hchild, hstop, hpos⟩ := exists_parse_number d hfaces hbody hnumber
  have hread : (Result.success s stop ⟨.text, body⟩).read .text = .ok body := rfl
  refine ⟨stop, hstop, hpos, Rule.exec_repeatItem_of_success hchild hread rfl fun heq => ?_⟩
  have hstays : stop.pos = s.pos := heq
  omega

/-- A body that is no number suspends the list in the middle of an item, and it is resumed behind
    the bracket with nothing as that item. The error is saved for the bracket and for the list. -/
theorem exists_goOn_misfit (htext : input.binary = false) (hforeign : IsForeign body)
    (hbehind : p.Behind registry input s.pos) (hopen : p.errors.length + 1 < maxErrors)
    (hrest : ∀ stop p', stop.Faces input back → stop.pos = s.pos + (body.utf8ByteSize + 2) →
      p'.Behind registry input stop.pos → p'.errors.length = p.errors.length + 1 →
        ∃ r, (goOn (depth + 2) (stop.remaining + 1) first (items ++ [""]) stop).result = .ok r ∧
          Session.Completes ⟨registry, depth + 2, maxErrors⟩ input p' (r.claim 0) output reports) :
    ∃ r, (goOn (d + 2) (bound + 1) first items s).result = .ok r ∧
      Session.Completes ⟨registry, depth + 2, maxErrors⟩ input p (r.claim 0) output
        (report (s.pos + 1) :: reports) := by
  obtain ⟨stop, e, hchild, hstop, hpos, hcrossed, howner, hmismatch, hsaved⟩ :=
    exists_parse_misfit d hfaces hbody hforeign
  let lost := (e.save 0 (.repetition first .text items)).claim 0
  have hlost : lost.mismatch = report stop.pos := hmismatch
  have hkept : lost.saved = [(1, .sequence s broken), (0, .repetition first .text items)] := by
    change (e.save 0 _).saved = _
    rw [ParseError.save, ParseError.savedBy?, hsaved]
    rfl
  have hfails : (Result.failure first stop ⟨.list .text, items⟩ lost).FailsWith 3 "digit" lost :=
    ⟨rfl, congrArg (·.or (some 0)) howner, hlost⟩
  have hclosing : registry.entries[4]? = some ⟨4, "]", .leaf (landmark ']'), some (1, 2), []⟩ := rfl
  refine ⟨_, Rule.exec_repeatItem_of_crossed hchild rfl rfl hcrossed, ?_⟩
  rw [← hpos, ← hlost]
  have hle : s.pos ≤ stop.pos := by omega
  refine Session.completes_of_nearest (r := .failure first stop ⟨.list .text, items⟩ lost) hfails
    (hbehind.mono hle) (seeks.finds htext) htext (fun hnone => absurd hnone (Option.some_ne_none _))
    (Nat.succ_pos _) hopen hstop (nearest hforeign) hclosing rfl fun target p' hregains => ?_
  have hkeys : (lost.saved.map Prod.fst).Nodup := by simp [hkept]
  have hitem : p'.salvage.lookup 1 = some (.sequence s broken) :=
    hregains.lookup_of_mem hkeys (by simp [hkept])
  have hlist : p'.salvage.lookup 0 = some (.repetition first .text items) :=
    hregains.lookup_of_mem hkeys (by simp [hkept])
  obtain ⟨closed, hclosed, hclosedpos, hclimb⟩ := exists_climb ⟨registry, depth + 2, maxErrors⟩ rfl
    hregains.faces hitem hlist
  have hend : closed.pos = s.pos + (body.utf8ByteSize + 2) := by
    have hwidth := Utf8.utf8ByteSize_eq_width body
    have htarget : target.pos = stop.pos + Utf8.width body.toList := hregains.pos_eq
    omega
  have hahead : p'.Behind registry input closed.pos := hclosedpos ▸ hregains.behind
  obtain ⟨r, hr, hcompletes⟩ := hrest closed _ hclosed hend
    (((hahead.release 1).release 0).dropStale 0) hregains.length_errors
  exact ⟨r.claim 0, _, hclimb r hr, rfl, hcompletes⟩

end Going

/-- From any bracket on, the list is read to its end, and the run is completed with what the
    brackets hold. The induction is on the bodies: a number goes on in the same call of the
    repetition, and any other body begins a round of recovery, after which the repetition that was
    resumed reads the rest. -/
theorem exists_goOn (htext : input.binary = false) (bodies : List String)
    (hbodies : ∀ body ∈ bodies, body ≠ "" ∧ (IsNumber body ∨ IsForeign body)) (d bound : Nat)
    (first : State) (items : List String) {s : State} {p : Progress}
    (hfaces : s.Faces input (scalars bodies)) (hbound : s.remaining < bound)
    (hbehind : p.Behind registry input s.pos)
    (hbudget : p.errors.length + (misfits s.pos bodies).length < maxErrors) :
    ∃ r, (goOn (d + 2) bound first items s).result = .ok r ∧
      Session.Completes ⟨registry, depth + 2, maxErrors⟩ input p (r.claim 0)
        ⟨.list .text, items ++ bodies.map content⟩ ((misfits s.pos bodies).map report) := by
  induction bodies generalizing d bound first s items p with
  | nil =>
    obtain ⟨e, hchild, huncrossed⟩ := exists_parse_end d hfaces
    obtain ⟨bound, rfl⟩ := Nat.exists_eq_add_of_le' (Nat.lt_of_le_of_lt (Nat.zero_le _) hbound)
    refine ⟨.success first s ⟨.list .text, items⟩,
      Rule.exec_repeatItem_of_uncrossed hchild rfl rfl huncrossed, ?_⟩
    rw [List.map_nil, List.append_nil]
    exact Session.completes_of_success hbehind rfl
  | cons body bodies ih =>
    obtain ⟨hbody, hkind⟩ := hbodies body List.mem_cons_self
    have hrest := fun other hother => hbodies other (List.mem_cons_of_mem _ hother)
    obtain ⟨bound, rfl⟩ := Nat.exists_eq_add_of_le' (Nat.lt_of_le_of_lt (Nat.zero_le _) hbound)
    rw [scalars_cons] at hfaces
    rw [misfits] at hbudget ⊢
    rw [List.map_cons]
    by_cases hnumber : IsNumber body
    · obtain ⟨stop, hstop, hpos, hgoes⟩ := exists_goOn_number d bound hfaces hbody hnumber
      have hremaining : stop.remaining < bound := by
        have hsize := hstop.sits.pos_le_size
        rw [State.remaining, hfaces.sits.input_eq] at hbound
        rw [State.remaining, hstop.sits.input_eq]
        omega
      rw [if_pos hnumber, ← hpos] at hbudget ⊢
      obtain ⟨r, hr, hcompletes⟩ := ih hrest d bound first (items ++ [body]) hstop hremaining
        (hbehind.mono (by omega)) hbudget
      refine ⟨r, hgoes.trans hr, ?_⟩
      rw [content, if_pos hnumber]
      rwa [List.append_assoc] at hcompletes
    · rw [if_neg hnumber, List.length_cons] at hbudget
      rw [if_neg hnumber, List.map_cons]
      refine exists_goOn_misfit d bound hfaces hbody htext (hkind.resolve_left hnumber) hbehind
        (by omega) fun stop p' hstop hpos hbehind' herrors => ?_
      rw [← hpos] at hbudget ⊢
      obtain ⟨r, hr, hcompletes⟩ := ih hrest depth (stop.remaining + 1) first (items ++ [""]) hstop
        (Nat.lt_succ_self _) hbehind' (by omega)
      refine ⟨r, hr, ?_⟩
      rw [content, if_neg hnumber]
      rwa [List.append_assoc] at hcompletes

/-- There are no more reports than scalars, which bounds the rounds of the run. -/
theorem length_misfits_le (pos : Nat) (bodies : List String) :
    (misfits pos bodies).length ≤ (scalars bodies).length := by
  induction bodies generalizing pos with
  | nil => exact Nat.le_refl 0
  | cons body bodies ih =>
    have hrest := ih (pos + (body.utf8ByteSize + 2))
    rw [scalars_cons, List.length_cons, List.length_append, List.length_cons, misfits]
    split
    · omega
    · rw [List.length_cons]
      omega

/-- The text is made of the scalars that the leaves are followed along. -/
theorem toList_text (bodies : List String) : (text bodies).toList = scalars bodies := by
  simp [text, scalars, List.flatMap_map]

/-- No bracket is lost, and every one that holds no number is reported: the list of the contents is
    as long as the list of the bodies, and there is one report for each body that is no number, at
    its first byte, in their order. -/
theorem reports_each_misfit (bodies : List String)
    (hbodies : ∀ body ∈ bodies, body ≠ "" ∧ (IsNumber body ∨ IsForeign body)) (maxErrors : Nat)
    (hbudget : (misfits 0 bodies).length < maxErrors) :
    ∃ prepared errors, parser.prepare = .ok prepared ∧
      prepared.run ((Input.text (text bodies)).withMaxErrors maxErrors) =
        .ok (bodies.map content, errors) ∧
      errors.map ParseError.mismatch = (misfits 0 bodies).map report := by
  let input := (Input.text (text bodies)).withMaxErrors maxErrors
  have hbytes : input.bytes = Utf8.encode (scalars bodies) :=
    congrArg Utf8.encode (toList_text bodies)
  have hfaces := State.faces_start hbytes
  have hgoes : ∃ r, (goOn (6 * input.size + 11) (input.size + 1) (State.start input) []
      (State.start input)).result = .ok r ∧
        Session.Completes ⟨registry, 6 * input.size + 12, maxErrors⟩ input (.initial .empty)
          (r.claim 0) ⟨.list .text, [] ++ bodies.map content⟩ ((misfits 0 bodies).map report) :=
    exists_goOn rfl bodies hbodies _ _ _ [] hfaces (Nat.lt_succ_self _)
      (Progress.Behind.initial registry input 0) ((Nat.zero_add _).symm ▸ hbudget)
  obtain ⟨r, hr, hcompletes⟩ := hgoes
  have hroot : registry.entries[0]? = some root := rfl
  have hrun : ((Session.mk registry (6 * input.size + 12) maxErrors).run 0
      (State.start input)).result = .ok (r.claim 0) :=
    Registry.result_parse_of_branch hroot rfl hr
  have hreports : ((misfits 0 bodies).map report).length ≤ input.size + 1 := by
    have hwidth := Utf8.length_le_width (scalars bodies)
    have hcount := length_misfits_le 0 bodies
    rw [List.length_map, Input.size, hbytes, Utf8.length_encode]
    omega
  obtain ⟨errors, hexecute, herrors⟩ := hcompletes.execute_eq_ok hrun hreports (Nat.succ_pos 4)
  exact ⟨⟨registry, 0⟩, errors, prepare_brackets, Prepared.run_eq_ok hexecute, herrors⟩

/-- Of four brackets, the second and the last are reported, and three errors would have been
    allowed. -/
theorem reports_each_misfit_numbers :
    ∃ prepared errors, parser.prepare = .ok prepared ∧
      prepared.run ((Input.text "[1][x][2][y]").withMaxErrors 3) = .ok (["1", "", "2", ""], errors) ∧
      errors.map ParseError.mismatch =
        [⟨.syntactic, "expected \"digit\"", 4⟩, ⟨.syntactic, "expected \"digit\"", 10⟩] :=
  reports_each_misfit ["1", "x", "2", "y"] (by decide) 3 (by decide)

end Brackets

end Resync
