import Resync.Parser.Combinators
import Resync.Proofs.Assembly.Carried
import Resync.Proofs.Reading.Lossless

namespace Resync

/-- A grammar of leaves that read scalars and of branches that keep texts. -/
inductive Grammar.KeepsText : Grammar → Prop
  | leaf (primitive : Primitive) (h : primitive.ReadsScalars) : KeepsText (.leaf primitive.leaf)
  | branch {label : String} {rule : Rule} {children : List Grammar}
      (hrule : rule.KeepsText children.length) (hchildren : ∀ g ∈ children, KeepsText g) :
      KeepsText (.branch label rule children)
  | safe {g : Grammar} (h : KeepsText g) : KeepsText (.safe g)
  | named (name : String) : KeepsText (.named name)
  | sharing (name : String) {definition body : Grammar} (hdefinition : KeepsText definition)
      (hbody : KeepsText body) : KeepsText (.sharing name definition body)
  | recursive (name : String) {definition : Grammar} (h : KeepsText definition) :
      KeepsText (.recursive name definition)
  | deferred {definition : Grammar} (h : KeepsText definition) : KeepsText (.deferred definition)

/-- What may stand at a place while such a grammar is assembled. -/
def Cell.KeepsText : Cell → Prop
  | finished node => node.KeepsText
  | pending _ definition => definition.KeepsText
  | undefined | underway => True

/-- Whether texts are kept is told by the leaves and the rules of a grammar, safe spots or not. -/
theorem carries_keepsText : Assembly.Carries Grammar.KeepsText Cell.KeepsText where
  leaf hg := by
    cases hg with
    | leaf primitive hreads => exact ⟨primitive, hreads, primitive.leaf.safeSpot, rfl⟩
  children hg := by
    cases hg with
    | branch hrule hchildren => exact hchildren
  branch {label rule children places} hg hlength := by
    cases hg with
    | branch hrule hchildren =>
      rw [← hlength] at hrule
      exact hrule
  safe hg := by
    cases hg with
    | safe h => exact h
  toSafeSpot {leaf safe} hleaf hsafe := by
    obtain ⟨primitive, hreads, safeSpot, rfl⟩ := hleaf
    rw [Leaf.eq_of_toSafeSpot hsafe]
    exact ⟨primitive, hreads, true, rfl⟩
  sharing hg := by
    cases hg with
    | sharing name hdefinition hbody => exact ⟨hdefinition, hbody⟩
  recursive hg := by
    cases hg with
    | recursive name h => exact h
  deferred hg := by
    cases hg with
    | deferred h => exact h
  pending hcell := hcell
  forward _ := trivial
  unused := trivial
  undefined := trivial
  underway := trivial

/-- A grammar that keeps texts is assembled from parsers that do, however its parsers are shared,
    deferred or recursive. -/
theorem Grammar.KeepsText.assemble {g : Grammar} (hg : g.KeepsText) {assembled : Assembled}
    (h : g.assemble = .ok assembled) : assembled.graph.KeepsText :=
  carries_keepsText.assemble hg h

namespace Slots

/-- What is taken out of a filled slot is what was put into it, so nothing of its text is lost. -/
theorem take_of_filled {slots rest : Slots} {index : Nat} {o : Output} {t : Ty} {value : t.Val}
    (hslot : slots.outputs[index]? = some (some o)) (h : slots.take index t = .ok (value, rest)) :
    o = ⟨t, value⟩ ∧ rest = ⟨slots.outputs.set index none⟩ := by
  unfold take at h
  rw [hslot] at h
  dsimp only at h
  split at h
  · next hvalue =>
    cases h
    exact ⟨Output.eq_of_as?_eq_some hvalue, rfl⟩
  · cases h

theorem takeAll_cons_eq_ok {slots : Slots} {index : Nat} {t : Ty} {requests : List (Nat × Ty)}
    {values : Ty.Vals (t :: requests.map Prod.snd)}
    (h : slots.takeAll ((index, t) :: requests) = .ok values) :
    ∃ rest : Slots, slots.take index t = .ok (values.1, rest) ∧
      rest.takeAll requests = .ok values.2 := by
  rw [takeAll] at h
  cases htake : slots.take index t with
  | error d =>
    rw [htake] at h
    cases h
  | ok taken =>
    rw [htake] at h
    change (taken.2.takeAll requests >>= fun values => pure (taken.1, values)) = _ at h
    cases hrest : taken.2.takeAll requests with
    | error d =>
      rw [hrest] at h
      cases h
    | ok others =>
      rw [hrest] at h
      cases h
      exact ⟨taken.2, rfl, hrest⟩

/-- Slots that are all filled give their outputs when they are taken in order, so a sequence has the
    text of its slots. -/
theorem valsToData_takeAll {requests : List (Nat × Ty)} {first : Nat}
    (horder : requests.map Prod.fst = List.range' first requests.length) {slots : Slots}
    {outputs : List Output} (hslots : slots.outputs.drop first = outputs.map some)
    (hlength : outputs.length = requests.length) {values : Ty.Vals (requests.map Prod.snd)}
    (h : slots.takeAll requests = .ok values) :
    Ty.valsToData (requests.map Prod.snd) values = outputs.map Output.toData := by
  induction requests generalizing first slots outputs with
  | nil =>
    cases List.length_eq_zero_iff.1 hlength
    rfl
  | cons request requests ih =>
    obtain ⟨index, t⟩ := request
    obtain ⟨o, outputs, rfl⟩ := List.exists_cons_of_length_eq_add_one hlength
    rw [List.map_cons, List.length_cons, List.range'_succ] at horder
    obtain ⟨rfl, horder⟩ := List.cons.inj horder
    have hslot : slots.outputs[index]? = some (some o) := by
      rw [← List.head?_drop, hslots]
      rfl
    obtain ⟨rest, htake, hrest⟩ := takeAll_cons_eq_ok h
    obtain ⟨rfl, rfl⟩ := take_of_filled hslot htake
    have hothers : (slots.outputs.set index none).drop (index + 1) = outputs.map some := by
      rw [List.drop_set_of_lt (Nat.lt_add_one index), ← List.drop_drop, hslots]
      rfl
    exact congrArg (t.toData values.1 :: ·) (ih horder hothers (Nat.succ.inj hlength) hrest)

end Slots

/-- A sequence that takes all slots in order keeps texts if it puts the texts of what it takes
    together. -/
theorem Rule.keepsText_combine {requests : List (Nat × Ty)} {result : Ty}
    {f : Ty.Vals (requests.map Prod.snd) → result.Val}
    (horder : requests.map Prod.fst = List.range requests.length)
    (hf : ∀ values, (Output.mk result (f values)).toText =
      (Data.array (Ty.valsToData (requests.map Prod.snd) values)).toText) :
    (combine requests result f).KeepsText requests.length := by
  intro outputs value hlength hvalue
  change (Slots.takeAll requests ⟨outputs.map some⟩).map f = _ at hvalue
  cases htaken : Slots.takeAll requests ⟨outputs.map some⟩ with
  | error d =>
    rw [htaken] at hvalue
    cases hvalue
  | ok values =>
    rw [htaken] at hvalue
    cases hvalue
    rw [List.range_eq_range'] at horder
    rw [hf, Slots.valsToData_takeAll horder rfl hlength htaken]
    rfl

namespace Parser

variable {s t u result : Ty} {a : Parser s} {b : Parser t} {c : Parser u}

/-- A sequence of any length keeps texts if it takes its slots in order and its function puts their
    texts together. -/
theorem keepsText_sequence {label : String} {items : List AnyParser} {requests : List (Nat × Ty)}
    {f : Ty.Vals (requests.map Prod.snd) → result.Val} (hcount : items.length = requests.length)
    (horder : requests.map Prod.fst = List.range requests.length)
    (hf : ∀ values, (Output.mk result (f values)).toText =
      (Data.array (Ty.valsToData (requests.map Prod.snd) values)).toText)
    (hitems : ∀ item ∈ items, item.2.grammar.KeepsText) :
    (sequence label items requests result f).grammar.KeepsText := by
  refine .branch ?_ fun g hg => ?_
  · rw [List.length_map, hcount]
    exact Rule.keepsText_combine horder hf
  · obtain ⟨item, hitem, rfl⟩ := List.mem_map.1 hg
    exact hitems item hitem

/-- A sequence of two keeps texts if its function puts their texts together. -/
theorem keepsText_map2 {f : s.Val → t.Val → result.Val}
    (hf : ∀ x y, (Output.mk result (f x y)).toText = Output.textOf [⟨s, x⟩, ⟨t, y⟩])
    (ha : a.grammar.KeepsText) (hb : b.grammar.KeepsText) :
    (map2 a b result f).grammar.KeepsText :=
  keepsText_sequence rfl rfl (fun (x, y, ()) => hf x y) (by simp [ha, hb])

/-- A sequence of three keeps texts if its function puts their texts together. -/
theorem keepsText_map3 {f : s.Val → t.Val → u.Val → result.Val}
    (hf : ∀ x y z, (Output.mk result (f x y z)).toText = Output.textOf [⟨s, x⟩, ⟨t, y⟩, ⟨u, z⟩])
    (ha : a.grammar.KeepsText) (hb : b.grammar.KeepsText) (hc : c.grammar.KeepsText) :
    (map3 a b c result f).grammar.KeepsText :=
  keepsText_sequence rfl rfl (fun (x, y, z, ()) => hf x y z) (by simp [ha, hb, hc])

/-- A repetition keeps texts if its item does. -/
theorem keepsText_many (ha : a.grammar.KeepsText) : (many a).grammar.KeepsText :=
  .branch trivial (by simp [ha])

/-- A choice keeps texts if its alternatives do. -/
theorem keepsText_first {alternatives : List (Parser t)}
    (h : ∀ alternative ∈ alternatives, alternative.grammar.KeepsText) :
    (first alternatives).grammar.KeepsText := by
  refine .branch trivial fun g hg => ?_
  obtain ⟨alternative, halternative, rfl⟩ := List.mem_map.1 hg
  exact h alternative halternative

theorem keepsText_map_id (ha : a.grammar.KeepsText) : (a.map s id).grammar.KeepsText :=
  .branch (fun _ => rfl) (by simp [ha])

end Parser

namespace Prepared

/-- A parser that keeps texts is lossless: where it succeeds from a boundary of a text or of raw
    bytes, or any parser in it does, the text of the output is what stands from the start to the end
    of the match, and its bytes are those in between. -/
theorem keeps_text {t : Ty} {parser : Parser t} {prepared : Prepared t}
    (hkeeps : parser.grammar.KeepsText) (hprepare : parser.prepare = .ok prepared) {input : Input}
    {s : State} (hs : s.SitsOn input) {depth id : Nat} {r : Result}
    (hrun : (prepared.registry.parse depth id s).result = .ok r) (hok : r.isOk = true) :
    r.output.toText = s.stringTo r.stop ∧
      Utf8.encode r.output.toText.toList = s.bytesTo r.stop := by
  unfold Parser.prepare at hprepare
  obtain ⟨assembled, hassemble, hprepare⟩ := Fault.bind_eq_ok_iff.1 hprepare
  obtain ⟨reg, hreg, hprepare⟩ := Fault.bind_eq_ok_iff.1 hprepare
  cases hprepare
  obtain ⟨-, hspans⟩ := Registry.conveys_parse (Registry.laidOut_ofGraph hreg)
    (hkeeps.assemble hassemble) hs hrun hok
  rw [hspans.stringTo_eq, hspans.bytesTo_eq, String.ofList_toList]
  exact ⟨rfl, rfl⟩

/-- Quotations of letters and of other quotations. -/
def quotation : Parser .text :=
  .recursive "quotation" <|
    .map3 (.literal "«")
      (.many (.first [.deferred (.literal "é"), .map (.named .text "quotation") .text id]))
      (.literal "»") .text fun opening items closing =>
        Output.textOf [⟨.text, opening⟩, ⟨.list .text, items⟩, ⟨.text, closing⟩]

/-- The quotations of the example keep texts, though they refer to themselves. -/
theorem quotation_keepsText : quotation.grammar.KeepsText := by
  have hliteral (text : String) : (Parser.literal text).grammar.KeepsText :=
    .leaf (.literal text) trivial
  refine .recursive "quotation" (Parser.keepsText_map3 (fun _ _ _ => rfl) (hliteral "«") ?_
    (hliteral "»"))
  refine Parser.keepsText_many (Parser.keepsText_first fun alternative halternative => ?_)
  simp only [List.mem_cons, List.not_mem_nil, or_false] at halternative
  obtain rfl | rfl := halternative
  · exact .deferred (hliteral "é")
  · exact Parser.keepsText_map_id (.named "quotation")

def quotationPrepared : Prepared .text :=
  quotation.prepare.toOption.get rfl

/-- Raw bytes with a quotation between two that belong to no scalar. -/
def quoted : Input :=
  .ofBytes (0xFF :: Utf8.encode "«é«»»".toList ++ [0xFF])

theorem keeps_text_quoted :
    quotation.grammar.KeepsText ∧ ((State.start quoted).moveBy 1).SitsOn quoted ∧
      ∃ r, (quotationPrepared.registry.parse 20 0 ((State.start quoted).moveBy 1)).result = .ok r ∧
        r.isOk = true ∧ r.stop.pos = 11 ∧
        r.output.toText = ((State.start quoted).moveBy 1).stringTo r.stop ∧
        Utf8.encode r.output.toText.toList =
          ((State.start quoted).moveBy 1).bytesTo r.stop := by
  have hs : ((State.start quoted).moveBy 1).SitsOn quoted := (State.start_sitsOn quoted).moveBy 1
  have hprepare : quotation.prepare = .ok quotationPrepared := by rfl
  have houtcome : (quotationPrepared.registry.parse 20 0 ((State.start quoted).moveBy 1)).result.map
      (fun r => (r.isOk, r.stop.pos)) = .ok (true, 11) := by rfl
  cases hrun : (quotationPrepared.registry.parse 20 0 ((State.start quoted).moveBy 1)).result with
  | error f =>
    rw [hrun] at houtcome
    cases houtcome
  | ok r =>
    rw [hrun] at houtcome
    obtain ⟨hok, hpos⟩ := Prod.mk.inj (Except.ok.inj houtcome)
    exact ⟨quotation_keepsText, hs, r, rfl, hok, hpos,
      keeps_text quotation_keepsText hprepare hs hrun hok⟩

end Prepared

end Resync
