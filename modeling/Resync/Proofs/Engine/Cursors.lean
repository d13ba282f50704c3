import Mathlib.Logic.Basic
import Resync.Proofs.Engine.Contract

namespace Resync

/-- All cursors of saved data have a property. -/
def Saved.All (P : State → Prop) : Saved → Prop
  | sequence start _ | repetition start _ _ => P start
  | output _ => True

/-- An error stands where some cursor with a property stands, and what is saved in it has a property
    too. -/
structure ParseError.Carries (P : State → Prop) (S : Nat → Saved → Prop) (e : ParseError) :
    Prop where
  place : ∃ s, P s ∧ s.pos = e.position
  saved : ∀ entry ∈ e.saved, S entry.1 entry.2

/-- The cursors of an outcome have a property, and its error carries such. -/
structure Result.Carries (P : State → Prop) (S : Nat → Saved → Prop) (r : Result) : Prop where
  start : P r.start
  stop : P r.stop
  error : ∀ e, r.error = some e → e.Carries P S

/-- All cursors of an error have a property. -/
abbrev ParseError.All (P : State → Prop) (e : ParseError) : Prop :=
  e.Carries P fun _ data => data.All P

/-- All cursors of an outcome have a property. -/
abbrev Result.All (P : State → Prop) (r : Result) : Prop :=
  r.Carries P fun _ data => data.All P

/-- All cursors that a resumed branch learns of have a property. -/
structure Resumption.All (P : State → Prop) (r : Resumption) : Prop where
  child : r.child.All P
  saved : ∀ data, r.saved = some data → data.All P

/-- All cursors of an event have a property, and cursors that have it stand where the event says
    that something is. -/
def Event.All (P : State → Prop) : Event → Prop
  | entered _ s => P s
  | resumed _ _ r => r.All P
  | left _ r => r.All P
  | noted _ => True
  | reported e => e.All P
  | estimated _ _ pos _ _ | anchored _ _ pos | gaveUp pos => ∃ s, P s ∧ s.pos = pos

variable {P : State → Prop} {S : Nat → Saved → Prop}

/-- An error without what is saved in it stands where it stood. -/
theorem ParseError.Carries.withoutSaved {e : ParseError} (h : e.Carries P S) :
    e.withoutSaved.Carries P S :=
  ⟨h.place, fun _ hentry => nomatch hentry⟩

theorem ParseError.Carries.claim {e : ParseError} (h : e.Carries P S) (id : Nat) :
    (e.claim id).Carries P S :=
  ⟨h.place, h.saved⟩

/-- What is saved in an error after a branch has saved something was there before, or is what the
    branch has saved. -/
theorem ParseError.mem_saved_save {e : ParseError} {id : Nat} {data : Saved} {entry : Nat × Saved}
    (h : entry ∈ (e.save id data).saved) : entry ∈ e.saved ∨ entry = (id, data) := by
  unfold save at h
  dsimp only at h
  split at h
  · obtain ⟨old, hold, rfl⟩ := List.mem_map.1 h
    by_cases hid : old.1 = id
    · exact .inr (if_pos hid)
    · rw [if_neg hid]
      exact .inl hold
  · obtain hold | hnew := List.mem_append.1 h
    · exact .inl hold
    · exact .inr (List.mem_singleton.1 hnew)

theorem ParseError.Carries.save {e : ParseError} (h : e.Carries P S) {id : Nat} {data : Saved}
    (hdata : S id data) : (e.save id data).Carries P S := by
  refine ⟨h.place, ?_⟩
  intro entry hentry
  obtain hold | rfl := ParseError.mem_saved_save hentry
  · exact h.saved entry hold
  · exact hdata

theorem Result.Carries.claim {r : Result} (h : r.Carries P S) (id : Nat) :
    (r.claim id).Carries P S := by
  refine ⟨h.start, h.stop, ?_⟩
  intro e he
  obtain ⟨old, hold, rfl⟩ := Option.map_eq_some_iff.1 he
  exact (h.error old hold).claim id

theorem Result.Carries.withOutput {r : Result} (h : r.Carries P S) (o : Output) :
    (r.withOutput o).Carries P S :=
  ⟨h.start, h.stop, h.error⟩

theorem Result.carries_success {start stop : State} {o : Output} (hstart : P start)
    (hstop : P stop) : (Result.success start stop o).Carries P S :=
  ⟨hstart, hstop, fun _ he => nomatch he⟩

theorem Result.carries_failure {start stop : State} {o : Output} {e : ParseError} (hstart : P start)
    (hstop : P stop) (he : e.Carries P S) : (Result.failure start stop o e).Carries P S := by
  refine ⟨hstart, hstop, ?_⟩
  intro e' he'
  cases he'
  exact he

/-- A new error has nothing saved in it. It stands at the cursor, or at the end of the input if the
    cursor is behind it. -/
theorem State.carries_errorHere {s : State} (h : ∃ t, P t ∧ t.pos = min s.pos s.input.size)
    (kind : ErrorKind) (message : String) : (s.errorHere kind message).Carries P S :=
  ⟨h, fun _ hentry => nomatch hentry⟩

/-- A new error stands at the cursor that it is raised at. -/
theorem State.all_errorHere {s : State} (h : P s) (hpos : s.pos ≤ s.input.size) (kind : ErrorKind)
    (message : String) : (s.errorHere kind message).All P :=
  carries_errorHere ⟨s, h, (Nat.min_eq_left hpos).symm⟩ kind message

/-- The rules whose scripts are their own: all but those with a script of free choice. -/
def Rule.IsBuiltIn : Rule → Prop
  | bespoke _ _ => False
  | _ => True

/-- What branches under a rule save for themselves, if they start where a property holds. -/
def Rule.Saves (P : State → Prop) : Rule → Saved → Prop
  | sequence _ _, .sequence start _ => P start
  | many item, .repetition start t _ => P start ∧ t = item
  | _, _ => False

/-- Cursors with a property, and an order in which parsing moves them. -/
structure Trail (P : State → Prop) (Le : State → State → Prop) : Prop where
  /-- There is such a cursor where an error stands that is raised at one. -/
  place : ∀ {s}, P s → ∃ t, P t ∧ t.pos = min s.pos s.input.size
  refl : ∀ s, Le s s
  trans : ∀ {s t u}, Le s t → Le t u → Le s u

/-- Terms under which children may be run from any cursor with a property, and lead to such. Either
    a repetition may run out of its bound, or it cannot, since its items use up input. -/
structure Script.Terms.Follow (terms : Terms) (P : State → Prop) (S : Nat → Saved → Prop)
    (Le : State → State → Prop) : Prop where
  trail : Trail P Le
  ask : ∀ index {s}, P s → terms.ask index s
  answer : ∀ {index s r}, terms.answer index s r → r.Carries P S ∧ Le s r.stop
  defect : ∀ d, terms.fault (.defect d)
  exhausted : terms.fault .outOfFuel ∨
    ∀ {s t}, P s → P t → Le s t → t.pos ≠ s.pos → t.remaining < s.remaining

namespace Rule

variable {Le : State → State → Prop} {terms : Script.Terms} {s before : State} {id : Nat}

section Sequence

variable {result : Ty} {finish : Slots → Except Defect result.Val} {start : State}

/-- A sequence that stops saves its slots with its start, and ends where its child did. -/
theorem meets_stopSequence (h : terms.Follow P S Le) {stop : State} {slots : Slots} {e : ParseError}
    (hsaves : ∀ slots, S id (.sequence start slots)) (hstart : P start) (hstop : P stop)
    (hle : Le before stop) (he : e.Carries P S) :
    (stopSequence id finish start stop slots e).Meets terms
      fun r => r.Carries P S ∧ Le before r.stop := by
  apply Script.meets_ofExcept_bind (fun d _ => h.defect d)
  intro value _
  exact ⟨Result.carries_failure hstart hstop (he.save (hsaves _)), hle⟩

/-- A sequence hands on the cursors of its children, from one to the next. The induction is on the
    children that are left, with the start and the slots in what may be saved. -/
theorem meets_fillSlots (h : terms.Follow P S Le) (hsaves : ∀ slots, S id (.sequence start slots))
    (indices : List Nat) (slots : Slots) (hstart : P start) (hs : P s) (hle : Le before s) :
    (fillSlots id finish start indices slots s).Meets terms
      fun r => r.Carries P S ∧ Le before r.stop := by
  induction indices generalizing slots s with
  | nil =>
    apply Script.meets_ofExcept_bind (fun d _ => h.defect d)
    intro value _
    exact ⟨Result.carries_success hstart hs, hle⟩
  | cons index indices ih =>
    apply Script.meets_child_bind (h.ask index hs)
    intro child hchild
    obtain ⟨hall, hstep⟩ := h.answer hchild
    apply Script.meets_ofExcept_bind (fun d _ => h.defect d)
    intro filled _
    have hnext := h.trail.trans hle hstep
    cases herror : child.error with
    | some e => exact meets_stopSequence h hsaves hstart hall.stop hnext (hall.error e herror)
    | none => exact ih filled hall.stop hnext

end Sequence

/-- A repetition hands on the cursors of its items. Either it may run out of its bound, or every
    item uses up input and it does not. -/
theorem meets_repeatItem (h : terms.Follow P S Le) {item : Ty} {start : State} {bound : Nat}
    (hsaves : ∀ items, S id (.repetition start item items)) (items : List item.Val)
    (hstart : P start) (hs : P s) (hle : Le before s)
    (hbound : terms.fault .outOfFuel ∨ s.remaining < bound) :
    (repeatItem id item start bound items s).Meets terms
      fun r => r.Carries P S ∧ Le before r.stop := by
  induction bound generalizing items s with
  | zero =>
    obtain hfault | hzero := hbound
    · exact hfault
    · exact absurd hzero (Nat.not_lt_zero _)
  | succ bound ih =>
    apply Script.meets_child_bind (h.ask 0 hs)
    intro child hchild
    obtain ⟨hall, hstep⟩ := h.answer hchild
    have hnext := h.trail.trans hle hstep
    apply Script.meets_ofExcept_bind (fun d _ => h.defect d)
    intro value _
    cases herror : child.error with
    | some e =>
      dsimp only
      split
      · exact ⟨Result.carries_failure hstart hall.stop
          ((hall.error e herror).save (hsaves items)), hnext⟩
      · exact ⟨Result.carries_success hstart hs, hle⟩
    | none =>
      dsimp only
      split
      · exact ⟨Result.carries_failure hstart hs
          (State.carries_errorHere (h.trail.place hs) _ _), hle⟩
      · next hmoved =>
        apply ih _ hall.stop hnext
        obtain hfault | hless := h.exhausted
        · exact .inl hfault
        · apply hbound.imp_right
          intro hlt
          have hused := hless hs hall.stop hstep hmoved
          omega

/-- A choice hands on the outcome of a child, or fails where it stands with an error of its own. The
    induction is on the children that are left. -/
theorem meets_tryChildren (h : terms.Follow P S Le) {result : Ty} {labels : List String}
    (indices : List Nat) (hs : P s) :
    (tryChildren result labels s indices).Meets terms fun r => r.Carries P S ∧ Le s r.stop := by
  induction indices with
  | nil =>
    exact ⟨Result.carries_failure hs hs (State.carries_errorHere (h.trail.place hs) _ _),
      h.trail.refl s⟩
  | cons index indices ih =>
    apply Script.meets_child_bind (h.ask index hs)
    intro child hchild
    apply Script.meets_ofExcept_bind (fun d _ => h.defect d)
    intro value _
    split
    · exact h.answer hchild
    · exact ih

/-- What a step of a branch starts from: the state of a descent, or the end of the child that it is
    resumed after. -/
def onset : Step → State
  | .descend s => s
  | .resume r => r.child.stop

/-- What a step hands to a branch has the properties of what branches hand on. -/
def Hands (P : State → Prop) (S : Nat → Saved → Prop) (id : Nat) : Step → Prop
  | .descend s => P s
  | .resume r => r.child.Carries P S ∧ ∀ data, r.saved = some data → S id data

variable {step : Step}

/-- A rule with one child hands on what that child gives, or what it is resumed with. -/
theorem meets_onlyChild (h : terms.Follow P S Le) (hstep : Hands P S id step) :
    (onlyChild step).Meets terms fun r => r.Carries P S ∧ Le (onset step) r.stop := by
  cases step with
  | descend s => exact ⟨h.ask 0 hstep, fun r hr => h.answer hr⟩
  | resume r => exact ⟨hstep.1, h.trail.refl _⟩

theorem meets_sequenceScript (h : terms.Follow P S Le) {count : Nat} {result : Ty}
    {finish : Slots → Except Defect result.Val}
    (hsaves : ∀ {start}, P start → ∀ slots, S id (.sequence start slots))
    (hsaved : ∀ data, S id data → data.All P) (hstep : Hands P S id step) :
    (sequenceScript id finish count step).Meets terms
      fun r => r.Carries P S ∧ Le (onset step) r.stop := by
  cases step with
  | descend s => exact meets_fillSlots h (hsaves hstep) _ _ hstep hstep (h.trail.refl s)
  | resume r =>
    obtain ⟨hchild, hdata⟩ := hstep
    have hstart : P (savedSequence count r).1 := by
      unfold savedSequence
      split
      · next start slots heq => exact hsaved _ (hdata _ heq)
      · exact hchild.start
    apply Script.meets_ofExcept_bind (fun d _ => h.defect d)
    intro slots _
    cases herror : r.child.error with
    | some e =>
      exact meets_stopSequence h (hsaves hstart) hstart hchild.stop (h.trail.refl _)
        (hchild.error e herror)
    | none => exact meets_fillSlots h (hsaves hstart) _ _ hstart hchild.stop (h.trail.refl _)

theorem meets_manyScript (h : terms.Follow P S Le) {item : Ty}
    (hsaves : ∀ {start}, P start → ∀ items, S id (.repetition start item items))
    (hsaved : ∀ data, S id data → data.All P) (hstep : Hands P S id step) :
    (manyScript id item step).Meets terms fun r => r.Carries P S ∧ Le (onset step) r.stop := by
  cases step with
  | descend s =>
    exact meets_repeatItem h (hsaves hstep) _ hstep hstep (h.trail.refl s)
      (.inr (Nat.lt_succ_self _))
  | resume r =>
    obtain ⟨hchild, hdata⟩ := hstep
    have hstart : P (savedRepetition item r).1 := by
      unfold savedRepetition
      split
      · next start t items heq =>
        split
        · exact hsaved _ (hdata _ heq)
        · exact hchild.start
      · exact hchild.start
    apply Script.meets_ofExcept_bind (fun d _ => h.defect d)
    intro value _
    cases herror : r.child.error with
    | some e =>
      exact ⟨Result.carries_failure hstart hchild.stop
        ((hchild.error e herror).save (hsaves hstart _)), h.trail.refl _⟩
    | none =>
      exact meets_repeatItem h (hsaves hstart) _ hstart hchild.stop (h.trail.refl _)
        (.inr (Nat.lt_succ_self _))

/-- No built-in rule makes a cursor of its own, whether it descends or is resumed, and it saves only
    what its kind of branch saves. -/
theorem meets_script (h : terms.Follow P S Le) {rule : Rule} (hrule : rule.IsBuiltIn) (view : View)
    (hsaves : ∀ data, rule.Saves P data → S view.id data)
    (hsaved : ∀ data, S view.id data → data.All P) (step : Step) (hstep : Hands P S view.id step) :
    (rule.script view step).Meets terms fun r => r.Carries P S ∧ Le (onset step) r.stop := by
  cases rule with
  | sequence result finish =>
    exact meets_sequenceScript h (fun hstart slots => hsaves (.sequence _ slots) hstart) hsaved
      hstep
  | map source result f =>
    apply (meets_onlyChild h hstep).bind
    intro child hchild
    apply Script.meets_ofExcept_bind (fun d _ => h.defect d)
    intro value _
    exact ⟨hchild.1.withOutput _, hchild.2⟩
  | tryMap source result f =>
    apply (meets_onlyChild h hstep).bind
    intro child hchild
    apply Script.meets_ofExcept_bind (fun d _ => h.defect d)
    intro value _
    split
    · exact ⟨hchild.1.withOutput _, hchild.2⟩
    · exact ⟨hchild.1.withOutput _, hchild.2⟩
    · have hstart := hchild.1.start
      exact ⟨Result.carries_failure hstart hchild.1.stop
        (State.carries_errorHere (h.trail.place hstart) _ _), hchild.2⟩
  | many item =>
    exact meets_manyScript h
      (fun hstart items => hsaves (.repetition _ item items) ⟨hstart, rfl⟩) hsaved hstep
  | firstSuccess result =>
    cases step with
    | descend s => exact meets_tryChildren h _ hstep
    | resume r =>
      apply Script.meets_ofExcept_bind (fun d _ => h.defect d)
      intro value _
      exact ⟨hstep.1, h.trail.refl _⟩
  | bespoke result script => exact hrule.elim

/-- No built-in rule makes a cursor of its own: what holds of the cursors of the children holds of
    those of the branch, of the places of its errors, and of the starts that it saves in them. -/
theorem meets_script_all (h : terms.Follow P (fun _ data => data.All P) Le) {rule : Rule}
    (hrule : rule.IsBuiltIn) (view : View) (step : Step)
    (hstep : Hands P (fun _ data => data.All P) view.id step) :
    (rule.script view step).Meets terms fun r => r.All P ∧ Le (onset step) r.stop := by
  refine meets_script h hrule view (fun data hdata => ?_) (fun _ hdata => hdata) step hstep
  cases rule with
  | sequence result finish =>
    cases data with
    | sequence start slots => exact hdata
    | repetition start t items => exact hdata.elim
    | output o => exact hdata.elim
  | many item =>
    cases data with
    | sequence start slots => exact hdata.elim
    | repetition start t items => exact hdata.1
    | output o => exact hdata.elim
  | _ => exact hdata.elim

end Rule

end Resync
