import Mathlib.Data.List.Forall2
import Resync.Proofs.Engine.Contract
import Resync.Proofs.Traced.Agree
import Resync.WasteCache

namespace Resync

/-- A correspondence between the cursors and the errors of two runs, and between what anchors have
    answered in them. Cursors that correspond stand at one place and raise errors that correspond,
    and these differ at most in how they show their place. What an error carries plays no part. -/
structure Likeness where
  cursor : State → State → Prop
  report : ParseError → ParseError → Prop
  cache : WasteCache → WasteCache → Prop
  pos_eq : ∀ {s t}, cursor s t → s.pos = t.pos
  safeSpot_eq : ∀ {s t}, cursor s t → s.safeSpot = t.safeSpot
  size_eq : ∀ {s t}, cursor s t → s.input.size = t.input.size
  raise : ∀ {s t} kind message, cursor s t →
    report (s.errorHere kind message) (t.errorHere kind message)
  claim : ∀ {e f} id, report e f → report (e.claim id) (f.claim id)
  carry : ∀ {e f} saved saved', report e f → report { e with saved } { f with saved := saved' }
  message_eq : ∀ {e f}, report e f → e.message = f.message
  position_eq : ∀ {e f}, report e f → e.position = f.position
  owner_eq : ∀ {e f}, report e f → e.owner = f.owner

private theorem isSome_eq_of_rel {α β : Type} {R : α → β → Prop} {a : Option α} {b : Option β}
    (h : Option.Rel R a b) : a.isSome = b.isSome := by
  cases h <;> rfl

private theorem rel_map_of_rel {α β α' β' : Type} {R : α → β → Prop} {S : α' → β' → Prop}
    {a : Option α} {b : Option β} {f : α → α'} {g : β → β'} (h : Option.Rel R a b)
    (hfg : ∀ x y, R x y → S (f x) (g y)) : Option.Rel S (a.map f) (b.map g) := by
  cases h with
  | none => exact .none
  | some hxy => exact .some (hfg _ _ hxy)

namespace Likeness

/-- What branches have saved corresponds if it is the same but for the cursor in it. -/
inductive Saves (like : Likeness) : Saved → Saved → Prop
  | sequence {start start' : State} (h : like.cursor start start') (slots : List (Option Output)) :
      Saves like (.sequence start slots) (.sequence start' slots)
  | repetition {start start' : State} (h : like.cursor start start') (item : Ty)
      (items : List item.Val) :
      Saves like (.repetition start item items) (.repetition start' item items)
  | output (o : Output) : Saves like (.output o) (.output o)

/-- The same occurrences have saved what corresponds, in the same order. -/
def Entries (like : Likeness) : List (Nat × Saved) → List (Nat × Saved) → Prop :=
  List.Forall₂ fun entry entry' => entry.1 = entry'.1 ∧ like.Saves entry.2 entry'.2

/-- Errors correspond if they report alike and carry what corresponds. -/
structure Errors (like : Likeness) (e f : ParseError) : Prop where
  report : like.report e f
  saved : like.Entries e.saved f.saved

/-- Outcomes correspond if they have the same output between corresponding cursors, and both fail or
    none does. -/
structure Outcomes (like : Likeness) (r r' : Result) : Prop where
  start : like.cursor r.start r'.start
  stop : like.cursor r.stop r'.stop
  output : r.output = r'.output
  error : Option.Rel like.Errors r.error r'.error

/-- Branches are called alike. -/
inductive Steps (like : Likeness) : Step → Step → Prop
  | descend {s t : State} (h : like.cursor s t) : Steps like (.descend s) (.descend t)
  | resume (index : Nat) {r r' : Result} {saved saved' : Option Saved} (hchild : like.Outcomes r r')
      (hsaved : Option.Rel like.Saves saved saved') :
      Steps like (.resume ⟨index, r, saved⟩) (.resume ⟨index, r', saved'⟩)

variable {like : Likeness}

section Entries

variable {entries entries' : List (Nat × Saved)}

theorem Entries.lookup (h : like.Entries entries entries') (id : Nat) :
    Option.Rel like.Saves (entries.lookup id) (entries'.lookup id) := by
  induction h with
  | nil => exact .none
  | @cons entry entry' entries entries' hentry _ ih =>
    obtain ⟨key, data⟩ := entry
    obtain ⟨key', data'⟩ := entry'
    obtain ⟨rfl, hdata⟩ := hentry
    rw [List.lookup_cons, List.lookup_cons]
    dsimp only
    cases id == key with
    | true => exact .some hdata
    | false => exact ih

theorem Entries.filter (h : like.Entries entries entries') (p : Nat → Bool) :
    like.Entries (entries.filter fun entry => p entry.1) (entries'.filter fun entry => p entry.1) :=
  List.rel_filter (fun _ _ hentry => Iff.of_eq (congrArg (p · = true) hentry.1)) h

theorem Entries.append {others others' : List (Nat × Saved)} (h : like.Entries entries entries')
    (hothers : like.Entries others others') :
    like.Entries (entries ++ others) (entries' ++ others') :=
  List.rel_append h hothers

theorem Entries.cons (id : Nat) {data data' : Saved} (hdata : like.Saves data data')
    (h : like.Entries entries entries') : like.Entries ((id, data) :: entries)
      ((id, data') :: entries') :=
  List.Forall₂.cons ⟨rfl, hdata⟩ h

/-- What is stored for an occurrence in place of what was stored before. -/
theorem Entries.replace (h : like.Entries entries entries') (id : Nat) {data data' : Saved}
    (hdata : like.Saves data data') :
    like.Entries (entries.map fun entry => if entry.1 = id then (id, data) else entry)
      (entries'.map fun entry => if entry.1 = id then (id, data') else entry) := by
  refine List.rel_map (fun entry entry' hentry => ?_) h
  rw [← hentry.1]
  split
  · exact ⟨rfl, hdata⟩
  · exact hentry

end Entries

section Errors

variable {e f : ParseError}

theorem raise_errors {s t : State} (h : like.cursor s t) (kind : ErrorKind) (message : String) :
    like.Errors (s.errorHere kind message) (t.errorHere kind message) :=
  ⟨like.raise kind message h, .nil⟩

theorem Errors.claim (h : like.Errors e f) (id : Nat) : like.Errors (e.claim id) (f.claim id) :=
  ⟨like.claim id h.report, h.saved⟩

theorem Errors.withoutSaved (h : like.Errors e f) : like.Errors e.withoutSaved f.withoutSaved :=
  ⟨like.carry [] [] h.report, .nil⟩

theorem Errors.save (h : like.Errors e f) (id : Nat) {data data' : Saved}
    (hdata : like.Saves data data') : like.Errors (e.save id data) (f.save id data') := by
  have hsome : (e.savedBy? id).isSome = (f.savedBy? id).isSome :=
    isSome_eq_of_rel (h.saved.lookup id)
  refine ⟨like.carry _ _ h.report, ?_⟩
  unfold ParseError.save
  dsimp only
  rw [← hsome]
  split
  · exact h.saved.replace id hdata
  · exact h.saved.append (Entries.cons id hdata .nil)

/-- Errors that correspond are the same mismatches. -/
theorem Errors.sameMismatch_eq {e' f' : ParseError} (h : like.Errors e f) (h' : like.Errors e' f') :
    e.sameMismatch e' = f.sameMismatch f' := by
  unfold ParseError.sameMismatch
  rw [like.position_eq h.report, like.position_eq h'.report, like.message_eq h.report,
    like.message_eq h'.report]

end Errors

section Outcomes

variable {r r' : Result}

theorem Outcomes.claim (h : like.Outcomes r r') (id : Nat) :
    like.Outcomes (r.claim id) (r'.claim id) :=
  ⟨h.start, h.stop, h.output, rel_map_of_rel h.error fun _ _ he => he.claim id⟩

theorem Outcomes.withOutput (h : like.Outcomes r r') (o : Output) :
    like.Outcomes (r.withOutput o) (r'.withOutput o) :=
  ⟨h.start, h.stop, rfl, h.error⟩

theorem Outcomes.read_eq (h : like.Outcomes r r') (expected : Ty) :
    r.read expected = r'.read expected := by
  rw [Result.read, Result.read, h.output]

theorem Outcomes.isOk_eq (h : like.Outcomes r r') : r.isOk = r'.isOk := by
  rw [Result.isOk, Result.isOk, ← Option.not_isSome, ← Option.not_isSome,
    isSome_eq_of_rel h.error]

/-- Both outcomes are without an error, or both have one. -/
theorem Outcomes.error_cases (h : like.Outcomes r r') :
    (r.error = none ∧ r'.error = none) ∨
      ∃ e f, r.error = some e ∧ r'.error = some f ∧ like.Errors e f := by
  obtain ⟨start, stop, output, error⟩ := r
  obtain ⟨start', stop', output', error'⟩ := r'
  cases h.error with
  | none => exact .inl ⟨rfl, rfl⟩
  | some he => exact .inr ⟨_, _, rfl, rfl, he⟩

theorem success_outcomes {start start' s t : State} (hstart : like.cursor start start')
    (hs : like.cursor s t) (o : Output) :
    like.Outcomes (.success start s o) (.success start' t o) :=
  ⟨hstart, hs, rfl, .none⟩

theorem failure_outcomes {start start' s t : State} {e f : ParseError}
    (hstart : like.cursor start start') (hs : like.cursor s t) (o : Output)
    (he : like.Errors e f) : like.Outcomes (.failure start s o e) (.failure start' t o f) :=
  ⟨hstart, hs, rfl, .some he⟩

end Outcomes

section Cursors

variable {s t before before' : State}

theorem crossedSafeSpotSince_eq (hs : like.cursor s t) (hbefore : like.cursor before before') :
    s.crossedSafeSpotSince before = t.crossedSafeSpotSince before' := by
  unfold State.crossedSafeSpotSince
  rw [like.safeSpot_eq hs, like.pos_eq hbefore]

theorem remaining_eq (hs : like.cursor s t) : s.remaining = t.remaining := by
  rw [State.remaining, State.remaining, like.size_eq hs, like.pos_eq hs]

theorem atEnd_eq (hs : like.cursor s t) : s.atEnd = t.atEnd := by
  rw [State.atEnd, State.atEnd, like.size_eq hs, like.pos_eq hs]

end Cursors

end Likeness

end Resync
