import Resync.Proofs.Leaf.Exact

namespace Resync

/-- The same can be read from two cursors, up to any occurrence of a text that is found ahead. -/
structure State.ReadsLike (s t : State) : Prop where
  scalars : s.scalars = t.scalars
  bytes : s.currentBytes = t.currentBytes
  atEnd : s.atEnd = t.atEnd
  upTo : ∀ {needle offset}, Recoverer.offsetOfList? needle s.scalars = some offset →
    s.stringTo (s.moveBy offset) = t.stringTo (t.moveBy offset)

/-- At one place of one input the same can be read, however the cursors came there. -/
theorem State.readsLike_of_pos_eq {s t : State} (hinput : s.input = t.input)
    (hpos : s.pos = t.pos) : s.ReadsLike t := by
  have hscalars : s.scalars = t.scalars := by rw [scalars, scalars, hinput, hpos]
  refine ⟨hscalars, by rw [currentBytes, currentBytes, hinput, hpos],
    by rw [State.atEnd, State.atEnd, hinput, hpos], ?_⟩
  intro needle offset _
  rw [stringTo, stringTo, moveBy_pos, moveBy_pos, hscalars, hinput, hpos]

namespace Primitive

/-- What a primitive leaf decides to do from a cursor. -/
inductive Move (α : Type) where
  /-- What the label names is not there. -/
  | refuse (label : String)
  /-- There is a match, and it consumes nothing. -/
  | stay (value : α)
  /-- There is a match of so many bytes. -/
  | advance (count : Nat) (value : α)

/-- A decision carried out. -/
def Move.outcome {α : Type} (s : State) : Move α → Except ParseError (State × α)
  | refuse label => .error (s.syntaxError label)
  | stay value => .ok (s, value)
  | advance count value => .ok (s.moveBy count, value)

/-- A decision to move by nothing but scalars that can be read. -/
def Move.Passes {α : Type} (cs : List Char) : Move α → Prop
  | refuse _ | stay _ => True
  | advance count _ => ∃ front back, cs = front ++ back ∧ count = Utf8.width front

/-- The leaves that read scalars, and not single bytes. -/
def ReadsScalars : Primitive → Prop
  | byte _ | anyByte => False
  | _ => True

variable {s t : State}

/-- Two computations carry out the same decision of an admitted kind, each from its own cursor. -/
def SameMove {α : Type} (admitted : Move α → Prop) (s t : State)
    (x y : Except ParseError (State × α)) : Prop :=
  ∃ move : Move α, admitted move ∧ x = move.outcome s ∧ y = move.outcome t

private theorem SameMove.imp {α : Type} {admitted admitted' : Move α → Prop}
    {x y : Except ParseError (State × α)} (h : SameMove admitted s t x y)
    (himp : ∀ move, admitted move → admitted' move) : SameMove admitted' s t x y :=
  Exists.imp (fun move hmove => ⟨himp move hmove.1, hmove.2⟩) h

/-- From cursors that read the same, one scalar is matched or not by both. -/
private theorem sameMove_matchScalar (h : s.ReadsLike t) (label : String) (p : Char → Bool) :
    SameMove (·.Passes s.scalars) s t (matchScalar label p s) (matchScalar label p t) := by
  unfold matchScalar
  rw [← h.scalars]
  cases s.scalars with
  | nil => exact ⟨.refuse label, trivial, rfl, rfl⟩
  | cons found rest =>
    dsimp only
    split
    · exact ⟨.advance found.utf8Size found, ⟨[found], rest, rfl, (Utf8.width_cons found []).symm⟩,
        rfl, rfl⟩
    · exact ⟨.refuse label, trivial, rfl, rfl⟩

/-- From cursors that read the same, one byte is matched or not by both. -/
private theorem sameMove_matchByte (h : s.ReadsLike t) (label : String) (p : UInt8 → Bool) :
    SameMove (fun _ => True) s t (matchByte label p s) (matchByte label p t) := by
  unfold matchByte
  rw [← h.bytes]
  cases s.currentBytes with
  | nil => exact ⟨.refuse label, trivial, rfl, rfl⟩
  | cons found rest =>
    dsimp only
    split
    · exact ⟨.advance 1 found, trivial, rfl, rfl⟩
    · exact ⟨.refuse label, trivial, rfl, rfl⟩

/-- From cursors that read the same, a text is matched or not by both. -/
private theorem sameMove_matchText (h : s.ReadsLike t) (expected : String) :
    SameMove (·.Passes s.scalars) s t (matchText expected s) (matchText expected t) := by
  unfold matchText
  rw [← h.scalars]
  split
  · next hprefix =>
    obtain ⟨back, hback⟩ := List.isPrefixOf_iff_prefix.1 hprefix
    exact ⟨.advance expected.utf8ByteSize expected,
      ⟨expected.toList, back, hback.symm, Utf8.utf8ByteSize_eq_width expected⟩, rfl, rfl⟩
  · exact ⟨.refuse expected, trivial, rfl, rfl⟩

private theorem sameMove_matchDigits (h : s.ReadsLike t) :
    SameMove (·.Passes s.scalars) s t (.ok (matchDigits s)) (.ok (matchDigits t)) := by
  unfold matchDigits
  rw [← h.scalars]
  exact ⟨.advance _ _, ⟨_, _, List.takeWhile_append_dropWhile.symm, rfl⟩, rfl, rfl⟩

private theorem sameMove_matchSomeDigits (h : s.ReadsLike t) :
    SameMove (·.Passes s.scalars) s t (matchSomeDigits s) (matchSomeDigits t) := by
  unfold matchSomeDigits
  rw [← h.scalars]
  split
  · exact ⟨.refuse "digit", trivial, rfl, rfl⟩
  · exact sameMove_matchDigits h

private theorem sameMove_matchEnd (h : s.ReadsLike t) :
    SameMove (·.Passes s.scalars) s t (matchEnd s) (matchEnd t) := by
  unfold matchEnd
  rw [← h.atEnd]
  split
  · exact ⟨.stay (), trivial, rfl, rfl⟩
  · exact ⟨.refuse "end of input", trivial, rfl, rfl⟩

/-- From cursors that read the same, an occurrence of a text is found at the same distance. -/
private theorem sameMove_matchUpTo (h : s.ReadsLike t) (stop : String) :
    SameMove (·.Passes s.scalars) s t (matchUpTo stop s) (matchUpTo stop t) := by
  unfold matchUpTo
  rw [← h.scalars]
  cases hoffset : Recoverer.offsetOfList? stop.toList s.scalars with
  | none => exact ⟨.refuse stop, trivial, rfl, rfl⟩
  | some offset =>
    obtain ⟨front, back, hsplit, -, hwidth⟩ := Recoverer.exists_append_of_offsetOfList? hoffset
    refine ⟨.advance offset (s.stringTo (s.moveBy offset)), ⟨front, back, hsplit, hwidth⟩, rfl, ?_⟩
    dsimp only [Move.outcome]
    rw [h.upTo hoffset]

/-- From cursors that read the same, a primitive leaf makes the same move, by scalars unless it
    reads bytes. What it does is decided by what can be read, and how the cursor came to its place
    plays no part in it. -/
theorem sameMove_run (primitive : Primitive) (h : s.ReadsLike t) :
    SameMove (fun move => primitive.ReadsScalars → move.Passes s.scalars) s t
      (primitive.leaf.run s) (primitive.leaf.run t) := by
  cases primitive with
  | char expected => exact (sameMove_matchScalar h _ _).imp fun _ hpasses _ => hpasses
  | satisfy label p => exact (sameMove_matchScalar h _ _).imp fun _ hpasses _ => hpasses
  | literal expected => exact (sameMove_matchText h expected).imp fun _ hpasses _ => hpasses
  | anyChar => exact (sameMove_matchScalar h _ _).imp fun _ hpasses _ => hpasses
  | digits => exact (sameMove_matchDigits h).imp fun _ hpasses _ => hpasses
  | someDigits => exact (sameMove_matchSomeDigits h).imp fun _ hpasses _ => hpasses
  | endOfInput => exact (sameMove_matchEnd h).imp fun _ hpasses _ => hpasses
  | upTo stop => exact (sameMove_matchUpTo h stop).imp fun _ hpasses _ => hpasses
  | byte expected => exact (sameMove_matchByte h _ _).imp fun _ _ hscalars => hscalars.elim
  | anyByte => exact (sameMove_matchByte h _ _).imp fun _ _ hscalars => hscalars.elim

end Primitive

end Resync
