import Resync.State.Lines
import Resync.Output

namespace Resync

/-- What can go wrong in an input. -/
inductive ErrorKind where
  /-- A leaf met something else than it expected. -/
  | syntactic
  /-- A step after successful parsing rejected what was parsed. -/
  | semantic
deriving DecidableEq, Repr

/-- What a branch keeps in an error for its own resumption. -/
inductive Saved where
  /-- Where a sequence started and the outputs that its children have produced. -/
  | sequence (start : State) (slots : List (Option Output))
  /-- Where a repetition started and the items that it has collected. -/
  | repetition (start : State) (item : Ty) (items : List item.Val)
  /-- Any other output. -/
  | output (output : Output)

/-- An error at a position of an input. It knows the parser that raised or claimed it, and on its
    way up it carries what the branches it leaves have produced so far, so that they can go on from
    there once recovery has found a place to resume. -/
structure ParseError where
  kind : ErrorKind
  message : String
  position : Nat
  location : Location
  excerpt : String
  binary : Bool
  /-- The parser that raised or claimed the error. -/
  owner : Option Nat
  /-- What the parsers on the way have saved, the innermost first. -/
  saved : List (Nat × Saved)

namespace ParseError

/-- Attributes an error to a parser, unless it is attributed already. -/
def claim (e : ParseError) (id : Nat) : ParseError :=
  { e with owner := e.owner.or (some id) }

/-- What a parser has saved in the error. -/
def savedBy? (e : ParseError) (id : Nat) : Option Saved :=
  e.saved.lookup id

/-- Stores something for a parser, in place of what it stored before. -/
def save (e : ParseError) (id : Nat) (data : Saved) : ParseError :=
  let stored :=
    if (e.savedBy? id).isSome then
      e.saved.map fun entry => if entry.1 = id then (id, data) else entry
    else e.saved ++ [(id, data)]
  { e with saved := stored }

/-- The error without anything saved in it. -/
def withoutSaved (e : ParseError) : ParseError :=
  { e with saved := [] }

/-- Two errors are the same mismatch when position and message agree. -/
def sameMismatch (e f : ParseError) : Bool :=
  e.position == f.position && e.message == f.message

end ParseError

namespace State

/-- An error of a kind at the cursor. -/
def errorHere (s : State) (kind : ErrorKind) (message : String) : ParseError where
  kind := kind
  message := message
  position := min s.pos s.input.size
  location := s.locate s.pos
  excerpt := s.excerpt s.pos
  binary := s.input.binary
  owner := none
  saved := []

/-- The error of a parser that expected what its label names. -/
def syntaxError (s : State) (label : String) : ParseError :=
  s.errorHere .syntactic ("expected \"" ++ label ++ "\"")

/-- The error of a step that rejects what was parsed. -/
def semanticError (s : State) (message : String) : ParseError :=
  s.errorHere .semantic message

end State

/-- Errors by position; those at one position stay in the order in which they were found. -/
def sortErrors (errors : List ParseError) : List ParseError :=
  errors.mergeSort fun e f => e.position ≤ f.position

end Resync
