import Resync.Leaf

namespace Resync

/-- The leaves that grammars are built from: single scalars, literal texts, digits, the end of the
    input, and single bytes. Each comes with the recoverer that fits it, which is a search for what
    it matches, or none that could serve where it may match without consuming. -/
inductive Primitive where
  /-- One given scalar. -/
  | char (expected : Char)
  /-- One scalar with a property. -/
  | satisfy (label : String) (p : Char → Bool)
  /-- A given text. -/
  | literal (expected : String)
  /-- Any scalar. -/
  | anyChar
  /-- ASCII digits, possibly none. -/
  | digits
  /-- ASCII digits, at least one. -/
  | someDigits
  /-- The end of the input. -/
  | endOfInput
  /-- What stands before the next occurrence of a text. -/
  | upTo (stop : String)
  /-- One given byte. -/
  | byte (expected : UInt8)
  /-- Any byte. -/
  | anyByte

namespace Primitive

def isDigit (c : Char) : Bool :=
  '0' ≤ c && c ≤ '9'

/-- Matches one scalar with a property. -/
def matchScalar (label : String) (p : Char → Bool) (s : State) : Except ParseError (State × Char) :=
  match s.scalars with
  | found :: _ =>
    if p found then .ok (s.moveBy found.utf8Size, found) else .error (s.syntaxError label)
  | [] => .error (s.syntaxError label)

/-- Matches a given text. -/
def matchText (expected : String) (s : State) : Except ParseError (State × String) :=
  if expected.toList.isPrefixOf s.scalars then .ok (s.moveBy expected.utf8ByteSize, expected)
  else .error (s.syntaxError expected)

/-- Matches the leading ASCII digits, which may be none. -/
def matchDigits (s : State) : State × String :=
  let found := s.scalars.takeWhile isDigit
  (s.moveBy (Utf8.width found), String.ofList found)

/-- Matches at least one leading ASCII digit. -/
def matchSomeDigits (s : State) : Except ParseError (State × String) :=
  match s.scalars.takeWhile isDigit with
  | [] => .error (s.syntaxError "digit")
  | _ :: _ => .ok (matchDigits s)

/-- Matches the end of the input. -/
def matchEnd (s : State) : Except ParseError (State × Unit) :=
  if s.atEnd then .ok (s, ()) else .error (s.syntaxError "end of input")

/-- Matches what stands before the next occurrence of a text, which has to occur. -/
def matchUpTo (stop : String) (s : State) : Except ParseError (State × String) :=
  match Recoverer.offsetOfList? stop.toList s.scalars with
  | some offset =>
    let found := s.moveBy offset
    .ok (found, s.stringTo found)
  | none => .error (s.syntaxError stop)

/-- Matches one byte with a property. -/
def matchByte (label : String) (p : UInt8 → Bool) (s : State) : Except ParseError (State × UInt8) :=
  match s.currentBytes with
  | found :: _ => if p found then .ok (s.moveBy 1, found) else .error (s.syntaxError label)
  | [] => .error (s.syntaxError label)

/-- The label of the leaf that matches a given byte. -/
def byteLabel (expected : UInt8) : String :=
  "0x" ++ String.ofList (Text.hexadecimal 2 expected.toNat)

/-- A byte is there unless the input is at its end, and then there is none ahead either. -/
def anyByteWaste (s : State) : Waste :=
  if s.atEnd then .tooMuch else .units 0

/-- The leaf that a primitive stands for. -/
def leaf : Primitive → Leaf
  | char expected =>
    { label := String.singleton expected, type := .char
      run := matchScalar (String.singleton expected) (· == expected)
      recoverer := some (.find (· == expected)), safeSpot := false }
  | satisfy label p =>
    { label, type := .char, run := matchScalar label p
      recoverer := some (.find p), safeSpot := false }
  | literal expected =>
    { label := expected, type := .text, run := matchText expected
      recoverer := some (if expected.isEmpty then .never else .findText expected)
      safeSpot := false }
  | anyChar =>
    { label := "any character", type := .char, run := matchScalar "any character" fun _ => true
      recoverer := some (.find fun _ => true), safeSpot := false }
  | digits =>
    { label := "digits", type := .text, run := fun s => .ok (matchDigits s)
      recoverer := some .never, safeSpot := false }
  | someDigits =>
    { label := "digit", type := .text, run := matchSomeDigits
      recoverer := some (.find isDigit), safeSpot := false }
  | endOfInput =>
    { label := "end of input", type := .unit, run := matchEnd
      recoverer := some .never, safeSpot := false }
  | upTo stop =>
    { label := "until " ++ stop, type := .text, run := matchUpTo stop
      recoverer := some .never, safeSpot := false }
  | byte expected =>
    { label := byteLabel expected, type := .byte
      run := matchByte (byteLabel expected) (· == expected)
      recoverer := some (.findByte (· == expected)), safeSpot := false }
  | anyByte =>
    { label := "any byte", type := .byte, run := matchByte "any byte" fun _ => true
      recoverer := some (.fast anyByteWaste), safeSpot := false }

end Primitive

end Resync
