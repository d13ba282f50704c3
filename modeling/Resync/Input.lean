import Resync.Text.Utf8

namespace Resync

/-- The number of errors after which recovery stops, unless another number is asked for. -/
def defaultMaxErrors : Nat := 10

/-- What a parser runs on: the bytes of a text, or raw bytes, with the number of errors after which
    recovery stops. Text counts in scalars and keeps its cursors on scalar boundaries; raw bytes
    count in bytes and have no boundaries to keep. The bytes are those of some text, unless the
    input is binary. -/
structure Input where
  bytes : List UInt8
  binary : Bool
  maxErrors : Nat
  encodesText : binary = false → ∃ cs, bytes = Utf8.encode cs

namespace Input

/-- The input that holds a text. -/
def text (s : String) : Input where
  bytes := Utf8.encode s.toList
  binary := false
  maxErrors := defaultMaxErrors
  encodesText := fun _ => ⟨s.toList, rfl⟩

/-- The input that holds raw bytes. -/
def ofBytes (bytes : List UInt8) : Input where
  bytes := bytes
  binary := true
  maxErrors := defaultMaxErrors
  encodesText := fun h => nomatch h

/-- The same content under another error budget. -/
def withMaxErrors (input : Input) (maxErrors : Nat) : Input :=
  { input with maxErrors }

/-- The length in bytes. -/
def size (input : Input) : Nat :=
  input.bytes.length

def isEmpty (input : Input) : Bool :=
  input.size == 0

/-- The whole content as text. Bytes that are no text read as replacement scalars. -/
def asText (input : Input) : String :=
  String.ofList (Utf8.decodeLossy input.bytes)

/-- The bytes from `start` up to `stop`. -/
def slice (input : Input) (start stop : Nat) : List UInt8 :=
  (input.bytes.drop start).take (stop - start)

/-- The scalars that can be read from `start` on, up to the first byte that belongs to none. Inside
    a scalar there are none. -/
def scalarsFrom (input : Input) (start : Nat) : List Char :=
  Utf8.decodeLongest (input.bytes.drop start)

/-- Moves an offset forward to the next scalar boundary of a text. Any offset of a binary input
    stays where it is. -/
def align (input : Input) (pos : Nat) : Nat :=
  if input.binary then pos
  else pos + ((input.bytes.drop pos).takeWhile Utf8.isContinuation).length

/-- The number of units from `start` up to `stop`: scalars of a text, counted by their leading
    bytes, and bytes of a binary input. A range that is not inside the input holds none. -/
def units (input : Input) (start stop : Nat) : Nat :=
  if start ≤ stop ∧ stop ≤ input.size then
    if input.binary then stop - start
    else (input.slice start stop).countP fun b => !Utf8.isContinuation b
  else 0

end Input

end Resync
