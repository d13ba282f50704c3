import Resync.Data

namespace Resync

/-- The types of outputs. -/
inductive Ty where
  | char
  | text
  | byte
  | int
  | unit
  | data
  | list (item : Ty)
deriving DecidableEq, Repr

namespace Ty

/-- The values of an output type. -/
abbrev Val : Ty → Type
  | char => Char
  | text => String
  | byte => UInt8
  | int => Int
  | unit => Unit
  | data => Data
  | list item => List item.Val

/-- The placeholder for an output that was never produced. -/
def placeholder : (t : Ty) → t.Val
  | char => '\x00'
  | text => ""
  | byte => (0 : UInt8)
  | int => (0 : Int)
  | unit => ()
  | data => Data.null
  | list _ => []

/-- The value as plain data: characters as texts of one scalar, bytes as numbers. -/
def toData : (t : Ty) → t.Val → Data
  | char, c => .text (String.singleton c)
  | text, s => .text s
  | byte, b => .number b.toNat
  | int, n => .number n
  | unit, () => .null
  | data, d => d
  | list item, values => .array (values.map item.toData)

/-- The values of a list of types, one of each. -/
abbrev Vals : List Ty → Type
  | [] => Unit
  | t :: ts => t.Val × Vals ts

/-- One of each of several values as a list of plain data. -/
def valsToData : (ts : List Ty) → Vals ts → List Data
  | [], () => []
  | t :: ts, (value, values) => t.toData value :: valsToData ts values

end Ty

/-- An output together with its type. A rule that reads the output of a child states the type that
    it expects, and `Output.as?` tells whether it is right. -/
structure Output where
  type : Ty
  value : type.Val

namespace Output

/-- The value, if it has the expected type. -/
def as? (o : Output) (t : Ty) : Option t.Val :=
  if h : o.type = t then some (h ▸ o.value) else none

def toData (o : Output) : Data :=
  o.type.toData o.value

def toText (o : Output) : String :=
  o.toData.toText

@[simp]
theorem as?_self (t : Ty) (value : t.Val) : (Output.mk t value).as? t = some value := by
  simp [as?]

end Output

end Resync
