import Resync.Parser.Combinators

namespace Resync.Parser

variable {s t u : Ty}

/-- The text that a value of an output type stands for. -/
def textOf (t : Ty) (value : t.Val) : String :=
  (t.toData value).toText

/-- The output as it is. -/
def unchanged (parser : Parser t) : Parser t :=
  parser.map t id

def toData (parser : Parser t) : Parser .data :=
  parser.map .data t.toData

def toText (parser : Parser t) : Parser .text :=
  parser.map .text (textOf t)

/-- The text of the output with ASCII letters in upper case. -/
def toUpper (parser : Parser t) : Parser .text :=
  parser.map .text fun value => (textOf t value).map Char.toUpper

/-- The number of scalars in the text of the output. -/
def textLength (parser : Parser t) : Parser .int :=
  parser.map .int fun value => Int.ofNat (textOf t value).length

def discard (parser : Parser t) : Parser .unit :=
  parser.map .unit fun _ => ()

/-- The output as data beside a tag. -/
def tagged (tag : String) (parser : Parser t) : Parser .data :=
  parser.map .data fun value => .object [("of", t.toData value), ("tag", .text tag)]

/-- The number that ASCII digits denote, if they denote a byte. Zeros in front do not matter. -/
def readByte? (digits : List Char) : Option UInt8 :=
  if digits.isEmpty || !digits.all Primitive.isDigit then none
  else
    let value := digits.foldl (fun n c => 10 * n + (c.toNat - '0'.toNat)) 0
    if value < 256 then some (UInt8.ofNat value) else none

/-- The text of the output as the number of a byte. -/
def byteNumber (parser : Parser t) : Parser .byte :=
  parser.tryMap .byte fun value =>
    match readByte? (textOf t value).toList with
    | some b => .ok b
    | none => .error ("not a byte: " ++ textOf t value)

/-- Rejects every output. -/
def rejected (message : String) (parser : Parser t) : Parser .data :=
  parser.tryMap .data fun _ => .error message

/-- The text of the output, unless it is a given one. -/
def textOtherThan (excluded message : String) (parser : Parser t) : Parser .text :=
  parser.tryMap .text fun value =>
    if textOf t value = excluded then .error message else .ok (textOf t value)

/-- The output as data, unless its text is too long. -/
def textAtMost (limit : Nat) (message : String) (parser : Parser t) : Parser .data :=
  parser.tryMap .data fun value =>
    if limit < (textOf t value).length then .error message else .ok (t.toData value)

/-- The outputs of two parsers in order, as a list. -/
def listed2 (a : Parser s) (b : Parser t) : Parser .data :=
  a.map2 b .data fun x y => .array [s.toData x, t.toData y]

/-- The texts of two parsers in order, as one text. -/
def joined2 (a : Parser s) (b : Parser t) : Parser .text :=
  a.map2 b .text fun x y => (Data.array [s.toData x, t.toData y]).toText

/-- The outputs of three parsers in order, as a list. -/
def listed3 (a : Parser s) (b : Parser t) (c : Parser u) : Parser .data :=
  a.map3 b c .data fun x y z => .array [s.toData x, t.toData y, u.toData z]

/-- The texts of three parsers in order, as one text. -/
def joined3 (a : Parser s) (b : Parser t) (c : Parser u) : Parser .text :=
  a.map3 b c .text fun x y z => (Data.array [s.toData x, t.toData y, u.toData z]).toText

/-- A sequence that gives what the requested slots hold, as a list. -/
def taking (label : String) (items : List AnyParser) (requests : List (Nat × Ty)) : Parser .data :=
  sequence label items requests .data fun values => .array (Ty.valsToData _ values)

/-- A sequence that gives all its slots in order, as a list. -/
def inOrder (label : String) (items : List AnyParser) : Parser .data :=
  taking label items (items.zipIdx.map fun (item, index) => (index, item.1))

end Resync.Parser
