import Resync.Text.Quoted

namespace Resync

/-- A plain tree-shaped value, which parsers may produce when no more specific type is wanted. It
    has a text that it stands for, and a compact printed form. -/
inductive Data where
  | null
  | bool (value : Bool)
  | number (value : Int)
  | text (value : String)
  | array (items : List Data)
  | object (fields : List (String × Data))

namespace Data

instance : Inhabited Data := ⟨null⟩

/-- The text that a value stands for: texts as they are, numbers in decimal, the items of an array
    one after the other. Nothing else has a text. -/
def toText : Data → String
  | text value => value
  | number value => toString value
  | array items => textOfItems items
  | null | bool _ | object _ => ""
where
  textOfItems : List Data → String
    | [] => ""
    | item :: items => item.toText ++ textOfItems items

/-- How one scalar is written inside a printed string. -/
def escapeScalar (c : Char) : List Char :=
  if c = '"' then ['\\', '"']
  else if c = '\\' then ['\\', '\\']
  else if c = '\n' then ['\\', 'n']
  else if c = '\t' then ['\\', 't']
  else if c = '\r' then ['\\', 'r']
  else if c = '\x08' then ['\\', 'b']
  else if c = '\x0c' then ['\\', 'f']
  else if c.toNat < 0x20 then '\\' :: 'u' :: Text.hexadecimal 4 c.toNat
  else [c]

def printString (s : String) : String :=
  String.ofList ('"' :: s.toList.flatMap escapeScalar ++ ['"'])

/-- The compact printed form of a value, without blanks. The fields of an object stand in the order
    of their names. -/
def print : Data → String
  | null => "null"
  | bool true => "true"
  | bool false => "false"
  | number value => toString value
  | text value => printString value
  | array items => "[" ++ ",".intercalate (printItems items) ++ "]"
  | object fields =>
    let printed := (printFields fields).mergeSort fun f g => f.1 ≤ g.1
    "\x7b" ++ ",".intercalate (printed.map fun f => printString f.1 ++ ":" ++ f.2) ++ "\x7d"
where
  printItems : List Data → List String
    | [] => []
    | item :: items => item.print :: printItems items
  printFields : List (String × Data) → List (String × String)
    | [] => []
    | (name, value) :: fields => (name, value.print) :: printFields fields

end Data

end Resync
