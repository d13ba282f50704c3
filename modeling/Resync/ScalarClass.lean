namespace Resync

/-- A property of single scalars that can be named in a grammar. -/
inductive ScalarClass where
  | oneOf (members : String)
  | noneOf (excluded : String)
  | letter
  | digit
  | nonAscii
  | any
  | none
deriving DecidableEq, Repr

/-- Whether a scalar is in a class. Letters and digits are those of ASCII. -/
def ScalarClass.contains : ScalarClass → Char → Bool
  | oneOf members, c => members.toList.contains c
  | noneOf excluded, c => !excluded.toList.contains c
  | letter, c => c.isAlpha
  | digit, c => c.isDigit
  | nonAscii, c => 0x80 ≤ c.toNat
  | any, _ => true
  | none, _ => false

end Resync
