import Resync.Text.Unprintable

namespace Resync.Text

/-- Lower-case hexadecimal digits of a number, padded with zeros to at least `places`. -/
def hexadecimal (places n : Nat) : List Char :=
  let digits := Nat.toDigits 16 n
  List.replicate (places - digits.length) '0' ++ digits

/-- How one scalar is written between the quotes. -/
def quoteScalar (c : Char) : List Char :=
  if c = '"' then ['\\', '"']
  else if c = '\\' then ['\\', '\\']
  else if c = '\n' then ['\\', 'n']
  else if c = '\t' then ['\\', 't']
  else if c = '\r' then ['\\', 'r']
  else if c = '\x00' then ['\\', '0']
  else if isUnprintable c then "\\u\x7b".toList ++ hexadecimal 1 c.toNat ++ ['\x7d']
  else [c]

/-- The text between double quotes, as diagnostic descriptions and log records show it: the quote
    and the backslash are escaped, four controls have short names, and every other unprintable
    scalar is written by its hexadecimal number. Nothing else changes, so ordinary text of any
    language stays readable. -/
def quoted (s : String) : String :=
  String.ofList ('"' :: s.toList.flatMap quoteScalar ++ ['"'])

end Resync.Text
