import Resync.Text.Quoted
import Resync.Text.Utf8

namespace Resync.Excerpt

/-- The glyph that stands at the position of an error. -/
def marker : Char := '▶'

/-- The number of scalars of a line that are shown before the marker. -/
def scalarsBefore : Nat := 10

/-- The number of scalars of a line that are shown after the marker. -/
def scalarsAfter : Nat := 20

/-- The number of bytes in a row of a dump. -/
def rowWidth : Nat := 16

/-- The part of a line around a position, given what stands before and after it. -/
def ofLine (before after : List Char) : List Char :=
  before.drop (before.length - scalarsBefore) ++ marker :: after.take scalarsAfter

/-- The excerpt of a text at `pos`, clipped to the line from `start` to `stop`, with the marker at
    the position. A side whose bounds are not both scalar boundaries is left out. -/
def ofText (bytes : List UInt8) (start pos stop : Nat) : String :=
  let side (start stop : Nat) := (Utf8.decode? ((bytes.drop start).take (stop - start))).getD []
  String.ofList (ofLine (side start pos) (side pos stop))

/-- A byte as the dump shows it among characters: itself if it is printable ASCII, else a dot. -/
def visibleByte (b : UInt8) : Char :=
  if 0x20 ≤ b ∧ b ≤ 0x7E then Char.ofNat b.toNat else '.'

/-- One cell of the hexadecimal column: the gap before it, the marker if it is the marked one, and
    two digits or two blanks. -/
def hexCell (row : List UInt8) (marked i : Nat) : List Char :=
  (if i = 0 then [] else if i = rowWidth / 2 then [' ', ' '] else [' ']) ++
    (if i = marked then [marker] else []) ++
    match row[i]? with
    | some b => Text.hexadecimal 2 b.toNat
    | none => [' ', ' ']

def hexColumn (row : List UInt8) (marked : Nat) : List Char :=
  (List.range rowWidth).flatMap (hexCell row marked)

/-- The column of characters. A marker that no byte of the row carries stands at its end. -/
def characterColumn (row : List UInt8) (marked : Nat) : List Char :=
  let shown := row.map visibleByte
  shown.take marked ++ marker :: shown.drop marked

/-- The row of the dump that holds `pos`, with the marker in both columns. This is what an error
    shows of raw bytes, which have no lines. -/
def hexdump (bytes : List UInt8) (pos : Nat) : String :=
  let offset := pos - pos % rowWidth
  let row := (bytes.drop offset).take rowWidth
  String.ofList
    (' ' :: Text.hexadecimal 8 offset ++ [' ', ' '] ++ hexColumn row (pos - offset) ++
      [' ', ' ', '|'] ++ characterColumn row (pos - offset) ++ ['|'])

end Resync.Excerpt
