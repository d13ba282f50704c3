import Resync.Error

namespace Resync

/-- The short form of an error: message, location and excerpt, or message and dump. -/
def ParseError.plain (e : ParseError) : String :=
  if e.binary then e.message ++ ":\n" ++ e.excerpt
  else
    e.message ++ " [" ++ toString e.location.line ++ ":" ++ toString e.location.column ++ "] " ++
      e.excerpt

namespace Report

/-- The errors in their short form, one after the other. -/
def plain (errors : List ParseError) : String :=
  "\n".intercalate (errors.map ParseError.plain)

/-- The parts of a snippet that are set apart by colour. -/
inductive Accent where
  | error
  | title
  | frame
deriving DecidableEq, Repr

/-- The control sequences that switch an accent on. -/
def Accent.start : Accent → String
  | error => "\x1b[1m\x1b[91m"
  | title => "\x1b[1m"
  | frame => "\x1b[1m\x1b[94m"

/-- The control sequence that ends any accent. -/
def accentStop : String := "\x1b[0m"

/-- How snippets are written. -/
structure Style where
  /-- The name of the source, shown above the snippet. -/
  path : Option String
  colored : Bool

/-- A part of a snippet, accented if the style has colours. -/
def Style.paint (style : Style) (accent : Accent) (s : String) : String :=
  if style.colored then accent.start ++ s ++ accentStop else s

/-- The longest initial part of a text that is at most `width` bytes long, and the rest of it. -/
def splitAtWidth (width : Nat) : List Char → List Char × List Char
  | [] => ([], [])
  | c :: cs =>
    if c.utf8Size ≤ width then
      let (before, after) := splitAtWidth (width - c.utf8Size) cs
      (c :: before, after)
    else ([], c :: cs)

/-- What comes after the last newline. -/
def lastLine (cs : List Char) : List Char :=
  (cs.reverse.takeWhile (· != '\n')).reverse

def blanks (n : Nat) : String :=
  String.ofList (List.replicate n ' ')

/-- The line of the source that holds the error, with the message under its position. -/
def snippet (style : Style) (source : String) (e : ParseError) : String :=
  let (before, after) := splitAtWidth e.position source.toList
  let indent := lastLine before
  let number := toString (before.count '\n' + 1)
  let margin := blanks (number.length + 1)
  let bar := style.paint .frame "|"
  let title := style.paint .error "error" ++ style.paint .title (": " ++ e.message)
  let heading :=
    match style.path with
    | some path =>
      [blanks number.length ++ style.paint .frame "--> " ++ path ++ ":" ++ number ++ ":" ++
        toString (indent.length + 1)]
    | none => []
  "\n".intercalate <|
    [title] ++ heading ++
    [margin ++ bar,
     style.paint .frame number ++ " " ++ bar ++ " " ++
       String.ofList (indent ++ after.takeWhile (· != '\n')),
     margin ++ bar ++ " " ++ blanks indent.length ++ style.paint .error "^" ++ " " ++
       style.paint .error e.message]

/-- The errors as their reader sees them where the source is at hand: as snippets of it, except
    those of raw bytes, which have no lines to annotate and are always shown in the short form. -/
def annotated (style : Style) (source : String) (errors : List ParseError) : String :=
  "\n".intercalate <| errors.map fun e => if e.binary then e.plain else snippet style source e

end Report

end Resync
