import Resync.Error

namespace Resync.Diagnostic

/-- A named record with its fields, on one line: a description of a value for the developer of a
    grammar, with the fields that tell two values apart. It is not meant for the reader of an
    error. -/
def record (name : String) (fields : List (String × String)) : String :=
  name ++ " \x7b " ++ ", ".intercalate (fields.map fun f => f.1 ++ ": " ++ f.2) ++ " \x7d"

def sequence (items : List String) : String :=
  "[" ++ ", ".intercalate items ++ "]"

/-- An optional value. -/
def optional : Option String → String
  | none => "None"
  | some value => "Some(" ++ value ++ ")"

def ofNat? (n : Option Nat) : String :=
  optional (n.map toString)

def ofBool (b : Bool) : String :=
  if b then "true" else "false"

def ofInput (input : Input) : String :=
  record "Input"
    [("len", toString input.size),
     ("config", record "Config"
       [("max_errors", toString input.maxErrors), ("binary", ofBool input.binary)])]

def ofState (s : State) : String :=
  record "State"
    [("pos", toString s.pos), ("line", toString s.line),
     ("prev_newline", ofNat? s.prevNewline), ("safe_spot", toString s.safeSpot)]

def ofLocation (l : Location) : String :=
  record "Location" [("line", toString l.line), ("column", toString l.column)]

def ofKind : ErrorKind → String
  | .syntactic => "Syntax"
  | .semantic => "Semantic"

/-- An error. Of what it carries only the parsers are named, since only they can read it. -/
def ofError (e : ParseError) : String :=
  record "ParserError"
    [("kind", ofKind e.kind), ("message", Text.quoted e.message),
     ("position", toString e.position), ("location", ofLocation e.location),
     ("owner", ofNat? e.owner),
     ("saved", sequence (e.saved.map fun entry => toString entry.1))]

def ofErrors (errors : List ParseError) : String :=
  record "Errors" [("errors", sequence (errors.map ofError))]

/-- The extent of a parse and its error, without the output. -/
def ofExtent (start stop : State) (error : Option ParseError) : String :=
  record "ParseResult"
    [("start", toString start.pos), ("end", toString stop.pos), ("output", "()"),
     ("error", optional (error.map ofError))]

/-- A parser under one of its names, told by its label. -/
def ofParser (name label : String) : String :=
  name ++ "(" ++ Text.quoted label ++ ")"

end Resync.Diagnostic
