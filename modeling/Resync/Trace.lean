import Resync.Event

namespace Resync.Event

/-- The line of a trace, which has one for each event of the recovery. Running parsers and remarks
    of branches are not part of a trace. -/
def line? : Event → Option String
  | reported e =>
    let owner := match e.owner with
      | some id => "#" ++ toString id
      | none => "-"
    some ("error   " ++ owner ++ " @" ++ toString e.position ++ " " ++ e.message)
  | estimated anchor label pos waste cached =>
    let waste := match waste with
      | some waste => toString waste
      | none => "-"
    let source := if cached then " (cached)" else ""
    some ("waste   #" ++ toString anchor ++ " " ++ label ++ " @" ++ toString pos ++ " = " ++
      waste ++ source)
  | anchored anchor label pos =>
    some ("anchor  #" ++ toString anchor ++ " " ++ label ++ " @" ++ toString pos)
  | resumed branch label r =>
    some ("resume  #" ++ toString branch ++ " " ++ label ++ " [" ++ toString r.index ++ "]")
  | gaveUp pos => some ("give up @" ++ toString pos)
  | entered _ _ | left _ _ | noted _ => none

/-- How much a log record matters. -/
inductive Level where
  | debug
  | detail
deriving DecidableEq, Repr

def Level.name : Level → String
  | debug => "DEBUG"
  | detail => "TRACE"

/-- An anchor or a branch in a log record. -/
def tagged (id : Nat) (label : String) : String :=
  "#" ++ toString id ++ " " ++ Text.quoted label

/-- The level and the message of the log record. -/
def record? : Event → Option (Level × String)
  | reported e => some (.debug, "error at " ++ toString e.position ++ ": " ++ e.message)
  | estimated anchor label pos waste cached =>
    let waste := match waste with
      | some waste => "Some(" ++ toString waste ++ ")"
      | none => "None"
    some (.detail, "waste of " ++ tagged anchor label ++ " at " ++ toString pos ++ ": " ++ waste ++
      " (cached: " ++ (if cached then "true" else "false") ++ ")")
  | anchored anchor label pos =>
    some (.debug, "resuming at " ++ tagged anchor label ++ ", offset " ++ toString pos)
  | resumed branch label r =>
    some (.detail, "climbing into " ++ tagged branch label ++ " at child " ++ toString r.index)
  | gaveUp pos => some (.debug, "giving up at offset " ++ toString pos)
  | entered _ _ | left _ _ | noted _ => none

/-- The log record under a target. -/
def logLine? (target : String) (e : Event) : Option String :=
  e.record?.map fun (level, message) => level.name ++ " " ++ target ++ ": " ++ message

/-- The remark that a branch has made. -/
def remark? : Event → Option String
  | noted line => some line
  | _ => none

end Resync.Event
