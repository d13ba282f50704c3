import Resync.Recovery.Climb

namespace Resync.Session

variable (session : Session)

/-- The message about an anchor that fails where its recoverer has sent it. -/
def brokenPromise (label : String) : String :=
  "recoverer of \"" ++ label ++ "\" proposed an offset where it fails"

/-- Whether no more errors are to be looked for. -/
def isSpent (p : Progress) : Bool :=
  session.maxErrors ≤ p.errors.length

/-- Resumes the cheapest anchor. One that fails where its recoverer has sent it is an error of its
    own, and the next cheapest is tried. Each attempt is marked as tried, which bounds their
    number. -/
def resynchronise (owner : Option Nat) (here : State) :
    (attempts : Nat) → Progress → Traced (Option (Nat × Result) × Progress)
  | 0, _ => Traced.fault .outOfFuel
  | attempts + 1, p => do
    let (choice, p) ← session.chooseAnchor p owner here
    match choice with
    | none => return (none, p)
    | some (anchor, waste) =>
      let target := here.moveByUnits waste
      let p := p.markTried anchor target.pos
      let label := session.registry.label anchor
      Traced.emit (.anchored anchor label target.pos)
      let result ← session.run anchor target
      if result.isOk then return (some (anchor, result), p)
      else
        let violation := (target.semanticError (brokenPromise label)).claim anchor
        let p ← p.report violation
        if session.isSpent p then return (none, p)
        else resynchronise owner here attempts p

/-- Where the search for an anchor begins. A semantic error comes after successful parsing and is
    resumed after it; any other is resumed where it is. -/
def searchFrom (result : Result) (e : ParseError) : State :=
  match e.kind with
  | .semantic => result.stop
  | .syntactic => result.stop.movedTo e.position

/-- Lets an error unwind from the occurrence that the last climb stopped at, so that every branch
    still makes what it can of its children. This happens when the error is at the end of the input,
    when the errors are too many, or when no anchor matches. -/
def giveUp (here : State) (summit : Summit) : Traced Summit := do
  Traced.emit (.gaveUp here.pos)
  session.climb true summit

/-- The rounds of a run, at most so many of them. As long as an error reaches the top, the cheapest
    anchor is resumed after the skipped input and its outcome climbs; a new error on the way begins
    the next round where it came up. Gives the last outcome and what is known then. -/
def rounds (attempts : Nat) : (limit : Nat) → Summit → Traced Summit
  | 0, _ => Traced.fault .outOfFuel
  | limit + 1, summit =>
    match summit.result.error with
    | none => return summit
    | some e => do
      let here := searchFrom summit.result e
      let p ← summit.progress.report e
      let (found, p) ←
        if here.atEnd || session.isSpent p then pure (none, p)
        else session.resynchronise e.owner here attempts p
      match found with
      | some (anchor, result) =>
        let next ← session.climb false ⟨anchor, result, p⟩
        let p := next.progress.dropStale session.registry next.id
        rounds attempts limit { next with progress := p }
      | none =>
        session.giveUp here
          ⟨summit.id, { summit.result with error := some e.withoutSaved }, p⟩

/-- A number of attempts that no run exceeds: each one tries an anchor where it was not tried
    before, and there are not more anchors than occurrences and not more positions than bytes and
    one. -/
def attemptBound (input : Input) : Nat :=
  session.registry.size * (input.size + 1) + 2

/-- A whole run from a state: a descent from the root, and then rounds of recovery. It ends when the
    root is reached without an error, or when it gives up. The errors are given in the order of
    their positions. -/
def execute (cache : WasteCache) (s : State) : Traced (Output × List ParseError) := do
  let result ← session.run 0 s
  let bound := session.attemptBound s.input
  let summit ← session.rounds bound bound ⟨0, result, .initial cache⟩
  return (summit.result.output, sortErrors summit.progress.errors)

end Resync.Session
