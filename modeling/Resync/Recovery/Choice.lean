import Resync.Engine
import Resync.Recovery.Progress

namespace Resync

/-- The fixed part of a run: the grammar, the depth to which its parsers may nest, and the number of
    errors after which recovery stops. -/
structure Session where
  registry : Registry
  depth : Nat
  maxErrors : Nat

/-- An anchor with its waste. -/
abbrev Bid : Type := Nat × Nat

/-- The better of two bids. The later one has to be strictly cheaper. -/
def Bid.improve (best : Option Bid) (anchor : Nat) : Option Nat → Option Bid
  | none => best
  | some waste =>
    match best with
    | none => some (anchor, waste)
    | some bid => if waste < bid.2 then some (anchor, waste) else some bid

/-- Whether no other bid can be cheaper. -/
def Bid.isFree : Option Bid → Bool
  | some bid => bid.2 == 0
  | none => false

/-- The states from here to the end of the input, one unit further each, at most `limit` of them. -/
def State.stepsAhead : (limit : Nat) → State → List State
  | 0, _ => []
  | limit + 1, s => if s.atEnd then [s] else s :: stepsAhead limit (s.moveByUnits 1)

/-- The states from here to the end of the input, one unit further each. -/
def State.ahead (s : State) : List State :=
  s.stepsAhead (s.remaining + 1)

/-- What probing has come to. -/
inductive Probe where
  /-- The anchor parses at this offset. -/
  | found (offset : Nat)
  /-- The anchor parses nowhere. -/
  | exhausted
  /-- The limit was reached, which proves nothing. -/
  | cut
deriving DecidableEq, Repr

namespace Session

variable (session : Session)

/-- Runs an occurrence. -/
def run (id : Nat) (s : State) : Traced Result :=
  session.registry.parse session.depth id s

/-- Turns the place where an anchor parses into a waste. An anchor that was already resumed there
    has none. -/
def appraise (p : Progress) (id : Nat) (here : State) (offset : Option Nat) (cached : Bool) :
    Traced (Option Nat) := do
  let waste := (offset.filter fun offset => !p.tried.contains (id, offset)).map fun offset =>
    here.unitsTo (here.movedTo offset)
  Traced.emit (.estimated id (session.registry.label id) here.pos waste cached)
  return waste

/-- The place where an anchor parses, according to a remembered answer. -/
def cachedOffset : Cached → Option Nat
  | .anchor offset => some offset
  | .tooMuch => none

/-- The offset that a recoverer proposes. -/
def proposedOffset (waste : State → Waste) (here : State) : Cached :=
  match waste here with
  | .units count => .anchor (here.moveByUnits count).pos
  | .tooMuch | .never => .tooMuch

/-- The waste of an anchor whose waste is computed. -/
def fastWaste (p : Progress) (id : Nat) (waste : State → Waste) (here : State) :
    Traced (Option Nat × Progress) :=
  match p.cache.get? id here.pos with
  | some answer => do
    let w ← session.appraise p id here (cachedOffset answer) true
    return (w, p)
  | none => do
    let answer := proposedOffset waste here
    let p := p.remember id here.pos answer
    let w ← session.appraise p id here (cachedOffset answer) false
    return (w, p)

/-- Parses the anchor at one state after the other until it succeeds, not beyond the limit. -/
def probe (id : Nat) : (limit : Option Nat) → List State → Traced Probe
  | _, [] => return .exhausted
  | some 0, _ :: _ => return .cut
  | some (limit + 1), s :: states => do
    let result ← session.run id s
    if result.isOk then return .found s.pos else probe id (some limit) states
  | none, s :: states => do
    let result ← session.run id s
    if result.isOk then return .found s.pos else probe id none states

/-- The waste of an anchor that has to be probed. An answer that the limit cut short is not
    remembered. -/
def stepWaste (p : Progress) (id : Nat) (here : State) (limit : Option Nat) :
    Traced (Option Nat × Progress) :=
  match p.cache.get? id here.pos with
  | some answer => do
    let w ← session.appraise p id here (cachedOffset answer) true
    return (w, p)
  | none => do
    match ← session.probe id limit here.ahead with
    | .found offset =>
      let p := p.remember id here.pos (.anchor offset)
      let w ← session.appraise p id here (some offset) false
      return (w, p)
    | .exhausted =>
      let p := p.remember id here.pos .tooMuch
      let w ← session.appraise p id here none false
      return (w, p)
    | .cut =>
      Traced.emit (.estimated id (session.registry.label id) here.pos none false)
      return (none, p)

/-- The bid of the failing parser itself, if it has a recoverer. -/
def ownBid (p : Progress) (owner : Option Nat) (here : State) :
    Traced (Option Bid × Progress) :=
  match owner with
  | none => return (none, p)
  | some id =>
    match session.registry.recoverer? id with
    | none => return (none, p)
    | some recoverer => do
      let (w, p) ←
        match recoverer with
        | .fast waste => session.fastWaste p id waste here
        | .step => session.stepWaste p id here none
      return (Bid.improve none id w, p)

/-- Asks the anchors whose waste is computed. -/
def askFast (owner : Option Nat) (here : State) :
    List (Nat × (State → Waste)) → Option Bid → Progress → Traced (Option Bid × Progress)
  | [], best, p => return (best, p)
  | (id, waste) :: anchors, best, p =>
    if Bid.isFree best then return (best, p)
    else if owner = some id then askFast owner here anchors best p
    else do
      let (w, p) ← session.fastWaste p id waste here
      askFast owner here anchors (Bid.improve best id w) p

/-- Asks the anchors that have to be probed, each below the best waste so far. -/
def askStep (owner : Option Nat) (here : State) :
    List Nat → Option Bid → Progress → Traced (Option Bid × Progress)
  | [], best, p => return (best, p)
  | id :: anchors, best, p =>
    if Bid.isFree best then return (best, p)
    else if owner = some id then askStep owner here anchors best p
    else do
      let (w, p) ← session.stepWaste p id here (best.map Prod.snd)
      askStep owner here anchors (Bid.improve best id w) p

/-- The anchor with the least waste from a state. Asked are the recoverer of the failing parser, the
    safe spots whose waste is computed, and then those that have to be probed. An answer of no waste
    ends the search, and a probe goes only as far as could still be an improvement. Of equal wastes
    the first one wins. -/
def chooseAnchor (p : Progress) (owner : Option Nat) (here : State) :
    Traced (Option Bid × Progress) := do
  let (best, p) ← session.ownBid p owner here
  let (best, p) ← session.askFast owner here session.registry.fastAnchors best p
  session.askStep owner here session.registry.stepAnchors best p

end Session

end Resync
