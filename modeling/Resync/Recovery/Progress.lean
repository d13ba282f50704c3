import Resync.Registry
import Resync.WasteCache

namespace Resync

/-- What a run knows besides the outcome at hand: the errors found so far, what anchors answered,
    what suspended branches have saved, and where anchors were already tried. -/
structure Progress where
  cache : WasteCache
  /-- The errors in the order in which they were found. -/
  errors : List ParseError
  /-- What branches saved in errors, until they are resumed. -/
  salvage : List (Nat × Saved)
  /-- Anchors and the positions where they were resumed. Trying one twice would lead in a circle. -/
  tried : List (Nat × Nat)

namespace Progress

/-- What is known when a run begins. -/
def initial (cache : WasteCache) : Progress :=
  ⟨cache, [], [], []⟩

/-- Keeps what a branch has saved, in place of what was kept for it before. -/
def keep (p : Progress) (id : Nat) (data : Saved) : Progress :=
  { p with salvage := (id, data) :: p.salvage.filter fun entry => entry.1 != id }

/-- Hands out what is kept for a branch. -/
def release (p : Progress) (id : Nat) : Option Saved × Progress :=
  (p.salvage.lookup id, { p with salvage := p.salvage.filter fun entry => entry.1 != id })

/-- Forgets what is kept for branches that are not suspended any more, which are those that the
    occurrence `stop` does not lie in. -/
def dropStale (p : Progress) (reg : Registry) (stop : Nat) : Progress :=
  { p with salvage := p.salvage.filter fun entry => reg.isWithin stop entry.1 }

/-- Whether the same mismatch is in the list already. -/
def knows (p : Progress) (e : ParseError) : Bool :=
  p.errors.any (·.sameMismatch e)

/-- Takes what an error carries and lists the error, unless the same mismatch is listed already. -/
def record (p : Progress) (e : ParseError) : Progress :=
  let kept := e.saved.foldl (fun p entry => p.keep entry.1 entry.2) p
  let e := e.withoutSaved
  if kept.knows e then kept else { kept with errors := kept.errors ++ [e] }

/-- Lists an error, and takes what it carries. -/
def report (p : Progress) (e : ParseError) : Traced Progress := do
  Traced.emit (.reported e.withoutSaved)
  return p.record e

def markTried (p : Progress) (anchor pos : Nat) : Progress :=
  { p with tried := (anchor, pos) :: p.tried }

def remember (p : Progress) (id pos : Nat) (answer : Cached) : Progress :=
  { p with cache := p.cache.insert id pos answer }

end Progress

end Resync
