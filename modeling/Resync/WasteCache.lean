namespace Resync

/-- A remembered answer. -/
inductive Cached where
  /-- The anchor parses at this offset. -/
  | anchor (offset : Nat)
  /-- The anchor parses nowhere. -/
  | tooMuch
deriving DecidableEq, Repr

/-- An answer together with the anchor that gave it and the position it was asked about. -/
structure CacheEntry where
  id : Nat
  asked : Nat
  answer : Cached
deriving DecidableEq, Repr

/-- The answers of one run, the newest first. A recoverer reports the first place where its anchor
    parses, so an answer given at one position also answers for every later one up to that place:
    nothing between the two matched. The answer that an anchor matches nowhere answers for every
    later position. A cache that does not retain stays empty, so that every question is answered
    anew. -/
structure WasteCache where
  retains : Bool
  entries : List CacheEntry

namespace WasteCache

/-- A cache that keeps what it is told. -/
def empty : WasteCache := ⟨true, []⟩

/-- A cache that forgets what it is told. -/
def forgetful : WasteCache := ⟨false, []⟩

/-- The entry of an anchor that was asked about last before a position or at it. -/
def nearest? (id pos : Nat) : List CacheEntry → Option CacheEntry
  | [] => none
  | e :: entries =>
    match nearest? id pos entries with
    | none => if e.id = id ∧ e.asked ≤ pos then some e else none
    | some best => if e.id = id ∧ e.asked ≤ pos ∧ best.asked ≤ e.asked then some e else some best

/-- What is known of an anchor at a position. An anchor behind the position says nothing. -/
def get? (cache : WasteCache) (id pos : Nat) : Option Cached :=
  match nearest? id pos cache.entries with
  | none => none
  | some entry =>
    match entry.answer with
    | .anchor offset => if pos ≤ offset then some (.anchor offset) else none
    | .tooMuch => some .tooMuch

/-- Remembers an answer, in place of an earlier one to the same question. -/
def insert (cache : WasteCache) (id pos : Nat) (answer : Cached) : WasteCache :=
  if cache.retains then
    { cache with
      entries := ⟨id, pos, answer⟩ :: cache.entries.filter fun e => !(e.id = id ∧ e.asked = pos) }
  else cache

end WasteCache

end Resync
