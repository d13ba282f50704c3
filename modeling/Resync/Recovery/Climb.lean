import Resync.Recovery.Choice

namespace Resync

/-- Where a climb has come to. -/
structure Summit where
  /-- The occurrence at which the climb stopped. -/
  id : Nat
  result : Result
  progress : Progress

namespace Session

variable (session : Session)

/-- Has the branches on the way go on, one after the other. Each gets what it has saved. -/
def climbThrough (unwinding : Bool) : (way : List (Nat × Nat)) → Summit → Traced Summit
  | [], summit => return summit
  | (parent, index) :: way, summit => do
    let (saved, progress) := summit.progress.release parent
    let result ← session.registry.resume session.depth parent ⟨index, summit.result, saved⟩
    let summit : Summit := ⟨parent, result, progress⟩
    if !unwinding && !result.isOk then return summit
    else climbThrough unwinding way summit

/-- Climbs from an occurrence with its outcome towards the root: the outcome is handed up to the
    parent, which goes on after it, and so on. A climb stops early where a branch reports a new
    error; when recovery has ended, errors ride along to the root instead. -/
def climb (unwinding : Bool) (summit : Summit) : Traced Summit :=
  session.climbThrough unwinding (session.registry.ancestors summit.id) summit

end Session

end Resync
