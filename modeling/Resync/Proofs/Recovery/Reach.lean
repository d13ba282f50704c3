import Resync.Proofs.Recovery.Rounds

namespace Resync

namespace Session

variable (session : Session) (start : State)

/-- Records the error at a summit, and looks for an anchor to resume unless recovery has ended. -/
def seek (summit : Summit) (e : ParseError) : Traced (Option (Nat × Result) × Progress) :=
  if (searchFrom summit.result e).atEnd || session.isSpent (summit.progress.record e) then
    pure (none, summit.progress.record e)
  else
    session.resynchronise e.owner (searchFrom summit.result e) (session.attemptBound start.input)
      (summit.progress.record e)

/-- A round that goes on: from the error at a summit, an anchor is resumed. -/
structure Round (summit : Summit) (e : ParseError) (anchor : Nat) (leaf : Result) (p : Progress) :
    Prop where
  error : summit.result.error = some e
  found : (session.seek start summit e).result = .ok (some (anchor, leaf), p)

/-- A summit as the next round finds it. -/
def settle (summit : Summit) : Summit :=
  { summit with progress := summit.progress.dropStale session.registry summit.id }

/-- The summits of a run from a state. -/
inductive Reaches (cache : WasteCache) : Summit → Prop
  | descent {result : Result} : (session.run 0 start).result = .ok result →
      Reaches cache ⟨0, result, .initial cache⟩
  | climb {summit next : Summit} {e : ParseError} {anchor : Nat} {leaf : Result} {p : Progress} :
      Reaches cache summit → session.Round start summit e anchor leaf p →
      (session.climb false ⟨anchor, leaf, p⟩).result = .ok next →
        Reaches cache (session.settle next)

variable {session start} {summit next : Summit} {e : ParseError} {anchor : Nat} {leaf : Result}
  {p : Progress} {cache : WasteCache}

/-- Recovery has not ended in a round that goes on: there is input left and budget, and the search
    has found the anchor that the round resumes. -/
theorem Round.resynchronise_eq_ok (h : session.Round start summit e anchor leaf p) :
    ((searchFrom summit.result e).atEnd || session.isSpent (summit.progress.record e)) = false ∧
      (session.resynchronise e.owner (searchFrom summit.result e)
        (session.attemptBound start.input) (summit.progress.record e)).result =
          .ok (some (anchor, leaf), p) := by
  have hfound := h.found
  unfold seek at hfound
  split at hfound
  · cases hfound
  · next hgoes => exact ⟨Bool.eq_false_iff.2 hgoes, hfound⟩

/-- A round begins with a report of the error, and ends with a climb or by giving up. It gives up
    where the search finds no anchor, and climbs from the one that is found. -/
theorem rounds_of_error (herror : summit.result.error = some e) (limit : Nat) :
    session.rounds (session.attemptBound start.input) (limit + 1) summit =
      Traced.emit (.reported e.withoutSaved) >>= fun _ =>
        session.seek start summit e >>= fun found =>
          match found with
          | (some (anchor, leaf), p) =>
            session.climb false ⟨anchor, leaf, p⟩ >>= fun next =>
              session.rounds (session.attemptBound start.input) limit (session.settle next)
          | (none, p) =>
            session.giveUp (searchFrom summit.result e)
              ⟨summit.id, { summit.result with error := some e.withoutSaved }, p⟩ := by
  rw [rounds, herror]
  dsimp only [Progress.report]
  rw [bind_assoc]
  congr 1
  funext _
  rw [pure_bind, seek]
  split
  · rfl
  · congr 1
    funext found
    obtain ⟨_ | ⟨anchor, leaf⟩, p⟩ := found <;> rfl

/-- A round that goes on is followed by the rounds from where its climb stops. What happens in it
    comes before what happens in them, whatever their limit is. -/
theorem Round.rounds_eq (h : session.Round start summit e anchor leaf p)
    (hnext : (session.climb false ⟨anchor, leaf, p⟩).result = .ok next) :
    ∃ before, ∀ limit, session.rounds (session.attemptBound start.input) (limit + 1) summit =
      ⟨before ++ (session.climb false ⟨anchor, leaf, p⟩).events ++
          (session.rounds (session.attemptBound start.input) limit (session.settle next)).events,
        (session.rounds (session.attemptBound start.input) limit
          (session.settle next)).result⟩ := by
  refine ⟨.reported e.withoutSaved :: (session.seek start summit e).events, fun limit => ?_⟩
  have hreport : (Traced.emit (.reported e.withoutSaved)).result = .ok () := rfl
  rw [rounds_of_error h.error, Traced.bind_of_result_eq_ok hreport,
    Traced.bind_of_result_eq_ok h.found]
  dsimp only
  rw [Traced.bind_of_result_eq_ok hnext]
  simp only [List.append_assoc]
  rfl

/-- A run comes to every summit that it reaches, after some rounds. What is true of the rounds from
    there is true of the end of the run. -/
theorem Reaches.rounds_eq (h : session.Reaches start cache summit) :
    ∃ result taken before, (session.run 0 start).result = .ok result ∧
      ∀ limit, session.rounds (session.attemptBound start.input) (limit + taken)
          ⟨0, result, .initial cache⟩ =
        ⟨before ++ (session.rounds (session.attemptBound start.input) limit summit).events,
          (session.rounds (session.attemptBound start.input) limit summit).result⟩ := by
  induction h with
  | @descent result hresult => exact ⟨result, 0, [], hresult, fun _ => rfl⟩
  | @climb summit next e anchor leaf p hreach hround hnext ih =>
    obtain ⟨result, taken, before, hresult, hrounds⟩ := ih
    obtain ⟨between, hround⟩ := hround.rounds_eq hnext
    refine ⟨result, taken + 1,
      before ++ (between ++ (session.climb false ⟨anchor, leaf, p⟩).events), hresult, ?_⟩
    intro limit
    rw [← Nat.add_assoc, Nat.add_right_comm, hrounds, hround]
    simp only [List.append_assoc]

end Session

namespace Upkeep

variable {u : Upkeep} {session : Session} {start : State} {cache : WasteCache} {summit : Summit}

/-- What anchors keep up, the search of a round keeps up, also where it ends at once because there
    is no input or no budget left. -/
theorem ensures_seek (h : u.KeptByAnchors session)
    (hanchored : ∀ {s} id label, u.cursor s → u.event (.anchored id label s.pos)) {e : ParseError}
    (hkeeps : u.Keeps (summit.progress.record e))
    (hhere : u.cursor (Session.searchFrom summit.result e)) :
    (session.seek start summit e).Ensures u.event u.fault
      (u.Resynced session (summit.progress.record e)) := by
  unfold Session.seek
  split
  · exact Traced.ensures_pure ⟨hkeeps, rfl, ⟨[], rfl, fun hsome => nomatch hsome⟩,
      fun _ _ hnone => nomatch hnone⟩
  · exact ensures_resynchronise h hanchored hkeeps hhere _ _

/-- What is kept up is true at every summit: at the outcome of the descent, and where each climb
    stops. -/
theorem KeptBy.reaches (h : u.KeptBy session) (hcache : u.Keeps (.initial cache))
    (hstart : u.cursor start) (hreach : session.Reaches start cache summit) :
    u.outcome summit.id summit.result ∧ u.Keeps summit.progress := by
  induction hreach with
  | descent hresult => exact ⟨(h.run (.inl rfl) hstart).value _ hresult, hcache⟩
  | climb _ hround hnext ih =>
    obtain ⟨houtcome, hkeeps⟩ := ih
    obtain ⟨hreport, hsaved⟩ := h.reports houtcome hround.error
    have hresynced := resynced_of_result_eq_ok h (hkeeps.record hreport hsaved)
      (h.search houtcome hround.error) hround.resynchronise_eq_ok.2
    obtain ⟨-, hleaf, -⟩ := hresynced.anchor _ _ rfl
    have hclimbed := (ensures_climb h false _ hleaf hresynced.keeps).value _ hnext
    exact ⟨hclimbed.outcome, hclimbed.keeps.dropStale _ _⟩

end Upkeep

end Resync
