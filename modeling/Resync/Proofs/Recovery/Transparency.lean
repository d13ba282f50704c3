import Resync.Proofs.Recovery.Unison

namespace Resync

namespace Session

variable {reg : Registry} {input : Input} (hsearch : reg.Searchable input)
include hsearch

/-- The cache is transparent: a run that keeps what anchors answer and one that asks them anew each
    time choose the same anchors at the same positions in the same order, and give the same output
    and the same errors. -/
theorem cache_transparent (hkeeps : reg.KeepsBoundaries input) (depth maxErrors : Nat) :
    (execute ⟨reg, depth, maxErrors⟩ .empty (State.start input)).attempts =
        (execute ⟨reg, depth, maxErrors⟩ .forgetful (State.start input)).attempts ∧
      (execute ⟨reg, depth, maxErrors⟩ .empty (State.start input)).result =
        (execute ⟨reg, depth, maxErrors⟩ .forgetful (State.start input)).result := by
  -- both runs are over one registry, so they parse alike and their anchors answer alike
  have hruns : reg.RunsLike reg := .rfl
  have hanswers : reg.AnswersLike reg input := .rfl
  have hempty : WasteCache.empty.entries = [] := rfl
  have hforgetful : WasteCache.forgetful.entries = [] := rfl
  have hagree := agree_execute_unison hsearch hsearch hanswers hruns hkeeps depth maxErrors
    hempty hforgetful
  constructor
  · exact hagree.attempts
  · exact hagree.result_eq

omit hsearch

/-- A pair of two scalars, both of them safe spots. -/
def landmarks (first second : Char) : Registry where
  entries :=
    [⟨0, "map2", .branch (.combine [(0, .char), (1, .char)] .text fun (a, b, ()) =>
        String.ofList [a, b]), none, [1, 2]⟩,
      ⟨1, String.singleton first, .leaf { (Primitive.char first).leaf with safeSpot := true },
        some (0, 0), []⟩,
      ⟨2, String.singleton second, .leaf { (Primitive.char second).leaf with safeSpot := true },
        some (0, 1), []⟩]

/-- Every leaf of the example is a safe spot of one character. -/
theorem exists_char_of_landmarks {first second : Char} {entry : Entry} {leaf : Leaf}
    {id : Nat} (hentry : (landmarks first second).entries[id]? = some entry)
    (hwork : entry.work = .leaf leaf) :
    ∃ c, leaf = { (Primitive.char c).leaf with safeSpot := true } := by
  match id, hentry with
  | 0, hentry => cases hentry; cases hwork
  | 1, hentry => cases hentry; cases hwork; exact ⟨first, rfl⟩
  | 2, hentry => cases hentry; cases hwork; exact ⟨second, rfl⟩

/-- The leaves of the example keep the cursors wherever moves keep them. -/
theorem landmarks_advances {P : State → Prop} {input : Input} (hP : State.ClosedUnderMoves P input)
    (first second : Char) : (landmarks first second).Advances P where
  leaf hentry hwork := by
    obtain ⟨c, rfl⟩ := exists_char_of_landmarks hentry hwork
    have hc := (Primitive.char c).advances hP
    exact ⟨hc.stop, hc.error⟩
  branch {id _ _} hentry hwork := by
    match id, hentry with
    | 0, hentry => cases hentry; cases hwork; exact trivial
    | 1, hentry => cases hentry; cases hwork
    | 2, hentry => cases hentry; cases hwork

/-- The leaves of the example are found by an exact search, as long as the input is text. -/
theorem landmarks_searchable {input : Input} (htext : input.binary = false) (first second : Char) :
    (landmarks first second).Searchable input where
  positional hentry hwork := by
    obtain ⟨c, rfl⟩ := exists_char_of_landmarks hentry hwork
    exact Primitive.MatchesScalar.positional (p := (· == c)) fun s => Primitive.matchesScalar_iff s
  exact hentry hwork hrecoverer := by
    obtain ⟨c, rfl⟩ := exists_char_of_landmarks hentry hwork
    cases hrecoverer
    exact .inr fun s hs => Primitive.MatchesScalar.exactAt_find (p := (· == c))
      (fun s => Primitive.matchesScalar_iff s) htext hs

/-- The second landmark is found at once for the first error, and remembered for the second. A run
    that forgets the answer finds it anew. -/
theorem cache_transparent_landmarks :
    (execute ⟨landmarks 'a' 'b', 2, 10⟩ .empty (State.start (Input.text "xa?b"))).attempts =
        [(1, 1), (2, 3)] ∧
      (execute ⟨landmarks 'a' 'b', 2, 10⟩ .empty (State.start (Input.text "xa?b"))).result =
        (execute ⟨landmarks 'a' 'b', 2, 10⟩ .forgetful (State.start (Input.text "xa?b"))).result := by
  have hsearch : (landmarks 'a' 'b').Searchable (Input.text "xa?b") :=
    landmarks_searchable rfl 'a' 'b'
  have hmoves := State.closedUnderMoves_sitsOn (Input.text "xa?b")
  have hkeeps := (landmarks_advances hmoves 'a' 'b').keepsBoundaries
  refine ⟨by rfl, ?_⟩
  exact (cache_transparent hsearch hkeeps 2 10).2

end Session

end Resync
