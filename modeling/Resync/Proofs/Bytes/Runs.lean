import Resync.Proofs.Bytes.Anchors
import Resync.Proofs.Engine.Agreement

namespace Resync

variable {reg : Registry} {g : Graph} {input : Input}

/-- The search for an anchor begins at the same place of a text and of its bytes. -/
private theorem Session.twins_searchFrom {r r' : Result} {e f : ParseError}
    (hr : input.bytewise.Outcomes r r') (he : input.bytewise.Errors e f) :
    (searchFrom r e).Twins input (searchFrom r' f) := by
  unfold searchFrom
  rw [← he.report.1.kind, ← he.report.1.position]
  cases e.kind with
  | semantic => exact hr.stop
  | syntactic => exact State.Twins.movedTo hr.stop he.report.2

section Lockstep

variable (hg : g.IsPrimitive Primitive.ReadsScalars) (hlaid : reg.LaidOut g)
include hg hlaid

/-- Leaves that read scalars do alike on an input and on its raw bytes, and so do built-in branches
    over them. -/
theorem Registry.heeds_bytewise (input : Input) : reg.Heeds input.bytewise where
  leaf {id _ _} hentry hwork _ _ hs := by
    obtain ⟨primitive, hreads, hleaf⟩ := hg.leaf (hlaid.leaf_node hentry hwork)
    exact hleaf.outcomes_parse hreads id hs
  branch hentry hwork := by
    obtain ⟨places, hnode, -⟩ := hlaid.branch_node hentry hwork
    exact hg.branch hnode

/-- Runs on an input and on its raw bytes go in lockstep, from each part of a round to the next. -/
theorem Session.lockstep_bytewise (input : Input) (depth maxErrors : Nat) :
    Session.Lockstep ⟨reg, depth, maxErrors⟩ ⟨reg, depth, maxErrors⟩ input.bytewise where
  ancestors _ := rfl
  label _ := rfl
  size := rfl
  maxErrors := rfl
  run id _ _ hs := (Registry.heeds_bytewise hg hlaid input).agree_parse depth id hs
  resume id index _ _ _ _ hr hsaved :=
    (Registry.heeds_bytewise hg hlaid input).agree_resume depth id index hr hsaved
  choose owner _ _ _ _ hp hhere := agree_chooseAnchor_alike hg hlaid hhere hp owner
  search hr he := twins_searchFrom hr he

end Lockstep

namespace Session

/-- Runs on a text and on its bytes agree, whatever error budget both inputs ask for: they choose the
    same anchors at the same places in the same order, and stop with the same fault or give the same
    output and errors that report the same, one by one. The leaves have to read scalars, because one
    that reads a byte may stop inside a scalar of the bytes, and never does so in the text. -/
theorem text_agrees_with_bytes (hg : g.IsPrimitive Primitive.ReadsScalars)
    (hreg : Registry.ofGraph g = .ok reg) (s : String) (depth maxErrors : Nat) :
    Traced.Agree
      (fun result result' : Output × List ParseError => result.1 = result'.1 ∧
        List.Forall₂ ParseError.ReportsLike result.2 result'.2)
      (execute ⟨reg, depth, maxErrors⟩ .empty
        (State.start ((Input.text s).withMaxErrors maxErrors)))
      (execute ⟨reg, depth, maxErrors⟩ .empty
        (State.start ((Input.ofBytes (Utf8.encode s.toList)).withMaxErrors maxErrors))) := by
  let input := (Input.text s).withMaxErrors maxErrors
  have hlockstep :=
    lockstep_bytewise hg (Registry.laidOut_ofGraph hreg) input depth maxErrors
  have hcache : input.bytewise.cache .empty .empty := ⟨rfl, fun _ hentry => nomatch hentry⟩
  refine (hlockstep.agree_execute hcache (State.twins_start input)).imp ?_
  rintro ⟨output, errors⟩ ⟨output', errors'⟩ ⟨houtput, herrors⟩
  exact ⟨houtput, herrors.imp fun _ _ he => he.report.1⟩

/-- A pair of two letters, both of them safe spots. -/
def letters : Graph where
  nodes :=
    [.leaf { (Primitive.char 'λ').leaf with safeSpot := true },
      .leaf { (Primitive.char 'β').leaf with safeSpot := true },
      .branch "pair" (.combine [(0, .char), (1, .char)] .text fun (a, b, ()) =>
        String.ofList [a, b]) [0, 1]]
  root := 2

theorem letters_isPrimitive : letters.IsPrimitive Primitive.ReadsScalars where
  leaf {place leaf} hnode := by
    match place, hnode with
    | 0, hnode => cases hnode; exact ⟨.char 'λ', trivial, true, rfl⟩
    | 1, hnode => cases hnode; exact ⟨.char 'β', trivial, true, rfl⟩
    | 2, hnode => cases hnode
  branch {place label rule children} hnode := by
    match place, hnode with
    | 0, hnode => cases hnode
    | 1, hnode => cases hnode
    | 2, hnode => cases hnode; exact trivial

def lettersRegistry : Registry :=
  match Registry.ofGraph letters with
  | .ok reg => reg
  | .error _ => ⟨[]⟩

/-- Both letters are found behind other scalars of two bytes each, and a run on the bytes does the
    same. Three errors are allowed. -/
theorem text_agrees_with_bytes_letters :
    let text := (Input.text "éλüβ").withMaxErrors 3
    let bytes := (Input.ofBytes (Utf8.encode "éλüβ".toList)).withMaxErrors 3
    (execute ⟨lettersRegistry, 2, 3⟩ .empty (State.start text)).attempts = [(1, 2), (2, 6)] ∧
      Traced.Agree
        (fun result result' : Output × List ParseError => result.1 = result'.1 ∧
          List.Forall₂ ParseError.ReportsLike result.2 result'.2)
        (execute ⟨lettersRegistry, 2, 3⟩ .empty (State.start text))
        (execute ⟨lettersRegistry, 2, 3⟩ .empty (State.start bytes)) :=
  ⟨by rfl, text_agrees_with_bytes letters_isPrimitive (by rfl) "éλüβ" 2 3⟩

end Session

end Resync
