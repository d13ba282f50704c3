import Resync.Proofs.Bytes.Runs
import Resync.Proofs.Probing.Registry
import Resync.Proofs.Recovery.Success

namespace Resync

variable {reg : Registry} {g : Graph} {input : Input}

/-- The occurrences of a graph of primitive leaves keep what moving forward keeps. -/
theorem Registry.LaidOut.advances {allowed : Primitive → Prop} {P : State → Prop}
    (hlaid : reg.LaidOut g) (hg : g.IsPrimitive allowed) (hP : State.ClosedUnderMoves P input) :
    reg.Advances P where
  leaf hentry hwork := by
    obtain ⟨primitive, -, safeSpot, rfl⟩ := hg.leaf (hlaid.leaf_node hentry hwork)
    have hleaf := primitive.advances hP
    exact ⟨hleaf.stop, hleaf.error⟩
  branch hentry hwork := by
    obtain ⟨places, hnode, -⟩ := hlaid.branch_node hentry hwork
    exact hg.branch hnode

theorem Registry.RunsLike.keepsBoundaries {other : Registry} (h : reg.RunsLike other)
    (hkeeps : reg.KeepsBoundaries input) : other.KeepsBoundaries input where
  parse hs hr := hkeeps.parse hs ((congrArg Traced.result (h.parse _ _ _)).trans hr)
  resume hall hr := hkeeps.resume hall ((congrArg Traced.result (h.resume _ _ _)).trans hr)

namespace Session

/-- Searching and probing come to the same: the graph whose searching leaves are probed is prepared as
    the graph itself, and on a text, whatever error budget is asked for, both choose the same anchors
    at the same places in the same order, give the same output and the same errors, and propose no
    anchor that fails. On raw bytes a search may stop at a byte that no scalar begins with, where
    probing goes on, so the input has to be a text. -/
theorem probing_agrees (hg : g.IsPrimitive Primitive.ReadsScalars)
    (hreg : Registry.ofGraph g = .ok reg) (s : String) (depth maxErrors : Nat) :
    let start := State.start ((Input.text s).withMaxErrors maxErrors)
    Registry.ofGraph g.probed = .ok reg.probed ∧
      (execute ⟨reg, depth, maxErrors⟩ .empty start).attempts =
        (execute ⟨reg.probed, depth, maxErrors⟩ .empty start).attempts ∧
      (execute ⟨reg, depth, maxErrors⟩ .empty start).result =
        (execute ⟨reg.probed, depth, maxErrors⟩ .empty start).result ∧
      Event.AttemptsSucceed (execute ⟨reg, depth, maxErrors⟩ .empty start).events ∧
      Event.AttemptsSucceed (execute ⟨reg.probed, depth, maxErrors⟩ .empty start).events := by
  intro start
  let input := (Input.text s).withMaxErrors maxErrors
  have hlaid := Registry.laidOut_ofGraph hreg
  have hfinding : reg.Finding := hlaid.finding hg
  have hsearch : reg.Searchable input := hfinding.searchable rfl
  have hprobed : reg.probed.Searchable input := hfinding.searchable_probed
  have hruns : reg.RunsLike reg.probed := (Registry.runsLike_changed Entry.hidden_probed reg).symm
  have hkeeps : reg.KeepsBoundaries input :=
    (hlaid.advances hg (State.closedUnderMoves_sitsOn _)).keepsBoundaries
  have hempty : WasteCache.empty.entries = [] := rfl
  have hagree := agree_execute_unison hsearch hprobed (hfinding.answersLike_probed rfl) hruns hkeeps
    depth maxErrors hempty hempty
  refine ⟨?_, hagree.attempts, hagree.result_eq, attempts_succeed hsearch hkeeps depth maxErrors rfl,
    attempts_succeed hprobed (hruns.keepsBoundaries hkeeps) depth maxErrors rfl⟩
  rw [Registry.ofGraph_probed, hreg]
  rfl

/-- Both letters are found by probing as well, behind other scalars. Three errors are allowed. -/
theorem probing_agrees_letters :
    let start := State.start ((Input.text "éλüβ").withMaxErrors 3)
    Registry.ofGraph letters.probed = .ok lettersRegistry.probed ∧
      lettersRegistry.probed.stepAnchors = [1, 2] ∧
      (execute ⟨lettersRegistry, 2, 3⟩ .empty start).attempts = [(1, 2), (2, 6)] ∧
      (execute ⟨lettersRegistry.probed, 2, 3⟩ .empty start).attempts = [(1, 2), (2, 6)] := by
  intro start
  have hreg : Registry.ofGraph letters = .ok lettersRegistry := rfl
  obtain ⟨hprobed, hattempts, -⟩ := probing_agrees letters_isPrimitive hreg "éλüβ" 2 3
  have hchosen : (execute ⟨lettersRegistry, 2, 3⟩ .empty start).attempts = [(1, 2), (2, 6)] := by
    decide +kernel
  exact ⟨hprobed, by rfl, hchosen, hattempts.symm.trans hchosen⟩

end Session

end Resync
