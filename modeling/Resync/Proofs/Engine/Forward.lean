import Resync.Proofs.Engine.Discipline
import Resync.Proofs.Engine.Failure
import Resync.Proofs.Leaf.Cursors
import Resync.Proofs.Registry.Primitives

namespace Resync

/-- A cursor at a place that is kept clear of, not beyond a limit. -/
structure State.Behind (clear : Nat → Prop) (input : Input) (limit : Nat) (s : State) : Prop where
  sits : s.SitsOn input
  place : clear s.pos
  le : s.pos ≤ limit

/-- An error at a place that is kept clear of, not beyond the end of the outcome that it is in, and
    right there if it is syntactic. -/
structure ParseError.Behind (clear : Nat → Prop) (input : Input) (stop : Nat) (e : ParseError) :
    Prop where
  place : clear e.position
  le : e.position ≤ stop
  syntactic : e.kind = .syntactic → e.position = stop
  saved : ∀ entry ∈ e.saved, entry.2.All (·.Behind clear input stop)

/-- An outcome that ends at a limit or beyond it, with everything else not beyond its end. -/
structure Result.Forward (clear : Nat → Prop) (input : Input) (floor : Nat) (r : Result) :
    Prop where
  start : r.start.Behind clear input r.stop.pos
  stop : r.stop.SitsOn input
  floor : floor ≤ r.stop.pos
  error : ∀ e, r.error = some e → e.Behind clear input r.stop.pos

variable {clear : Nat → Prop} {input : Input} {floor : Nat}

/-- What is not beyond a limit is not beyond a later one. -/
theorem State.Behind.mono {limit limit' : Nat} {s : State} (h : s.Behind clear input limit)
    (hle : limit ≤ limit') : s.Behind clear input limit' :=
  ⟨h.sits, h.place, Nat.le_trans h.le hle⟩

theorem Saved.All.imp {P Q : State → Prop} {data : Saved} (h : data.All P)
    (hPQ : ∀ {s}, P s → Q s) : data.All Q := by
  cases data with
  | sequence start slots => exact hPQ h
  | repetition start item items => exact hPQ h
  | output o => exact trivial

theorem State.SitsOn.position_errorHere {s : State} (hs : s.SitsOn input) (kind : ErrorKind)
    (message : String) : (s.errorHere kind message).position = s.pos := by
  refine Nat.min_eq_left ?_
  rw [hs.input_eq]
  exact hs.pos_le_size

/-- An error that a branch raises, at the end of its outcome or before it. -/
theorem State.behind_errorHere {s : State} {stop : Nat} (hs : s.Behind clear input stop)
    {kind : ErrorKind} (message : String) (hkind : kind = .syntactic → s.pos = stop) :
    (s.errorHere kind message).Behind clear input stop where
  place := by
    rw [hs.sits.position_errorHere]
    exact hs.place
  le := by
    rw [hs.sits.position_errorHere]
    exact hs.le
  syntactic := by
    rw [hs.sits.position_errorHere]
    exact hkind
  saved _ hentry := nomatch hentry

theorem ParseError.Behind.save {e : ParseError} {id stop : Nat} {data : Saved}
    (h : e.Behind clear input stop) (hdata : data.All (·.Behind clear input stop)) :
    (e.save id data).Behind clear input stop where
  place := h.place
  le := h.le
  syntactic := h.syntactic
  saved entry hentry := by
    obtain hold | rfl := ParseError.mem_saved_save hentry
    · exact h.saved entry hold
    · exact hdata

/-- An outcome that leads beyond a place leads beyond every earlier one. -/
theorem Result.Forward.mono {floor' : Nat} {r : Result} (h : r.Forward clear input floor)
    (hle : floor' ≤ floor) : r.Forward clear input floor' :=
  ⟨h.start, h.stop, Nat.le_trans hle h.floor, h.error⟩

theorem Result.Forward.claim {r : Result} (h : r.Forward clear input floor) (id : Nat) :
    (r.claim id).Forward clear input floor where
  start := h.start
  stop := h.stop
  floor := h.floor
  error e he := by
    obtain ⟨e, he', rfl⟩ := Option.map_eq_some_iff.1 he
    have hbehind := h.error e he'
    exact ⟨hbehind.place, hbehind.le, hbehind.syntactic, hbehind.saved⟩

namespace Registry

/-- A branch goes on from a place and only forward. -/
private def onward (clear : Nat → Prop) (input : Input) (floor : Nat) : Discipline where
  begins s := s.Behind clear input floor
  stands _ s := s.SitsOn input ∧ floor ≤ s.pos
  gives _ r := r.Forward clear input floor

/-- Branches go on from an end to one further on or the same, if their children do. What goes on
    from an end leaves everything that came before behind it. -/
private theorem onward_keptBy (hclear : ∀ pos, floor ≤ pos → clear pos)
    {run : Nat → State → Traced Result} (hrun : ∀ index s r, s.SitsOn input → floor ≤ s.pos →
      (run index s).result = .ok r → r.Forward clear input s.pos) (id : Nat) :
    (onward clear input floor).KeptBy run (fun _ _ => True) id where
  run {_ s} index hs := ⟨fun _ => trivial, fun c hc =>
    ⟨(hrun index s c hs.1 hs.2 hc).mono hs.2, hs⟩⟩
  proceed hc _ := ⟨hc.stop, hc.floor⟩
  succeed _ hstart hs := ⟨hstart.mono hs.2, hs.1, hs.2, fun _ he => nomatch he⟩
  handUp {_ start c e data} _ hstart hc he hdata := by
    refine ⟨hstart.mono hc.floor, hc.stop, hc.floor, fun e' he' => ?_⟩
    cases he'
    refine (hc.error e he).save ?_
    obtain ⟨slots, rfl⟩ | ⟨item, items, rfl⟩ := hdata
    · exact hstart.mono hc.floor
    · exact hstart.mono hc.floor
  convert _ hc := ⟨hc.start, hc.stop, hc.floor, hc.error⟩
  reject {_ c} _ message hc _ := by
    refine ⟨hc.start, hc.stop, hc.floor, fun e he => ?_⟩
    cases he
    exact State.behind_errorHere hc.start message nofun
  stall {_ _ s} _ message hstart hs := by
    refine ⟨hstart.mono hs.2, hs.1, hs.2, fun e he => ?_⟩
    cases he
    exact State.behind_errorHere ⟨hs.1, hclear _ hs.2, Nat.le_refl _⟩ message nofun
  refuse {_ s} _ label hs := by
    have hhere : s.Behind clear input s.pos := ⟨hs.1, hclear _ hs.2, Nat.le_refl _⟩
    refine ⟨hhere, hs.1, hs.2, fun e he => ?_⟩
    cases he
    exact State.behind_errorHere hhere _ fun _ => rfl

variable {reg : Registry} {g : Graph} {allowed : Primitive → Prop}

/-- A primitive leaf fails at the cursor, or ends at it or behind it, and saves nothing. A safe spot
    that matches raises the watermark, which plays no part in how far an outcome leads. -/
theorem forward_leaf {leaf : Leaf} {primitive : Primitive} (hleaf : leaf.IsOf primitive) (id : Nat)
    {s : State} (hs : s.Behind clear input s.pos) :
    (leaf.parse id s).Forward clear input s.pos := by
  have hadvances : leaf.Advances (·.SitsOn input) := by
    obtain ⟨safeSpot, rfl⟩ := hleaf
    have hprimitive := primitive.advances (State.closedUnderMoves_sitsOn input)
    exact ⟨hprimitive.stop, hprimitive.error⟩
  obtain ⟨hall, hle⟩ := hadvances.parse (State.closedUnderMoves_sitsOn input) id hs.sits
  have hstart : (leaf.parse id s).start = s := by
    unfold Leaf.parse
    split <;> rfl
  refine ⟨?_, hall.stop, hle, fun e he => ?_⟩
  · rw [hstart]
    exact hs.mono hle
  · unfold Leaf.parse at he ⊢
    cases hrun : leaf.run s with
    | ok found =>
      rw [hrun] at he
      cases he
    | error e' =>
      rw [hrun] at he
      cases he
      obtain ⟨label, rfl⟩ : ∃ label, e' = s.syntaxError label := by
        obtain ⟨safeSpot, rfl⟩ := hleaf
        exact primitive.exists_syntaxError hrun
      have hbehind : (s.syntaxError label).Behind clear input s.pos :=
        State.behind_errorHere hs _ fun _ => rfl
      exact ⟨hbehind.place, hbehind.le, hbehind.syntactic, hbehind.saved⟩

section Primitive

variable (hg : g.IsPrimitive allowed) (hlaid : reg.LaidOut g)
  (hclear : ∀ pos, floor ≤ pos → clear pos)
include hg hlaid hclear

/-- Parsing from a place leads to that place or beyond it, and everything in the outcome lies at its
    end or before. -/
theorem forward_parse (depth id : Nat) {s : State} {r : Result} (hs : s.SitsOn input)
    (hfloor : floor ≤ s.pos) (h : (reg.parse depth id s).result = .ok r) :
    r.Forward clear input s.pos := by
  induction depth generalizing id s r with
  | zero => cases h
  | succ depth ih =>
    cases hentry : reg.entries[id]? with
    | none =>
      rw [parse_of_missing hentry] at h
      cases h
    | some entry =>
      cases hwork : entry.work with
      | leaf leaf =>
        rw [parse_of_leaf hentry hwork] at h
        cases h
        obtain ⟨primitive, -, hleaf⟩ := hg.leaf (hlaid.leaf_node hentry hwork)
        exact forward_leaf hleaf id ⟨hs, hclear _ hfloor, Nat.le_refl _⟩
      | branch rule =>
        obtain ⟨places, hnode, -⟩ := hlaid.branch_node hentry hwork
        rw [parse_of_branch hentry hwork] at h
        obtain ⟨_, -, h⟩ := Traced.result_bind_eq_ok_iff.1 h
        obtain ⟨outcome, hscript, h⟩ := Traced.result_bind_eq_ok_iff.1 h
        obtain ⟨_, -, h⟩ := Traced.result_bind_eq_ok_iff.1 h
        cases h
        have hkept : (onward clear input s.pos).KeptBy (runChild (reg.parse depth) entry)
            (fun _ _ => True) id := by
          refine onward_keptBy (fun pos hpos => hclear pos (Nat.le_trans hfloor hpos))
            (fun index t r ht hle hr => ?_) id
          obtain ⟨child, hr⟩ := exists_child_of_runChild hr
          exact ih child ht (Nat.le_trans hfloor hle) hr
        have hstep : (onward clear input s.pos).Admits [] (.descend s) :=
          ⟨⟨hs, hclear _ hfloor, Nat.le_refl _⟩, hs, Nat.le_refl _⟩
        exact ((hkept.script (hg.branch hnode) hstep).value outcome hscript).claim id

/-- A branch that is resumed goes on from the end of the child, so what comes of it lies there or
    beyond, with all that was known before it. -/
theorem forward_resume {depth parent index : Nat} {child r : Result} {saved : Option Saved}
    (hchild : child.Forward clear input floor)
    (hsaved : ∀ data, saved = some data → data.All (·.Behind clear input child.stop.pos))
    (h : (reg.resume depth parent ⟨index, child, saved⟩).result = .ok r) :
    r.Forward clear input child.stop.pos := by
  obtain ⟨entry, rule, outcome, hentry, hwork, hscript, rfl⟩ := exists_script_of_resume h
  obtain ⟨places, hnode, -⟩ := hlaid.branch_node hentry hwork
  have hkept : (onward clear input child.stop.pos).KeptBy (runChild (reg.parse depth) entry)
      (fun _ _ => True) parent := by
    refine onward_keptBy (fun pos hpos => hclear pos (Nat.le_trans hchild.floor hpos))
      (fun index t r ht hle hr => ?_) parent
    obtain ⟨id, hr⟩ := exists_child_of_runChild hr
    exact forward_parse hg hlaid hclear depth id ht (Nat.le_trans hchild.floor hle) hr
  have hstep : (onward clear input child.stop.pos).Admits [] (.resume ⟨index, child, saved⟩) :=
    ⟨⟨hchild.start, hchild.stop, Nat.le_refl _, hchild.error⟩, hchild.start, hsaved⟩
  exact ((hkept.script (hg.branch hnode) hstep).value outcome hscript).claim parent

end Primitive

end Registry

end Resync
