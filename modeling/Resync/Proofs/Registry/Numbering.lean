import Resync.Proofs.Registry.Ways

namespace Resync.Registry

/-- Of some children of an occurrence, with their positions, those that hang from it. -/
def hanging (reg : Registry) (id : Nat) (children : List (Nat × Nat)) : List Nat :=
  children.filterMap fun (child, index) =>
    if reg.parent? child = some (id, index) then some child else none

/-- The children of an occurrence that hang from it. The others enclose it. -/
def ownChildren (reg : Registry) (id : Nat) : List Nat :=
  match reg.entries[id]? with
  | some entry => reg.hanging id entry.children.zipIdx
  | none => []

/-- An occurrence and those below it, at most `depth` levels of them: an occurrence before its
    children, and the children from left to right. -/
def preorder (reg : Registry) : (depth : Nat) → Nat → List Nat
  | 0, _ => []
  | depth + 1, id => id :: (reg.ownChildren id).flatMap (reg.preorder depth)

variable {reg : Registry} {g : Graph}

section Within

variable {id parent index : Nat}

theorem isWithin_self (reg : Registry) (id : Nat) : reg.isWithin id id = true := by
  rw [isWithin, beq_self_eq_true, Bool.true_or]

theorem pathUp_of_parent?_eq_none (hparent : reg.parent? id = none) (limit : Nat) :
    reg.pathUp limit id = [] := by
  cases limit with
  | zero => rfl
  | succ limit => rw [pathUp, hparent]

/-- The way from an occurrence is the same under all limits that it needs, as each step leads to a
    smaller identifier. -/
theorem LaidOut.pathUp_eq (h : reg.LaidOut g) {limit other : Nat} (hlimit : id ≤ limit)
    (hother : id ≤ other) : reg.pathUp limit id = reg.pathUp other id := by
  induction id using Nat.strongRecOn generalizing limit other with
  | ind id ih =>
    cases hparent : reg.parent? id with
    | none => rw [pathUp_of_parent?_eq_none hparent, pathUp_of_parent?_eq_none hparent]
    | some link =>
      have hlt : link.1 < id := (h.hangs hparent).1
      obtain ⟨limit, rfl⟩ := Nat.exists_eq_succ_of_ne_zero (by omega : limit ≠ 0)
      obtain ⟨other, rfl⟩ := Nat.exists_eq_succ_of_ne_zero (by omega : other ≠ 0)
      rw [pathUp, pathUp, hparent]
      dsimp only
      rw [ih link.1 hlt (show link.1 ≤ limit by omega) (show link.1 ≤ other by omega)]

/-- What encloses the parent of an occurrence encloses the occurrence, since the way up from it
    leads through the parent. -/
theorem LaidOut.isWithin_of_parent? (h : reg.LaidOut g)
    (hparent : reg.parent? id = some (parent, index)) {ancestor : Nat}
    (hwithin : reg.isWithin parent ancestor = true) : reg.isWithin id ancestor = true := by
  have hlt : parent < id := (h.hangs hparent).1
  have hancestors : reg.ancestors id = (parent, index) :: reg.ancestors parent := by
    obtain ⟨limit, rfl⟩ := Nat.exists_eq_succ_of_ne_zero (Nat.ne_zero_of_lt hlt)
    rw [ancestors, pathUp, hparent]
    dsimp only
    rw [h.pathUp_eq (Nat.le_of_lt_succ hlt) (Nat.le_refl parent)]
    rfl
  rw [isWithin] at hwithin ⊢
  rw [hancestors, List.any_cons, hwithin, Bool.or_true]

end Within

theorem Includes.uncons {next : Nat} {entry : Entry} {below : List Entry}
    (h : reg.Includes next (entry :: below)) :
    reg.entries[next]? = some entry ∧ reg.Includes (next + 1) below := by
  obtain ⟨hhead, htail⟩ := Includes.append (show reg.Includes next ([entry] ++ below) from h)
  exact ⟨hhead (k := 0) rfl, htail⟩

/-- The occurrences that the walk is inside are those that the next one hangs from, and all that
    enclose it. -/
def Encloses (reg : Registry) (walking : List (Nat × Nat)) (parent : Option (Nat × Nat)) : Prop :=
  ∀ place id : Nat, walking.lookup place = some id →
    ∃ link, parent = some link ∧ reg.isWithin link.1 id = true

/-- On its way down, the walk is inside the branch that it has entered and inside all that encloses
    the branch. -/
theorem Encloses.below (h : reg.LaidOut g) {walking : List (Nat × Nat)}
    {parent : Option (Nat × Nat)} (hencloses : reg.Encloses walking parent) {place next : Nat}
    (hparent : reg.parent? next = parent) (index : Nat) :
    reg.Encloses ((place, next) :: walking) (some (next, index)) := by
  intro other id hlookup
  refine ⟨(next, index), rfl, ?_⟩
  rw [List.lookup_cons] at hlookup
  split at hlookup
  · cases hlookup
    exact reg.isWithin_self _
  · obtain ⟨link, rfl, hwithin⟩ := hencloses other id hlookup
    exact h.isWithin_of_parent? hparent hwithin

/-- An occurrence that was added for a parser hangs from where the walk was, and the others are
    enclosed already. -/
theorem register_hangs {depth next place id : Nat} {walking : List (Nat × Nat)}
    {parent : Option (Nat × Nat)} {added : List Entry}
    (h : register g depth walking parent next place = .ok (id, added))
    (hadded : reg.Includes next added) :
    (added = [] ∧ ∃ actual, walking.lookup actual = some id) ∨
      (id = next ∧ added ≠ [] ∧ reg.parent? next = parent) := by
  cases depth with
  | zero => cases h
  | succ depth =>
    obtain ⟨actual, -, ⟨hlookup, rfl⟩ | ⟨rfl, leaf, -, rfl⟩ |
      ⟨rfl, label, rule, places, ids, below, -, -, rfl⟩⟩ := register_cases h
    · exact .inl ⟨rfl, actual, hlookup⟩
    · refine .inr ⟨rfl, List.cons_ne_nil _ _, ?_⟩
      rw [parent?, hadded.uncons.1]
      rfl
    · refine .inr ⟨rfl, List.cons_ne_nil _ _, ?_⟩
      rw [parent?, hadded.uncons.1]
      rfl

/-- What was added for a parser hangs from where the walk was. -/
theorem parent?_of_register {depth next place id : Nat} {walking : List (Nat × Nat)}
    {parent : Option (Nat × Nat)} {added : List Entry}
    (h : register g depth walking parent next place = .ok (id, added))
    (hadded : reg.Includes next added) (hne : added ≠ []) : reg.parent? next = parent := by
  obtain ⟨hnil, -⟩ | ⟨-, -, hparent⟩ := register_hangs h hadded
  · exact absurd hnil hne
  · exact hparent

/-- A child encloses its branch already, or it was added and hangs from it. A child that is one of
    the enclosing branches leads back, and adds nothing. -/
theorem Encloses.child_cases {depth start place id index child : Nat} {walking : List (Nat × Nat)}
    {part : List Entry} (hencloses : reg.Encloses walking (some (id, index)))
    (h : register g depth walking (some (id, index)) start place = .ok (child, part))
    (hpart : reg.Includes start part) :
    (part = [] ∧ reg.isWithin id child = true) ∨
      (child = start ∧ part ≠ [] ∧ reg.parent? child = some (id, index)) := by
  obtain ⟨hnil, actual, hlookup⟩ | ⟨rfl, hne, hparent⟩ := register_hangs h hpart
  · obtain ⟨link, hlink, hwithin⟩ := hencloses actual child hlookup
    cases hlink
    exact .inl ⟨hnil, hwithin⟩
  · exact .inr ⟨rfl, hne, hparent⟩

/-- A child hangs from the occurrence at its position, or encloses it. -/
def HangsOrEncloses (reg : Registry) (id : Nat) (entry : Entry) : Prop :=
  ∀ index child : Nat, entry.children[index]? = some child →
    reg.parent? child = some (id, index) ∨ reg.isWithin id child = true

section Walk

variable (h : reg.LaidOut g)
include h

/-- Below every place, the children hang from their branch or enclose it. The induction follows the
    walk, with what encloses it. -/
theorem LaidOut.hangsOrEncloses_register {depth next place id : Nat} {walking : List (Nat × Nat)}
    {parent : Option (Nat × Nat)} {added : List Entry}
    (hregister : register g depth walking parent next place = .ok (id, added))
    (hadded : reg.Includes next added) (hencloses : reg.Encloses walking parent) :
    ∀ k entry, added[k]? = some entry → reg.HangsOrEncloses (next + k) entry := by
  induction depth generalizing walking parent next place id added with
  | zero => cases hregister
  | succ depth ih =>
    have hparent := parent?_of_register hregister hadded
    obtain ⟨actual, -, ⟨hlookup, rfl⟩ | ⟨rfl, leaf, -, rfl⟩ |
      ⟨rfl, label, rule, places, ids, below, -, hbelow, rfl⟩⟩ := register_cases hregister
    · exact fun _ _ hentry => nomatch hentry
    · intro k entry hentry
      cases k with
      | zero =>
        cases hentry
        exact fun _ _ hchild => nomatch hchild
      | succ k => cases hentry
    · obtain ⟨hlength, hshares, hcover⟩ := shares_registerChildren hbelow hadded.uncons.2
      have hwalking (index : Nat) :
          reg.Encloses ((actual, id) :: walking) (some (id, index)) :=
        hencloses.below h (hparent (List.cons_ne_nil _ _)) index
      intro k entry hentry
      cases k with
      | zero =>
        cases hentry
        intro index child hchild
        have hplace : index < places.length :=
          hlength ▸ (List.getElem?_eq_some_iff.1 hchild).1
        obtain ⟨found, start, part, hshare⟩ :=
          hshares index places[index] (List.getElem?_eq_getElem hplace)
        obtain rfl : child = found := Option.some.inj (hchild.symm.trans hshare.id_eq)
        obtain ⟨-, hwithin⟩ | ⟨-, -, hhangs⟩ :=
          (hwalking _).child_cases hshare.registered hshare.includes
        · exact .inr hwithin
        · rw [Nat.zero_add] at hhangs
          exact .inl hhangs
      | succ k =>
        obtain ⟨index, place, child, start, part, hshare, j, hj, heq⟩ := hcover k entry hentry
        rw [Nat.add_comm k, ← Nat.add_assoc, heq]
        exact ih hshare.registered hshare.includes (hwalking _) j entry hj

/-- What encloses an occurrence does not hang from it, since parents come before their children. So
    the two cases of a child exclude each other. -/
theorem LaidOut.parent?_ne_of_isWithin {id child index : Nat}
    (hwithin : reg.isWithin id child = true) : reg.parent? child ≠ some (id, index) := by
  intro hparent
  have hlt : id < child := (h.hangs hparent).1
  have hle := h.le_of_isWithin hwithin
  omega

omit h in
/-- The children that hang from a branch fill the identifiers that were given for its children, if
    each of them fills those that were given for it. -/
theorem flatMap_hanging {register : Nat × Nat → Nat → Nat → Except Fault (Nat × List Entry)}
    {parent index next depth : Nat} {places ids : List Nat} {added : List Entry}
    (hregister : registerChildren register parent index next places = .ok (ids, added))
    (hadded : reg.Includes next added) (hdepth : added.length ≤ depth)
    (hchild : ∀ {index start place id part}, register (parent, index) start place = .ok (id, part) →
      reg.Includes start part → part.length ≤ depth →
        (part = [] ∧ reg.parent? id ≠ some (parent, index)) ∨
          (reg.parent? id = some (parent, index) ∧
            reg.preorder depth id = List.range' start part.length)) :
    (reg.hanging parent (ids.zipIdx index)).flatMap (reg.preorder depth) =
      List.range' next added.length := by
  induction places generalizing index next ids added with
  | nil =>
    cases hregister
    rfl
  | cons place places ih =>
    obtain ⟨id, part, ids, others, hhead, htail, rfl, rfl⟩ := registerChildren_cons_eq_ok hregister
    obtain ⟨hpart, hothers⟩ := hadded.append
    rw [List.length_append] at hdepth
    have hrest := ih htail hothers (Nat.le_trans (Nat.le_add_left ..) hdepth)
    rw [List.zipIdx_cons, hanging, List.filterMap_cons]
    obtain ⟨rfl, hparent⟩ | ⟨hparent, hpreorder⟩ :=
      hchild hhead hpart (Nat.le_trans (Nat.le_add_right ..) hdepth)
    · simp only [if_neg hparent]
      exact hrest
    · simp only [if_pos hparent, List.flatMap_cons]
      rw [hpreorder, List.length_append, ← List.range'_append_1]
      exact congrArg _ hrest

/-- An occurrence and those below it have all the identifiers that were given when it was added. The
    children that hang from it fill those after its own, without gaps. -/
theorem LaidOut.preorder_register {depth next place id levels : Nat} {walking : List (Nat × Nat)}
    {parent : Option (Nat × Nat)} {added : List Entry}
    (hregister : register g depth walking parent next place = .ok (id, added))
    (hadded : reg.Includes next added) (hencloses : reg.Encloses walking parent)
    (hne : added ≠ []) (hlevels : added.length ≤ levels) :
    reg.preorder levels next = List.range' next added.length := by
  induction depth generalizing walking parent next place id added levels with
  | zero => cases hregister
  | succ depth ih =>
    have hparent := parent?_of_register hregister hadded hne
    obtain ⟨levels, rfl⟩ := Nat.exists_eq_succ_of_ne_zero
      (Nat.ne_zero_of_lt (Nat.lt_of_lt_of_le (List.length_pos_iff.2 hne) hlevels))
    obtain ⟨actual, -, ⟨-, rfl⟩ | ⟨rfl, leaf, -, rfl⟩ |
      ⟨rfl, label, rule, places, ids, below, -, hbelow, rfl⟩⟩ := register_cases hregister
    · exact absurd rfl hne
    · rw [preorder, ownChildren, hadded.uncons.1]
      rfl
    · obtain ⟨hentry, hincludes⟩ := hadded.uncons
      have hbelow := flatMap_hanging hbelow hincludes (Nat.le_of_succ_le_succ hlevels) ?_
      · rw [preorder, ownChildren, hentry]
        dsimp only
        rw [hbelow, List.length_cons, List.range'_succ]
      · intro index start place child part hchild hpart hlevels
        have hwalking : reg.Encloses ((actual, id) :: walking) (some (id, index)) :=
          hencloses.below h hparent index
        obtain ⟨rfl, hwithin⟩ | ⟨rfl, hne, hhangs⟩ := hwalking.child_cases hchild hpart
        · exact .inl ⟨rfl, h.parent?_ne_of_isWithin hwithin⟩
        · exact .inr ⟨hhangs, ih hchild hpart hwalking hne hlevels⟩

end Walk

/-- The walk over a whole graph: what it added, with the root first and nothing around it. -/
theorem register_of_ofGraph (h : ofGraph g = .ok reg) :
    register g (g.nodes.length + 1) [] none 0 g.root = .ok (0, reg.entries) ∧
      reg.entries ≠ [] ∧ reg.Includes 0 reg.entries := by
  unfold ofGraph at h
  obtain ⟨⟨id, entries⟩, hroot, h⟩ := Fault.bind_eq_ok_iff.1 h
  cases h
  have hincludes : Includes ⟨entries⟩ 0 entries := by
    intro k entry hentry
    rw [Nat.zero_add]
    exact hentry
  obtain ⟨-, actual, hlookup⟩ | ⟨rfl, hne, -⟩ := register_hangs hroot hincludes
  · cases hlookup
  · exact ⟨hroot, hne, hincludes⟩

theorem encloses_nil : reg.Encloses [] none :=
  fun _ _ hlookup => nomatch hlookup

/-- Every child of a prepared graph hangs from its branch or encloses it, so links that lead back
    lead to occurrences on the way to the root. -/
theorem hangsOrEncloses_ofGraph (h : ofGraph g = .ok reg) {id : Nat} {entry : Entry}
    (hentry : reg.entries[id]? = some entry) : reg.HangsOrEncloses id entry := by
  obtain ⟨hroot, -, hincludes⟩ := register_of_ofGraph h
  have hall := (laidOut_ofGraph h).hangsOrEncloses_register hroot hincludes encloses_nil id entry
    hentry
  rwa [Nat.zero_add] at hall

/-- The identifiers of a prepared graph count its occurrences in the order of the walk: a branch
    before its children, and these from left to right. -/
theorem preorder_ofGraph (h : ofGraph g = .ok reg) :
    reg.preorder reg.size 0 = List.range reg.size := by
  obtain ⟨hroot, hne, hincludes⟩ := register_of_ofGraph h
  rw [List.range_eq_range']
  exact (laidOut_ofGraph h).preorder_register hroot hincludes encloses_nil hne (Nat.le_refl _)

end Resync.Registry
