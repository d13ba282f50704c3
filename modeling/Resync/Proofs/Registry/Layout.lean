import Mathlib.Logic.Basic
import Resync.Registry

namespace Resync.Registry

/-- An occurrence is one of the parser that does the work of a place. -/
def Occupies (reg : Registry) (g : Graph) (id place : Nat) : Prop :=
  ∃ entry, reg.entries[id]? = some entry ∧ g.resolve place = .ok entry.place

/-- The work and the children of an occurrence are those of the parser at its place. -/
def Mirrors (reg : Registry) (g : Graph) (entry : Entry) : Prop :=
  match entry.work with
  | .leaf leaf => g.nodes[entry.place]? = some (.leaf leaf) ∧ entry.children = []
  | .branch rule => ∃ places, g.nodes[entry.place]? = some (.branch entry.label rule places) ∧
      entry.children.length = places.length ∧ ∀ {index place child : Nat},
        places[index]? = some place → entry.children[index]? = some child →
          reg.Occupies g child place

/-- A parent comes before the occurrence, which is one of its children. -/
def HangsFrom (reg : Registry) (id : Nat) (link : Nat × Nat) : Prop :=
  link.1 < id ∧ ∃ above, reg.entries[link.1]? = some above ∧ above.children[link.2]? = some id

/-- A registry whose occurrences are those of the parsers of a graph. -/
structure LaidOut (reg : Registry) (g : Graph) : Prop where
  root : reg.Occupies g 0 g.root
  mirrors : ∀ {id : Nat} {entry : Entry}, reg.entries[id]? = some entry → reg.Mirrors g entry
  hangs : ∀ {id : Nat} {link : Nat × Nat}, reg.parent? id = some link → reg.HangsFrom id link
  top : ∀ {id : Nat} {entry : Entry}, reg.entries[id]? = some entry → entry.parent = none → id = 0

/-- A registry has entries that were added from an identifier on. -/
def Includes (reg : Registry) (next : Nat) (added : List Entry) : Prop :=
  ∀ {k entry}, added[k]? = some entry → reg.entries[next + k]? = some entry

variable {reg : Registry} {g : Graph}

/-- If a registry has what was added, it has both parts of it, one behind the other. -/
theorem Includes.append {next : Nat} {added others : List Entry}
    (h : reg.Includes next (added ++ others)) :
    reg.Includes next added ∧ reg.Includes (next + added.length) others := by
  refine ⟨?_, ?_⟩
  · intro k _ hk
    apply h
    rw [List.getElem?_append_left (List.getElem?_eq_some_iff.1 hk).1]
    exact hk
  · intro k _ hk
    rw [Nat.add_assoc]
    apply h
    rw [List.getElem?_append_right (Nat.le_add_right ..), Nat.add_sub_cancel_left]
    exact hk

section Children

variable {register : Nat × Nat → Nat → Nat → Except Fault (Nat × List Entry)} {parent : Nat}

/-- One child of several that were registered, with the entries that were added for it. -/
structure Share (reg : Registry)
    (register : Nat × Nat → Nat → Nat → Except Fault (Nat × List Entry)) (parent first next : Nat)
    (places ids : List Nat) (index place id start : Nat) (part : List Entry) : Prop where
  place_eq : places[index]? = some place
  id_eq : ids[index]? = some id
  registered : register (parent, first + index) start place = .ok (id, part)
  next_le : next ≤ start
  includes : reg.Includes start part

/-- The share of a child is still its share if another child comes before it. -/
theorem Share.cons {first next place id index start later : Nat} {places ids : List Nat}
    {part : List Entry} {child other : Nat} (hle : next ≤ later)
    (h : Share reg register parent (first + 1) later places ids index place id start part) :
    Share reg register parent first next (other :: places) (child :: ids) (index + 1) place id start
      part where
  place_eq := h.place_eq
  id_eq := h.id_eq
  registered := by
    rw [← h.registered, Nat.add_assoc, Nat.add_comm 1]
  next_le := Nat.le_trans hle h.next_le
  includes := h.includes

/-- Of several children, the first is registered, and then the others behind what was added for
    it. -/
theorem registerChildren_cons_eq_ok {first next place : Nat} {places ids : List Nat}
    {added : List Entry}
    (h : registerChildren register parent first next (place :: places) = .ok (ids, added)) :
    ∃ id part ids' others, register (parent, first) next place = .ok (id, part) ∧
      registerChildren register parent (first + 1) (next + part.length) places =
        .ok (ids', others) ∧ ids = id :: ids' ∧ added = part ++ others := by
  unfold registerChildren at h
  obtain ⟨⟨id, part⟩, hhead, h⟩ := Fault.bind_eq_ok_iff.1 h
  obtain ⟨⟨ids', others⟩, htail, h⟩ := Fault.bind_eq_ok_iff.1 h
  cases h
  exact ⟨id, part, ids', others, hhead, htail, rfl, rfl⟩

/-- Every child has a share of the entries, and every entry is in the share of a child. So what
    holds of each share holds of all entries that were added. -/
theorem shares_registerChildren {first next : Nat} {places ids : List Nat} {added : List Entry}
    (h : registerChildren register parent first next places = .ok (ids, added))
    (hadded : reg.Includes next added) :
    ids.length = places.length ∧
    (∀ index place, places[index]? = some place → ∃ id start part,
      Share reg register parent first next places ids index place id start part) ∧
    ∀ k entry, added[k]? = some entry → ∃ index place id start part,
      Share reg register parent first next places ids index place id start part ∧
        ∃ j, part[j]? = some entry ∧ next + k = start + j := by
  induction places generalizing first next ids added with
  | nil =>
    cases h
    exact ⟨rfl, fun _ _ hplace => (nomatch hplace), fun _ _ hentry => nomatch hentry⟩
  | cons place places ih =>
    obtain ⟨id, part, ids, others, hhead, htail, rfl, rfl⟩ := registerChildren_cons_eq_ok h
    obtain ⟨hpart, hothers⟩ := hadded.append
    obtain ⟨hlength, hshares, hcover⟩ := ih htail hothers
    have hle : next ≤ next + part.length := Nat.le_add_right ..
    have hfirst : Share reg register parent first next (place :: places) (id :: ids) 0 place id next
        part := ⟨rfl, rfl, hhead, Nat.le_refl _, hpart⟩
    refine ⟨congrArg (· + 1) hlength, ?_, ?_⟩
    · intro index place' hplace
      cases index with
      | zero =>
        cases hplace
        exact ⟨_, _, _, hfirst⟩
      | succ index =>
        obtain ⟨_, _, _, hshare⟩ := hshares _ _ hplace
        exact ⟨_, _, _, hshare.cons hle⟩
    · intro k entry hentry
      by_cases hk : k < part.length
      · rw [List.getElem?_append_left hk] at hentry
        exact ⟨_, _, _, _, _, hfirst, k, hentry, rfl⟩
      · rw [List.getElem?_append_right (Nat.le_of_not_lt hk)] at hentry
        obtain ⟨_, _, _, _, _, hshare, j, hj, hplace⟩ := hcover _ _ hentry
        refine ⟨_, _, _, _, _, hshare.cons hle, j, hj, ?_⟩
        omega

end Children

/-- What is known of a walk when the parser at a place is reached: the occurrences that enclose it,
    and where the next one hangs. -/
structure Reached (reg : Registry) (walking : List (Nat × Nat)) (parent : Option (Nat × Nat))
    (next id : Nat) : Prop where
  walking : ∀ {place id : Nat}, walking.lookup place = some id →
    ∃ entry, reg.entries[id]? = some entry ∧ entry.place = place
  parent : ∀ {link}, parent = some link → id = next → reg.HangsFrom next link

/-- What is true of the occurrence `id` if it was added for the parser that got the identifier
    `first`, under a parent. -/
structure Placed (reg : Registry) (g : Graph) (parent : Option (Nat × Nat)) (first id : Nat)
    (entry : Entry) : Prop where
  mirrors : reg.Mirrors g entry
  hangs : ∀ {link}, entry.parent = some link → reg.HangsFrom id link
  top : entry.parent = none → id = first ∧ parent = none

/-- What is known when a branch is reached is known at each of its children, with the branch among
    what encloses it. -/
theorem Reached.below {walking : List (Nat × Nat)} {parent : Option (Nat × Nat)}
    {next id start child place index : Nat} {entry : Entry} (h : Reached reg walking parent next id)
    (hentry : reg.entries[next]? = some entry) (hplace : entry.place = place) (hlt : next < start)
    (hchild : entry.children[index]? = some child) :
    Reached reg ((place, next) :: walking) (some (next, index)) start child where
  walking {other _} hlookup := by
    rw [List.lookup_cons] at hlookup
    split at hlookup
    · next heq =>
      cases hlookup
      exact ⟨entry, hentry, hplace.trans (beq_iff_eq.1 heq).symm⟩
    · exact h.walking hlookup
  parent hlink hid := by
    cases hlink
    exact ⟨hlt, entry, hentry, hid ▸ hchild⟩

/-- Registers a child, given its parent. -/
def registerBelow (g : Graph) (depth : Nat) (walking : List (Nat × Nat)) (parent : Nat × Nat) :
    Nat → Nat → Except Fault (Nat × List Entry) :=
  register g depth walking (some parent)

/-- All that the walk can do at a place: it is inside the parser already, it is at a leaf, or it
    goes on with the children of a branch. -/
theorem register_cases {depth next place id : Nat} {walking : List (Nat × Nat)}
    {parent : Option (Nat × Nat)} {added : List Entry}
    (h : register g (depth + 1) walking parent next place = .ok (id, added)) :
    ∃ actual, g.resolve place = .ok actual ∧
      ((walking.lookup actual = some id ∧ added = []) ∨
        (id = next ∧ ∃ leaf, g.nodes[actual]? = some (.leaf leaf) ∧
          added = [⟨actual, leaf.label, .leaf leaf, parent, []⟩]) ∨
        (id = next ∧ ∃ label rule places ids below,
          g.nodes[actual]? = some (.branch label rule places) ∧
          registerChildren (registerBelow g depth ((actual, next) :: walking)) next 0 (next + 1)
            places = .ok (ids, below) ∧
          added = ⟨actual, label, .branch rule, parent, ids⟩ :: below)) := by
  unfold register at h
  obtain ⟨actual, hresolve, h⟩ := Fault.bind_eq_ok_iff.1 h
  refine ⟨actual, hresolve, ?_⟩
  cases hlookup : walking.lookup actual with
  | some enclosing =>
    rw [hlookup] at h
    cases h
    exact .inl ⟨rfl, rfl⟩
  | none =>
    rw [hlookup] at h
    cases hnode : g.nodes[actual]? with
    | none =>
      rw [hnode] at h
      cases h
    | some node =>
      rw [hnode] at h
      cases node with
      | forward target => cases h
      | unused => cases h
      | leaf leaf =>
        cases h
        exact .inr (.inl ⟨rfl, leaf, rfl, rfl⟩)
      | branch label rule places =>
        obtain ⟨⟨ids, below⟩, hbelow, h⟩ := Fault.bind_eq_ok_iff.1 h
        cases h
        exact .inr (.inr ⟨rfl, label, rule, places, ids, below, rfl, hbelow, rfl⟩)

/-- A parser that is registered gets an occurrence of its own or that of an enclosing one, and all
    occurrences that are added for it are as they should be. -/
theorem placed_register {depth next place id : Nat} {walking : List (Nat × Nat)}
    {parent : Option (Nat × Nat)} {added : List Entry}
    (h : register g depth walking parent next place = .ok (id, added))
    (hadded : reg.Includes next added) (hreached : Reached reg walking parent next id) :
    reg.Occupies g id place ∧ ∀ k entry, added[k]? = some entry →
      Placed reg g parent next (next + k) entry := by
  induction depth generalizing walking parent next place id added with
  | zero => cases h
  | succ depth ih =>
    obtain ⟨actual, hresolve, ⟨hlookup, rfl⟩ | ⟨rfl, leaf, hnode, rfl⟩ |
      ⟨rfl, label, rule, places, ids, below, hnode, hbelow, rfl⟩⟩ := register_cases h
    · obtain ⟨entry, hentry, rfl⟩ := hreached.walking hlookup
      exact ⟨⟨entry, hentry, hresolve⟩, fun _ _ hnone => nomatch hnone⟩
    · have hentry := hadded (k := 0) rfl
      refine ⟨⟨_, hentry, hresolve⟩, ?_⟩
      intro k entry hk
      cases k with
      | succ k => cases hk
      | zero =>
        cases hk
        exact ⟨⟨hnode, rfl⟩, fun hlink => hreached.parent hlink rfl, fun hnone => ⟨rfl, hnone⟩⟩
    · have hentry := hadded (k := 0) rfl
      have hincludes : reg.Includes (id + 1) below := by
        intro k entry hk
        rw [Nat.add_assoc, Nat.add_comm 1]
        exact hadded hk
      obtain ⟨hlength, hshares, hcover⟩ := shares_registerChildren hbelow hincludes
      have hplaced {index place child start : Nat} {part : List Entry}
          (hshare : Share reg (registerBelow g depth ((actual, id) :: walking)) id 0 (id + 1) places
            ids index place child start part) :
          reg.Occupies g child place ∧ ∀ k entry, part[k]? = some entry →
            Placed reg g (some (id, index)) start (start + k) entry := by
        refine ih ?_ hshare.includes
          (hreached.below hentry rfl (Nat.lt_of_succ_le hshare.next_le) hshare.id_eq)
        have hregistered := hshare.registered
        rwa [Nat.zero_add] at hregistered
      refine ⟨⟨_, hentry, hresolve⟩, ?_⟩
      intro k entry hk
      cases k with
      | zero =>
        cases hk
        refine ⟨⟨places, hnode, hlength, ?_⟩, fun hlink => hreached.parent hlink rfl,
          fun hnone => ⟨rfl, hnone⟩⟩
        intro index place child hplace hchild
        obtain ⟨found, start, part, hshare⟩ := hshares index place hplace
        have hfound := hshare.id_eq
        rw [hchild] at hfound
        cases hfound
        exact (hplaced hshare).1
      | succ k =>
        obtain ⟨index, place, child, start, part, hshare, j, hj, heq⟩ := hcover k entry hk
        have hbelow := (hplaced hshare).2 j entry hj
        rw [Nat.add_comm k, ← Nat.add_assoc, heq]
        exact ⟨hbelow.mirrors, hbelow.hangs, fun hnone => nomatch (hbelow.top hnone).2⟩

/-- A prepared graph is laid out as the walk over it goes: every occurrence has the work of the
    parser at its place, and is linked with its children and its parent, which comes before them. So
    every way up ends at the root. -/
theorem laidOut_ofGraph (h : ofGraph g = .ok reg) : reg.LaidOut g := by
  unfold ofGraph at h
  obtain ⟨⟨id, entries⟩, hroot, h⟩ := Fault.bind_eq_ok_iff.1 h
  cases h
  have hincludes : Includes ⟨entries⟩ 0 entries := by
    intro k entry hk
    rw [Nat.zero_add]
    exact hk
  have hreached : Reached ⟨entries⟩ [] none 0 id :=
    ⟨fun hlookup => (nomatch hlookup), fun hlink => nomatch hlink⟩
  obtain ⟨hoccupies, hplaced⟩ := placed_register hroot hincludes hreached
  have hplaced {id : Nat} {entry : Entry} (hentry : entries[id]? = some entry) :
      Placed ⟨entries⟩ g none 0 id entry := by
    rw [← Nat.zero_add id]
    exact hplaced id entry hentry
  refine ⟨?_, fun hentry => (hplaced hentry).mirrors, fun {id link} hlink => ?_,
    fun hentry hnone => ((hplaced hentry).top hnone).1⟩
  · obtain ⟨actual, -, ⟨hlookup, -⟩ | ⟨rfl, -⟩ | ⟨rfl, -⟩⟩ := register_cases hroot
    · cases hlookup
    · exact hoccupies
    · exact hoccupies
  · obtain ⟨entry, hentry, hlink⟩ := Option.bind_eq_some_iff.1 hlink
    exact (hplaced hentry).hangs hlink

end Resync.Registry
