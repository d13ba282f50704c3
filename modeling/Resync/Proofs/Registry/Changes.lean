import Resync.Engine

namespace Resync

/-- Work that parses and is called alike. -/
inductive Work.ParsesLike : Work → Work → Prop
  | leaf {leaf other : Leaf} (hlabel : leaf.label = other.label)
      (hparse : ∀ id s, leaf.parse id s = other.parse id s) :
      ParsesLike (.leaf leaf) (.leaf other)
  | branch (rule : Rule) : ParsesLike (.branch rule) (.branch rule)

/-- A change of an occurrence that is not seen by runs. -/
structure Entry.Hidden (change : Entry → Entry) : Prop where
  label : ∀ entry, (change entry).label = entry.label
  work : ∀ entry, (change entry).work.ParsesLike entry.work
  parent : ∀ entry, (change entry).parent = entry.parent
  children : ∀ entry, (change entry).children = entry.children

namespace Registry

/-- Registries whose occurrences hang alike and do the same. -/
structure RunsLike (reg other : Registry) : Prop where
  size : reg.size = other.size
  label : ∀ id, reg.label id = other.label id
  parent? : ∀ id, reg.parent? id = other.parent? id
  parse : ∀ depth id s, reg.parse depth id s = other.parse depth id s
  resume : ∀ depth id r, reg.resume depth id r = other.resume depth id r

variable {reg other : Registry}

theorem RunsLike.rfl : reg.RunsLike reg :=
  ⟨Eq.refl _, fun _ => Eq.refl _, fun _ => Eq.refl _, fun _ _ _ => Eq.refl _, fun _ _ _ => Eq.refl _⟩

theorem RunsLike.symm (h : reg.RunsLike other) : other.RunsLike reg where
  size := h.size.symm
  label id := (h.label id).symm
  parent? id := (h.parent? id).symm
  parse depth id s := (h.parse depth id s).symm
  resume depth id r := (h.resume depth id r).symm

/-- Registries that run alike have the same ways up, so climbs go through the same branches. -/
theorem RunsLike.ancestors (h : reg.RunsLike other) (id : Nat) :
    reg.ancestors id = other.ancestors id := by
  have hpath (limit id : Nat) : reg.pathUp limit id = other.pathUp limit id := by
    induction limit generalizing id with
    | zero => exact Eq.refl _
    | succ limit ih => simp only [pathUp, h.parent?, ih]
  exact hpath id id

theorem RunsLike.isWithin (h : reg.RunsLike other) (id ancestor : Nat) :
    reg.isWithin id ancestor = other.isWithin id ancestor := by
  rw [Registry.isWithin, Registry.isWithin, h.ancestors]

/-- The registry with each occurrence changed. -/
def changed (reg : Registry) (change : Entry → Entry) : Registry :=
  ⟨reg.entries.map change⟩

variable {change : Entry → Entry} (h : Entry.Hidden change)

theorem getElem?_changed (reg : Registry) (change : Entry → Entry) (id : Nat) :
    (reg.changed change).entries[id]? = reg.entries[id]?.map change :=
  List.getElem?_map

theorem entry_changed (reg : Registry) (change : Entry → Entry) (id : Nat) :
    (reg.changed change).entry id = (reg.entry id).map change := by
  rw [entry, entry, getElem?_changed]
  cases reg.entries[id]? <;> rfl

/-- What is done with an occurrence that is looked up does not depend on what is changed, if it
    looks only at what runs see. -/
theorem bind_entry_changed {α : Type} (reg : Registry) (id : Nat) {f f' : Entry → Traced α}
    (hf : ∀ entry, f' (change entry) = f entry) :
    Traced.ofExcept ((reg.changed change).entry id) >>= f' =
      Traced.ofExcept (reg.entry id) >>= f := by
  rw [entry_changed]
  cases reg.entry id with
  | error defect => rfl
  | ok entry =>
    change pure (change entry) >>= f' = pure entry >>= f
    rw [pure_bind, pure_bind, hf]

include h

theorem label_changed (reg : Registry) (id : Nat) : (reg.changed change).label id = reg.label id := by
  rw [label, label, getElem?_changed]
  cases reg.entries[id]? with
  | none => rfl
  | some entry => exact h.label entry

theorem parent?_changed (reg : Registry) (id : Nat) :
    (reg.changed change).parent? id = reg.parent? id := by
  rw [parent?, parent?, getElem?_changed]
  cases reg.entries[id]? with
  | none => rfl
  | some entry => exact h.parent entry

/-- A branch sees the same of its children, their labels and their number. -/
theorem view_changed (reg : Registry) (id : Nat) (entry : Entry) :
    (reg.changed change).view id (change entry) = reg.view id entry := by
  have hlabel : (reg.changed change).label = reg.label := funext (label_changed h reg)
  rw [view, view, hlabel, h.children]

theorem runChild_changed (run : Nat → State → Traced Result) (entry : Entry) :
    runChild run (change entry) = runChild run entry := by
  funext index s
  rw [runChild, runChild, h.children]

/-- An occurrence parses the same after a change that runs do not see. The induction is on the
    depth: a leaf is the same, and a branch runs children that parse the same. -/
theorem parse_changed (reg : Registry) (depth id : Nat) (s : State) :
    (reg.changed change).parse depth id s = reg.parse depth id s := by
  induction depth generalizing id s with
  | zero => rfl
  | succ depth ih =>
    have hrun : (reg.changed change).parse depth = reg.parse depth :=
      funext fun id => funext (ih id)
    rw [parse, parse, hrun]
    congr 1
    funext _
    refine bind_entry_changed reg id fun entry => ?_
    rw [view_changed h, runChild_changed h]
    have hwork := h.work entry
    generalize (change entry).work = changed, entry.work = work at hwork ⊢
    cases hwork with
    | leaf _ hparse => simp only [hparse]
    | branch rule => rfl

/-- A branch goes on in the same way after a change that runs do not see. -/
theorem resume_changed (reg : Registry) (depth id : Nat) (r : Resumption) :
    (reg.changed change).resume depth id r = reg.resume depth id r := by
  have hrun : (reg.changed change).parse depth = reg.parse depth :=
    funext fun id => funext (parse_changed h reg depth id)
  rw [resume, resume, hrun]
  refine bind_entry_changed reg id fun entry => ?_
  rw [view_changed h, runChild_changed h, h.label]
  have hwork := h.work entry
  generalize (change entry).work = changed, entry.work = work at hwork ⊢
  cases hwork with
  | leaf hlabel _ => simp only [hlabel]
  | branch rule => rfl

/-- A registry runs like one whose occurrences differ in what runs do not see: runs depend on the
    labels, the links and the work of occurrences, and on nothing else. -/
theorem runsLike_changed (reg : Registry) : (reg.changed change).RunsLike reg where
  size := List.length_map _
  label := label_changed h reg
  parent? := parent?_changed h reg
  parse := parse_changed h reg
  resume := resume_changed h reg

end Registry

end Resync
