import Resync.Grammar
import Resync.Leaf.Primitive

namespace Resync

/-- An output is read at its type, and the value is there. -/
theorem Output.exists_as?_eq_some {o : Output} {t : Ty} (h : t = o.type) :
    ∃ value, o.as? t = some value := by
  subst h
  exact ⟨o.value, as?_self o.type o.value⟩

namespace Slots

/-- A finisher that takes slots at the types of the children, whatever it makes of them. -/
inductive Takes {α : Type} (types : List Ty) : (Slots → Except Defect α) → Prop
  | done (f : Slots → α) : Takes types fun slots => .ok (f slots)
  | take {index : Nat} {t : Ty} {next : t.Val → Slots → Except Defect α}
      (htype : types[index]? = some t) (hnext : ∀ value, Takes types (next value)) :
      Takes types fun slots => do
        let (value, slots) ← slots.take index t
        next value slots

/-- Slots that hold outputs of the types of the children, if any. -/
structure HaveTypes (slots : Slots) (types : List Ty) : Prop where
  length_eq : slots.outputs.length = types.length
  type_eq : ∀ {index : Nat} {o : Output}, slots.outputs[index]? = some (some o) →
    types[index]? = some o.type

variable {types : List Ty} {slots filled : Slots} {index : Nat}

theorem haveTypes_empty (types : List Ty) : (empty types.length).HaveTypes types where
  length_eq := List.length_replicate
  type_eq h := by
    have hnone := List.eq_of_mem_replicate (List.mem_of_getElem? h)
    cases hnone

/-- A slot may be filled at the type of its child, or emptied. -/
theorem HaveTypes.set (h : slots.HaveTypes types) {o? : Option Output}
    (ho : ∀ o, o? = some o → types[index]? = some o.type) :
    (Slots.mk (slots.outputs.set index o?)).HaveTypes types where
  length_eq := by
    rw [List.length_set]
    exact h.length_eq
  type_eq {other o} hother := by
    by_cases heq : index = other
    · subst heq
      obtain ⟨hlt, hvalue⟩ := List.getElem?_eq_some_iff.1 hother
      rw [List.getElem_set_self] at hvalue
      exact ho o hvalue
    · rw [List.getElem?_set_ne heq] at hother
      exact h.type_eq hother

/-- A child can always put its output into its slot, if the output has the type of the child. -/
theorem HaveTypes.put (h : slots.HaveTypes types) {o : Output}
    (ho : types[index]? = some o.type) :
    ∃ filled, slots.put index o = .ok filled ∧ filled.HaveTypes types := by
  have hlt : index < slots.outputs.length := by
    rw [h.length_eq]
    exact (List.getElem?_eq_some_iff.1 ho).1
  refine ⟨_, if_pos hlt, h.set fun other hother => ?_⟩
  cases hother
  exact ho

/-- A slot that is taken at the type of its child is there, and holds that type or nothing. In both
    cases there is a value, which may be the placeholder. -/
theorem HaveTypes.take (h : slots.HaveTypes types) {t : Ty} (ht : types[index]? = some t) :
    ∃ value rest, slots.take index t = .ok (value, rest) ∧ rest.HaveTypes types := by
  have hlt : index < slots.outputs.length := by
    rw [h.length_eq]
    exact (List.getElem?_eq_some_iff.1 ht).1
  have hslot := List.getElem?_eq_getElem hlt
  cases hfilled : slots.outputs[index] with
  | none =>
    rw [hfilled] at hslot
    exact ⟨t.placeholder, slots, by simp only [Slots.take, hslot], h⟩
  | some o =>
    rw [hfilled] at hslot
    have htype := h.type_eq hslot
    rw [ht, Option.some.injEq] at htype
    obtain ⟨value, hvalue⟩ := Output.exists_as?_eq_some htype
    refine ⟨value, ⟨slots.outputs.set index none⟩, ?_, ?_⟩
    · simp only [Slots.take, hslot, hvalue]
    · apply h.set
      intro other hnone
      cases hnone

/-- A finisher that takes slots at the types of the children finishes, also with slots that were
    never filled. -/
theorem Takes.exists_eq_ok {α : Type} {finish : Slots → Except Defect α}
    (h : Takes types finish) (hslots : slots.HaveTypes types) :
    ∃ value, finish slots = .ok value := by
  induction h generalizing slots with
  | done f => exact ⟨f slots, rfl⟩
  | take htype hnext ih =>
    obtain ⟨value, rest, htake, hrest⟩ := hslots.take htype
    obtain ⟨result, hresult⟩ := ih value hrest
    exact ⟨result, by simpa only [htake, bind, Except.bind] using hresult⟩

/-- Taking several slots, each at the type of its child, is such a finisher. The induction is on the
    slots that are taken. -/
theorem takes_takeAll {α : Type} (requests : List (Nat × Ty))
    (h : ∀ request ∈ requests, types[request.1]? = some request.2)
    (f : Ty.Vals (requests.map Prod.snd) → α) :
    Takes types fun slots => (slots.takeAll requests).map f := by
  induction requests with
  | nil => exact .done fun _ => f ()
  | cons request requests ih =>
    obtain ⟨index, t⟩ := request
    have hsplit : (fun slots : Slots => (slots.takeAll ((index, t) :: requests)).map f) =
        fun slots => (do
          let (value, slots) ← slots.take index t
          (slots.takeAll requests).map fun values => f (value, values)) := by
      funext slots
      rw [takeAll]
      cases slots.take index t with
      | error d => rfl
      | ok found =>
        simp only [bind, Except.bind]
        cases found.2.takeAll requests <;> rfl
    rw [hsplit]
    have htype : types[index]? = some t := h (index, t) List.mem_cons_self
    have hnext (value : t.Val) :
        Takes types fun slots => (slots.takeAll requests).map fun values => f (value, values) :=
      ih (fun request hrequest => h request (List.mem_cons_of_mem _ hrequest)) _
    exact .take htype hnext

end Slots

/-- A built-in rule reads its children at given types. -/
def Rule.Reads : Rule → List Ty → Prop
  | sequence _ finish, types => Slots.Takes types finish
  | map source _ _, types | tryMap source _ _, types | many source, types => types = [source]
  | firstSuccess result, types => ∀ t ∈ types, t = result
  | bespoke _ _, _ => False

mutual

/-- The type of a grammar, given those of the names in scope. -/
inductive Grammar.HasType : List (String × Ty) → Grammar → Ty → Prop
  | leaf {scope : List (String × Ty)} (primitive : Primitive) :
      HasType scope (.leaf primitive.leaf) primitive.leaf.type
  | branch {scope : List (String × Ty)} {label : String} {rule : Rule} {children : List Grammar}
      {types : List Ty} (hreads : rule.Reads types) (hchildren : HasTypes scope children types) :
      HasType scope (.branch label rule children) rule.resultType
  | safe {scope : List (String × Ty)} {g : Grammar} {t : Ty} (h : HasType scope g t) :
      HasType scope (.safe g) t
  | named {scope : List (String × Ty)} {name : String} {t : Ty}
      (h : scope.lookup name = some t) : HasType scope (.named name) t
  | sharing {scope : List (String × Ty)} {name : String} {definition body : Grammar} {s t : Ty}
      (hdefinition : HasType scope definition s) (hbody : HasType ((name, s) :: scope) body t) :
      HasType scope (.sharing name definition body) t
  | recursive {scope : List (String × Ty)} {name : String} {definition : Grammar} {t : Ty}
      (h : HasType ((name, t) :: scope) definition t) : HasType scope (.recursive name definition) t
  | deferred {scope : List (String × Ty)} {definition : Grammar} {t : Ty}
      (h : HasType scope definition t) : HasType scope (.deferred definition) t

/-- The types of several grammars. -/
inductive Grammar.HasTypes : List (String × Ty) → List Grammar → List Ty → Prop
  | nil {scope : List (String × Ty)} : HasTypes scope [] []
  | cons {scope : List (String × Ty)} {g : Grammar} {gs : List Grammar} {t : Ty} {ts : List Ty}
      (h : HasType scope g t) (hs : HasTypes scope gs ts) : HasTypes scope (g :: gs) (t :: ts)

end

end Resync
