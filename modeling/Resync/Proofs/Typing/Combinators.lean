import Resync.Parser.Combinators
import Resync.Proofs.Typing.Grammar

namespace Resync.Parser

variable {s t u : Ty} {scope : List (String × Ty)}

theorem hasTypes_map_grammar {items : List AnyParser}
    (h : ∀ item ∈ items, item.2.grammar.HasType scope item.1) :
    Grammar.HasTypes scope (items.map (·.2.grammar)) (items.map (·.1)) := by
  induction items with
  | nil => exact .nil
  | cons item items ih =>
    apply Grammar.HasTypes.cons (h item List.mem_cons_self)
    exact ih fun other hother => h other (List.mem_cons_of_mem _ hother)

/-- A sequence has its type if it asks for each slot at the type of the item that fills it. No
    other combinator asks for anything of the kind: what is built with them has its type by
    construction. -/
theorem hasType_sequence {label : String} {items : List AnyParser} {requests : List (Nat × Ty)}
    {f : Ty.Vals (requests.map Prod.snd) → t.Val}
    (hrequests : ∀ request ∈ requests, (items.map (·.1))[request.1]? = some request.2)
    (hitems : ∀ item ∈ items, item.2.grammar.HasType scope item.1) :
    (sequence label items requests t f).grammar.HasType scope t := by
  have hreads : (Rule.combine requests t f).Reads (items.map (·.1)) :=
    Slots.takes_takeAll requests hrequests f
  exact .branch hreads (hasTypes_map_grammar hitems)

variable {a : Parser s} {b : Parser t} {c : Parser u}

theorem hasType_map (h : a.grammar.HasType scope s) (f : s.Val → t.Val) :
    (a.map t f).grammar.HasType scope t := by
  have hreads : (Rule.map s t f).Reads [s] := rfl
  exact .branch hreads (.cons h .nil)

theorem hasType_tryMap (h : a.grammar.HasType scope s) (f : s.Val → Except String t.Val) :
    (a.tryMap t f).grammar.HasType scope t := by
  have hreads : (Rule.tryMap s t f).Reads [s] := rfl
  exact .branch hreads (.cons h .nil)

theorem hasType_many (h : a.grammar.HasType scope s) :
    (many a).grammar.HasType scope (.list s) := by
  have hreads : (Rule.many s).Reads [s] := rfl
  exact .branch hreads (.cons h .nil)

theorem hasType_first {alternatives : List (Parser t)}
    (h : ∀ alternative ∈ alternatives, alternative.grammar.HasType scope t) :
    (first alternatives).grammar.HasType scope t := by
  let items : List AnyParser := alternatives.map fun alternative => ⟨t, alternative⟩
  have hreads : (Rule.firstSuccess t).Reads (items.map (·.1)) := by
    intro u hu
    simp only [items, List.map_map, List.mem_map] at hu
    obtain ⟨_, _, rfl⟩ := hu
    rfl
  have hchildren : Grammar.HasTypes scope (items.map (·.2.grammar)) (items.map (·.1)) := by
    apply hasTypes_map_grammar
    intro item hitem
    obtain ⟨alternative, halternative, rfl⟩ := List.mem_map.1 hitem
    exact h alternative halternative
  rw [List.map_map] at hchildren
  exact .branch hreads hchildren

theorem hasType_map2 (ha : a.grammar.HasType scope s) (hb : b.grammar.HasType scope t)
    (f : s.Val → t.Val → u.Val) : (a.map2 b u f).grammar.HasType scope u :=
  hasType_sequence (by simp) (by simp [ha, hb])

theorem hasType_map3 {v : Ty} (ha : a.grammar.HasType scope s) (hb : b.grammar.HasType scope t)
    (hc : c.grammar.HasType scope u) (f : s.Val → t.Val → u.Val → v.Val) :
    (a.map3 b c v f).grammar.HasType scope v :=
  hasType_sequence (by simp) (by simp [ha, hb, hc])

theorem hasType_preceded (ha : a.grammar.HasType scope s) (hb : b.grammar.HasType scope t) :
    (a.preceded b).grammar.HasType scope t :=
  hasType_sequence (by simp) (by simp [ha, hb])

theorem hasType_terminated (ha : a.grammar.HasType scope s) (hb : b.grammar.HasType scope t) :
    (a.terminated b).grammar.HasType scope s :=
  hasType_sequence (by simp) (by simp [ha, hb])

theorem hasType_delimited (ha : a.grammar.HasType scope s) (hb : b.grammar.HasType scope t)
    (hc : c.grammar.HasType scope u) : (a.delimited b c).grammar.HasType scope t :=
  hasType_sequence (by simp) (by simp [ha, hb, hc])

end Resync.Parser
