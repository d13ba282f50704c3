import Mathlib.Algebra.Group.Nat.Defs
import Mathlib.Data.List.Basic
import Resync.Text.Quoted

namespace Resync.Text

/-- The digits of hexadecimal numbers, in the order of their values. -/
def hexDigits : List Char :=
  ['0', '1', '2', '3', '4', '5', '6', '7', '8', '9', 'a', 'b', 'c', 'd', 'e', 'f']

/-- The number that hexadecimal digits stand for. -/
def ofHexadecimal (cs : List Char) : Nat :=
  cs.foldl (fun n c => 16 * n + hexDigits.idxOf c) 0

/-- The number is written in at least so many places, and in more only if it needs them. -/
structure IsHexadecimal (places n : Nat) (cs : List Char) : Prop where
  digits : ∀ c ∈ cs, c ∈ hexDigits
  value : ofHexadecimal cs = n
  places_le : places ≤ cs.length
  needed : places < cs.length → 16 ^ (cs.length - 1) ≤ n

variable {places n d : Nat}

theorem digitChar_mem_hexDigits (h : d < 16) : d.digitChar ∈ hexDigits := by
  have hall : ∀ d : Fin 16, (d : Nat).digitChar ∈ hexDigits := by decide
  exact hall ⟨d, h⟩

theorem idxOf_digitChar (h : d < 16) : hexDigits.idxOf d.digitChar = d := by
  have hall : ∀ d : Fin 16, hexDigits.idxOf (d : Nat).digitChar = d := by decide
  exact hall ⟨d, h⟩

/-- One more digit is worth its value, and makes those before it worth sixteen times as much. -/
theorem ofHexadecimal_concat (cs : List Char) (c : Char) :
    ofHexadecimal (cs ++ [c]) = 16 * ofHexadecimal cs + hexDigits.idxOf c :=
  List.foldl_concat ..

theorem ofHexadecimal_replicate_append (count : Nat) (cs : List Char) :
    ofHexadecimal (List.replicate count '0' ++ cs) = ofHexadecimal cs := by
  induction count with
  | zero => rfl
  | succ count ih => exact ih

theorem mem_hexDigits_of_mem_toDigits {c : Char} (h : c ∈ Nat.toDigits 16 n) : c ∈ hexDigits := by
  induction n using Nat.strongRecOn with
  | ind n ih =>
    rw [Nat.toDigits_eq_if (by decide)] at h
    split at h
    · next hlt =>
      rw [List.mem_singleton.1 h]
      exact digitChar_mem_hexDigits hlt
    · next hge =>
      obtain hfront | hlast := List.mem_append.1 h
      · exact ih (n / 16) (by omega) hfront
      · rw [List.mem_singleton.1 hlast]
        exact digitChar_mem_hexDigits (Nat.mod_lt n (by decide))

theorem ofHexadecimal_toDigits (n : Nat) : ofHexadecimal (Nat.toDigits 16 n) = n := by
  induction n using Nat.strongRecOn with
  | ind n ih =>
    rw [Nat.toDigits_eq_if (by decide)]
    split
    · next hlt =>
      have hvalue : ofHexadecimal [n.digitChar] = 16 * 0 + hexDigits.idxOf n.digitChar := rfl
      rw [hvalue, idxOf_digitChar hlt]
      omega
    · next hge =>
      rw [ofHexadecimal_concat, ih (n / 16) (by omega), idxOf_digitChar (Nat.mod_lt n (by decide))]
      omega

/-- A number is written in the places that are asked for, or in as many as its digits need. -/
theorem length_hexadecimal (places n : Nat) :
    (hexadecimal places n).length = max places (Nat.toDigits 16 n).length := by
  rw [hexadecimal, List.length_append, List.length_replicate]
  omega

/-- A byte is written in two digits, one for each half of it. -/
theorem hexadecimal_two (h : n < 256) :
    hexadecimal 2 n = [(n / 16).digitChar, (n % 16).digitChar] := by
  rw [hexadecimal, Nat.toDigits_eq_if (by decide)]
  split
  · next hlt =>
    rw [Nat.div_eq_of_lt hlt, Nat.mod_eq_of_lt hlt]
    rfl
  · next hge =>
    rw [Nat.toDigits_of_lt_base (n := n / 16) (by omega)]
    rfl

theorem mem_hexDigits_of_mem_hexadecimal {c : Char} (h : c ∈ hexadecimal places n) :
    c ∈ hexDigits := by
  obtain hzero | hdigit := List.mem_append.1 h
  · rw [List.eq_of_mem_replicate hzero]
    decide
  · exact mem_hexDigits_of_mem_toDigits hdigit

/-- A number can be read back from what is written for it, with the zeros in front. -/
theorem ofHexadecimal_hexadecimal (places n : Nat) : ofHexadecimal (hexadecimal places n) = n :=
  (ofHexadecimal_replicate_append _ _).trans (ofHexadecimal_toDigits n)

/-- What is written for a number is the number in at least so many places, in more only if it needs
    them, and all of it are digits. -/
theorem isHexadecimal_hexadecimal (hplaces : 0 < places) (n : Nat) :
    IsHexadecimal places n (hexadecimal places n) where
  digits _ hc := mem_hexDigits_of_mem_hexadecimal hc
  value := ofHexadecimal_hexadecimal places n
  places_le := by
    rw [length_hexadecimal]
    exact Nat.le_max_left ..
  needed hlt := by
    rw [length_hexadecimal] at hlt ⊢
    have hdigits := Nat.length_toDigits_le_iff (b := 16) (n := n)
      (k := max places (Nat.toDigits 16 n).length - 1) (by decide) (by omega)
    by_contra hfits
    have hlength := hdigits.2 (Nat.not_le.1 hfits)
    omega

end Resync.Text
