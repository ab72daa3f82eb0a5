import TypedModel.Text.Hex
import Mathlib.Data.List.Induction
import Mathlib.Tactic.Ring

/-!
# Hexadecimal digits read back

A number is read back from its digits up to their width, nothing but digits stands in them, and
only its digits, in either case, are read as a number.
-/

namespace TypedModel.Text

/-- Digits written to a width give the number up to that width. -/
theorem hexNumber?_hexDigits (width n : Nat) :
    hexNumber? (hexDigits width n) = some (n % 16 ^ width) := by
  induction width generalizing n with
  | zero => rw [Nat.pow_zero, Nat.mod_one]; rfl
  | succ width ih =>
    have hfront := ih (n / 16)
    have hlast := hexValue?_hexDigit (Nat.mod_lt n (by decide : 0 < 16))
    have hvalue : 16 * (n / 16 % 16 ^ width) + n % 16 = n % 16 ^ (width + 1) := by
      rw [Nat.pow_succ, Nat.mul_comm (16 ^ width), Nat.mod_mul, Nat.add_comm]
    rw [hexNumber?] at hfront
    rw [hexNumber?, hexDigits, List.foldlM_append, hfront]
    simp [hlast, hvalue]

/-- A character that has no value is none of the digits. -/
theorem notMem_hexDigits {c : Char} (h : hexValue? c = none) (width n : Nat) :
    c ∉ hexDigits width n := by
  induction width generalizing n with
  | zero => exact List.not_mem_nil
  | succ width ih =>
    have hlast := hexValue?_hexDigit (Nat.mod_lt n (by decide : 0 < 16))
    rw [hexDigits, List.mem_append, List.mem_singleton]
    rintro (hfront | rfl)
    · exact ih (n / 16) hfront
    · rw [h] at hlast
      cases hlast

/-- Beyond the ASCII range no character is a digit, in either case. -/
theorem hexValue?_of_le {c : Char} (h : 128 ≤ c.toNat) : hexValue? c = none ∧ c.toLower = c := by
  have hle (d : Char) (hd : d.toNat < 128) : ¬ c ≤ d := by
    intro hcd
    have hnat : c.toNat ≤ d.toNat := hcd
    omega
  constructor
  · rw [hexValue?, if_neg (fun hc => hle '9' (by decide) hc.2),
      if_neg (fun hc => hle 'f' (by decide) hc.2), if_neg (fun hc => hle 'F' (by decide) hc.2)]
  · exact dif_neg fun hc => hle 'Z' (by decide) hc.2

/-- A character has a value exactly if it is the digit of that value in either case. -/
theorem hexValue?_eq_some_iff {c : Char} {n : Nat} :
    hexValue? c = some n ↔ n < 16 ∧ c.toLower = hexDigit n := by
  have hvalue : ∀ code : Fin 128, ∀ m ∈ hexValue? (Char.ofNat code.val),
      m < 16 ∧ (Char.ofNat code.val).toLower = hexDigit m := by
    decide +kernel
  have hdigit : ∀ code : Fin 128, ∀ m : Fin 16,
      (Char.ofNat code.val).toLower = hexDigit m.val →
        hexValue? (Char.ofNat code.val) = some m.val := by
    decide +kernel
  by_cases hc : c.toNat < 128
  · rw [← Char.ofNat_toNat c]
    exact ⟨fun h => hvalue ⟨c.toNat, hc⟩ n h, fun h => hdigit ⟨c.toNat, hc⟩ ⟨n, h.1⟩ h.2⟩
  · have hascii : ∀ m : Fin 16, (hexDigit m.val).toNat < 128 := by decide
    obtain ⟨hnone, hlower⟩ := hexValue?_of_le (Nat.le_of_not_lt hc)
    rw [hnone, hlower]
    refine iff_of_false nofun ?_
    rintro ⟨hn, rfl⟩
    exact hc (hascii ⟨n, hn⟩)

/-- Digits behind the first ones give the value of those, and of the last one. -/
theorem hexNumber?_concat_eq_some_iff {cs : List Char} {c : Char} {n : Nat} :
    hexNumber? (cs ++ [c]) = some n ↔
      hexNumber? cs = some (n / 16) ∧ hexValue? c = some (n % 16) := by
  simp only [hexNumber?, List.foldlM_append, List.foldlM_cons, List.foldlM_nil, bind_pure,
    Option.bind_eq_bind, Option.bind_eq_some_iff, Option.map_eq_some_iff]
  constructor
  · rintro ⟨m, hfront, k, hlast, rfl⟩
    have hk : k < 16 := (hexValue?_eq_some_iff.mp hlast).1
    rw [Nat.mul_add_div (by decide), Nat.div_eq_of_lt hk, Nat.mul_add_mod, Nat.mod_eq_of_lt hk]
    exact ⟨hfront, hlast⟩
  · rintro ⟨hfront, hlast⟩
    exact ⟨n / 16, hfront, n % 16, hlast, Nat.div_add_mod n 16⟩

/-- A number is read from characters exactly if they are its digits in either case. -/
theorem hexNumber?_eq_some_iff {cs : List Char} {n : Nat} : hexNumber? cs = some n ↔
    n < 16 ^ cs.length ∧ cs.map Char.toLower = hexDigits cs.length n := by
  induction cs using List.reverseRecOn generalizing n with
  | nil =>
    simp [hexNumber?, hexDigits, eq_comm]
  | append_singleton cs c ih =>
    have hbound : n / 16 < 16 ^ cs.length ↔ n < 16 ^ (cs.length + 1) := by
      rw [Nat.pow_succ, Nat.div_lt_iff_lt_mul (by decide)]
    have hlast : n % 16 < 16 := Nat.mod_lt n (by decide)
    rw [hexNumber?_concat_eq_some_iff, ih, hexValue?_eq_some_iff, hbound, List.length_append,
      List.length_singleton, hexDigits, List.map_append, List.map_singleton]
    constructor
    · rintro ⟨⟨hn, hfront⟩, -, hc⟩
      exact ⟨hn, by rw [hfront, hc]⟩
    · rintro ⟨hn, hdigits⟩
      obtain ⟨hfront, hc⟩ := List.append_inj' hdigits rfl
      exact ⟨⟨hn, hfront⟩, hlast, (List.cons.inj hc).1⟩

end TypedModel.Text
