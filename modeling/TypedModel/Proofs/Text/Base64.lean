import TypedModel.Text.Base64

/-!
# Base64 read back

Written octets are read back, one group of digits at a time.
-/

namespace TypedModel.Text

/-- A digit reads back as its value. -/
theorem base64Value?_digit {n : Nat} (h : n < 64) : base64Value? (base64Digit n) = some n := by
  have htable : ∀ m : Fin 64, base64Value? (base64Digit m.val) = some m.val := by
    decide +kernel
  exact htable ⟨n, h⟩

/-- No digit is the padding. -/
theorem base64Digit_ne_pad {n : Nat} (h : n < 64) : base64Digit n ≠ '=' := by
  have htable : ∀ m : Fin 64, base64Digit m.val ≠ '=' := by
    decide +kernel
  exact htable ⟨n, h⟩

/-- Octets read back from their written form. -/
theorem base64Decode?_encode (octets : List UInt8) :
    base64Decode? (base64Encode octets) = some octets := by
  induction octets using base64Encode.induct with
  | case1 => rfl
  | case2 a =>
    have ha := a.toNat_lt
    have hvalue : a.toNat / 4 * 4 + a.toNat % 4 * 16 / 16 = a.toNat := by omega
    rw [base64Encode, base64Decode?, base64Value?_digit (by omega), base64Value?_digit (by omega)]
    simp only [Option.bind_eq_bind, Option.bind_some, if_pos (Nat.mul_mod_left _ 16), hvalue,
      UInt8.ofNat_toNat]
  | case3 a b =>
    have ha := a.toNat_lt
    have hb := b.toNat_lt
    have hfirst : a.toNat / 4 * 4 + (a.toNat % 4 * 16 + b.toNat / 16) / 16 = a.toNat := by omega
    have hsecond : (a.toNat % 4 * 16 + b.toNat / 16) % 16 * 16 + b.toNat % 16 * 4 / 4 = b.toNat := by
      omega
    have hthird := base64Digit_ne_pad (n := b.toNat % 16 * 4) (by omega)
    rw [base64Encode, base64Decode?, base64Value?_digit (by omega), base64Value?_digit (by omega),
      base64Value?_digit (by omega)]
    · simp only [Option.bind_eq_bind, Option.bind_some, if_pos (Nat.mul_mod_left _ 4), hfirst,
        hsecond, UInt8.ofNat_toNat]
    · exact hthird
  | case4 a b c rest ih =>
    have ha := a.toNat_lt
    have hb := b.toNat_lt
    have hc := c.toNat_lt
    have hfirst : a.toNat / 4 * 4 + (a.toNat % 4 * 16 + b.toNat / 16) / 16 = a.toNat := by omega
    have hsecond : (a.toNat % 4 * 16 + b.toNat / 16) % 16 * 16 +
        (b.toNat % 16 * 4 + c.toNat / 64) / 4 = b.toNat := by omega
    have hthird : (b.toNat % 16 * 4 + c.toNat / 64) % 4 * 64 + c.toNat % 64 = c.toNat := by omega
    have hlast := base64Digit_ne_pad (n := c.toNat % 64) (by omega)
    rw [base64Encode, base64Decode?, base64Value?_digit (by omega), base64Value?_digit (by omega),
      base64Value?_digit (by omega), base64Value?_digit (by omega), ih]
    · simp only [Option.bind_eq_bind, Option.bind_some, hfirst, hsecond, hthird, UInt8.ofNat_toNat]
    · exact fun _ h _ => absurd h hlast
    · exact fun h _ => absurd h hlast

/-- Octets are told apart by their written forms. -/
theorem base64Encode_inj {a b : List UInt8} : base64Encode a = base64Encode b ↔ a = b := by
  constructor
  · intro h
    have hread := base64Decode?_encode a
    rw [h, base64Decode?_encode, Option.some.injEq] at hread
    exact hread.symm
  · exact congrArg base64Encode

end TypedModel.Text
