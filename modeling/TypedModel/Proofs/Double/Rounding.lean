import TypedModel.Double.Basic
import Mathlib.Tactic.Ring

/-!
# Nearest doubles

A ratio that lies close to the magnitude of a rank is rounded to that rank. Close means within
one part in `2 * 10 ^ 16`, which is less than half the distance to either neighbour, and at the
first rank of a binade less than half the shorter distance to the neighbour below. Seventeen
decimal digits always come that close.
-/

namespace TypedModel.Double

/-! ## Parts of a rank -/

/-- The significand of a rank by powers of two. -/
theorem significand_eq (rank : Nat) :
    significand rank = if rank < 2 ^ 52 then rank else 2 ^ 52 + rank % 2 ^ 52 := rfl

/-- How often a significand is doubled. -/
theorem scale_eq (rank : Nat) : scale rank = rank / 2 ^ 52 - 1 := rfl

/-- The magnitude of a rank is its significand times a power of two. -/
theorem units_eq (rank : Nat) : units rank = significand rank * 2 ^ scale rank := rfl

/-- The nearest rank by powers of two. -/
theorem nearestRank_def (num den : Nat) :
    nearestRank num den = (Nat.log2 (num / den) - 52) * 2 ^ 52 +
      roundHalfEven num (den * 2 ^ (Nat.log2 (num / den) - 52)) := rfl

/-- A rank counts the binades below it and the significands of its own. -/
theorem scale_mul_add_significand (rank : Nat) :
    scale rank * 2 ^ 52 + significand rank = rank := by
  rw [scale_eq, significand_eq]
  split <;> omega

/-- Significands have 53 bits. -/
theorem significand_lt (rank : Nat) : significand rank < 2 ^ 53 := by
  rw [significand_eq]
  split <;> omega

/-- Beyond the first binade significands have their leading bit. -/
theorem le_significand {rank : Nat} (h : 0 < scale rank) : 2 ^ 52 ≤ significand rank := by
  rw [scale_eq] at h
  rw [significand_eq]
  split <;> omega

/-- Only the rank of zero has no significand. -/
theorem significand_pos {rank : Nat} (h : 0 < rank) : 0 < significand rank := by
  rw [significand_eq]
  split <;> omega

/-- A finite rank lies in one of 2046 binades. -/
theorem scale_le {rank : Nat} (h : rank < 2047 * 2 ^ 52) : scale rank ≤ 2045 := by
  rw [scale_eq]
  omega

/-! ## Rounding to integers -/

/-- Rounding depends on the ratio alone. -/
theorem roundHalfEven_scale {k : Nat} (hk : 0 < k) (num den : Nat) :
    roundHalfEven (k * num) (k * den) = roundHalfEven num den := by
  have hr (a b : Nat) : 2 * (k * a) < k * b ↔ 2 * a < b := by
    rw [Nat.mul_left_comm]
    exact Nat.mul_lt_mul_left hk
  have hl (a b : Nat) : k * b < 2 * (k * a) ↔ b < 2 * a := by
    rw [Nat.mul_left_comm]
    exact Nat.mul_lt_mul_left hk
  simp only [roundHalfEven, Nat.mul_div_mul_left _ _ hk, Nat.mul_mod_mul_left, hr, hl]

/-- A ratio less than half away from an integer is rounded to it. -/
theorem roundHalfEven_eq {num den k : Nat} (hlow : 2 * (k * den) < 2 * num + den)
    (hhigh : 2 * num < 2 * (k * den) + den) : roundHalfEven num den = k := by
  have hd : 0 < den := by omega
  have hr := Nat.mod_lt num hd
  have hn := Nat.div_add_mod num den
  rw [Nat.mul_comm] at hn
  obtain hq | hq | hq | hq : num / den = k ∨ num / den + 1 = k ∨ num / den + 2 ≤ k ∨
      k + 1 ≤ num / den := by omega
  · rw [hq] at hn
    simp only [roundHalfEven, hq]
    rw [if_pos (by omega)]
  · rw [← hq, Nat.add_mul, Nat.one_mul] at hlow hhigh
    simp only [roundHalfEven]
    rw [if_neg (by omega), if_pos (by omega), hq]
  · have hm := Nat.mul_le_mul_right den hq
    rw [Nat.add_mul] at hm
    omega
  · have hm := Nat.mul_le_mul_right den hq
    rw [Nat.add_mul, Nat.one_mul] at hm
    omega

/-! ## Rounding to ranks -/

/-- The nearest rank depends on the ratio alone. -/
theorem nearestRank_scale {k : Nat} (hk : 0 < k) (num den : Nat) :
    nearestRank (k * num) (k * den) = nearestRank num den := by
  simp only [nearestRank_def, Nat.mul_div_mul_left _ _ hk, Nat.mul_assoc, roundHalfEven_scale hk]

/-- A ratio in a binade above the subnormal ones is rounded to a multiple of the step of that
binade. -/
theorem nearestRank_of_binade {num den s : Nat} (hd : 0 < den)
    (hlow : 2 ^ (52 + s) * den ≤ num) (hhigh : num < 2 ^ (53 + s) * den) :
    nearestRank num den = s * 2 ^ 52 + roundHalfEven num (den * 2 ^ s) := by
  have hq : 2 ^ (52 + s) ≤ num / den := (Nat.le_div_iff_mul_le hd).mpr hlow
  have hq' : num / den < 2 ^ (53 + s) := (Nat.div_lt_iff_lt_mul hd).mpr hhigh
  have hne : num / den ≠ 0 := by
    have := Nat.two_pow_pos (52 + s)
    omega
  have hlog : Nat.log2 (num / den) = 52 + s :=
    (Nat.log2_eq_iff hne).mpr ⟨hq, by rwa [show 52 + s + 1 = 53 + s by omega]⟩
  simp only [nearestRank_def, hlog, Nat.add_sub_cancel_left]

/-- A ratio below the second binade is rounded to an integer. -/
theorem nearestRank_of_lt {num den : Nat} (hd : 0 < den) (hhigh : num < 2 ^ 53 * den) :
    nearestRank num den = roundHalfEven num den := by
  have hq : num / den < 2 ^ 53 := (Nat.div_lt_iff_lt_mul hd).mpr hhigh
  have hlog : Nat.log2 (num / den) ≤ 52 := by
    by_cases hz : num / den = 0
    · rw [hz]
      decide
    · have := (Nat.log2_lt hz).mpr hq
      omega
  simp [nearestRank_def, Nat.sub_eq_zero_of_le hlog]

/-- A ratio within one part in `2 * 10 ^ 16` of a multiple below `2 ^ 53` is rounded to it. -/
theorem roundHalfEven_of_near {num den m : Nat} (hd : 0 < den) (hm : m < 2 ^ 53)
    (hlow : (2 * 10 ^ 16 - 1) * (m * den) ≤ 2 * 10 ^ 16 * num)
    (hhigh : 2 * 10 ^ 16 * num ≤ (2 * 10 ^ 16 + 1) * (m * den)) :
    roundHalfEven num den = m := by
  have hp : m * den ≤ (2 ^ 53 - 1) * den := Nat.mul_le_mul_right den (by omega)
  exact roundHalfEven_eq (by omega) (by omega)

/-- The scale of a binade is a factor of the denominator. -/
theorem two_pow_add_mul (k t den : Nat) : 2 ^ (k + t) * den = 2 ^ k * (den * 2 ^ t) := by
  rw [Nat.pow_add, Nat.mul_assoc, Nat.mul_comm (2 ^ t)]

/-- A ratio within one part in `2 * 10 ^ 16` below the end of a binade is rounded to the rank behind
the binade. -/
theorem nearestRank_of_below {num den t : Nat} (hd : 0 < den)
    (hlow : (2 * 10 ^ 16 - 1) * (2 ^ 53 * (den * 2 ^ t)) ≤ 2 * 10 ^ 16 * num)
    (hnum : num < 2 ^ 53 * (den * 2 ^ t)) : nearestRank num den = t * 2 ^ 52 + 2 ^ 53 := by
  have hstep : 0 < den * 2 ^ t := Nat.mul_pos hd (Nat.two_pow_pos t)
  have hround : roundHalfEven num (den * 2 ^ t) = 2 ^ 53 := roundHalfEven_eq (by omega) (by omega)
  rw [nearestRank_of_binade hd (s := t) (by rw [two_pow_add_mul]; omega)
    (by rw [two_pow_add_mul]; omega), hround]

/-- A ratio within one part in `2 * 10 ^ 16` of the magnitude of a positive rank is rounded to
that rank. -/
theorem nearestRank_eq {rank num den : Nat} (hr : 0 < rank) (hd : 0 < den)
    (hlow : (2 * 10 ^ 16 - 1) * (units rank * den) ≤ 2 * 10 ^ 16 * num)
    (hhigh : 2 * 10 ^ 16 * num ≤ (2 * 10 ^ 16 + 1) * (units rank * den)) :
    nearestRank num den = rank := by
  have hrank := scale_mul_add_significand rank
  have hlt := significand_lt rank
  have hpos := significand_pos hr
  have hle : 0 < scale rank → 2 ^ 52 ≤ significand rank := le_significand
  rw [units_eq] at hlow hhigh
  generalize significand rank = m at *
  generalize scale rank = s at *
  have hstep : 0 < den * 2 ^ s := Nat.mul_pos hd (Nat.two_pow_pos s)
  have hunits : m * 2 ^ s * den = m * (den * 2 ^ s) := by
    rw [Nat.mul_assoc, Nat.mul_comm (2 ^ s)]
  have hmax : m * (den * 2 ^ s) ≤ (2 ^ 53 - 1) * (den * 2 ^ s) :=
    Nat.mul_le_mul_right _ (by omega)
  rw [hunits] at hlow hhigh
  rcases Nat.eq_zero_or_pos s with hs | hs
  · subst hs
    rw [Nat.pow_zero, Nat.mul_one] at hlow hhigh hmax
    rw [nearestRank_of_lt hd (by omega), roundHalfEven_of_near hd hlt hlow hhigh]
    omega
  · have hmin : 2 ^ 52 * (den * 2 ^ s) ≤ m * (den * 2 ^ s) := Nat.mul_le_mul_right _ (hle hs)
    by_cases hnum : 2 ^ 52 * (den * 2 ^ s) ≤ num
    · rw [nearestRank_of_binade hd (s := s) (two_pow_add_mul 52 s den ▸ hnum)
        (by rw [two_pow_add_mul]; omega), roundHalfEven_of_near hstep hlt hlow hhigh]
      exact hrank
    · -- Only the first rank of a binade has a neighbourhood that reaches below the binade.
      have hfirst : m = 2 ^ 52 := by
        have hone : ¬ 2 ^ 52 + 1 ≤ m := fun hge => by
          have := Nat.mul_le_mul_right (den * 2 ^ s) hge
          omega
        have := hle hs
        omega
      obtain ⟨t, rfl⟩ : ∃ t, s = t + 1 := ⟨s - 1, by omega⟩
      have hhalf : den * 2 ^ (t + 1) = 2 * (den * 2 ^ t) := by
        rw [Nat.pow_succ, ← Nat.mul_assoc, Nat.mul_comm]
      rw [hfirst, hhalf] at hlow
      have hnum' : num < 2 ^ 53 * (den * 2 ^ t) := by
        rw [hhalf] at hnum
        omega
      have hbelow : nearestRank num den = t * 2 ^ 52 + 2 ^ 53 :=
        nearestRank_of_below hd (by omega) hnum'
      rw [hbelow, ← hrank, hfirst]
      ring

end TypedModel.Double
