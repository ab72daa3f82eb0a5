import TypedModel.Proofs.Double.Rounding
import Mathlib.Data.Nat.Dist

/-!
# Integers as doubles

The double of a 64-bit integer is the integer rounded to nearest: no double is nearer to it, and of
two that are as near it is the one of even rank. The ratio behind it is rounded to a multiple of the
step of its binade, and of all other doubles only those of lower binades are no such multiples.
-/

namespace TypedModel.Double

/-! ## Nearest multiples -/

/-- A ratio is rounded down or up: to the nearer side, and half way to the even one. -/
theorem roundHalfEven_cases (num den : Nat) :
    roundHalfEven num den = num / den ∧
        (2 * (num % den) < den ∨ 2 * (num % den) = den ∧ num / den % 2 = 0) ∨
      roundHalfEven num den = num / den + 1 ∧
        (den < 2 * (num % den) ∨ 2 * (num % den) = den ∧ num / den % 2 = 1) := by
  unfold roundHalfEven
  dsimp only
  split
  · exact .inl ⟨rfl, .inl ‹_›⟩
  · split
    · exact .inr ⟨rfl, .inl ‹_›⟩
    · omega

/-- A multiple of a step is one of the two around a quotient, or lies a whole step further off. -/
theorem multiple_cases (k quotient step : Nat) :
    k = quotient ∨ k = quotient + 1 ∨ k * step + step ≤ quotient * step ∨
      quotient * step + 2 * step ≤ k * step := by
  obtain h | h | h | h : k = quotient ∨ k = quotient + 1 ∨ k + 1 ≤ quotient ∨
      quotient + 2 ≤ k := by omega
  · exact .inl h
  · exact .inr (.inl h)
  · have hle := Nat.mul_le_mul_right step h
    rw [Nat.succ_mul] at hle
    exact .inr (.inr (.inl hle))
  · have hle := Nat.mul_le_mul_right step h
    rw [Nat.add_mul] at hle
    exact .inr (.inr (.inr hle))

/-- No multiple of the denominator is nearer to the numerator than that of the rounded ratio, and
where another one is as near the rounded ratio is even. -/
theorem roundHalfEven_nearest {num den : Nat} (hd : 0 < den) (k : Nat) :
    Nat.dist (roundHalfEven num den * den) num ≤ Nat.dist (k * den) num ∧
      (Nat.dist (k * den) num = Nat.dist (roundHalfEven num den * den) num →
        k ≠ roundHalfEven num den → roundHalfEven num den % 2 = 0) := by
  have hr := Nat.mod_lt num hd
  have hn := Nat.div_add_mod num den
  have hup : (num / den + 1) * den = num / den * den + den := Nat.succ_mul _ _
  have hk := multiple_cases k (num / den) den
  rw [Nat.mul_comm] at hn
  unfold Nat.dist
  rcases roundHalfEven_cases num den with ⟨hround, hside⟩ | ⟨hround, hside⟩
  all_goals
    rw [hround]
    rcases hk with rfl | rfl | hk | hk <;> omega

/-! ## Nearest ranks -/

/-- The magnitude of a rank that is counted from the beginning of a binade, up to its end. -/
theorem units_of_step {s q : Nat} (hlow : s = 0 ∨ 2 ^ 52 ≤ q) (hhigh : q ≤ 2 ^ 53) :
    units (s * 2 ^ 52 + q) = q * 2 ^ s := by
  rw [units_eq, significand_eq, scale_eq]
  by_cases hend : q = 2 ^ 53
  · -- the end of a binade is the beginning of the next one
    have hscale : (s * 2 ^ 52 + q) / 2 ^ 52 - 1 = s + 1 := by omega
    have hsignificand : 2 ^ 52 + (s * 2 ^ 52 + q) % 2 ^ 52 = 2 ^ 52 := by omega
    rw [if_neg (by omega), hscale, hsignificand, hend, Nat.pow_succ]
    ring
  · have hscale : (s * 2 ^ 52 + q) / 2 ^ 52 - 1 = s := by omega
    rw [hscale]
    congr 1
    split <;> omega

/-- A magnitude is a multiple of the step of a binade, or it lies below that binade. -/
theorem units_multiple_or_lt (rank s : Nat) :
    (∃ k, units rank = k * 2 ^ s) ∨ 0 < s ∧ units rank < 2 ^ 52 * 2 ^ s := by
  rw [units_eq]
  rcases Nat.lt_or_ge (scale rank) s with h | h
  · have hsmall : significand rank * 2 ^ scale rank < 2 ^ 53 * 2 ^ scale rank :=
      Nat.mul_lt_mul_of_pos_right (significand_lt rank) (Nat.two_pow_pos _)
    have hbinade : 2 ^ (53 + scale rank) ≤ 2 ^ (52 + s) :=
      Nat.pow_le_pow_right (by decide) (by omega)
    rw [Nat.pow_add, Nat.pow_add] at hbinade
    exact .inr ⟨by omega, Nat.lt_of_lt_of_le hsmall hbinade⟩
  · refine .inl ⟨significand rank * 2 ^ (scale rank - s), ?_⟩
    rw [Nat.mul_assoc, ← Nat.pow_add, Nat.sub_add_cancel h]

/-- A ratio lies in a binade, or below the end of the first one. -/
theorem exists_binade (num : Nat) {den : Nat} (hd : 0 < den) :
    ∃ s, nearestRank num den = s * 2 ^ 52 + roundHalfEven num (den * 2 ^ s) ∧
      num < 2 ^ 53 * (den * 2 ^ s) ∧ (s = 0 ∨ 2 ^ 52 * (den * 2 ^ s) ≤ num) := by
  by_cases hsmall : num < 2 ^ 53 * den
  · refine ⟨0, ?_, ?_, .inl rfl⟩
    · rw [nearestRank_of_lt hd hsmall, Nat.zero_mul, Nat.zero_add, Nat.pow_zero, Nat.mul_one]
    · rwa [Nat.pow_zero, Nat.mul_one]
  · have hquotient : 2 ^ 53 ≤ num / den :=
      (Nat.le_div_iff_mul_le hd).mpr (Nat.le_of_not_lt hsmall)
    have hne : num / den ≠ 0 := by omega
    have hlog : 53 ≤ Nat.log2 (num / den) := (Nat.le_log2 hne).mpr hquotient
    obtain ⟨s, hs⟩ : ∃ s, Nat.log2 (num / den) = 52 + s := ⟨Nat.log2 (num / den) - 52, by omega⟩
    obtain ⟨hlow, hhigh⟩ := (Nat.log2_eq_iff hne).mp hs
    have hbelow : 2 ^ (52 + s) * den ≤ num := (Nat.le_div_iff_mul_le hd).mp hlow
    have habove : num < 2 ^ (53 + s) * den := by
      rw [show 53 + s = 52 + s + 1 by omega]
      exact (Nat.div_lt_iff_lt_mul hd).mp hhigh
    refine ⟨s, nearestRank_of_binade hd hbelow habove, ?_, .inr ?_⟩
    · rwa [two_pow_add_mul] at habove
    · rwa [two_pow_add_mul] at hbelow

/-- The nearest rank is counted from the beginning of the binade of the ratio, up to its end. -/
theorem exists_step (num : Nat) {den : Nat} (hd : 0 < den) :
    ∃ s q, nearestRank num den = s * 2 ^ 52 + q ∧ q = roundHalfEven num (den * 2 ^ s) ∧
      (s = 0 ∨ 2 ^ 52 * (den * 2 ^ s) ≤ num) ∧ (s = 0 ∨ 2 ^ 52 ≤ q) ∧ q ≤ 2 ^ 53 := by
  obtain ⟨s, hrank, hhigh, hlow⟩ := exists_binade num hd
  have hstep : 0 < den * 2 ^ s := Nat.mul_pos hd (Nat.two_pow_pos s)
  have hquotient : num / (den * 2 ^ s) < 2 ^ 53 := (Nat.div_lt_iff_lt_mul hstep).mpr hhigh
  have hleast : s = 0 ∨ 2 ^ 52 ≤ num / (den * 2 ^ s) :=
    hlow.imp_right (Nat.le_div_iff_mul_le hstep).mpr
  have hcases := roundHalfEven_cases num (den * 2 ^ s)
  exact ⟨s, _, hrank, rfl, hlow, by omega, by omega⟩

/-- No magnitude is nearer to a ratio than that of its nearest rank, and where another one is as
near the nearest rank is even. -/
theorem nearestRank_nearest (num : Nat) {den : Nat} (hd : 0 < den) (rank : Nat) :
    Nat.dist (units (nearestRank num den) * den) num ≤ Nat.dist (units rank * den) num ∧
      (Nat.dist (units rank * den) num = Nat.dist (units (nearestRank num den) * den) num →
        units rank ≠ units (nearestRank num den) → nearestRank num den % 2 = 0) := by
  obtain ⟨s, q, hrank, hq, hlow, hleast, hmost⟩ := exists_step num hd
  have hstep : 0 < den * 2 ^ s := Nat.mul_pos hd (Nat.two_pow_pos s)
  have hnear := @roundHalfEven_nearest num _ hstep
  have hmultiple (k : Nat) : k * 2 ^ s * den = k * (den * 2 ^ s) := by ring
  rw [← hq] at hnear
  rw [hrank, units_of_step hleast hmost, hmultiple]
  rcases units_multiple_or_lt rank s with ⟨k, hk⟩ | ⟨hs, hbelow⟩
  · rw [hk, hmultiple]
    refine ⟨(hnear k).1, fun htie hne => ?_⟩
    have hk' : k ≠ q := fun h => hne (by rw [h])
    have heven := (hnear k).2 htie hk'
    omega
  · -- the first magnitude of the binade lies between this one and the ratio
    have hfirst := (hnear (2 ^ 52)).1
    have hbinade := hlow.resolve_left (by omega)
    have hless : units rank * den < 2 ^ 52 * (den * 2 ^ s) := by
      rw [← hmultiple]
      exact Nat.mul_lt_mul_of_pos_right hbelow hd
    unfold Nat.dist at hfirst ⊢
    omega

/-! ## Integers -/

/-- The exact value of a finite double, counted in units of the least positive one. -/
def units? : Double → Option Int
  | .finite true rank => some (-(units rank : Int))
  | .finite false rank => some (units rank)
  | _ => none

/-- How far a value, in these units, lies from an integer. -/
def distance (n value : Int) : Nat := (value - n * 2 ^ leastExponent).natAbs

/-- Whether an integer is rounded to a double: the double is finite and has the sign of the integer,
none is nearer to it, and its rank is even where one of another value is as near. -/
def IsNearest (n : Int) (x : Double) : Prop :=
  ∃ rank value, x = .finite (decide (n < 0)) rank ∧ x.units? = some value ∧
    ∀ (y : Double) (other : Int), y.units? = some other →
      distance n value ≤ distance n other ∧
        (distance n other = distance n value → other ≠ value → rank.val % 2 = 0)

/-- A value of the sign of an integer is as far from it as their magnitudes are apart, and one of
the other sign at least as far as zero. -/
theorem distance_eq (n : Int) (negative : Bool) (magnitude : Nat) :
    distance n (if negative then -(magnitude : Int) else magnitude) =
      if negative = decide (n < 0) then Nat.dist magnitude (n.natAbs * 2 ^ leastExponent)
      else magnitude + n.natAbs * 2 ^ leastExponent := by
  unfold distance Nat.dist
  have htwo : (2 : Int).natAbs = 2 := rfl
  have hunits : (n * 2 ^ leastExponent).natAbs = n.natAbs * 2 ^ leastExponent := by
    rw [Int.natAbs_mul, Int.natAbs_pow, htwo]
  have hsign : n * 2 ^ leastExponent < 0 ↔ n < 0 := by
    have hpos : (0 : Int) < 2 ^ leastExponent := Int.pow_pos (by decide)
    constructor
    · intro h
      by_contra hn
      have := Int.mul_nonneg (not_lt.mp hn) hpos.le
      omega
    · exact fun h => Int.mul_neg_of_neg_of_pos h hpos
  rw [← hunits]
  generalize n * 2 ^ leastExponent = N at *
  cases negative <;> by_cases hn : n < 0 <;> simp [hn] at hsign ⊢ <;> omega

/-- Ranks of integers of 64 bits are finite. -/
theorem nearestRank_lt {magnitude : Nat} (h : magnitude < 2 ^ 64) :
    nearestRank (magnitude * 2 ^ leastExponent) 1 < 2047 * 2 ^ 52 := by
  obtain ⟨s, q, hrank, -, hlow, -, hmost⟩ :=
    exists_step (magnitude * 2 ^ leastExponent) Nat.one_pos
  have hs : s ≤ 1085 := by
    rcases hlow with rfl | hlow
    · exact Nat.zero_le _
    · have hless : 2 ^ (52 + s) < 2 ^ (64 + leastExponent) := by
        rw [Nat.pow_add, Nat.pow_add]
        have hmagnitude := Nat.mul_lt_mul_of_pos_right h (Nat.two_pow_pos leastExponent)
        omega
      have hexponent := (Nat.pow_lt_pow_iff_right (by decide)).mp hless
      rw [leastExponent] at hexponent
      omega
  rw [hrank]
  omega

/-- The exact value of a finite double has the sign of the double. -/
theorem units?_finite (negative : Bool) (rank : Fin (2047 * Nat.pow 2 52)) :
    units? (.finite negative rank) = some (if negative then -(units rank : Int) else units rank) := by
  cases negative <;> rfl

/-- The double of an integer of 64 bits is that of the rank nearest to it. -/
theorem exists_ofInt_eq {n : Int} (h : n.natAbs < 2 ^ 64) :
    ∃ rank : Fin (2047 * Nat.pow 2 52), ofInt n = .finite (decide (n < 0)) rank ∧
      rank.val = nearestRank (n.natAbs * 2 ^ leastExponent) 1 := by
  have hfinite := nearestRank_lt h
  rw [← Nat.pow_eq (m := 2) (n := 52)] at hfinite
  refine ⟨⟨_, hfinite⟩, ?_, rfl⟩
  rw [ofInt, ofRatio, Nat.pow_eq, ofRank, dif_pos hfinite]

/-- An integer of 64 bits is rounded to its double. -/
theorem isNearest_ofInt {n : Int} (h : n.natAbs < 2 ^ 64) : IsNearest n (ofInt n) := by
  obtain ⟨nearest, hx, hrank⟩ := exists_ofInt_eq h
  refine ⟨nearest, _, hx, by rw [hx, units?_finite], fun y other hy => ?_⟩
  obtain ⟨negative, rank, rfl⟩ : ∃ negative rank, y = .finite negative rank := by
    cases y with
    | finite negative rank => exact ⟨negative, rank, rfl⟩
    | nan => cases hy
    | infinite negative => cases hy
  rw [units?_finite] at hy
  cases hy
  have hnear := nearestRank_nearest (n.natAbs * 2 ^ leastExponent) Nat.one_pos
  simp only [Nat.mul_one, ← hrank] at hnear
  rw [distance_eq, distance_eq, if_pos rfl]
  split
  next hsign =>
    refine ⟨(hnear rank).1, fun htie hne => (hnear rank).2 htie fun hsame => hne ?_⟩
    rw [hsign, hsame]
  next hsign =>
    -- a value of the other sign is not nearer than zero is
    obtain ⟨hzero, htied⟩ := hnear 0
    have hunits : units 0 = 0 := by decide
    rw [hunits, Nat.dist_zero_left] at hzero htied
    refine ⟨by omega, fun htie hne => htied (by omega) fun hsame => hne ?_⟩
    have hnone : units rank = 0 := by omega
    simp [hnone, ← hsame]

end TypedModel.Double
