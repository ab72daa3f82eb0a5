import TypedModel.Double.Shortest
import TypedModel.Proofs.Double.Rounding

/-!
# Shortest decimals read back

The decimal that `shortest` picks for a positive finite rank reads as that rank, under either
sign. Seventeen digits always suffice, so the search never falls through to the exact value.
-/

namespace TypedModel.Double

/-! ## Digit counts -/

/-- A number has at most as many digits as the power of ten above it says. -/
theorem digitCount_le_iff {n k : Nat} (hk : 0 < k) : digitCount n ≤ k ↔ n < 10 ^ k :=
  Nat.length_toDigits_le_iff (by decide) hk

/-- Every number has a digit. -/
theorem digitCount_pos (n : Nat) : 0 < digitCount n := Nat.length_toDigits_pos

/-- A number from a power of ten on has more digits than its exponent. -/
theorem lt_digitCount {n k : Nat} (h : 10 ^ k ≤ n) : k < digitCount n := by
  refine Nat.lt_of_not_le fun hle => ?_
  rcases Nat.eq_zero_or_pos k with hk | hk
  · have := digitCount_pos n
    omega
  · have := (digitCount_le_iff hk).mp hle
    omega

/-- A number with more digits than an exponent lies at its power of ten or above. -/
theorem pow_le_of_lt_digitCount {n k : Nat} (hk : 0 < k) (h : k < digitCount n) : 10 ^ k ≤ n := by
  refine Nat.le_of_not_lt fun hlt => ?_
  have := (digitCount_le_iff hk).mpr hlt
  omega

/-- Ten times a positive number has one more digit. -/
theorem digitCount_ten_mul {n : Nat} (hn : 0 < n) : digitCount (10 * n) = digitCount n + 1 := by
  rw [digitCount, digitCount, Nat.toDigits_of_base_le (by decide) (by omega),
    Nat.mul_div_cancel_left n (by decide)]
  simp

/-- A power of ten times a positive number has that many more digits. -/
theorem digitCount_mul_pow {n : Nat} (hn : 0 < n) (k : Nat) :
    digitCount (n * 10 ^ k) = digitCount n + k := by
  induction k with
  | zero => rw [Nat.pow_zero, Nat.mul_one, Nat.add_zero]
  | succ k ih =>
    have hpos : 0 < n * 10 ^ k := Nat.mul_pos hn (Nat.pow_pos (by decide))
    rw [Nat.pow_succ, ← Nat.mul_assoc, Nat.mul_comm _ 10, digitCount_ten_mul hpos, ih]
    rfl

/-! ## Decimals and ranks -/

/-- Finite ranks are told apart by their doubles. -/
theorem ofRank_inj {negative : Bool} {rank other : Nat} (hr : rank < 2047 * 2 ^ 52)
    (h : ofRank negative other = ofRank negative rank) : other = rank := by
  have hrank : ofRank negative rank = .finite negative ⟨rank, hr⟩ := dif_pos hr
  rw [hrank, ofRank] at h
  split at h
  · cases h
    rfl
  · cases h

/-- A decimal reads as one rank under either sign. -/
theorem exists_ofDecimal_eq_ofRank (digits : Nat) (exponent : Int) :
    ∃ rank, ∀ negative, ofDecimal negative digits exponent = ofRank negative rank := by
  have hzero (negative : Bool) : zero negative = ofRank negative 0 := rfl
  have htop (negative : Bool) : .infinite negative = ofRank negative (2047 * 2 ^ 52) := rfl
  simp only [ofDecimal, hzero, htop, ofRatio]
  split
  · exact ⟨_, fun _ => rfl⟩
  split
  · exact ⟨_, fun _ => rfl⟩
  split
  · exact ⟨_, fun _ => rfl⟩
  split
  · exact ⟨_, fun _ => rfl⟩
  · exact ⟨_, fun _ => rfl⟩

/-- A decimal that reads as a finite rank does so under either sign. -/
theorem ofDecimal_of_readsAs {rank : Nat} {d : Decimal} (hr : rank < 2047 * 2 ^ 52)
    (h : readsAs rank d = true) (negative : Bool) :
    ofDecimal negative d.digits d.exponent = ofRank negative rank := by
  obtain ⟨other, hother⟩ := exists_ofDecimal_eq_ofRank d.digits d.exponent
  have heq := beq_iff_eq.mp h
  rw [hother] at heq
  rw [hother, ofRank_inj hr heq]

/-- The ratio of a decimal keeps its value when a digit zero moves into the exponent. -/
theorem ofRatio_ten_mul (negative : Bool) (digits : Nat) (exponent : Int) :
    (if exponent < 0 then ofRatio negative (10 * digits) (10 ^ exponent.natAbs)
      else ofRatio negative (10 * digits * 10 ^ exponent.natAbs) 1) =
    if exponent + 1 < 0 then ofRatio negative digits (10 ^ (exponent + 1).natAbs)
      else ofRatio negative (digits * 10 ^ (exponent + 1).natAbs) 1 := by
  have hten (num den : Nat) : ofRatio negative (10 * num) (10 * den) = ofRatio negative num den := by
    rw [ofRatio, ofRatio, Nat.mul_assoc, nearestRank_scale (by decide)]
  rcases Int.lt_trichotomy exponent (-1) with he | he | he
  · have hpow : exponent.natAbs = (exponent + 1).natAbs + 1 := by omega
    rw [if_pos (by omega), if_pos (by omega), hpow, Nat.pow_succ, Nat.mul_comm _ 10, hten]
  · subst he
    have hone : (-1 : Int).natAbs = 1 := rfl
    have hzero : (-1 + 1 : Int).natAbs = 0 := rfl
    rw [if_pos (by decide), if_neg (by decide), hone, hzero, Nat.pow_zero, Nat.mul_one, Nat.pow_one,
      ← hten digits 1]
  · have hpow : (exponent + 1).natAbs = exponent.natAbs + 1 := by omega
    rw [if_neg (by omega), if_neg (by omega), hpow, Nat.pow_succ, Nat.mul_comm _ 10,
      Nat.mul_left_comm, Nat.mul_assoc]

/-- A digit zero at the end moves into the exponent. -/
theorem ofDecimal_ten_mul (negative : Bool) {digits : Nat} (hd : 0 < digits) (exponent : Int) :
    ofDecimal negative (10 * digits) exponent = ofDecimal negative digits (exponent + 1) := by
  have hsize : (digitCount (10 * digits) : Int) + exponent =
      digitCount digits + (exponent + 1) := by
    rw [digitCount_ten_mul hd]
    omega
  have hten : ¬ 10 * digits = 0 := by omega
  have hone : ¬ digits = 0 := by omega
  simp only [ofDecimal, Nat.pow_eq, hsize, if_neg hten, if_neg hone, ofRatio_ten_mul]

/-- Zeros at the end move into the exponent. -/
theorem ofDecimal_mul_pow (negative : Bool) {digits : Nat} (hd : 0 < digits) (k : Nat)
    (exponent : Int) :
    ofDecimal negative (digits * 10 ^ k) exponent = ofDecimal negative digits (exponent + k) := by
  induction k generalizing exponent with
  | zero => rw [Nat.pow_zero, Nat.mul_one, Int.natCast_zero, Int.add_zero]
  | succ k ih =>
    have hpos : 0 < digits * 10 ^ k := Nat.mul_pos hd (Nat.pow_pos (by decide))
    have hten : digits * 10 ^ (k + 1) = 10 * (digits * 10 ^ k) := by
      rw [Nat.pow_succ, ← Nat.mul_assoc, Nat.mul_comm]
    rw [hten, ofDecimal_ten_mul negative hpos, ih, Int.add_assoc, Int.add_comm 1]
    rfl

/-- Dropping zeros keeps the double, and the digits stay positive and do not grow. -/
theorem ofDecimal_trim_go (negative : Bool) (fuel : Nat) {d : Decimal} (hd : 0 < d.digits) :
    ofDecimal negative (Decimal.trim.go fuel d).digits (Decimal.trim.go fuel d).exponent =
        ofDecimal negative d.digits d.exponent ∧
      0 < (Decimal.trim.go fuel d).digits ∧ (Decimal.trim.go fuel d).digits ≤ d.digits := by
  induction fuel generalizing d with
  | zero => exact ⟨rfl, hd, Nat.le_refl _⟩
  | succ fuel ih =>
    rw [Decimal.trim.go]
    split
    next h =>
      have hpos : 0 < d.digits / 10 := by omega
      have htimes : 10 * (d.digits / 10) = d.digits := by omega
      obtain ⟨heq, hlow, hhigh⟩ := ih (d := ⟨d.digits / 10, d.exponent + 1⟩) hpos
      refine ⟨heq.trans ?_, hlow, Nat.le_trans hhigh (by simp only; omega)⟩
      rw [← ofDecimal_ten_mul negative hpos, htimes]
    next => exact ⟨rfl, hd, Nat.le_refl _⟩

/-! ## Seventeen digits suffice -/

/-- Powers of ten are positive. -/
theorem ten_pow_pos (k : Nat) : 0 < 10 ^ k := Nat.pow_pos (by decide)

/-- A power of ten of a sum of exponents is a product. -/
theorem ten_pow_of_eq {k m n : Nat} (h : k = m + n) : 10 ^ k = 10 ^ m * 10 ^ n := by
  rw [h, pow_add]

/-- A power of two grows with its exponent. -/
theorem two_pow_le {m n : Nat} (h : m ≤ n) : 2 ^ m ≤ 2 ^ n := Nat.pow_le_pow_right Nat.two_pos h

/-- The exact digits count units of `10 ^ (-1074)`. -/
theorem exactDecimal_digits (rank : Nat) :
    (exactDecimal rank).digits = units rank * 5 ^ leastExponent := by
  simp only [exactDecimal, Nat.pow_eq]

/-- Exact digits of a positive rank have at least 751 places. -/
theorem le_exactDecimal {rank : Nat} (hr : 0 < rank) :
    2 * 10 ^ 750 ≤ (exactDecimal rank).digits := by
  have hleast : 2 * 10 ^ 750 ≤ 5 ^ leastExponent := by decide +kernel
  have hunits : 0 < units rank := Nat.mul_pos (significand_pos hr) (Nat.two_pow_pos _)
  rw [exactDecimal_digits]
  exact Nat.le_trans hleast (Nat.le_mul_of_pos_left (5 ^ leastExponent) hunits)

/-- Exact digits of a finite rank have at most 1383 places. -/
theorem exactDecimal_lt {rank : Nat} (hf : rank < 2047 * 2 ^ 52) :
    2 * (exactDecimal rank).digits < 10 ^ 1383 := by
  have hgreatest : 2 * (2 ^ 53 * 2 ^ 2045 * 5 ^ leastExponent) < 10 ^ 1383 := by decide +kernel
  have hscale : 2 ^ scale rank ≤ 2 ^ 2045 := two_pow_le (scale_le hf)
  have hunits : units rank ≤ 2 ^ 53 * 2 ^ 2045 :=
    Nat.mul_le_mul (Nat.le_of_lt (significand_lt rank)) hscale
  have hdigits := Nat.mul_le_mul_left 2 (Nat.mul_le_mul_right (5 ^ leastExponent) hunits)
  rw [exactDecimal_digits]
  exact Nat.lt_of_le_of_lt hdigits hgreatest

/-- A decimal on a grid finer than the units that lies within one part in `2 * 10 ^ 16` of a
positive rank is rounded to it. -/
theorem nearestRank_of_grid {rank value : Nat} (k : Nat) (hr : 0 < rank)
    (hlow : (2 * 10 ^ 16 - 1) * (units rank * 5 ^ k) ≤ 2 * 10 ^ 16 * value)
    (hhigh : 2 * 10 ^ 16 * value ≤ (2 * 10 ^ 16 + 1) * (units rank * 5 ^ k)) :
    nearestRank (value * 2 ^ k) (10 ^ k) = rank := by
  have hgrid : units rank * 10 ^ k = units rank * 5 ^ k * 2 ^ k := by
    rw [Nat.mul_assoc, ← Nat.mul_pow]
  have hlow' := Nat.mul_le_mul_right (2 ^ k) hlow
  have hhigh' := Nat.mul_le_mul_right (2 ^ k) hhigh
  rw [Nat.mul_assoc, Nat.mul_assoc _ value, ← hgrid] at hlow'
  rw [Nat.mul_assoc, Nat.mul_assoc _ (units rank * 5 ^ k), ← hgrid] at hhigh'
  exact nearestRank_eq hr (ten_pow_pos k) hlow' hhigh'

/-- A decimal with a finite magnitude is rounded as a ratio over the least power of ten. -/
theorem ofDecimal_of_range {digits dropped : Nat} (negative : Bool)
    (hlow : 10 ^ 750 ≤ digits * 10 ^ dropped) (hhigh : digits * 10 ^ dropped < 10 ^ 1383) :
    ofDecimal negative digits (-leastExponent + dropped) = ofRank negative
      (nearestRank (digits * 10 ^ dropped * 2 ^ leastExponent) (10 ^ leastExponent)) := by
  have hpos : 0 < digits := Nat.pos_of_mul_pos_right
    (Nat.lt_of_lt_of_le (ten_pow_pos 750) hlow)
  have hcount := lt_digitCount hlow
  have hcount' := (digitCount_le_iff (by decide)).mpr hhigh
  rw [digitCount_mul_pow hpos] at hcount hcount'
  have hne : ¬ digits = 0 := by omega
  have hexponent : leastExponent = 1074 := rfl
  have hbig : ¬ 310 < (digitCount digits : Int) + (-leastExponent + dropped) := by omega
  have hsmall : ¬ (digitCount digits : Int) + (-leastExponent + dropped) < -330 := by omega
  rw [ofDecimal, if_neg hne]
  simp only [if_neg hbig, if_neg hsmall, ofRatio, Nat.pow_eq]
  generalize hsize : (-leastExponent + dropped : Int).natAbs = size
  split
  next he =>
    have hpow : 10 ^ leastExponent = 10 ^ dropped * 10 ^ size := ten_pow_of_eq (by omega)
    have hnum : digits * 10 ^ dropped * 2 ^ leastExponent =
        10 ^ dropped * (digits * 2 ^ leastExponent) := by
      rw [Nat.mul_comm digits, Nat.mul_assoc]
    rw [hpow, hnum, nearestRank_scale (ten_pow_pos dropped)]
  next he =>
    have hpow : 10 ^ dropped = 10 ^ leastExponent * 10 ^ size := ten_pow_of_eq (by omega)
    have hnum : digits * 10 ^ dropped * 2 ^ leastExponent =
        10 ^ leastExponent * (digits * 10 ^ size * 2 ^ leastExponent) := by
      rw [hpow, Nat.mul_left_comm, Nat.mul_assoc]
    have hscale := nearestRank_scale (ten_pow_pos leastExponent)
      (digits * 10 ^ size * 2 ^ leastExponent) 1
    rw [Nat.mul_one] at hscale
    rw [hnum, hscale]

/-- A decimal within one part in `2 * 10 ^ 16` of a positive finite rank reads as it. -/
theorem ofDecimal_of_near {rank digits dropped : Nat} (negative : Bool) (hr : 0 < rank)
    (hf : rank < 2047 * 2 ^ 52)
    (hlow : (2 * 10 ^ 16 - 1) * (exactDecimal rank).digits ≤ 2 * 10 ^ 16 * (digits * 10 ^ dropped))
    (hhigh : 2 * 10 ^ 16 * (digits * 10 ^ dropped) ≤
      (2 * 10 ^ 16 + 1) * (exactDecimal rank).digits) :
    ofDecimal negative digits (-leastExponent + dropped) = ofRank negative rank := by
  have hround : nearestRank (digits * 10 ^ dropped * 2 ^ leastExponent) (10 ^ leastExponent) = rank := by
    rw [exactDecimal_digits] at hlow hhigh
    exact nearestRank_of_grid leastExponent hr hlow hhigh
  have hleast := le_exactDecimal hr
  have hgreatest := exactDecimal_lt hf
  generalize (exactDecimal rank).digits = exact at *
  have hbelow : 10 ^ 750 ≤ digits * 10 ^ dropped := by
    generalize digits * 10 ^ dropped = value at *
    generalize 10 ^ 750 = bound at *
    omega
  have habove : digits * 10 ^ dropped < 10 ^ 1383 := by
    generalize digits * 10 ^ dropped = value at *
    generalize 10 ^ 1383 = bound at *
    omega
  rw [ofDecimal_of_range negative hbelow habove, hround]

/-! ## The search -/

/-- A decimal found by the search reads as the rank. -/
theorem readsAs_of_shortestOfLength {tie : Tie} {rank length : Nat} {d : Decimal}
    (h : shortestOfLength tie rank length = some d) : readsAs rank d = true :=
  List.find?_some h

/-- The neighbour below has as many digits as asked for. -/
theorem below_lt {digits length : Nat} (hl : 0 < length) :
    digits / 10 ^ (digitCount digits - length) < 10 ^ length := by
  have hcount : digitCount digits ≤ digitCount digits - length + length := by omega
  have hlt := (digitCount_le_iff (by omega)).mp hcount
  rw [ten_pow_of_eq rfl, Nat.mul_comm] at hlt
  exact (Nat.div_lt_iff_lt_mul (ten_pow_pos _)).mpr hlt

/-- A decimal found by the search has at most the power of ten of the digits asked for. -/
theorem digits_le_of_shortestOfLength {tie : Tie} {rank length : Nat} {d : Decimal}
    (hl : 0 < length) (h : shortestOfLength tie rank length = some d) : d.digits ≤ 10 ^ length := by
  have hbelow := @below_lt (exactDecimal rank).digits length hl
  have hmem := List.mem_of_find?_eq_some h
  obtain ⟨c, hc, rfl⟩ := List.mem_map.mp hmem
  have hcases : c = (exactDecimal rank).digits / 10 ^ (digitCount (exactDecimal rank).digits - length) ∨
      c = (exactDecimal rank).digits / 10 ^ (digitCount (exactDecimal rank).digits - length) + 1 := by
    split at hc
    · simpa [or_comm] using hc
    · simpa using hc
  rcases hcases with rfl | rfl
  · exact Nat.le_of_lt hbelow
  · exact hbelow

/-- The grid of seventeen digits is finer than one part in `10 ^ 16`. -/
theorem step_le {digits : Nat} (hd : 10 ^ 16 ≤ digits) :
    10 ^ (digitCount digits - 17) * 10 ^ 16 ≤ digits := by
  rcases Nat.eq_zero_or_pos (digitCount digits - 17) with hz | hz
  · rw [hz, Nat.pow_zero, Nat.one_mul]
    exact hd
  · rw [← ten_pow_of_eq rfl]
    exact pow_le_of_lt_digitCount (by omega) (by omega)

/-- A decimal within half a step of the grid of seventeen digits reads as the rank. -/
theorem readsAs_of_half_step {rank digits : Nat} (hr : 0 < rank) (hf : rank < 2047 * 2 ^ 52)
    (hlow : 2 * (exactDecimal rank).digits ≤
      2 * (digits * 10 ^ (digitCount (exactDecimal rank).digits - 17)) +
        10 ^ (digitCount (exactDecimal rank).digits - 17))
    (hhigh : 2 * (digits * 10 ^ (digitCount (exactDecimal rank).digits - 17)) ≤
      2 * (exactDecimal rank).digits + 10 ^ (digitCount (exactDecimal rank).digits - 17)) :
    readsAs rank ⟨digits, -leastExponent + (digitCount (exactDecimal rank).digits - 17 : Nat)⟩ = true := by
  have hleast : 10 ^ 16 ≤ (exactDecimal rank).digits := by
    have hpow : 10 ^ 16 ≤ 2 * 10 ^ 750 := by decide +kernel
    exact Nat.le_trans hpow (le_exactDecimal hr)
  have hstep := step_le hleast
  refine beq_iff_eq.mpr (ofDecimal_of_near false hr hf ?_ ?_)
  all_goals
    generalize 10 ^ (digitCount (exactDecimal rank).digits - 17) = step at *
    generalize (exactDecimal rank).digits = exact at *
    generalize digits * step = value at *
    omega

/-- Seventeen digits always suffice. -/
theorem exists_shortestOfLength (tie : Tie) {rank : Nat} (hr : 0 < rank)
    (hf : rank < 2047 * 2 ^ 52) : ∃ d, shortestOfLength tie rank 17 = some d := by
  have hhalf (digits : Nat) := @readsAs_of_half_step rank digits hr hf
  have hstep := ten_pow_pos (digitCount (exactDecimal rank).digits - 17)
  rw [← Option.isSome_iff_exists, shortestOfLength, List.find?_isSome]
  simp only [show (exactDecimal rank).exponent = -leastExponent from rfl]
  simp only [← Nat.pow_eq] at hhalf hstep
  generalize digitCount (exactDecimal rank).digits - 17 = dropped at *
  generalize (exactDecimal rank).digits = exact at *
  generalize Nat.pow 10 dropped = step at *
  have hdiv := Nat.div_add_mod exact step
  have hmod := Nat.mod_lt exact hstep
  rw [Nat.mul_comm] at hdiv
  split
  next hup =>
    simp only [Bool.or_eq_true, decide_eq_true_eq, Bool.and_eq_true, beq_iff_eq] at hup
    refine ⟨_, List.mem_map_of_mem List.mem_cons_self, hhalf _ ?_ ?_⟩
    all_goals
      rw [Nat.add_mul, Nat.one_mul]
      omega
  next hdown =>
    simp only [Bool.or_eq_true, decide_eq_true_eq, not_or, Nat.not_lt] at hdown
    refine ⟨_, List.mem_map_of_mem List.mem_cons_self, hhalf _ ?_ ?_⟩
    all_goals omega

/-- The search over all lengths finds a decimal. -/
theorem exists_findSome (tie : Tie) {rank : Nat} (hr : 0 < rank) (hf : rank < 2047 * 2 ^ 52) :
    ∃ d, (List.range 17).findSome? (fun n => shortestOfLength tie rank (n + 1)) = some d := by
  obtain ⟨d, hd⟩ := exists_shortestOfLength tie hr hf
  refine Option.ne_none_iff_exists'.mp fun hnone => ?_
  have hall := List.findSome?_eq_none_iff.mp hnone
  -- The last length stays a variable, or the search would be evaluated.
  generalize hlast : 16 = last at *
  have hmem : last ∈ List.range 17 := List.mem_range.mpr (by omega)
  have hlength : 17 = last + 1 := by omega
  rw [hlength, hall last hmem] at hd
  exact Option.some_ne_none d hd.symm

/-- The shortest decimal of a positive finite rank was found by the search, with at most
seventeen digits. -/
theorem exists_shortest (tie : Tie) {rank : Nat} (hr : 0 < rank) (hf : rank < 2047 * 2 ^ 52) :
    ∃ d, readsAs rank d = true ∧ d.digits ≤ 10 ^ 17 ∧ shortest tie rank = d.trim := by
  obtain ⟨d, hd⟩ := exists_findSome tie hr hf
  obtain ⟨n, hn, hsome⟩ := List.exists_of_findSome?_eq_some hd
  have hdigits := digits_le_of_shortestOfLength (Nat.succ_pos n) hsome
  have hbound : 10 ^ (n + 1) ≤ 10 ^ 17 :=
    Nat.pow_le_pow_right (by decide) (List.mem_range.mp hn)
  refine ⟨d, readsAs_of_shortestOfLength hsome, Nat.le_trans hdigits hbound, ?_⟩
  simp only [shortest, hd, Option.map_some, Option.getD_some]

/-- A decimal without digits reads as zero. -/
theorem digits_pos_of_readsAs {rank : Nat} {d : Decimal} (hr : 0 < rank)
    (hf : rank < 2047 * 2 ^ 52) (h : readsAs rank d = true) : 0 < d.digits := by
  refine Nat.pos_of_ne_zero fun hz => ?_
  have heq := beq_iff_eq.mp h
  rw [ofDecimal, if_pos hz] at heq
  have hzero : 0 = rank := ofRank_inj hf heq
  omega

/-- The shortest decimal of a positive finite rank reads as that rank under either sign; it has
digits, and at most eighteen of them. -/
theorem ofDecimal_shortest (tie : Tie) {rank : Nat} (hr : 0 < rank) (hf : rank < 2047 * 2 ^ 52)
    (negative : Bool) :
    ofDecimal negative (shortest tie rank).digits (shortest tie rank).exponent =
        ofRank negative rank ∧
      0 < (shortest tie rank).digits ∧ digitCount (shortest tie rank).digits ≤ 18 := by
  obtain ⟨d, hreads, hbound, hd⟩ := exists_shortest tie hr hf
  obtain ⟨heq, hpos, hle⟩ := ofDecimal_trim_go negative (digitCount d.digits)
    (digits_pos_of_readsAs hr hf hreads)
  rw [hd, Decimal.trim]
  refine ⟨heq.trans (ofDecimal_of_readsAs hf hreads negative), hpos, ?_⟩
  exact (digitCount_le_iff (by decide)).mpr (by omega)

end TypedModel.Double
