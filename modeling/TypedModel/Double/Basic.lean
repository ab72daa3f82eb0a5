/-!
# Double-precision numbers

A double is NaN, an infinity, or a finite number given by its sign and its
rank among the magnitudes of that precision. Structural equality is identity of
numbers with a single NaN and two zeros, and `ieeeEq` is the numeric comparison.
Rounding takes any exact ratio to the nearest double, ties to the even rank;
everything is natural-number arithmetic, so it can be reasoned about and run.
-/

namespace TypedModel

/-- A double-precision number. The `rank` of a finite number counts the
magnitudes below it, so equal structures are the same number: there is one NaN,
and the two zeros differ in their sign only. -/
inductive Double where
  /-- The result that is no number. -/
  | nan
  /-- An infinity of the given sign. -/
  | infinite (negative : Bool)
  /-- A finite number of the given sign; the largest rank is the one below infinity. -/
  | finite (negative : Bool) (rank : Fin (2047 * Nat.pow 2 52))
  deriving DecidableEq, Inhabited

namespace Double

/-- Integral significand of a rank: the rank itself below the first full binade,
otherwise its last 52 bits with a leading one. -/
def significand (rank : Nat) : Nat :=
  if rank < Nat.pow 2 52 then rank else Nat.pow 2 52 + rank % Nat.pow 2 52

/-- How often the significand of a rank is doubled. -/
def scale (rank : Nat) : Nat := rank / Nat.pow 2 52 - 1

/-- The least positive double is two to the power of minus this. -/
def leastExponent : Nat := 1074

/-- Exact magnitude of a rank, counted in units of the least positive double. -/
def units (rank : Nat) : Nat := significand rank * Nat.pow 2 (scale rank)

/-- The quotient rounded to the nearest natural number, a tie to the even one. -/
def roundHalfEven (num den : Nat) : Nat :=
  let quotient := num / den
  let rest := num % den
  if 2 * rest < den then quotient
  else if den < 2 * rest then quotient + 1
  else quotient + quotient % 2

/-- Rank nearest to the magnitude `num / den`, counted in units of the least
positive double. A significand that rounds up to the next power of two carries
into the next binade by itself. -/
def nearestRank (num den : Nat) : Nat :=
  let shift := Nat.log2 (num / den) - 52
  shift * Nat.pow 2 52 + roundHalfEven num (den * Nat.pow 2 shift)

/-- The double of a sign and a rank; a rank beyond the largest one is infinite. -/
def ofRank (negative : Bool) (rank : Nat) : Double :=
  if h : rank < 2047 * Nat.pow 2 52 then .finite negative ⟨rank, h⟩ else .infinite negative

/-- The double nearest to the signed ratio `num / den`. -/
def ofRatio (negative : Bool) (num den : Nat) : Double :=
  ofRank negative (nearestRank (num * Nat.pow 2 leastExponent) den)

/-- The zero of a sign. -/
def zero (negative : Bool) : Double := .finite negative ⟨0, by decide⟩

/-- The double nearest to an integer. -/
def ofInt (n : Int) : Double := ofRatio (n < 0) n.natAbs 1

/-- Number of decimal digits of a natural number, one for zero. -/
def digitCount (n : Nat) : Nat := (Nat.toDigits 10 n).length

/-- The double nearest to the signed decimal `digits * 10 ^ exponent`. Decimals
of at least `10 ^ 310` are infinite and those below `10 ^ (-330)` are zero, so no
power is raised beyond what the finite range needs. -/
def ofDecimal (negative : Bool) (digits : Nat) (exponent : Int) : Double :=
  if digits = 0 then zero negative
  else
    let size := digitCount digits + exponent
    if 310 < size then .infinite negative
    else if size < -330 then zero negative
    else if exponent < 0 then ofRatio negative digits (Nat.pow 10 exponent.natAbs)
    else ofRatio negative (digits * Nat.pow 10 exponent.natAbs) 1

/-- Numeric comparison: NaN differs from everything and the two zeros agree. -/
def ieeeEq : Double → Double → Bool
  | .infinite s, .infinite t => s == t
  | .finite s a, .finite t b => a == b && (s == t || a.val == 0)
  | _, _ => false

/-- The product rounded to nearest. Zero times an infinity is NaN. -/
def mul : Double → Double → Double
  | .nan, _ | _, .nan => .nan
  | .infinite s, .infinite t => .infinite (s != t)
  | .infinite s, .finite t r | .finite t r, .infinite s =>
    if r.val = 0 then .nan else .infinite (s != t)
  | .finite s a, .finite t b =>
    ofRank (s != t) (nearestRank (units a * units b) (Nat.pow 2 leastExponent))

/-- Numeric comparison is symmetric. -/
theorem ieeeEq_comm (x y : Double) : x.ieeeEq y = y.ieeeEq x := by
  cases x with
  | nan => cases y <;> rfl
  | infinite s => cases y <;> simp [ieeeEq, Bool.beq_comm]
  | finite s a =>
    cases y with
    | nan => rfl
    | infinite t => rfl
    | finite t b =>
      by_cases h : a = b
      · subst h
        rw [ieeeEq, ieeeEq, Bool.beq_comm (a := s)]
      · rw [ieeeEq, ieeeEq, beq_eq_false_iff_ne.mpr h, beq_eq_false_iff_ne.mpr (Ne.symm h)]
        rfl

end Double

end TypedModel
