import TypedModel.Double.Basic

/-!
# Shortest decimal digits

The shortest decimal that reads back as a given double, nearest to it among
those of its length. For each length only the two neighbours of the double on
that decimal grid are tried: when any decimal of the length reads back, so does
one of them.
-/

namespace TypedModel.Double

/-- A positive decimal `digits * 10 ^ exponent`. -/
structure Decimal where
  /-- The digits as one natural number. -/
  digits : Nat
  /-- Decimal exponent of the last digit. -/
  exponent : Int
  deriving DecidableEq

/-- Which of two equally near decimals is written. -/
inductive Tie where
  /-- The larger one. -/
  | up
  /-- The one whose last digit is even. -/
  | even
  deriving DecidableEq

namespace Decimal

/-- The digits without trailing zeros; the value is kept. -/
def trim (d : Decimal) : Decimal :=
  go (digitCount d.digits) d
where
  /-- Drops at most `fuel` trailing zeros. -/
  go : Nat → Decimal → Decimal
    | 0, d => d
    | fuel + 1, d =>
      if d.digits ≠ 0 ∧ d.digits % 10 = 0 then go fuel ⟨d.digits / 10, d.exponent + 1⟩ else d

end Decimal

/-- Whether a decimal reads as the non-negative finite double of this rank. -/
def readsAs (rank : Nat) (d : Decimal) : Bool :=
  ofDecimal false d.digits d.exponent == ofRank false rank

/-- The exact decimal value of a rank: a double is a multiple of `2 ^ (-1074)`,
and so of `10 ^ (-1074)`. -/
def exactDecimal (rank : Nat) : Decimal := ⟨units rank * Nat.pow 5 leastExponent, -leastExponent⟩

/-- The decimal of `length` digits that reads back as the rank, nearest first. -/
def shortestOfLength (tie : Tie) (rank length : Nat) : Option Decimal :=
  let exact := exactDecimal rank
  let dropped := digitCount exact.digits - length
  let step := Nat.pow 10 dropped
  let below := exact.digits / step
  let rest := exact.digits % step
  let decimal (digits : Nat) : Decimal := ⟨digits, exact.exponent + dropped⟩
  let upFirst :=
    step < 2 * rest || (2 * rest == step && (tie == .up || below % 2 == 1))
  let candidates := if upFirst then [below + 1, below] else [below, below + 1]
  (candidates.map decimal).find? (readsAs rank)

/-- The shortest decimal that reads back as the rank. Seventeen digits always
suffice; were they not to, the exact value would be written. -/
def shortest (tie : Tie) (rank : Nat) : Decimal :=
  let found := (List.range 17).findSome? fun n => shortestOfLength tie rank (n + 1)
  (found.map Decimal.trim).getD (exactDecimal rank)

end TypedModel.Double
