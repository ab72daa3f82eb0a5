import TypedModel.Double.Shortest

/-!
# Written doubles

One printer with two layouts: the number syntax of JSON text and the display
text used in messages. A layout says which decimal exponents are written
positionally, whether a non-negative exponent carries a plus sign, and which of
two equally near shortest decimals is taken.
-/

namespace TypedModel.Double

/-- How finite doubles are written. -/
structure Layout where
  /-- Least exponent of the leading digit that is written positionally. -/
  least : Int
  /-- Greatest exponent of the leading digit that is written positionally. -/
  greatest : Int
  /-- Whether a non-negative exponent carries a plus sign. -/
  plus : Bool
  /-- Choice between two equally near shortest decimals. -/
  tie : Tie

/-- JSON text is positional from `0.00001` to below `10 ^ 16`. -/
def Layout.json : Layout := ⟨-5, 15, true, .even⟩

/-- Display text is positional from `0.0001` to below `10 ^ 16`. -/
def Layout.display : Layout := ⟨-4, 15, false, .up⟩

/-- Digits with a decimal point, the leading digit standing for `10 ^ lead`. At
least one digit follows the point. -/
def positional (digits : List Char) (lead : Int) : List Char :=
  if lead < 0 then
    '0' :: '.' :: (List.replicate (lead.natAbs - 1) '0' ++ digits)
  else
    let whole := lead.natAbs + 1
    let padded := digits ++ List.replicate (whole - digits.length) '0'
    match padded.drop whole with
    | [] => padded ++ ['.', '0']
    | fraction => padded.take whole ++ '.' :: fraction

/-- Digits with the point after the first one and the power of ten behind them. -/
def scientific (plus : Bool) (digits : List Char) (lead : Int) : List Char :=
  let mantissa :=
    match digits with
    | [] => []
    | [d] => [d]
    | d :: rest => d :: '.' :: rest
  let sign := if lead < 0 then ['-'] else if plus then ['+'] else []
  mantissa ++ 'e' :: (sign ++ Nat.toDigits 10 lead.natAbs)

/-- A finite magnitude in a layout. -/
def renderRank (layout : Layout) (rank : Nat) : List Char :=
  if rank = 0 then ['0', '.', '0']
  else
    let d := shortest layout.tie rank
    let digits := Nat.toDigits 10 d.digits
    let lead := d.exponent + digits.length - 1
    if layout.least ≤ lead ∧ lead ≤ layout.greatest then positional digits lead
    else scientific layout.plus digits lead

/-- A double in a layout, with names for NaN and the infinities. -/
def render (layout : Layout) : Double → String
  | .nan => "NaN"
  | .infinite negative => if negative then "-inf" else "inf"
  | .finite negative rank =>
    String.ofList ((if negative then ['-'] else []) ++ renderRank layout rank)

end TypedModel.Double
