/-!
# Base64

Octets as text over the standard alphabet, padded to groups of four. Reading is
exact: padding is required, nothing follows it, and the bits of the last digit
that belong to no octet are zero, so each octet list has one written form.
-/

namespace TypedModel.Text

/-- The sixty-four digits in order. -/
def base64Alphabet : List Char :=
  "ABCDEFGHIJKLMNOPQRSTUVWXYZabcdefghijklmnopqrstuvwxyz0123456789+/".toList

/-- The digit of a value below 64. -/
def base64Digit (n : Nat) : Char := base64Alphabet.getD n '='

/-- Value of a digit. -/
def base64Value? (c : Char) : Option Nat := base64Alphabet.idxOf? c

/-- Octets as padded base64 digits. -/
def base64Encode : List UInt8 → List Char
  | [] => []
  | [a] =>
    [base64Digit (a.toNat / 4), base64Digit (a.toNat % 4 * 16), '=', '=']
  | [a, b] =>
    [base64Digit (a.toNat / 4), base64Digit (a.toNat % 4 * 16 + b.toNat / 16),
      base64Digit (b.toNat % 16 * 4), '=']
  | a :: b :: c :: rest =>
    base64Digit (a.toNat / 4) :: base64Digit (a.toNat % 4 * 16 + b.toNat / 16) ::
      base64Digit (b.toNat % 16 * 4 + c.toNat / 64) :: base64Digit (c.toNat % 64) ::
      base64Encode rest

/-- Octets written by padded base64 digits. -/
def base64Decode? : List Char → Option (List UInt8)
  | [] => some []
  | [p, q, '=', '='] => do
    let p ← base64Value? p
    let q ← base64Value? q
    if q % 16 = 0 then some [UInt8.ofNat (p * 4 + q / 16)] else none
  | [p, q, r, '='] => do
    let p ← base64Value? p
    let q ← base64Value? q
    let r ← base64Value? r
    if r % 4 = 0 then
      some [UInt8.ofNat (p * 4 + q / 16), UInt8.ofNat (q % 16 * 16 + r / 4)]
    else none
  | p :: q :: r :: s :: rest => do
    let p ← base64Value? p
    let q ← base64Value? q
    let r ← base64Value? r
    let s ← base64Value? s
    let octets ← base64Decode? rest
    some (UInt8.ofNat (p * 4 + q / 16) :: UInt8.ofNat (q % 16 * 16 + r / 4) ::
      UInt8.ofNat (r % 4 * 64 + s) :: octets)
  | _ => none

end TypedModel.Text
