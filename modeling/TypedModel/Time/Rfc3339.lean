import TypedModel.Time.Instant
import TypedModel.Text.Blank

/-!
# Written instants

Instants are written in the form of RFC 3339 with as many fraction digits as
keep the value, in groups of three. Reading takes that form and looser ones:
fields of fewer digits, blanks around the separators, a blank or `t` before the
time, longer fractions (cut after nine digits), and the zone as `Z`, `UTC` or an
offset of hours and minutes.
-/

namespace TypedModel.Time

/-- Decimal digits, padded with zeros on the left. -/
def padded (width n : Nat) : List Char :=
  let digits := Nat.toDigits 10 n
  List.replicate (width - digits.length) '0' ++ digits

/-- Four digits of a year, with a sign in front of a year outside 0 to 9999. -/
def renderYear (year : Int) : List Char :=
  if 0 ≤ year ∧ year ≤ 9999 then padded 4 year.natAbs
  else (if year < 0 then '-' else '+') :: padded 4 year.natAbs

/-- Fraction of a second in the fewest groups of three digits. -/
def renderFraction (nano : Nat) : List Char :=
  if nano = 0 then []
  else if nano % 1000000 = 0 then '.' :: padded 3 (nano / 1000000)
  else if nano % 1000 = 0 then '.' :: padded 6 (nano / 1000)
  else '.' :: padded 9 nano

/-- An instant with the given zone text behind it. -/
def render (zone : String) (t : Instant) : String :=
  let d := t.date
  String.ofList (renderYear d.year ++ '-' :: padded 2 d.month ++ '-' :: padded 2 d.day ++
    'T' :: padded 2 t.hour ++ ':' :: padded 2 t.minute ++ ':' :: padded 2 t.clockSecond ++
    renderFraction t.clockNano ++ zone.toList)

/-- A reader of the front of a text, with the text that is left. -/
abbrev Scan (α : Type) := List Char → Option (α × List Char)

/-- Value of a run of decimal digits. -/
def digitsValue (digits : List Char) : Nat :=
  digits.foldl (fun n c => 10 * n + (c.toNat - 48)) 0

/-- One to `most` decimal digits. -/
def scanNumber (most : Nat) : Scan Nat := fun cs =>
  match (cs.take most).takeWhile Char.isDigit with
  | [] => none
  | digits => some (digitsValue digits, cs.drop digits.length)

/-- One or more decimal digits. -/
def scanDigits : Scan Nat := fun cs => scanNumber cs.length cs

/-- A year of one to four digits, or a sign and any number of digits. -/
def scanYear : Scan Int := fun cs =>
  match cs with
  | '-' :: rest => (scanDigits rest).map fun r => (-(r.1 : Int), r.2)
  | '+' :: rest => (scanDigits rest).map fun r => ((r.1 : Int), r.2)
  | _ => (scanNumber 4 cs).map fun r => ((r.1 : Int), r.2)

/-- A number of one or two digits after any blanks. -/
def scanField : Scan Nat := fun cs => scanNumber 2 (Text.trimStart cs)

/-- A separator after any blanks. -/
def scanSeparator (separator : Char) : Scan Unit := fun cs =>
  match Text.trimStart cs with
  | c :: rest => if c = separator then some ((), rest) else none
  | [] => none

/-- Year, month and day with hyphens between them. -/
def scanDate : Scan Date := fun cs => do
  let (year, cs) ← scanYear (Text.trimStart cs)
  let (_, cs) ← scanSeparator '-' cs
  let (month, cs) ← scanField cs
  let (_, cs) ← scanSeparator '-' cs
  let (day, cs) ← scanField cs
  some (⟨year, month, day⟩, cs)

/-- The fraction of a second in nanoseconds, zero where there is none. -/
def scanFraction : Scan Nat := fun cs =>
  match cs with
  | '.' :: rest =>
    match rest.takeWhile Char.isDigit with
    | [] => none
    | digits =>
      let kept := digits.take 9
      some (digitsValue kept * Nat.pow 10 (9 - kept.length), rest.drop digits.length)
  | _ => some (0, cs)

/-- Time of day in seconds and nanoseconds; second 60 is the leap second of its
minute. -/
def scanTime : Scan (Nat × Nat) := fun cs => do
  let (hour, cs) ← scanField cs
  let (_, cs) ← scanSeparator ':' cs
  let (minute, cs) ← scanField cs
  let (_, cs) ← scanSeparator ':' cs
  let (second, cs) ← scanField cs
  let (nano, cs) ← scanFraction cs
  if hour ≤ 23 ∧ minute ≤ 59 ∧ second ≤ 60 then
    let start := hour * 3600 + minute * 60
    if second = 60 then some ((start + 59, 1000000000 + nano), cs)
    else some ((start + second, nano), cs)
  else none

/-- Exactly two decimal digits. -/
def scanPair : Scan Nat := fun cs =>
  match cs with
  | a :: b :: rest => if a.isDigit && b.isDigit then some (digitsValue [a, b], rest) else none
  | _ => none

/-- The zone as its distance from UTC in seconds, less than a day. -/
def scanZone : Scan Int := fun cs =>
  match cs with
  | 'Z' :: rest | 'z' :: rest => some (0, rest)
  | sign :: rest =>
    if sign.toLower = 'u' then
      match rest with
      | t :: c :: rest => if t.toLower = 't' ∧ c.toLower = 'c' then some (0, rest) else none
      | _ => none
    else if sign = '+' ∨ sign = '-' ∨ sign = '−' then do
      let (hours, rest) ← scanPair rest
      let (minutes, rest) ← scanPair (rest.dropWhile fun c => c == ':' || Text.isBlank c)
      if hours < 24 ∧ minutes < 60 then
        let distance : Int := hours * 3600 + minutes * 60
        some (if sign = '+' then distance else -distance, rest)
      else none
    else none
  | [] => none

/-- Years that an instant may lie in. -/
def isYearInRange (year : Int) : Bool := -262143 ≤ year && year ≤ 262142

/-- The instant a text stands for. -/
def parse? (text : String) : Option Instant := do
  let (date, cs) ← scanDate text.toList
  let cs ← match cs with
    | 'T' :: rest | 't' :: rest | ' ' :: rest => some rest
    | _ => none
  let ((second, nano), cs) ← scanTime cs
  let (distance, cs) ← scanZone (Text.trimStart cs)
  if cs.all Text.isBlank && date.isValid && isYearInRange date.year then do
    let t ← Instant.ofSecond? (date.toDays * 86400 + second - distance) nano
    if isYearInRange t.date.year then some t else none
  else none

end TypedModel.Time
