import TypedModel.Time.Calendar

/-!
# Instants

An instant of UTC to the nanosecond. A leap second is the second 59 of a minute
with a nanosecond count of one thousand million or more, so instants of a leap
second differ from those of the second that follows.
-/

namespace TypedModel

/-- An instant of UTC. -/
structure Instant where
  /-- Seconds from 1970-01-01T00:00:00Z, leap seconds not counted. -/
  second : Int
  /-- Nanoseconds of the second; one thousand million more within a leap second. -/
  nano : Nat
  /-- A leap second has at most its own nanoseconds. -/
  nano_lt : nano < 2000000000
  /-- Leap seconds end a minute. -/
  leap_ends_minute : 1000000000 ≤ nano → second % 60 = 59
  deriving DecidableEq

namespace Instant

/-- Date of an instant. -/
def date (t : Instant) : Time.Date := Time.Date.ofDays (t.second / 86400)

/-- Second of the day, leap seconds not counted. -/
def secondOfDay (t : Instant) : Nat := (t.second % 86400).toNat

/-- Hour of the day. -/
def hour (t : Instant) : Nat := t.secondOfDay / 3600

/-- Minute of the hour. -/
def minute (t : Instant) : Nat := t.secondOfDay / 60 % 60

/-- Second of the minute as a clock shows it, 60 within a leap second. -/
def clockSecond (t : Instant) : Nat :=
  t.secondOfDay % 60 + if t.nano < 1000000000 then 0 else 1

/-- Nanosecond of the second that the clock shows. -/
def clockNano (t : Instant) : Nat := t.nano % 1000000000

/-- The instant at a second count and a nanosecond count, where there is one. -/
def ofSecond? (second : Int) (nano : Nat) : Option Instant :=
  if h : nano < 2000000000 ∧ (1000000000 ≤ nano → second % 60 = 59) then
    some ⟨second, nano, h.1, h.2⟩
  else none

/-- The start of an instant's second. -/
def wholeSecond (t : Instant) : Instant :=
  ⟨t.second, 0, by decide, fun h => absurd h (by decide)⟩

end Instant

end TypedModel
