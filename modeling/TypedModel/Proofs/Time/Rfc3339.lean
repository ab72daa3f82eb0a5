import Mathlib.Algebra.Group.Nat.Defs
import TypedModel.Time.Rfc3339
import TypedModel.Proofs.Text.Digits
import TypedModel.Proofs.Time.Calendar

/-!
# Instants read back

A written instant of UTC is read back field by field: each field is a run of digits that ends at
the separator behind it. Leap seconds are written as second 60 and come back as such.
-/

namespace TypedModel.Time

open Text

/-! ## Padded numbers -/

/-- Padded numbers consist of digits. -/
theorem padded_all (width n : Nat) : (padded width n).all Char.isDigit = true := by
  rw [padded, List.all_append, replicate_zero_all, toDigits_all]
  rfl

/-- Padding does not change the value. -/
theorem digitsValue_padded (width n : Nat) : digitsValue (padded width n) = n := by
  show Nat.ofDigitChars 10 (padded width n) 0 = n
  rw [padded, Nat.ofDigitChars_append, Nat.ofDigitChars_replicate_zero, Nat.mul_zero,
    Nat.ofDigitChars_ten_toDigits]

/-- Padded numbers have a digit. -/
theorem padded_ne_nil (width n : Nat) : padded width n ≠ [] := by
  rw [padded]
  exact List.append_ne_nil_of_right_ne_nil _ Nat.toDigits_ne_nil

/-- A number below the power of ten of the width has the width. -/
theorem length_padded {width n : Nat} (hw : 0 < width) (h : n < 10 ^ width) :
    (padded width n).length = width := by
  have hle : (Nat.toDigits 10 n).length ≤ width :=
    (Nat.length_toDigits_le_iff (by decide) hw).mpr h
  rw [padded, List.length_append, List.length_replicate]
  omega

/-- Digits are no blanks. -/
theorem isBlank_of_isDigit {c : Char} (h : c.isDigit = true) : isBlank c = false := by
  have hrange : 48 ≤ c.toNat ∧ c.toNat ≤ 57 := by
    simpa [Char.isDigit, UInt32.le_iff_toNat_le] using h
  simp only [isBlank, Bool.or_eq_false_iff, Bool.and_eq_false_iff, decide_eq_false_iff_not,
    beq_eq_false_iff_ne]
  omega

/-- No blank stands in front of digits. -/
theorem trimStart_digits {digits : List Char} (hne : digits ≠ [])
    (hd : digits.all Char.isDigit = true) (rest : List Char) :
    trimStart (digits ++ rest) = digits ++ rest := by
  obtain ⟨c, cs, rfl⟩ := List.exists_cons_of_ne_nil hne
  have hc := isBlank_of_isDigit (List.all_eq_true.mp hd c List.mem_cons_self)
  rw [List.cons_append, trimStart, List.dropWhile_cons, hc]
  rfl

/-! ## Fields -/

/-- What is left of a text without a digit ahead has none either. -/
theorem noDigitAhead_take {rest : List Char} (h : noDigitAhead rest = true) (k : Nat) :
    noDigitAhead (rest.take k) = true := by
  cases rest with
  | nil => rw [List.take_nil]; rfl
  | cons c rest =>
    cases k with
    | zero => rfl
    | succ k => exact h

/-- A run of digits is scanned as its value. -/
theorem scanNumber_digits {most : Nat} {digits rest : List Char} (hne : digits ≠ [])
    (hd : digits.all Char.isDigit = true) (hmost : digits.length ≤ most)
    (hrest : noDigitAhead rest = true) :
    scanNumber most (digits ++ rest) = some (digitsValue digits, rest) := by
  have htake : ((digits ++ rest).take most).takeWhile Char.isDigit = digits := by
    rw [List.take_append, List.take_of_length_le hmost, takeWhile_digits hd (noDigitAhead_take hrest _)]
  unfold scanNumber
  rw [htake]
  obtain ⟨c, cs, rfl⟩ := List.exists_cons_of_ne_nil hne
  simp only [List.drop_left]

/-- A field of two digits is scanned as its value. -/
theorem scanField_padded {n : Nat} (hn : n < 100) {rest : List Char}
    (hrest : noDigitAhead rest = true) : scanField (padded 2 n ++ rest) = some (n, rest) := by
  rw [scanField, trimStart_digits (padded_ne_nil 2 n) (padded_all 2 n),
    scanNumber_digits (padded_ne_nil 2 n) (padded_all 2 n)
      (Nat.le_of_eq (length_padded (by decide) hn)) hrest, digitsValue_padded]

/-- A text that starts with a digit starts with no sign. -/
theorem digits_ne_cons {digits rest tail : List Char} {c : Char} (hne : digits ≠ [])
    (hd : digits.all Char.isDigit = true) (hc : c.isDigit = false) :
    digits ++ rest ≠ c :: tail := by
  obtain ⟨d, ds, rfl⟩ := List.exists_cons_of_ne_nil hne
  have hdigit := List.all_eq_true.mp hd d List.mem_cons_self
  intro h
  rw [(List.cons.inj h).1, hc] at hdigit
  cases hdigit

/-- A year of four digits is scanned. -/
theorem scanYear_padded {n : Nat} (hn : n < 10000) {rest : List Char}
    (hrest : noDigitAhead rest = true) :
    scanYear (padded 4 n ++ rest) = some ((n : Int), rest) := by
  have hscan := scanNumber_digits (padded_ne_nil 4 n) (padded_all 4 n)
    (Nat.le_of_eq (length_padded (by decide) hn)) hrest
  unfold scanYear
  split
  next h => exact absurd h (digits_ne_cons (padded_ne_nil 4 n) (padded_all 4 n) (by decide))
  next h => exact absurd h (digits_ne_cons (padded_ne_nil 4 n) (padded_all 4 n) (by decide))
  next => rw [hscan, Option.map_some, digitsValue_padded]

/-- A number of any length is scanned. -/
theorem scanDigits_padded (width n : Nat) {rest : List Char} (hrest : noDigitAhead rest = true) :
    scanDigits (padded width n ++ rest) = some (n, rest) := by
  rw [scanDigits, scanNumber_digits (padded_ne_nil width n) (padded_all width n) (by simp) hrest,
    digitsValue_padded]

/-- A year is scanned, with or without a sign. -/
theorem scanYear_render (year : Int) {rest : List Char} (hrest : noDigitAhead rest = true) :
    scanYear (trimStart (renderYear year ++ rest)) = some (year, rest) := by
  unfold renderYear
  split
  next hrange =>
    rw [trimStart_digits (padded_ne_nil 4 _) (padded_all 4 _), scanYear_padded (by omega) hrest,
      Int.natAbs_of_nonneg hrange.1]
  next =>
    have hscan := scanDigits_padded 4 year.natAbs hrest
    by_cases hneg : year < 0
    · have htrim : trimStart ('-' :: (padded 4 year.natAbs ++ rest)) =
          '-' :: (padded 4 year.natAbs ++ rest) := rfl
      rw [if_pos hneg, List.cons_append, htrim, scanYear, hscan, Option.map_some,
        Int.ofNat_natAbs_of_nonpos (Int.le_of_lt hneg), Int.neg_neg]
    · have htrim : trimStart ('+' :: (padded 4 year.natAbs ++ rest)) =
          '+' :: (padded 4 year.natAbs ++ rest) := rfl
      rw [if_neg hneg, List.cons_append, htrim, scanYear, hscan, Option.map_some,
        Int.natAbs_of_nonneg (by omega)]

/-- A separator that is no blank is scanned. -/
theorem scanSeparator_cons {c : Char} (hc : isBlank c = false) (rest : List Char) :
    scanSeparator c (c :: rest) = some ((), rest) := by
  have htrim : trimStart (c :: rest) = c :: rest := by
    rw [trimStart, List.dropWhile_cons, hc]
    rfl
  simp only [scanSeparator, htrim, if_true]

/-- A written date is scanned. -/
theorem scanDate_render {d : Date} (hm : d.month < 100) (hd : d.day < 100) {rest : List Char}
    (hrest : noDigitAhead rest = true) :
    scanDate (renderYear d.year ++ '-' :: (padded 2 d.month ++ '-' :: (padded 2 d.day ++ rest))) =
      some (d, rest) := by
  have hmonth : scanField (padded 2 d.month ++ '-' :: (padded 2 d.day ++ rest)) =
      some (d.month, '-' :: (padded 2 d.day ++ rest)) := scanField_padded hm rfl
  rw [scanDate, scanYear_render d.year rfl]
  simp only [Option.bind_eq_bind, Option.bind_some, scanSeparator_cons (c := '-') rfl, hmonth,
    scanField_padded hd hrest]

/-! ## Fractions -/

/-- A written fraction of digits is scanned as nanoseconds. -/
theorem scanFraction_padded {width n : Nat} (hw : 0 < width) (hw' : width ≤ 9)
    (hn : n < 10 ^ width) {rest : List Char} (hrest : noDigitAhead rest = true) :
    scanFraction ('.' :: (padded width n ++ rest)) = some (n * 10 ^ (9 - width), rest) := by
  have hlength := length_padded hw hn
  have htake : (padded width n).take 9 = padded width n := List.take_of_length_le (by omega)
  have hrun := takeWhile_digits (padded_all width n) hrest
  have hvalue := digitsValue_padded width n
  obtain ⟨c, cs, hcons⟩ := List.exists_cons_of_ne_nil (padded_ne_nil width n)
  rw [hcons] at hlength htake hrun hvalue ⊢
  simp only [scanFraction, hrun, htake, hvalue, hlength, Nat.pow_eq]
  rw [← hlength, List.drop_left]

/-- A written fraction of a second is scanned. -/
theorem scanFraction_render {nano : Nat} (hn : nano < 1000000000) {rest : List Char}
    (hrest : noDigitAhead rest = true) (hpoint : ∀ tail, rest ≠ '.' :: tail) :
    scanFraction (renderFraction nano ++ rest) = some (nano, rest) := by
  unfold renderFraction
  split
  next hzero =>
    rw [hzero, List.nil_append, scanFraction]
    exact fun tail h => hpoint tail h
  split
  next hmilli =>
    have hvalue : nano / 1000000 * 10 ^ (9 - 3) = nano := by omega
    rw [List.cons_append, scanFraction_padded (by decide) (by decide) (by omega) hrest, hvalue]
  split
  next hmicro =>
    have hvalue : nano / 1000 * 10 ^ (9 - 6) = nano := by omega
    rw [List.cons_append, scanFraction_padded (by decide) (by decide) (by omega) hrest, hvalue]
  next =>
    have hvalue : nano * 10 ^ (9 - 9) = nano := by omega
    rw [List.cons_append, scanFraction_padded (by decide) (by decide) (by omega) hrest, hvalue]

/-- No digit starts a fraction. -/
theorem noDigitAhead_renderFraction (nano : Nat) {rest : List Char}
    (hrest : noDigitAhead rest = true) : noDigitAhead (renderFraction nano ++ rest) = true := by
  unfold renderFraction
  split
  next => exact hrest
  split
  next => rfl
  split <;> rfl

/-! ## Instants -/

/-- The clock of an instant is scanned as its second of the day and its nanoseconds. -/
theorem scanTime_render (t : Instant) :
    scanTime (padded 2 t.hour ++ ':' :: (padded 2 t.minute ++ ':' :: (padded 2 t.clockSecond ++
      (renderFraction t.clockNano ++ ['Z'])))) = some ((t.secondOfDay, t.nano), ['Z']) := by
  have hnano := t.nano_lt
  have hleap := t.leap_ends_minute
  have hday : t.secondOfDay < 86400 ∧ t.secondOfDay % 60 = t.second % 60 := by
    rw [Instant.secondOfDay]
    omega
  have hhour : t.hour < 24 := by
    rw [Instant.hour]
    omega
  have hminute : t.minute < 60 := by
    rw [Instant.minute]
    omega
  have hclock : t.hour * 3600 + t.minute * 60 + t.secondOfDay % 60 = t.secondOfDay := by
    rw [Instant.hour, Instant.minute]
    omega
  have hshown : (t.nano < 1000000000 ∧ t.clockSecond = t.secondOfDay % 60 ∧ t.clockNano = t.nano) ∨
      (t.secondOfDay % 60 = 59 ∧ t.clockSecond = 60 ∧ 1000000000 + t.clockNano = t.nano) := by
    rw [Instant.clockSecond, Instant.clockNano]
    split <;> omega
  have hsecond : t.clockSecond ≤ 60 := by omega
  have hfraction : scanFraction (renderFraction t.clockNano ++ ['Z']) = some (t.clockNano, ['Z']) :=
    scanFraction_render (Nat.mod_lt _ (by decide)) rfl (by simp)
  rw [scanTime, scanField_padded (by omega) rfl]
  simp only [Option.bind_eq_bind, Option.bind_some, scanSeparator_cons (c := ':') rfl]
  rw [scanField_padded (by omega) rfl]
  simp only [Option.bind_some, scanSeparator_cons (c := ':') rfl]
  rw [scanField_padded (by omega) (noDigitAhead_renderFraction _ rfl)]
  simp only [Option.bind_some, hfraction]
  rw [if_pos ⟨by omega, by omega, hsecond⟩]
  rcases hshown with ⟨-, hsame, hnano⟩ | ⟨hlast, hsame, hnano⟩
  · rw [if_neg (by omega), hsame, hclock, hnano]
  · rw [if_pos hsame, hnano, ← hlast, hclock]

/-- A date of the calendar has months and days of at most two digits. -/
theorem lt_hundred_of_isValid {d : Date} (h : d.isValid = true) : d.month < 100 ∧ d.day < 100 := by
  simp only [Date.isValid, Bool.and_eq_true, decide_eq_true_eq] at h
  have hlength : monthLength d.year d.month ≤ 31 := by
    rw [monthLength]
    split
    · split <;> omega
    · split <;> omega
  omega

/-- The characters of a written instant, field by field. -/
theorem toList_render (t : Instant) :
    (render "Z" t).toList = renderYear t.date.year ++ '-' :: (padded 2 t.date.month ++
      '-' :: (padded 2 t.date.day ++ 'T' :: (padded 2 t.hour ++ ':' :: (padded 2 t.minute ++
        ':' :: (padded 2 t.clockSecond ++ (renderFraction t.clockNano ++ ['Z'])))))) := by
  rw [render, String.toList_ofList]
  simp only [List.append_assoc, List.cons_append]
  rfl

/-- The days and the second of the day of an instant make up its seconds. -/
theorem second_eq (t : Instant) : t.date.toDays * 86400 + (t.secondOfDay : Int) = t.second := by
  rw [Instant.date, Date.toDays_ofDays, Instant.secondOfDay]
  omega

/-- The date of a written instant is scanned, and its clock is left. -/
theorem scanDate_toList (t : Instant) :
    scanDate (render "Z" t).toList = some (t.date, 'T' :: (padded 2 t.hour ++
      ':' :: (padded 2 t.minute ++ ':' :: (padded 2 t.clockSecond ++
        (renderFraction t.clockNano ++ ['Z']))))) := by
  obtain ⟨hmonth, hday⟩ := lt_hundred_of_isValid (Date.isValid_ofDays (t.second / 86400))
  rw [toList_render]
  exact scanDate_render hmonth hday rfl

/-- A written instant in the range of years reads back. -/
theorem parse?_render {t : Instant} (h : isYearInRange t.date.year = true) :
    parse? (render "Z" t) = some t := by
  have hvalid : t.date.isValid = true := Date.isValid_ofDays _
  have hsecond : t.date.toDays * 86400 + (t.secondOfDay : Int) - 0 = t.second :=
    (Int.sub_zero _).trans (second_eq t)
  have hinstant : Instant.ofSecond? t.second t.nano = some t :=
    dif_pos ⟨t.nano_lt, t.leap_ends_minute⟩
  rw [parse?, scanDate_toList]
  simp only [Option.bind_eq_bind, Option.bind_some, scanTime_render]
  have hzone : scanZone (trimStart ['Z']) = some (0, []) := rfl
  simp only [hzone, Option.bind_some, List.all_nil, hvalid, h, Bool.and_true, if_true, hsecond,
    hinstant]

/-- Instants of any year are told apart by their written forms. -/
theorem render_inj {t u : Instant} : render "Z" t = render "Z" u ↔ t = u := by
  constructor
  · intro h
    have hdates := scanDate_toList t
    rw [h, scanDate_toList, Option.some.injEq, Prod.mk.injEq, List.cons.injEq] at hdates
    obtain ⟨hdate, -, hclock⟩ := hdates
    have hclocks := scanTime_render t
    rw [← hclock, scanTime_render, Option.some.injEq, Prod.mk.injEq, Prod.mk.injEq] at hclocks
    obtain ⟨⟨hday, hnano⟩, -⟩ := hclocks
    have hsecond : t.second = u.second := by rw [← second_eq t, ← second_eq u, hdate, hday]
    cases t
    cases u
    cases hsecond
    cases hnano
    rfl
  · exact congrArg (render "Z")

end TypedModel.Time
