import TypedModel.Time.Calendar

/-!
# Days and dates

Counting days to a date and back are inverse, and every count leads to a date that the calendar
has. The year within a cycle of 400 years is found from the day by one division, which the leap
days of the cycle would throw off were they not taken out first.
-/

namespace TypedModel.Time

/-- First day of a year within a cycle of 400 years. -/
def yearStart (year : Int) : Int := 365 * year + year / 4 - year / 100

/-- The century of a day in a cycle: its days lie in that century, the last of which has a leap
day more. -/
theorem century_bounds {day : Int} (h0 : 0 ≤ day) (h1 : day < 146097) :
    ∃ c, day / 36524 - day / 146096 = c ∧ 0 ≤ c ∧ c < 4 ∧ 36524 * c ≤ day ∧
      (c < 3 → day < 36524 * c + 36524) := by
  exact ⟨_, rfl, by omega, by omega, by omega, by omega⟩

/-- The year found for a day of a cycle is the one that the day lies in, and only a year that ends
with a leap day has a day 365. -/
theorem year_bounds {day year : Int} (h0 : 0 ≤ day) (h1 : day < 146097)
    (hyear : year = (day - day / 1460 + day / 36524 - day / 146096) / 365) :
    0 ≤ year ∧ year < 400 ∧ yearStart year ≤ day ∧ day ≤ yearStart year + 365 ∧
      (day = yearStart year + 365 →
        (year + 1) % 4 = 0 ∧ ((year + 1) % 100 ≠ 0 ∨ year = 399)) := by
  obtain ⟨c, hc, hc0, hc4, hlow, hhigh⟩ := century_bounds h0 h1
  have hq := Int.mul_ediv_add_emod day 1460
  have hr := Int.emod_nonneg day (show (1460 : Int) ≠ 0 by decide)
  have hr' := Int.emod_lt_of_pos day (show (0 : Int) < 1460 by decide)
  -- The four-year leap days before the day, and what is left in the year.
  generalize day % 1460 = r at *
  generalize day / 1460 = q at *
  have hsum : day - q + c < 365 * year + 365 := by omega
  have hsum' : 365 * year ≤ day - q + c := by omega
  clear hyear hc
  have hcentury : 100 * c ≤ year ∧ year < 100 * c + 100 := by
    obtain rfl | rfl | rfl | rfl : c = 0 ∨ c = 1 ∨ c = 2 ∨ c = 3 := by omega
    all_goals omega
  have hfour : year / 4 ≤ q ∧ q ≤ (year + 1) / 4 := by
    have hbelow : year < 4 * q + 4 := by omega
    have habove : 4 * q - 1 ≤ year := by omega
    omega
  have hhundred : year / 100 = c := by omega
  have hrange : 0 ≤ year ∧ year < 400 := by omega
  rw [yearStart, hhundred]
  refine ⟨hrange.1, hrange.2, by omega, by omega, fun hlast => ?_⟩
  have hleap : (year + 1) % 4 = 0 := by omega
  refine ⟨hleap, ?_⟩
  by_cases hend : (year + 1) % 100 = 0
  · have hyear : year = 100 * c + 99 := by omega
    right
    omega
  · exact Or.inl hend

/-- A date by the parts that count its days: a cycle, a year of the cycle, a month counted from
March, and the day of the year on which it falls. -/
def dateOf (cycle year month dayOfYear : Int) : Date :=
  let day := dayOfYear - (153 * month + 2) / 5 + 1
  let calendarMonth := if month < 10 then month + 3 else month - 9
  let calendarYear := year + cycle * 400
  ⟨if calendarMonth ≤ 2 then calendarYear + 1 else calendarYear, calendarMonth.toNat, day.toNat⟩

/-- A count of days is taken apart into the parts of its date. -/
theorem exists_ofDays_eq (days : Int) :
    ∃ cycle year month dayOfYear, Date.ofDays days = dateOf cycle year month dayOfYear ∧
      days + 719468 = cycle * 146097 + yearStart year + dayOfYear ∧
      (0 ≤ year ∧ year < 400) ∧ (0 ≤ month ∧ month ≤ 11) ∧
      month = (5 * dayOfYear + 2) / 153 ∧ (0 ≤ dayOfYear ∧ dayOfYear ≤ 365) ∧
      (dayOfYear = 365 → (year + 1) % 4 = 0 ∧ ((year + 1) % 100 ≠ 0 ∨ year = 399)) := by
  have hcycle := Int.mul_ediv_add_emod (days + 719468) 146097
  have h0 := Int.emod_nonneg (days + 719468) (show (146097 : Int) ≠ 0 by decide)
  have h1 := Int.emod_lt_of_pos (days + 719468) (show (0 : Int) < 146097 by decide)
  obtain ⟨hy0, hy1, hstart, hend, hleap⟩ := year_bounds h0 h1 rfl
  refine ⟨_, _, _, _, rfl, ?_, ⟨hy0, hy1⟩, ?_, rfl, ?_, fun hlast => hleap ?_⟩
  all_goals
    rw [yearStart] at *
    generalize (days + 719468) % 146097 = day at *
    generalize (day - day / 1460 + day / 36524 - day / 146096) / 365 = year at *
    omega

/-- The parts of a date count its days. -/
theorem toDays_dateOf {cycle year month dayOfYear : Int} (hy : 0 ≤ year ∧ year < 400)
    (hm : 0 ≤ month ∧ month ≤ 11) (hmonth : month = (5 * dayOfYear + 2) / 153) :
    (dateOf cycle year month dayOfYear).toDays =
      cycle * 146097 + yearStart year + dayOfYear - 719468 := by
  have hcycle : (year + cycle * 400) / 400 = cycle := by omega
  have hyear : (year + cycle * 400) % 400 = year := by omega
  have hday : ((dayOfYear - (153 * month + 2) / 5 + 1).toNat : Int) =
      dayOfYear - (153 * month + 2) / 5 + 1 := by omega
  by_cases hten : month < 10
  · have hshift : (((month + 3).toNat : Int) + 9) % 12 = month := by omega
    simp only [dateOf, Date.toDays, if_pos hten, hday, hshift]
    rw [if_neg (by omega), if_neg (by omega), hcycle, hyear, yearStart]
    omega
  · have hshift : (((month - 9).toNat : Int) + 9) % 12 = month := by omega
    simp only [dateOf, Date.toDays, if_neg hten, hday, hshift]
    rw [if_pos (by omega), if_pos (by omega), Int.add_sub_cancel, hcycle, hyear, yearStart]
    omega

/-- Counting days to a date and back gives the days. -/
theorem Date.toDays_ofDays (days : Int) : (Date.ofDays days).toDays = days := by
  obtain ⟨cycle, year, month, dayOfYear, hdate, hdays, hy, hm, hmonth, -, -⟩ :=
    exists_ofDays_eq days
  rw [hdate, toDays_dateOf hy hm hmonth]
  omega

/-- A count of days leads to a date of the calendar. -/
theorem Date.isValid_ofDays (days : Int) : (Date.ofDays days).isValid = true := by
  obtain ⟨cycle, year, month, dayOfYear, hdate, -, hy, hm, hmonth, hday, hleap⟩ :=
    exists_ofDays_eq days
  rw [hdate]
  by_cases hten : month < 10
  · simp only [dateOf, Date.isValid, if_pos hten, Bool.and_eq_true, decide_eq_true_eq]
    refine ⟨⟨⟨by omega, by omega⟩, by omega⟩, ?_⟩
    rw [monthLength, if_neg (by omega)]
    split <;> omega
  · simp only [dateOf, Date.isValid, if_neg hten, Bool.and_eq_true, decide_eq_true_eq]
    refine ⟨⟨⟨by omega, by omega⟩, by omega⟩, ?_⟩
    rw [if_pos (by omega)]
    rcases Int.lt_or_le month 11 with hjanuary | hfebruary
    · have hten : month = 10 := by omega
      rw [monthLength, if_neg (by omega), if_neg (by omega)]
      omega
    · have hlast : dayOfYear ≤ 364 ∨ isLeapYear (year + cycle * 400 + 1) = true := by
        rcases Int.lt_or_le dayOfYear 365 with hless | hend
        · left
          omega
        · obtain ⟨hfour, hhundred⟩ := hleap (by omega)
          right
          rw [isLeapYear, Bool.and_eq_true, Bool.or_eq_true, beq_iff_eq, bne_iff_ne, beq_iff_eq]
          omega
      have htwo : (month - 9).toNat = 2 := by omega
      rw [monthLength, if_pos htwo]
      rcases hlast with hless | hleap
      · split <;> omega
      · rw [if_pos hleap]
        omega

end TypedModel.Time
