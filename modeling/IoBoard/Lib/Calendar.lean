import Mathlib.Algebra.BigOperators.Group.List.Basic
import Mathlib.Algebra.Order.Ring.Nat
import Mathlib.Tactic.Common

/-!
# The Calendar

Dates of the proleptic Gregorian calendar, and their numbers: the days since the first of January
of the year 1. A number is split into the cycles of 400, 100, 4 and 1 years as `ord2ymd` of
Python's `datetime` does it.

A cycle of 400 years has 146097 days, a century 36524, four years 1461 and a year 365, if the leap
day at the end of the longer cycle is left aside. So the splitting gives the year directly, except
for the last day of a leap year that ends a cycle: there the quotient is one too large, and the
day belongs to the year before. The number of days before a year is linear in the cycles, which is
what makes the proof arithmetic.

The month is found by going through the lengths of the months, and the day is what is left. That
the last number before the year 10000 is 3652058 is where Python's dates end.

## Main definitions

* `Date`: a date that exists.
* `Date.dayNumber`, `Date.ofDayNumber`: the number of a date, and the date of a number.

## Main results

* `Date.dayNumber_ofDayNumber`: **the date of a number has that number**.
* `daysBefore_yearOf`: a number lies in the year that the cycles find.
-/

namespace Calendar

/-- `is_leap(year)`. -/
def IsLeap (year : ℕ) : Prop :=
  year % 4 = 0 ∧ (year % 100 ≠ 0 ∨ year % 400 = 0)

instance (year : ℕ) : Decidable (IsLeap year) :=
  inferInstanceAs (Decidable (_ ∧ _))

/-- The lengths of the months, January first. -/
def monthLengths (year : ℕ) : List ℕ :=
  [31, if IsLeap year then 29 else 28, 31, 30, 31, 30, 31, 31, 30, 31, 30, 31]

/-- `days_before_year(year)`. -/
def daysBefore (year : ℕ) : ℕ :=
  (year - 1) * 365 + (year - 1) / 4 - (year - 1) / 100 + (year - 1) / 400

/-- A date, with the proof that the month has such a day. -/
structure Date where
  year : ℕ
  month : ℕ
  day : ℕ
  year_pos : 1 ≤ year
  month_pos : 1 ≤ month
  day_pos : 1 ≤ day
  day_le_length : day ≤ (monthLengths year).getD (month - 1) 0

/-- The date of a year, a month and a day, if there is one. -/
def Date.of? (year month day : ℕ) : Option Date :=
  if h : 1 ≤ year ∧ 1 ≤ month ∧ 1 ≤ day ∧ day ≤ (monthLengths year).getD (month - 1) 0 then
    some ⟨year, month, day, h.1, h.2.1, h.2.2.1, h.2.2.2⟩
  else none

theorem Date.of?_self (d : Date) : Date.of? d.year d.month d.day = some d :=
  dif_pos ⟨d.year_pos, d.month_pos, d.day_pos, d.day_le_length⟩

/-- The number of a date: `toordinal() - 1`. -/
def Date.dayNumber (d : Date) : ℕ :=
  daysBefore d.year + ((monthLengths d.year).take (d.month - 1)).sum + (d.day - 1)

/-- The year of a number, and the days of that year before it. The last day of a cycle is the
case that the quotients do not cover. -/
def yearOf (n : ℕ) : ℕ × ℕ :=
  let n400 := n / 146097
  let n := n % 146097
  let n100 := n / 36524
  let n := n % 36524
  let n4 := n / 1461
  let n := n % 1461
  let n1 := n / 365
  let n := n % 365
  let year := 400 * n400 + 100 * n100 + 4 * n4 + n1 + 1
  if n1 = 4 ∨ n100 = 4 then (year - 1, 365) else (year, n)

/-- The month, counted from 0, and the days of it that a number of days goes into. -/
def monthOf : List ℕ → ℕ → ℕ × ℕ
  | [], r => (0, r)
  | length :: lengths, r =>
      if r < length then (0, r)
      else
        let p := monthOf lengths (r - length)
        (p.1 + 1, p.2)

theorem sum_monthLengths (year : ℕ) :
    (monthLengths year).sum = if IsLeap year then 366 else 365 := by
  unfold monthLengths
  split_ifs <;> rfl

/-- The days before a year within its cycles. -/
theorem daysBefore_cycles {a b c d : ℕ} (hb : b ≤ 3) (hc : c ≤ 24) (hd : d ≤ 3) :
    daysBefore (400 * a + 100 * b + 4 * c + d + 1) =
      146097 * a + 36524 * b + 1461 * c + 365 * d := by
  unfold daysBefore
  omega

/-- The leap years within a cycle. -/
theorem isLeap_cycles {a b c d : ℕ} (hb : b ≤ 3) (hc : c ≤ 24) (hd : d ≤ 3) :
    IsLeap (400 * a + 100 * b + 4 * c + d + 1) ↔ d = 3 ∧ (c ≠ 24 ∨ b = 3) := by
  unfold IsLeap
  omega

/-- The cycles of a number. A day that ends a cycle belongs to the last year of it. -/
theorem exists_cycles (n : ℕ) : ∃ a b c d r, b ≤ 3 ∧ c ≤ 24 ∧ d ≤ 3 ∧
    n = 146097 * a + 36524 * b + 1461 * c + 365 * d + r ∧
    (r < 365 ∨ r = 365 ∧ d = 3 ∧ (c ≠ 24 ∨ b = 3)) ∧
    yearOf n = (400 * a + 100 * b + 4 * c + d + 1, r) := by
  unfold yearOf
  dsimp only
  by_cases h100 : n % 146097 / 36524 = 4
  · refine ⟨n / 146097, 3, 24, 3, 365, by decide, by decide, by decide, by omega,
      by omega, ?_⟩
    rw [if_pos (.inr h100), h100]
    refine Prod.ext ?_ rfl
    dsimp only
    omega
  by_cases h1 : n % 146097 % 36524 % 1461 / 365 = 4
  · refine ⟨n / 146097, n % 146097 / 36524, n % 146097 % 36524 / 1461, 3, 365, by omega, by omega,
      by decide, by omega, .inr ⟨rfl, rfl, .inl (by omega)⟩, ?_⟩
    rw [if_pos (.inl h1), h1]
    rfl
  · refine ⟨n / 146097, n % 146097 / 36524, n % 146097 % 36524 / 1461,
      n % 146097 % 36524 % 1461 / 365, n % 146097 % 36524 % 1461 % 365, by omega, by omega,
      by omega, by omega, .inl (Nat.mod_lt _ (by decide)), ?_⟩
    rw [if_neg (not_or.mpr ⟨h1, h100⟩)]

/-- **A number lies in the year** that the cycles find. -/
theorem daysBefore_yearOf (n : ℕ) :
    1 ≤ (yearOf n).1 ∧ daysBefore (yearOf n).1 + (yearOf n).2 = n ∧
      (yearOf n).2 < (monthLengths (yearOf n).1).sum := by
  obtain ⟨a, b, c, d, r, hb, hc, hd, hn, hr, hyear⟩ := exists_cycles n
  rw [hyear, sum_monthLengths, daysBefore_cycles hb hc hd]
  refine ⟨Nat.le_add_left 1 _, hn.symm, ?_⟩
  rcases hr with hr | ⟨rfl, hleap⟩
  · split_ifs <;> dsimp only <;> omega
  · rw [if_pos ((isLeap_cycles hb hc hd).mpr hleap)]
    exact Nat.lt_succ_self 365

/-- The month and the day of a number of days within some months. -/
theorem monthOf_spec {lengths : List ℕ} {r : ℕ} (h : r < lengths.sum) :
    ∃ length, lengths[(monthOf lengths r).1]? = some length ∧ (monthOf lengths r).2 < length ∧
      (lengths.take (monthOf lengths r).1).sum + (monthOf lengths r).2 = r := by
  induction lengths generalizing r with
  | nil => exact absurd h (Nat.not_lt_zero r)
  | cons length lengths ih =>
      rw [monthOf]
      split_ifs with hr
      · exact ⟨length, rfl, hr, Nat.zero_add r⟩
      · rw [List.sum_cons] at h
        obtain ⟨found, hget, hlt, hsum⟩ := ih (show r - length < lengths.sum by omega)
        refine ⟨found, hget, hlt, ?_⟩
        dsimp only
        rw [List.take_succ_cons, List.sum_cons]
        omega

/-- The date of a number. -/
def Date.ofDayNumber (n : ℕ) : Date where
  year := (yearOf n).1
  month := (monthOf (monthLengths (yearOf n).1) (yearOf n).2).1 + 1
  day := (monthOf (monthLengths (yearOf n).1) (yearOf n).2).2 + 1
  year_pos := (daysBefore_yearOf n).1
  month_pos := Nat.le_add_left 1 _
  day_pos := Nat.le_add_left 1 _
  day_le_length := by
    obtain ⟨length, hget, hlt, -⟩ := monthOf_spec (daysBefore_yearOf n).2.2
    rw [Nat.add_sub_cancel, List.getD_eq_getElem?_getD, hget]
    exact hlt

/-- **The date of a number has that number.** -/
theorem Date.dayNumber_ofDayNumber (n : ℕ) : (Date.ofDayNumber n).dayNumber = n := by
  obtain ⟨-, hdays, hlt⟩ := daysBefore_yearOf n
  obtain ⟨length, -, -, hsum⟩ := monthOf_spec hlt
  rw [dayNumber, ofDayNumber]
  dsimp only
  rw [Nat.add_sub_cancel, Nat.add_sub_cancel, Nat.add_assoc, hsum, hdays]

/-- The last number before the year 10000. -/
theorem Date.year_le {n : ℕ} (h : n < 3652059) : (Date.ofDayNumber n).year ≤ 9999 := by
  obtain ⟨-, hdays, -⟩ := daysBefore_yearOf n
  change (yearOf n).1 ≤ 9999
  by_contra hyear
  have hbefore : 3652059 ≤ daysBefore (yearOf n).1 := by
    unfold daysBefore
    omega
  omega

/-- There are twelve months. -/
theorem Date.month_le (d : Date) : d.month ≤ 12 := by
  have hle := Nat.le_trans d.day_pos d.day_le_length
  by_contra hmonth
  have hnone : (monthLengths d.year)[d.month - 1]? = none :=
    List.getElem?_eq_none (show 12 ≤ d.month - 1 by omega)
  rw [List.getD_eq_getElem?_getD, hnone] at hle
  exact absurd hle (by decide)

/-- No month has more than 31 days. -/
theorem Date.day_le (d : Date) : d.day ≤ 31 := by
  have hlt : d.month - 1 < (monthLengths d.year).length := by
    have htwelve : (monthLengths d.year).length = 12 := rfl
    have := d.month_le
    have := d.month_pos
    omega
  have hall : ∀ length ∈ monthLengths d.year, length ≤ 31 := by
    unfold monthLengths
    split_ifs <;> decide
  refine Nat.le_trans d.day_le_length ?_
  rw [List.getD_eq_getElem?_getD, List.getElem?_eq_getElem hlt, Option.getD_some]
  exact hall _ (List.getElem_mem hlt)

end Calendar
