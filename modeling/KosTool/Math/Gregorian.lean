import Mathlib.Algebra.BigOperators.Group.Finset.Basic
import Mathlib.Algebra.BigOperators.Intervals

/-! # Counting through consecutive lengths, and the Gregorian calendar

A number is counted through a sequence of lengths by taking off one length after the other until the rest is shorter
than the next one. Years and the months of a year are such sequences, and a date is a day of a month of a year.
-/

namespace Gregorian

open Finset

section Lengths

variable {length : ℕ → ℕ} {first last rest other : ℕ}

/-- What the lengths from `first` up to before `last` make together. -/
def before (length : ℕ → ℕ) (first last : ℕ) : ℕ := ∑ k ∈ Ico first last, length k

@[simp] theorem before_self : before length first first = 0 := by
  rw [before, Ico_self, sum_empty]

theorem before_succ (ordered : first ≤ last) : before length first (last + 1) = before length first last + length last := by
  rw [before, sum_Ico_succ_top ordered, before]

theorem before_head (ordered : first < last) : before length first last = length first + before length (first + 1) last := by
  rw [before, sum_eq_sum_Ico_succ_bot ordered, before]

theorem before_le {later : ℕ} (ordered : first ≤ last) (further : last ≤ later) :
    before length first last ≤ before length first later := by
  induction later, further using Nat.le_induction with
  | base => exact le_rfl
  | succ later further ih =>
    rw [before_succ (by omega)]
    exact ih.trans (Nat.le_add_right _ _)

/-- The loop that takes off lengths: the place where it stops, and the rest. -/
def count (length : ℕ → ℕ) : ℕ → ℕ → ℕ → ℕ × ℕ
  | 0, place, left => (place, left)
  | fuel + 1, place, left =>
    if left < length place then (place, left) else count length fuel (place + 1) (left - length place)

/-- A number that ends in the length of a place is counted to that place. -/
theorem count_before {fuel : ℕ} (ordered : first ≤ last) (inside : rest < length last) (enough : last ≤ first + fuel) :
    count length fuel first (before length first last + rest) = (last, rest) := by
  induction fuel generalizing first with
  | zero =>
    obtain rfl : first = last := by omega
    rw [before_self, Nat.zero_add, count]
  | succ fuel ih =>
    rcases Nat.eq_or_lt_of_le ordered with rfl | earlier
    · rw [before_self, Nat.zero_add, count, if_pos inside]
    · have off : before length first last + rest - length first = before length (first + 1) last + rest := by
        rw [before_head earlier]
        omega
      have longer : ¬before length first last + rest < length first := by
        rw [before_head earlier]
        omega
      rw [count, if_neg longer, off, ih earlier (by omega)]

/-- Every number ends in the length of some place, up to what the lengths make together. -/
theorem exists_before {stop number : ℕ} (ordered : first ≤ stop) (bound : number < before length first stop) :
    ∃ last rest, first ≤ last ∧ last < stop ∧ rest < length last ∧ number = before length first last + rest := by
  induction stop, ordered using Nat.le_induction with
  | base => exact absurd bound (by rw [before_self]; exact Nat.not_lt_zero number)
  | succ stop ordered ih =>
    by_cases earlier : number < before length first stop
    · obtain ⟨last, rest, above, below, inside, split⟩ := ih earlier
      exact ⟨last, rest, above, Nat.lt_succ_of_lt below, inside, split⟩
    · rw [before_succ ordered] at bound
      exact ⟨stop, number - before length first stop, ordered, Nat.lt_succ_self stop, by omega, by omega⟩

/-- Lengths that are positive make at least their number. -/
theorem le_before (positive : ∀ k, 0 < length k) (ordered : first ≤ last) : last ≤ first + before length first last := by
  induction last, ordered using Nat.le_induction with
  | base => exact Nat.le_add_right first _
  | succ last ordered ih =>
    have some := positive last
    rw [before_succ ordered]
    omega

/-- A loop over the lengths adds them up. -/
theorem foldl_before (first count : ℕ) (start : ℕ) :
    (List.range' first count).foldl (fun sum k => sum + length k) start = start + before length first (first + count) := by
  induction count generalizing first start with
  | zero => rw [List.range'_zero, List.foldl_nil, Nat.add_zero, before_self, Nat.add_zero]
  | succ count ih =>
    rw [List.range'_succ, List.foldl_cons, ih, before_head (by omega : first < first + (count + 1)), Nat.add_assoc]
    congr 3
    omega

/-- Lengths that are numbered one higher are counted alike. -/
theorem count_shift {other : ℕ → ℕ} {fuel : ℕ} (same : ∀ k < fuel, other (first + 1 + k) = length (first + k)) (left : ℕ) :
    count other fuel (first + 1) left = ((count length fuel first left).1 + 1, (count length fuel first left).2) := by
  induction fuel generalizing first left with
  | zero => rfl
  | succ fuel ih =>
    have here : other (first + 1) = length first := same 0 (Nat.succ_pos fuel)
    rw [count, count, here]
    split_ifs with stops
    · rfl
    · apply ih
      intro k inside
      have later := same (k + 1) (Nat.succ_lt_succ inside)
      rwa [Nat.add_comm k, ← Nat.add_assoc, ← Nat.add_assoc] at later

end Lengths

/-- The leap years. -/
def leapYear (year : ℕ) : Bool := year % 4 = 0 ∧ (year % 100 ≠ 0 ∨ year % 400 = 0)

def yearLength (year : ℕ) : ℕ := if leapYear year then 366 else 365

/-- The length of a month of a year, January being month 0. -/
def monthLength (year month : ℕ) : ℕ :=
  [31, 28, 31, 30, 31, 30, 31, 31, 30, 31, 30, 31].getD month 0 + if month = 1 ∧ leapYear year then 1 else 0

/-- The months make up the year. -/
theorem before_monthLength (year : ℕ) : before (monthLength year) 0 12 = yearLength year := by
  unfold yearLength
  simp only [before, monthLength, Finset.sum_Ico_eq_sum_range, Finset.sum_range_succ, Finset.sum_range_zero]
  cases leapYear year <;> rfl

/-- No month has more than 31 days. -/
theorem monthLength_le (year month : ℕ) : monthLength year month ≤ 31 := by
  unfold monthLength
  match month with
  | 0 | 2 | 3 | 4 | 5 | 6 | 7 | 8 | 9 | 10 | 11 => simp
  | 1 => split_ifs <;> simp
  | month + 12 => simp

theorem yearLength_pos (year : ℕ) : 0 < yearLength year := by
  unfold yearLength
  split_ifs <;> decide

/-- The days of the years from 1970 on, by the rule of the leap years. -/
theorem before_yearLength {year : ℕ} (later : 1970 ≤ year) :
    before yearLength 1970 year + 719162 + (year - 1) / 100 = 365 * (year - 1) + (year - 1) / 4 + (year - 1) / 400 := by
  induction year, later using Nat.le_induction with
  | base => rw [before_self]
  | succ year later ih =>
    rw [before_succ later, yearLength, leapYear]
    split_ifs with leap
    · rw [decide_eq_true_eq] at leap
      omega
    · rw [decide_eq_true_eq] at leap
      omega

/-- A number of days is that of a day of a month of a year. -/
theorem exists_day {days stop : ℕ} (later : 1970 ≤ stop) (bound : days < before yearLength 1970 stop) :
    ∃ year rest month day, 1970 ≤ year ∧ year < stop ∧ rest < yearLength year ∧ days = before yearLength 1970 year + rest ∧
      month < 12 ∧ day < monthLength year month ∧ rest = before (monthLength year) 0 month + day := by
  obtain ⟨year, rest, since, until_, in_year, split⟩ := exists_before later bound
  obtain ⟨month, day, -, december, in_month, rest_eq⟩ : ∃ month day, 0 ≤ month ∧ month < 12 ∧ day < monthLength year month ∧
      rest = before (monthLength year) 0 month + day := by
    apply exists_before (Nat.zero_le 12)
    rw [before_monthLength]
    exact in_year
  exact ⟨year, rest, month, day, since, until_, in_year, split, december, in_month, rest_eq⟩

/-- A time of a day of a month of a year. Months and days are counted from one. -/
structure DateTime where
  year : ℕ
  month : ℕ
  day : ℕ
  hour : ℕ
  minute : ℕ
  second : ℕ
deriving DecidableEq, Repr

namespace DateTime

/-- The date exists, and the time is one of its day. -/
structure Exists (date : DateTime) : Prop where
  month : 1 ≤ date.month ∧ date.month ≤ 12
  day : 1 ≤ date.day ∧ date.day ≤ monthLength date.year (date.month - 1)
  hour : date.hour < 24
  minute : date.minute < 60
  second : date.second < 60

/-- The days from the first of January 1970 on. -/
def days (date : DateTime) : ℕ :=
  before yearLength 1970 date.year + before (monthLength date.year) 0 (date.month - 1) + (date.day - 1)

/-- The seconds from the first of January 1970 on. -/
def unixTime (date : DateTime) : ℕ := date.days * 86400 + date.hour * 3600 + date.minute * 60 + date.second

namespace Exists

variable {date other : DateTime}

/-- The day of the year. -/
theorem dayOfYear_lt (dates : date.Exists) :
    before (monthLength date.year) 0 (date.month - 1) + (date.day - 1) < yearLength date.year := by
  obtain ⟨first, last⟩ := dates.month
  obtain ⟨positive, in_month⟩ := dates.day
  have through := @before_le (monthLength date.year) _ _ _ (Nat.zero_le (date.month - 1 + 1)) (show _ ≤ 12 by omega)
  rw [before_succ (Nat.zero_le _), before_monthLength] at through
  omega

theorem unixTime_div (dates : date.Exists) : date.unixTime / 86400 = date.days := by
  have hour := dates.hour
  have minute := dates.minute
  have second := dates.second
  rw [unixTime]
  omega

/-- The days say the year. -/
theorem count_years {fuel : ℕ} (dates : date.Exists) (since : 1970 ≤ date.year) (enough : date.year ≤ 1970 + fuel) :
    count yearLength fuel 1970 date.days = (date.year, before (monthLength date.year) 0 (date.month - 1) + (date.day - 1)) := by
  rw [days, Nat.add_assoc]
  exact count_before since dates.dayOfYear_lt enough

/-- A time is that of one date. -/
theorem eq_of_unixTime (dates : date.Exists) (since : 1970 ≤ date.year) (others : other.Exists) (since' : 1970 ≤ other.year)
    (same : date.unixTime = other.unixTime) : date = other := by
  have day : date.days = other.days := by rw [← dates.unixTime_div, ← others.unixTime_div, same]
  have years : count yearLength (max date.year other.year) 1970 date.days = _ := dates.count_years since (by omega)
  rw [day, others.count_years since' (by omega), Prod.mk.injEq] at years
  obtain ⟨year, rest⟩ := years
  obtain ⟨first, last⟩ := dates.month
  obtain ⟨first', last'⟩ := others.month
  obtain ⟨positive, in_month⟩ := dates.day
  obtain ⟨positive', in_month'⟩ := others.day
  have months : count (monthLength date.year) 12 0 (before (monthLength date.year) 0 (date.month - 1) + (date.day - 1)) = _ :=
    count_before (Nat.zero_le (date.month - 1)) (by omega) (by omega)
  rw [← rest, ← year] at months
  rw [count_before (Nat.zero_le (other.month - 1)) (by omega) (by omega), Prod.mk.injEq] at months
  obtain ⟨month, day'⟩ := months
  have hour := dates.hour
  have minute := dates.minute
  have second := dates.second
  have hour' := others.hour
  have minute' := others.minute
  have second' := others.second
  rw [unixTime, unixTime, day] at same
  cases date
  cases other
  simp only [DateTime.mk.injEq]
  dsimp only at *
  omega

end Exists

end DateTime

end Gregorian
