import KosTool.Model.Ps2.RtcCalendar
import Mathlib.Tactic.IntervalCases

/-! # The clock of the PlayStation 2 tells the time

The calendar that is written is the Gregorian date of the time nine hours later, for every time whose date has a year that two
digits can tell, and it is read back as that time. The shift can wrap, but only to dates that are refused as the ones behind the
wrap are.
-/

namespace KosTool.Ps2

open ByteWord Gregorian

section Calendar

theorem smapIsLeapYear_eq (year : ℕ) : smapIsLeapYear year = leapYear year := by
  rw [smapIsLeapYear, leapYear]
  split_ifs <;> grind

/-- The table of the months holds what the months before make together. -/
theorem smapDaysBeforeMonth_eq {year month : ℕ} (inside : month < 12) :
    smapDaysBeforeMonth year (month + 1) = before (monthLength year) 0 month := by
  rw [smapDaysBeforeMonth, smapIsLeapYear_eq]
  simp only [before, monthLength, Finset.sum_Ico_eq_sum_range, Nat.sub_zero, Nat.zero_add]
  interval_cases month <;> cases leapYear year <;> simp [Finset.sum_range_succ]

theorem smapDaysBeforeYear_eq {year : ℕ} (since : 1970 ≤ year) : smapDaysBeforeYear year = before yearLength 1970 year := by
  have sum := @foldl_before yearLength 1970 (year - 1970) 0
  rw [Nat.zero_add, Nat.add_sub_cancel' since] at sum
  rw [← sum, smapDaysBeforeYear]
  simp only [smapIsLeapYear_eq]
  rfl

/-- The fields of a time are those of the date at that time. -/
theorem smapUnixToDatetime_date (timestamp : Word) : (smapUnixToDatetime timestamp).Exists ∧
    (smapUnixToDatetime timestamp).unixTime = timestamp.toNat ∧ 1970 ≤ (smapUnixToDatetime timestamp).year := by
  have range := timestamp.isLt
  obtain ⟨year, rest, month, day, since, until_, in_year, days, december, in_month, split⟩ :
      ∃ year rest month day, 1970 ≤ year ∧ year < 2107 ∧ rest < yearLength year ∧
        timestamp.toNat / 86400 = before yearLength 1970 year + rest ∧ month < 12 ∧ day < monthLength year month ∧
        rest = before (monthLength year) 0 month + day := by
    apply exists_day (by decide)
    have whole := before_yearLength (show 1970 ≤ 2107 by decide)
    omega
  have years : count (fun y => if smapIsLeapYear y then 366 else 365) (timestamp.toNat / 86400) 1970 (timestamp.toNat / 86400) =
      (year, rest) := by
    simp only [smapIsLeapYear_eq]
    rw [days]
    apply count_before since in_year
    have few := le_before yearLength_pos since
    omega
  have months : count (fun m => smapDaysBeforeMonth year (m + 1) - smapDaysBeforeMonth year m) 11 1 rest = (month + 1, day) := by
    have shifted := @count_shift (monthLength year) 0 (fun m => smapDaysBeforeMonth year (m + 1) - smapDaysBeforeMonth year m) 11
      (fun k inside => by
        rw [Nat.zero_add, Nat.add_comm 1, smapDaysBeforeMonth_eq (by omega), smapDaysBeforeMonth_eq (by omega),
          before_succ (Nat.zero_le k), Nat.add_sub_cancel_left, Nat.zero_add]) rest
    rw [split, count_before (Nat.zero_le month) in_month (by omega), ← split] at shifted
    exact shifted
  have same : smapUnixToDatetime timestamp = ⟨year, month + 1, day + 1, timestamp.toNat % 86400 / 3600,
      timestamp.toNat % 86400 % 3600 / 60, timestamp.toNat % 86400 % 3600 % 60⟩ := by
    simp only [smapUnixToDatetime, years, months]
  refine ⟨?_, ?_, ?_⟩
  · rw [same]
    exact
      { month := ⟨Nat.succ_pos month, december⟩
        day := ⟨Nat.succ_pos day, in_month⟩
        hour := by dsimp only; omega
        minute := by dsimp only; omega
        second := by dsimp only; omega }
  · rw [same, DateTime.unixTime, DateTime.days]
    dsimp only
    rw [Nat.add_sub_cancel, Nat.add_sub_cancel]
    omega
  · rw [same]
    exact since

/-- The time of the fields of a date is that of the date. -/
theorem smapDatetimeToUnix_eq {date : DateTime} (dates : date.Exists) (since : 1970 ≤ date.year) :
    smapDatetimeToUnix date.year date.month date.day date.hour date.minute date.second = BitVec.ofNat 32 date.unixTime := by
  obtain ⟨month, december⟩ := dates.month
  obtain ⟨day, -⟩ := dates.day
  obtain ⟨k, months⟩ := Nat.exists_eq_add_of_le' month
  obtain ⟨l, days⟩ := Nat.exists_eq_add_of_le' day
  have first : BitVec.ofNat 32 (l + 1) - 1 = BitVec.ofNat 32 l := by
    rw [BitVec.ofNat_add]
    exact BitVec.add_sub_cancel _ 1#32
  rw [smapDatetimeToUnix, DateTime.unixTime, DateTime.days, months, days, smapDaysBeforeYear_eq since,
    smapDaysBeforeMonth_eq (by omega), Nat.add_sub_cancel, Nat.add_sub_cancel, first, ← BitVec.ofNat_add]
  apply BitVec.eq_of_toNat_eq
  simp only [BitVec.toNat_add, BitVec.toNat_mul, BitVec.toNat_ofNat]
  generalize before yearLength 1970 date.year + before (monthLength date.year) 0 k + l = total
  change ((((total % 2 ^ 32 * 24 % 2 ^ 32 + date.hour % 2 ^ 32) % 2 ^ 32 * 60 % 2 ^ 32 + date.minute % 2 ^ 32) % 2 ^ 32 * 60 %
    2 ^ 32 + date.second % 2 ^ 32) % 2 ^ 32) = _
  omega

end Calendar

section Bcd

/-- A byte tells a number in two decimal digits. -/
def Bcd (byte : Byte) (number : ℕ) : Prop :=
  byte.toNat / 16 ≤ 9 ∧ byte.toNat % 16 ≤ 9 ∧ byte.toNat / 16 * 10 + byte.toNat % 16 = number

theorem bcd_smapIntToBcd : ∀ number < 100, Bcd (smapIntToBcd number) number := by
  unfold Bcd
  decide

/-- A number of two digits is read as it was written. -/
theorem smapBcdToInt_smapIntToBcd : ∀ number < 100, smapBcdToInt (smapIntToBcd number) = number := by
  decide

end Bcd

/-- The calendar tells a date of this century. -/
structure SmapCdvdClock.Shows (clock : SmapCdvdClock) (date : DateTime) : Prop where
  second : Bcd clock.second date.second
  minute : Bcd clock.minute date.minute
  hour : Bcd clock.hour date.hour
  day : Bcd clock.day date.day
  month : Bcd clock.month date.month
  year : Bcd clock.year (date.year - 2000)

/-- The date of a time nine hours later, computed without wrapping. -/
def JstDate (timestamp : Word) (date : DateTime) : Prop :=
  date.Exists ∧ 2000 ≤ date.year ∧ date.year ≤ 2099 ∧ date.unixTime = timestamp.toNat + 9 * 60 * 60

section Access

variable {date : DateTime} {timestamp : Word}

/-- The time of a year that two digits tell. -/
theorem unixTime_range (dates : date.Exists) (century : 2000 ≤ date.year ∧ date.year ≤ 2099) :
    946684800 ≤ date.unixTime ∧ date.unixTime < 4102444800 := by
  have in_year := dates.dayOfYear_lt
  have years := before_yearLength (show 1970 ≤ date.year by omega)
  have through := before_yearLength (show 1970 ≤ date.year + 1 by omega)
  rw [before_succ (by omega)] at through
  have hour := dates.hour
  have minute := dates.minute
  have second := dates.second
  rw [DateTime.unixTime, DateTime.days]
  omega

/-- The fields that are written are those of the date nine hours later, or there is no such date. -/
theorem jstDate_iff : JstDate timestamp date ↔
    date = smapUnixToDatetime (timestamp + BitVec.ofNat 32 smapCdvdRtcJstBiasSecs) ∧ 2000 ≤ date.year ∧ date.year ≤ 2099 := by
  obtain ⟨dates, time, since⟩ := smapUnixToDatetime_date (timestamp + BitVec.ofNat 32 smapCdvdRtcJstBiasSecs)
  have shifted : (timestamp + BitVec.ofNat 32 smapCdvdRtcJstBiasSecs).toNat = (timestamp.toNat + 32400) % 2 ^ 32 := by
    rw [BitVec.toNat_add]
    rfl
  rw [shifted] at time
  constructor
  · rintro ⟨exists_, first, last, jst⟩
    have range := unixTime_range exists_ ⟨first, last⟩
    refine ⟨?_, first, last⟩
    apply exists_.eq_of_unixTime (by omega) dates since
    omega
  · rintro ⟨rfl, first, last⟩
    have range := unixTime_range dates ⟨first, last⟩
    refine ⟨dates, first, last, ?_⟩
    omega

/-- The calendar of a date tells it. -/
theorem shows_ofDatetime (dates : date.Exists) (century : 2000 ≤ date.year ∧ date.year ≤ 2099) :
    (SmapCdvdClock.ofDatetime date).Shows date := by
  have hour := dates.hour
  have minute := dates.minute
  have second := dates.second
  have day : date.day < 100 := by
    have month := monthLength_le date.year (date.month - 1)
    have inside := dates.day
    omega
  have month := dates.month
  exact
    { second := bcd_smapIntToBcd _ (by omega)
      minute := bcd_smapIntToBcd _ (by omega)
      hour := bcd_smapIntToBcd _ (by omega)
      day := bcd_smapIntToBcd _ day
      month := bcd_smapIntToBcd _ (by omega)
      year := bcd_smapIntToBcd _ (by omega) }

/-- The calendar of a date is read as the time nine hours before it. -/
theorem smapCdvdReadRtc_ofDatetime (jst : JstDate timestamp date) {got : ℤ} (succeeds : 0 < got) (stale : Word) :
    smapCdvdReadRtc got (.ofDatetime date) stale = (ps2SmapRcOk, timestamp) := by
  obtain ⟨dates, first, last, time⟩ := jst
  have hour := dates.hour
  have minute := dates.minute
  have second := dates.second
  obtain ⟨month, december⟩ := dates.month
  obtain ⟨day, in_month⟩ := dates.day
  have thirty_one : date.day ≤ 31 := in_month.trans (monthLength_le _ _)
  have seconds := smapBcdToInt_smapIntToBcd date.second (by omega)
  have minutes := smapBcdToInt_smapIntToBcd date.minute (by omega)
  have hours := smapBcdToInt_smapIntToBcd date.hour (by omega)
  have days := smapBcdToInt_smapIntToBcd date.day (by omega)
  have months := smapBcdToInt_smapIntToBcd date.month (by omega)
  have years := smapBcdToInt_smapIntToBcd (date.year - 2000) (by omega)
  have jst_unix : smapDatetimeToUnix (2000 + (date.year - 2000)) date.month date.day date.hour date.minute date.second =
      timestamp + BitVec.ofNat 32 smapCdvdRtcJstBiasSecs := by
    rw [Nat.add_sub_cancel' first, smapDatetimeToUnix_eq dates (by omega), time, BitVec.ofNat_add, BitVec.ofNat_toNat,
      BitVec.setWidth_eq]
  have no_gap : ¬((date.second : ℤ) < 0 ∨ 59 < (date.second : ℤ) ∨ (date.minute : ℤ) < 0 ∨ 59 < (date.minute : ℤ) ∨
      (date.hour : ℤ) < 0 ∨ 23 < (date.hour : ℤ) ∨ (date.day : ℤ) ≤ 0 ∨ 31 < (date.day : ℤ) ∨ (date.month : ℤ) ≤ 0 ∨
      12 < (date.month : ℤ) ∨ ((date.year - 2000 : ℕ) : ℤ) < 0) := by
    omega
  rw [smapCdvdReadRtc, if_neg (not_le.mpr succeeds)]
  simp only [SmapCdvdClock.ofDatetime, seconds, minutes, hours, days, months, years]
  rw [if_neg no_gap]
  simp only [Int.toNat_natCast, jst_unix]
  rw [BitVec.add_sub_cancel]

end Access

/-- A time is accepted exactly if its date nine hours later is one of the years 2000 to 2099 and the mechacon takes it. What is
written then tells that date, and is read back as the time. -/
theorem smap_rtc_round_trip (took : ℤ) (timestamp : Word) :
    ((smapCdvdWriteRtc took timestamp).1 = ps2SmapRcOk ↔ (∃ date, JstDate timestamp date) ∧ 0 < took) ∧
    ((∃ clock, (smapCdvdWriteRtc took timestamp).2 = some clock) ↔ ∃ date, JstDate timestamp date) ∧
    ∀ clock, (smapCdvdWriteRtc took timestamp).2 = some clock →
      (∃ date, JstDate timestamp date ∧ clock.Shows date) ∧
      ∀ got stale, 0 < got → smapCdvdReadRtc got clock stale = (ps2SmapRcOk, timestamp) := by
  by_cases refused : (smapUnixToDatetime (timestamp + BitVec.ofNat 32 smapCdvdRtcJstBiasSecs)).year < 2000 ∨
      2099 < (smapUnixToDatetime (timestamp + BitVec.ofNat 32 smapCdvdRtcJstBiasSecs)).year
  · have none_such : ¬∃ date, JstDate timestamp date := by
      rintro ⟨date, jst⟩
      obtain ⟨rfl, first, last⟩ := jstDate_iff.mp jst
      omega
    rw [smapCdvdWriteRtc, if_pos refused]
    refine ⟨iff_of_false (by decide) fun accepted => none_such accepted.1, iff_of_false ?_ none_such, ?_⟩
    · rintro ⟨clock, written⟩
      cases written
    · rintro clock written
      cases written
  · have jst : JstDate timestamp _ := jstDate_iff.mpr ⟨rfl, by omega, by omega⟩
    have shows_ := shows_ofDatetime jst.1 ⟨jst.2.1, jst.2.2.1⟩
    have written : (smapCdvdWriteRtc took timestamp).2 =
        some (.ofDatetime (smapUnixToDatetime (timestamp + BitVec.ofNat 32 smapCdvdRtcJstBiasSecs))) := by
      rw [smapCdvdWriteRtc, if_neg refused]
      split_ifs <;> rfl
    refine ⟨?_, iff_of_true ⟨_, written⟩ ⟨_, jst⟩, ?_⟩
    · rw [smapCdvdWriteRtc, if_neg refused]
      split_ifs with fails
      · exact iff_of_false (by dsimp only; decide) fun accepted => absurd accepted.2 (by omega)
      · exact iff_of_true rfl ⟨⟨_, jst⟩, by omega⟩
    · intro clock same
      rw [written] at same
      cases same
      exact ⟨⟨_, jst, shows_⟩, fun got stale succeeds => smapCdvdReadRtc_ofDatetime jst succeeds stale⟩

end KosTool.Ps2
