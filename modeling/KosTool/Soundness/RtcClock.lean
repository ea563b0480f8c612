import KosTool.Model.Xbox.Rtc

/-! # The clock of the Xbox tells the time

A time that has been set is read back, in every mode of the chip. What is read is the time that the registers denote
exactly if no field passes the checks that does not belong to a date.
-/

namespace KosTool.Xbox

open Gregorian

section Calendar

variable {timestamp : Word} {value : RtcFields}

theorem yearLoop_eq (fuel year left : ℕ) : yearLoop fuel year left = count yearLength fuel year left := by
  induction fuel generalizing year left with
  | zero => rfl
  | succ fuel ih =>
    rw [yearLoop, count, ih]
    rfl

theorem monthLoop_eq (year fuel month left : ℕ) : monthLoop year fuel month left = count (monthLength year) fuel month left := by
  induction fuel generalizing month left with
  | zero => rfl
  | succ fuel ih =>
    rw [monthLoop, count, ih]
    rfl

/-- The date of the fields. -/
def RtcFields.date (value : RtcFields) : DateTime :=
  ⟨value.year, value.month, value.day, value.hour, value.minute, value.second⟩

/-- The fields of a time are those of a date at that time. -/
theorem convertTimestamp_date (timestamp : Word) :
    (convertTimestamp timestamp).date.Exists ∧ (convertTimestamp timestamp).date.unixTime = timestamp.toNat ∧
      1970 ≤ (convertTimestamp timestamp).year ∧ (convertTimestamp timestamp).year < 2107 ∧
      (convertTimestamp timestamp).weekday < 8 := by
  have range := timestamp.isLt
  obtain ⟨year, rest, month, day, since, until_, in_year, days, december, in_month, split⟩ :
      ∃ year rest month day, 1970 ≤ year ∧ year < 2107 ∧ rest < yearLength year ∧
        timestamp.toNat / 86400 = before yearLength 1970 year + rest ∧ month < 12 ∧ day < monthLength year month ∧
        rest = before (monthLength year) 0 month + day := by
    apply exists_day (by decide)
    have whole := before_yearLength (show 1970 ≤ 2107 by decide)
    omega
  have years : yearLoop (timestamp.toNat / 86400) 1970 (timestamp.toNat / 86400) = (year, rest) := by
    rw [yearLoop_eq, days]
    apply count_before since in_year
    have few := le_before yearLength_pos since
    omega
  have months : monthLoop year 12 0 rest = (month, day) := by
    rw [monthLoop_eq, split]
    exact count_before (Nat.zero_le month) in_month (by omega)
  have length := monthLength_le year month
  have same : (convertTimestamp timestamp).date = ⟨year, month + 1, day + 1, timestamp.toNat % 86400 / 3600,
      timestamp.toNat % 86400 % 3600 / 60, timestamp.toNat % 86400 % 3600 % 60⟩ := by
    simp only [convertTimestamp, RtcFields.date, years, months, DateTime.mk.injEq]
    omega
  have year_eq : (convertTimestamp timestamp).year = year := congrArg DateTime.year same
  refine ⟨?_, ?_, year_eq ▸ since, year_eq ▸ until_, ?_⟩
  · rw [same]
    exact
      { month := ⟨Nat.succ_pos month, december⟩
        day := ⟨Nat.succ_pos day, in_month⟩
        hour := by dsimp only; omega
        minute := by dsimp only; omega
        second := by dsimp only; omega }
  · rw [same, DateTime.unixTime, DateTime.days]
    dsimp only
    rw [Nat.add_sub_cancel, Nat.add_sub_cancel]
    omega
  · have weekday : (convertTimestamp timestamp).weekday = (timestamp.toNat / 86400 + 4) % 7 + 1 := rfl
    omega

/-- The time of the fields is that of their date. -/
theorem makeTimestamp_eq (since : 1970 ≤ value.year) (month : 1 ≤ value.month ∧ value.month ≤ 12) (day : 1 ≤ value.day) :
    makeTimestamp value = BitVec.ofNat 32 value.date.unixTime := by
  have years := @foldl_before yearLength 1970 (value.year - 1970) 0
  have months := @foldl_before (monthLength value.year) 0 (min 12 (value.month - 1)) (before yearLength 1970 value.year)
  rw [Nat.zero_add, Nat.add_sub_cancel' since] at years
  rw [Nat.zero_add, Nat.min_eq_right (by omega)] at months
  have days : BitVec.ofNat 32 (before yearLength 1970 value.year + before (monthLength value.year) 0 (value.month - 1) + value.day) - 1 =
      BitVec.ofNat 32 value.date.days := by
    obtain ⟨k, last⟩ := Nat.exists_eq_add_of_le' day
    rw [DateTime.days, RtcFields.date, last, Nat.add_sub_cancel, ← Nat.add_assoc, BitVec.ofNat_add _ 1]
    exact BitVec.add_sub_cancel _ 1#32
  have sums : makeTimestamp value = (BitVec.ofNat 32
      ((List.range' 0 (min 12 (value.month - 1))).foldl (fun sum k => sum + monthLength value.year k)
        ((List.range' 1970 (value.year - 1970)).foldl (fun sum k => sum + yearLength k) 0) + value.day) - 1) * 86400 +
      BitVec.ofNat 32 (value.hour * 3600 + value.minute * 60 + value.second) := rfl
  rw [Nat.min_eq_right (by omega : value.month - 1 ≤ 12)] at sums
  have time : value.date.unixTime = value.date.days * 86400 + (value.hour * 3600 + value.minute * 60 + value.second) := by
    rw [DateTime.unixTime, Nat.add_assoc, Nat.add_assoc, Nat.add_assoc]
    rfl
  rw [sums, years, months, days, time, BitVec.ofNat_add (value.date.days * 86400), BitVec.ofNat_mul]
  rfl

end Calendar

section Encoding

variable {binary hour24 : Bool} {number : ℕ}

/-- A number of two digits is read as it was written. -/
theorem decodeValue_encodeValue (small : number < 100) : decodeValue (encodeValue number binary) binary = number := by
  cases binary with
  | true =>
    change (BitVec.ofNat 8 number).toNat = number
    rw [BitVec.toNat_ofNat]
    omega
  | false =>
    change (BitVec.ofNat 8 (number / 10 * 16 + number % 10)).toNat / 16 * 10 +
      (BitVec.ofNat 8 (number / 10 * 16 + number % 10)).toNat % 16 = number
    rw [BitVec.toNat_ofNat]
    omega

/-- An hour is read as it was written, in either mode. -/
theorem decodeHour_encodeHour : ∀ hour < 24, ∀ binary hour24, decodeHour (encodeHour hour binary hour24) binary hour24 = hour := by
  decide

end Encoding

section Access

variable {rtc : Rtc} {readings : UipReadings} {value : RtcFields} {timestamp : Word}

theorem isPlausible_iff : value.isPlausible = true ↔ 1970 ≤ value.year ∧ (1 ≤ value.month ∧ value.month ≤ 12) ∧
    (1 ≤ value.day ∧ value.day ≤ 31) ∧ value.hour < 24 ∧ value.minute < 60 ∧ value.second < 60 := by
  unfold RtcFields.isPlausible
  simp only [Bool.not_eq_true', Bool.or_eq_false_iff, decide_eq_false_iff_not]
  omega

/-- Fields of two digits are read as they were written. -/
theorem readFields_writeFields (sound : value.isPlausible = true) (years : value.year < 10000) (days : value.weekday < 100) :
    Rtc.readFields { rtc with regs := rtc.writeFields value } = value := by
  obtain ⟨-, ⟨-, month⟩, ⟨-, day⟩, hour, minute, second⟩ := isPlausible_iff.mp sound
  have digits (number : ℕ) (small : number < 100) :
      decodeValue (encodeValue number (isBinary (rtc.regs 0x0b))) (isBinary (rtc.regs 0x0b)) = number := decodeValue_encodeValue small
  have hours := decodeHour_encodeHour value.hour hour (isBinary (rtc.regs 0x0b)) (isHour24 (rtc.regs 0x0b))
  have read : Rtc.readFields { rtc with regs := rtc.writeFields value } =
      { second := decodeValue (encodeValue value.second (isBinary (rtc.regs 0x0b))) (isBinary (rtc.regs 0x0b)) % 2 ^ 8
        minute := decodeValue (encodeValue value.minute (isBinary (rtc.regs 0x0b))) (isBinary (rtc.regs 0x0b)) % 2 ^ 8
        weekday := decodeValue (encodeValue value.weekday (isBinary (rtc.regs 0x0b))) (isBinary (rtc.regs 0x0b)) % 2 ^ 8
        day := decodeValue (encodeValue value.day (isBinary (rtc.regs 0x0b))) (isBinary (rtc.regs 0x0b)) % 2 ^ 8
        month := decodeValue (encodeValue value.month (isBinary (rtc.regs 0x0b))) (isBinary (rtc.regs 0x0b)) % 2 ^ 8
        year := (decodeValue (encodeValue (value.year / 100) (isBinary (rtc.regs 0x0b))) (isBinary (rtc.regs 0x0b)) * 100 +
          decodeValue (encodeValue (value.year % 100) (isBinary (rtc.regs 0x0b))) (isBinary (rtc.regs 0x0b))) % 2 ^ 16
        hour := decodeHour (encodeHour value.hour (isBinary (rtc.regs 0x0b)) (isHour24 (rtc.regs 0x0b)))
          (isBinary (rtc.regs 0x0b)) (isHour24 (rtc.regs 0x0b)) } := rfl
  rw [read, hours, digits value.second (by omega), digits value.minute (by omega), digits value.weekday days,
    digits value.day (by omega), digits value.month (by omega), digits (value.year / 100) (by omega),
    digits (value.year % 100) (by omega)]
  obtain ⟨year, month', day', weekday, hour', minute', second'⟩ := value
  simp only [RtcFields.mk.injEq, true_and]
  dsimp only at *
  omega

/-- The first reading that shows no update ends the wait. -/
theorem ends_of_clear (clear : readings.regA 0 &&& 0x80 = 0) (polls : ℕ) : readings.ends (polls + 1) 0 = true := if_pos clear

/-- A time that has been set is read. -/
theorem rtc_round_trip (rtc : Rtc) (setting reading : UipReadings) (timestamp other : Word)
    (set : (rtc.setRtc setting timestamp).lastStatus = .ok) (ready : reading.ends uipPolls 0 = true) :
    ((rtc.setRtc setting timestamp).getRtc reading other).1 = 0 ∧
      ((rtc.setRtc setting timestamp).getRtc reading other).2.1 = timestamp := by
  obtain ⟨dates, time, since, until_, weekday⟩ := convertTimestamp_date timestamp
  have sound : (convertTimestamp timestamp).isPlausible = true := by
    have length := monthLength_le (convertTimestamp timestamp).date.year ((convertTimestamp timestamp).date.month - 1)
    exact isPlausible_iff.mpr ⟨since, dates.month, ⟨dates.day.1, dates.day.2.trans length⟩, dates.hour, dates.minute, dates.second⟩
  have written : rtc.shadowValid = true ∧
      rtc.setRtc setting timestamp = { rtc with regs := rtc.writeFields (convertTimestamp timestamp), lastStatus := .ok } := by
    unfold Rtc.setRtc at set ⊢
    by_cases shadow : rtc.shadowValid = false
    · rw [if_pos shadow] at set
      nomatch set
    rw [if_neg shadow] at set ⊢
    by_cases wait : setting.ends uipPolls 0 = false
    · rw [if_pos wait] at set
      nomatch set
    rw [if_neg wait] at set ⊢
    by_cases frozen : rtc.regs 0x0b &&& 0x80 ≠ 0
    · rw [if_pos frozen] at set
      nomatch set
    · rw [if_neg frozen]
      exact ⟨Bool.eq_true_of_not_eq_false shadow, rfl⟩
  obtain ⟨shadow, written⟩ := written
  have read : (rtc.setRtc setting timestamp).readFields = convertTimestamp timestamp := by
    rw [written]
    exact readFields_writeFields sound (by omega) (by omega)
  have succeeds : (rtc.setRtc setting timestamp).getRtc reading other =
      (0, makeTimestamp (convertTimestamp timestamp), { rtc.setRtc setting timestamp with lastStatus := .ok }) := by
    rw [Rtc.getRtc, read, sound, ready, written, shadow]
    rfl
  rw [succeeds, makeTimestamp_eq since dates.month dates.day.1, time, BitVec.ofNat_toNat, BitVec.setWidth_eq]
  exact ⟨rfl, rfl⟩

/-- The clock is initialised, and no update runs. -/
def quietRtc : Rtc := ⟨fun _ => 0, true, .noShadow⟩
def quietReadings : UipReadings := ⟨fun _ => 0, fun _ => 0⟩

/-- The leap day of 2096, 12 at night, in BCD and in the mode of twelve hours. -/
theorem rtc_round_trip_leap_day :
    (quietRtc.setRtc quietReadings 3981312000).lastStatus = .ok ∧ quietReadings.ends uipPolls 0 = true ∧
      ((quietRtc.setRtc quietReadings 3981312000).getRtc quietReadings 0).1 = 0 ∧
      ((quietRtc.setRtc quietReadings 3981312000).getRtc quietReadings 0).2.1 = 3981312000 := by
  have waits : quietReadings.ends uipPolls 0 = true := ends_of_clear rfl _
  have set : (quietRtc.setRtc quietReadings 3981312000).lastStatus = .ok := by
    rw [Rtc.setRtc, waits]
    rfl
  exact ⟨set, waits, rtc_round_trip quietRtc quietReadings quietReadings 3981312000 0 set waits⟩

end Access

section Denotation

/-- A byte denotes a number: in BCD both of its digits are decimal. -/
def Denotes (byte : Byte) (binary : Bool) (number : ℕ) : Prop :=
  decodeValue byte binary = number ∧ (binary = false → byte.toNat / 16 < 10 ∧ byte.toNat % 16 < 10)

/-- A byte denotes an hour. In the mode of twelve hours they are counted from 1 to 12, with a bit for the afternoon. -/
def DenotesHour (byte : Byte) (binary hour24 : Bool) (hour : ℕ) : Prop :=
  if hour24 then Denotes byte binary hour
  else ∃ hour12, Denotes (byte &&& 0x7f) binary hour12 ∧ 1 ≤ hour12 ∧ hour12 ≤ 12 ∧
    hour = hour12 % 12 + if byte &&& 0x80 ≠ 0 then 12 else 0

/-- The registers denote a date and a time, with a year of a century and two digits. -/
structure Rtc.Shows (rtc : Rtc) (date : DateTime) : Prop where
  second : Denotes (rtc.regs 0x00) (isBinary (rtc.regs 0x0b)) date.second
  minute : Denotes (rtc.regs 0x02) (isBinary (rtc.regs 0x0b)) date.minute
  hour : DenotesHour (rtc.regs 0x04) (isBinary (rtc.regs 0x0b)) (isHour24 (rtc.regs 0x0b)) date.hour
  day : Denotes (rtc.regs 0x07) (isBinary (rtc.regs 0x0b)) date.day
  month : Denotes (rtc.regs 0x08) (isBinary (rtc.regs 0x0b)) date.month
  century : Denotes (rtc.regs 0x7f) (isBinary (rtc.regs 0x0b)) (date.year / 100)
  year : Denotes (rtc.regs 0x09) (isBinary (rtc.regs 0x0b)) (date.year % 100)

/-- What is read is right: it is reported exactly with the time of the date that the registers show, and otherwise the
output is not altered. -/
def Rtc.ReadsRight (rtc : Rtc) (readings : UipReadings) (unixTimestamp : Word) : Prop :=
  ((rtc.getRtc readings unixTimestamp).1 = 0 → ∃ date, rtc.Shows date ∧ date.Exists ∧ 1970 ≤ date.year ∧
      date.unixTime < 2 ^ 32 ∧ (rtc.getRtc readings unixTimestamp).2.1.toNat = date.unixTime) ∧
    ((rtc.getRtc readings unixTimestamp).1 ≠ 0 →
      (rtc.getRtc readings unixTimestamp).1 = -1 ∧ (rtc.getRtc readings unixTimestamp).2.1 = unixTimestamp)

/-- The fields are read: the clock is initialised, no update is waited for in vain, and no field is rejected. -/
def Rtc.Takes (rtc : Rtc) (readings : UipReadings) : Prop :=
  rtc.shadowValid = true ∧ readings.ends uipPolls 0 = true ∧ rtc.readFields.isPlausible = true

/-- What the checks of the fields leave open. -/
structure Rtc.WellFormed (rtc : Rtc) : Prop where
  /-- No digit is above nine, in BCD. -/
  digits : isBinary (rtc.regs 0x0b) = false → ∀ byte ∈ [rtc.regs 0x00, rtc.regs 0x02,
    if isHour24 (rtc.regs 0x0b) then rtc.regs 0x04 else rtc.regs 0x04 &&& 0x7f, rtc.regs 0x07, rtc.regs 0x08, rtc.regs 0x7f,
    rtc.regs 0x09], byte.toNat / 16 < 10 ∧ byte.toNat % 16 < 10
  /-- The year has two digits, in binary. -/
  year : decodeValue (rtc.regs 0x09) (isBinary (rtc.regs 0x0b)) < 100
  /-- The hours are counted from 1 to 12, in the mode of twelve hours. -/
  hour : isHour24 (rtc.regs 0x0b) = false → 1 ≤ decodeValue (rtc.regs 0x04 &&& 0x7f) (isBinary (rtc.regs 0x0b)) ∧
    decodeValue (rtc.regs 0x04 &&& 0x7f) (isBinary (rtc.regs 0x0b)) ≤ 12
  /-- The month has the day. -/
  day : rtc.readFields.day ≤ monthLength rtc.readFields.year (rtc.readFields.month - 1)
  /-- The time has 32 bits. -/
  time : rtc.readFields.date.unixTime < 2 ^ 32

variable {byte : Byte} {binary hour24 : Bool} {number : ℕ} {rtc : Rtc} {readings : UipReadings} {date : DateTime}
  {unixTimestamp : Word}

theorem decodeValue_lt (byte : Byte) (binary : Bool) : decodeValue byte binary < 256 := by
  have range := byte.isLt
  unfold decodeValue
  split_ifs <;> omega

theorem denotes_iff : Denotes byte binary number ↔
    number = decodeValue byte binary ∧ (binary = false → byte.toNat / 16 < 10 ∧ byte.toNat % 16 < 10) :=
  and_congr_left' eq_comm

/-- In the mode of twelve hours the bit of the afternoon adds twelve. -/
theorem decodeHour_twelve (inside : decodeValue (byte &&& 0x7f) binary ≤ 12) : decodeHour byte binary false =
    decodeValue (byte &&& 0x7f) binary % 12 + if byte &&& 0x80 ≠ 0 then 12 else 0 := by
  unfold decodeHour
  rw [if_neg Bool.false_ne_true]
  dsimp only
  split_ifs <;> omega

/-- A byte that denotes an hour is read as that hour. -/
theorem denotesHour_iff : DenotesHour byte binary hour24 number ↔
    number = decodeHour byte binary hour24 ∧
      (binary = false → (if hour24 then byte else byte &&& 0x7f).toNat / 16 < 10 ∧ (if hour24 then byte else byte &&& 0x7f).toNat % 16 < 10) ∧
      (hour24 = false → 1 ≤ decodeValue (byte &&& 0x7f) binary ∧ decodeValue (byte &&& 0x7f) binary ≤ 12) := by
  have range := decodeValue_lt byte binary
  cases hour24 with
  | true =>
    have read : decodeHour byte binary true = decodeValue byte binary := Nat.mod_eq_of_lt range
    rw [DenotesHour, if_pos rfl, denotes_iff, read, if_pos rfl]
    exact ⟨fun ⟨same, digits⟩ => ⟨same, digits, nofun⟩, fun ⟨same, digits, _⟩ => ⟨same, digits⟩⟩
  | false =>
    rw [DenotesHour, if_neg Bool.false_ne_true, if_neg Bool.false_ne_true]
    constructor
    · rintro ⟨hour12, shows, low, high, rfl⟩
      obtain ⟨rfl, digits⟩ := denotes_iff.mp shows
      exact ⟨(decodeHour_twelve high).symm, digits, fun _ => ⟨low, high⟩⟩
    · rintro ⟨rfl, digits, twelve⟩
      obtain ⟨low, high⟩ := twelve rfl
      exact ⟨_, denotes_iff.mpr ⟨rfl, digits⟩, low, high, decodeHour_twelve high⟩

/-- The registers that show a date are well formed but for its day, and are read as it. -/
theorem shows_iff : rtc.Shows date ↔ date = rtc.readFields.date ∧
    (isBinary (rtc.regs 0x0b) = false → ∀ byte ∈ [rtc.regs 0x00, rtc.regs 0x02,
      if isHour24 (rtc.regs 0x0b) then rtc.regs 0x04 else rtc.regs 0x04 &&& 0x7f, rtc.regs 0x07, rtc.regs 0x08, rtc.regs 0x7f,
      rtc.regs 0x09], byte.toNat / 16 < 10 ∧ byte.toNat % 16 < 10) ∧
    decodeValue (rtc.regs 0x09) (isBinary (rtc.regs 0x0b)) < 100 ∧
    (isHour24 (rtc.regs 0x0b) = false → 1 ≤ decodeValue (rtc.regs 0x04 &&& 0x7f) (isBinary (rtc.regs 0x0b)) ∧
      decodeValue (rtc.regs 0x04 &&& 0x7f) (isBinary (rtc.regs 0x0b)) ≤ 12) := by
  have second_lt := decodeValue_lt (rtc.regs 0x00) (isBinary (rtc.regs 0x0b))
  have minute_lt := decodeValue_lt (rtc.regs 0x02) (isBinary (rtc.regs 0x0b))
  have day_lt := decodeValue_lt (rtc.regs 0x07) (isBinary (rtc.regs 0x0b))
  have month_lt := decodeValue_lt (rtc.regs 0x08) (isBinary (rtc.regs 0x0b))
  have century_lt := decodeValue_lt (rtc.regs 0x7f) (isBinary (rtc.regs 0x0b))
  have year_lt := decodeValue_lt (rtc.regs 0x09) (isBinary (rtc.regs 0x0b))
  simp only [List.forall_mem_cons, List.not_mem_nil, false_imp_iff, forall_true_iff, and_true]
  obtain ⟨year, month, day, hour, minute, second⟩ := date
  simp only [RtcFields.date, Rtc.readFields, DateTime.mk.injEq]
  constructor
  · rintro ⟨second, minute, hour, day, month, century, two⟩
    simp only [denotes_iff, denotesHour_iff] at second minute hour day month century two
    refine ⟨⟨?_, ?_, ?_, hour.1, ?_, ?_⟩, fun bcd => ⟨second.2 bcd, minute.2 bcd, hour.2.1 bcd, day.2 bcd, month.2 bcd,
      century.2 bcd, two.2 bcd⟩, ?_, hour.2.2⟩ <;> omega
  · rintro ⟨⟨years, months, days, hours, minutes, seconds⟩, digits, two, twelve⟩
    rw [Nat.mod_eq_of_lt (by omega)] at years
    constructor
    all_goals simp only [denotes_iff, denotesHour_iff]
    · exact ⟨by omega, fun bcd => (digits bcd).1⟩
    · exact ⟨by omega, fun bcd => (digits bcd).2.1⟩
    · exact ⟨hours, fun bcd => (digits bcd).2.2.1, twelve⟩
    · exact ⟨by omega, fun bcd => (digits bcd).2.2.2.1⟩
    · exact ⟨by omega, fun bcd => (digits bcd).2.2.2.2.1⟩
    · exact ⟨by omega, fun bcd => (digits bcd).2.2.2.2.2.1⟩
    · exact ⟨by omega, fun bcd => (digits bcd).2.2.2.2.2.2⟩

theorem getRtc_takes (takes : rtc.Takes readings) : rtc.getRtc readings unixTimestamp =
    (0, makeTimestamp rtc.readFields, { rtc with lastStatus := .ok }) := by
  obtain ⟨shadow, wait, sound⟩ := takes
  rw [Rtc.getRtc, shadow, wait, sound]
  rfl

theorem getRtc_fails (refused : ¬rtc.Takes readings) : (rtc.getRtc readings unixTimestamp).1 = -1 ∧
    (rtc.getRtc readings unixTimestamp).2.1 = unixTimestamp := by
  unfold Rtc.getRtc
  split_ifs with shadow wait sound
  · exact ⟨rfl, rfl⟩
  · exact ⟨rfl, rfl⟩
  · exact ⟨rfl, rfl⟩
  · exact absurd ⟨Bool.eq_true_of_not_eq_false shadow, Bool.eq_true_of_not_eq_false wait,
      Bool.eq_true_of_not_eq_false sound⟩ refused

/-- What is read is right exactly if registers that pass the checks are well formed. -/
theorem rtc_reads_right_iff (rtc : Rtc) (readings : UipReadings) (unixTimestamp : Word) :
    rtc.ReadsRight readings unixTimestamp ↔ (rtc.Takes readings → rtc.WellFormed) := by
  by_cases takes : rtc.Takes readings
  · obtain ⟨since, month, day, hour, minute, second⟩ := isPlausible_iff.mp takes.2.2
    have value := makeTimestamp_eq since month day.1
    rw [Rtc.ReadsRight, getRtc_takes takes]
    constructor
    · rintro ⟨right, -⟩ -
      obtain ⟨date, shows, dates, -, time, -⟩ := right rfl
      obtain ⟨rfl, digits, two, twelve⟩ := shows_iff.mp shows
      exact ⟨digits, two, twelve, dates.day.2, time⟩
    · intro formed
      obtain ⟨digits, two, twelve, in_month, time⟩ := formed takes
      refine ⟨fun _ => ⟨rtc.readFields.date, shows_iff.mpr ⟨rfl, digits, two, twelve⟩,
        ⟨month, ⟨day.1, in_month⟩, hour, minute, second⟩, since, time, ?_⟩, fun other => absurd rfl other⟩
      dsimp only
      rw [value, BitVec.toNat_ofNat, Nat.mod_eq_of_lt time]
  · have fails := @getRtc_fails rtc readings unixTimestamp takes
    refine iff_of_true ⟨fun succeeds => ?_, fun _ => fails⟩ fun takes' => absurd takes' takes
    rw [fails.1] at succeeds
    exact absurd succeeds (by decide)

/-- The 31st of February 2000, in BCD and in the mode of 24 hours. -/
def februaryRtc : Rtc where
  regs := fun reg => if reg = 0x07 then 0x31 else if reg = 0x08 then 0x02 else if reg = 0x7f then 0x20 else if reg = 0x0b then 0x02 else 0
  shadowValid := true
  lastStatus := .noShadow

/-- It is read, though February has no such day. -/
theorem rtc_reads_february_31 : ¬februaryRtc.ReadsRight quietReadings 0 := by
  intro right
  have wait : quietReadings.ends uipPolls 0 = true := ends_of_clear rfl _
  have takes : februaryRtc.Takes quietReadings := ⟨rfl, wait, rfl⟩
  obtain ⟨date, shows, dates, -⟩ := right.1 (by rw [getRtc_takes takes])
  obtain ⟨rfl, -⟩ := shows_iff.mp shows
  exact absurd dates.day.2 (by decide)

end Denotation

end KosTool.Xbox
