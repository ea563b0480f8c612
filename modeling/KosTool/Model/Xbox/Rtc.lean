import KosTool.Math.ByteWord
import KosTool.Math.Gregorian

/-! # The clock of the Xbox

`client/xbox/rtc.c`: the calendar, the four encodings of the registers, and the two accesses with their wait for the end
of an update. The registers hold what is written to them; the index register is put back by every access and is left out.
-/

namespace KosTool.Xbox

open Gregorian (leapYear)

/-- `UIP_LIMIT_US` times `TSC_PER_US`. -/
abbrev uipLimit : ℕ := 10000 * 733

/-- The start value of `polls`. -/
abbrev uipPolls : ℕ := 2560000

/-- `enum xbox_clean_rtc_status`. -/
inductive RtcStatus where
  | ok
  | noShadow
  | uipTimeout
  | alreadyFrozen
deriving DecidableEq, Repr

/-- `struct rtc_fields`. -/
structure RtcFields where
  year : ℕ
  month : ℕ
  day : ℕ
  weekday : ℕ
  hour : ℕ
  minute : ℕ
  second : ℕ
deriving DecidableEq, Repr

/-- `month_days` with the leap day: a step of the loop over the months. -/
def monthDays (year month : ℕ) : ℕ :=
  [31, 28, 31, 30, 31, 30, 31, 31, 30, 31, 30, 31].getD month 0 + if month = 1 ∧ leapYear year then 1 else 0

/-- The loop over the years. A year takes off at least one day. -/
def yearLoop : ℕ → ℕ → ℕ → ℕ × ℕ
  | 0, year, remainingDays => (year, remainingDays)
  | fuel + 1, year, remainingDays =>
    let length := if leapYear year then 366 else 365
    if remainingDays < length then (year, remainingDays) else yearLoop fuel (year + 1) (remainingDays - length)

/-- The loop over the months, for so many months that are left of the twelve. -/
def monthLoop (year : ℕ) : ℕ → ℕ → ℕ → ℕ × ℕ
  | 0, month, remainingDays => (month, remainingDays)
  | left + 1, month, remainingDays =>
    let length := monthDays year month
    if remainingDays < length then (month, remainingDays) else monthLoop year left (month + 1) (remainingDays - length)

def convertTimestamp (timestamp : Word) : RtcFields :=
  let days := timestamp.toNat / 86400
  let dayRemainder := timestamp.toNat % 86400
  let years := yearLoop days 1970 days
  let months := monthLoop years.1 12 0 years.2
  { year := years.1 % 2 ^ 16
    month := (months.1 + 1) % 2 ^ 8
    day := (months.2 + 1) % 2 ^ 8
    weekday := (days + 4) % 7 + 1
    hour := dayRemainder / 3600 % 2 ^ 8
    minute := dayRemainder % 3600 / 60 % 2 ^ 8
    second := dayRemainder % 3600 % 60 % 2 ^ 8 }

/-- A digit takes four bits. -/
def encodeValue (value : ℕ) (binary : Bool) : Byte :=
  if binary then BitVec.ofNat 8 value else BitVec.ofNat 8 (value / 10 * 16 + value % 10)

def decodeValue (value : Byte) (binary : Bool) : ℕ :=
  if binary then value.toNat else value.toNat / 16 * 10 + value.toNat % 16

/-- The sums wrap as `uint32_t` does. -/
def makeTimestamp (value : RtcFields) : Word :=
  let years := (List.range' 1970 (value.year - 1970)).foldl (fun days year => days + if leapYear year then 366 else 365) 0
  let months := (List.range' 0 (min 12 (value.month - 1))).foldl (fun days month => days + monthDays value.year month) years
  (BitVec.ofNat 32 (months + value.day) - 1) * 86400 +
    BitVec.ofNat 32 (value.hour * 3600 + value.minute * 60 + value.second)

/-- The registers, and whether `xbox_clean_rtc_init` has run. -/
structure Rtc where
  regs : ℕ → Byte
  shadowValid : Bool
  lastStatus : RtcStatus

/-- What register A reads at each poll of a wait, and the time stamp counter before the wait and behind each poll. -/
structure UipReadings where
  regA : ℕ → Byte
  tsc : ℕ → BitVec 64

/-- The wait for the end of an update: whether it ends in time. -/
def UipReadings.ends (readings : UipReadings) : ℕ → ℕ → Bool
  | 0, _ => false
  | polls + 1, i =>
    if readings.regA i &&& 0x80 = 0 then true
    else if uipLimit ≤ (readings.tsc (i + 1) - readings.tsc 0).toNat ∨ polls = 0 then false
    else readings.ends polls (i + 1)

/-- `DM` and `24/12` of register B. -/
def isBinary (regB : Byte) : Bool := regB &&& 0x04 ≠ 0
def isHour24 (regB : Byte) : Bool := regB &&& 0x02 ≠ 0

/-- The byte of the hours. -/
def encodeHour (hour : ℕ) (binary hour24 : Bool) : Byte :=
  if hour24 then encodeValue hour binary
  else
    let hour12 := if hour % 12 = 0 then 12 else hour % 12
    if 12 ≤ hour then encodeValue hour12 binary ||| 0x80 else encodeValue hour12 binary

/-- The hours of a byte. -/
def decodeHour (rawHour : Byte) (binary hour24 : Bool) : ℕ :=
  if hour24 then decodeValue rawHour binary % 2 ^ 8
  else
    let hour12 := decodeValue (rawHour &&& 0x7f) binary
    let hour12 := if hour12 = 12 then 0 else hour12
    (if rawHour &&& 0x80 ≠ 0 then hour12 + 12 else hour12) % 2 ^ 8

namespace Rtc

/-- The registers are written one after the other, with updates stopped while they are. -/
def writeFields (rtc : Rtc) (value : RtcFields) : ℕ → Byte :=
  let savedB := rtc.regs 0x0b
  let binary := isBinary savedB
  let writes : List (ℕ × Byte) :=
    [(0x0b, savedB ||| 0x80), (0x00, encodeValue value.second binary), (0x02, encodeValue value.minute binary),
      (0x04, encodeHour value.hour binary (isHour24 savedB)), (0x06, encodeValue value.weekday binary),
      (0x07, encodeValue value.day binary), (0x08, encodeValue value.month binary),
      (0x09, encodeValue (value.year % 100) binary), (0x7f, encodeValue (value.year / 100) binary), (0x0b, savedB)]
  writes.foldl (fun regs write => Function.update regs write.1 write.2) rtc.regs

/-- `xbox_clean_set_rtc`. -/
def setRtc (rtc : Rtc) (readings : UipReadings) (unixTimestamp : Word) : Rtc :=
  if rtc.shadowValid = false then { rtc with lastStatus := .noShadow }
  else if readings.ends uipPolls 0 = false then { rtc with lastStatus := .uipTimeout }
  else if rtc.regs 0x0b &&& 0x80 ≠ 0 then { rtc with lastStatus := .alreadyFrozen }
  else { rtc with regs := rtc.writeFields (convertTimestamp unixTimestamp), lastStatus := .ok }

/-- What `xbox_clean_get_rtc` reads. -/
def readFields (rtc : Rtc) : RtcFields :=
  let binary := isBinary (rtc.regs 0x0b)
  { second := decodeValue (rtc.regs 0x00) binary % 2 ^ 8
    minute := decodeValue (rtc.regs 0x02) binary % 2 ^ 8
    weekday := decodeValue (rtc.regs 0x06) binary % 2 ^ 8
    day := decodeValue (rtc.regs 0x07) binary % 2 ^ 8
    month := decodeValue (rtc.regs 0x08) binary % 2 ^ 8
    year := (decodeValue (rtc.regs 0x7f) binary * 100 + decodeValue (rtc.regs 0x09) binary) % 2 ^ 16
    hour := decodeHour (rtc.regs 0x04) binary (isHour24 (rtc.regs 0x0b)) }

end Rtc

/-- The fields that are not rejected. -/
def RtcFields.isPlausible (value : RtcFields) : Bool :=
  !(value.year < 1970 || value.month < 1 || 12 < value.month || value.day < 1 || 31 < value.day || 23 < value.hour ||
    59 < value.minute || 59 < value.second)

/-- `xbox_clean_get_rtc`: what it returns, what it leaves in `*unix_timestamp`, and the clock behind it. -/
def Rtc.getRtc (rtc : Rtc) (readings : UipReadings) (unixTimestamp : Word) : ℤ × Word × Rtc :=
  if rtc.shadowValid = false then (-1, unixTimestamp, { rtc with lastStatus := .noShadow })
  else if readings.ends uipPolls 0 = false then (-1, unixTimestamp, { rtc with lastStatus := .uipTimeout })
  else if rtc.readFields.isPlausible = false then (-1, unixTimestamp, { rtc with lastStatus := .noShadow })
  else (0, makeTimestamp rtc.readFields, { rtc with lastStatus := .ok })

end KosTool.Xbox
