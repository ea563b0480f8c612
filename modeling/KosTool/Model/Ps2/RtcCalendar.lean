import KosTool.Math.ByteWord
import KosTool.Math.Gregorian

/-! # The clock of the PlayStation 2

`client/playstation2/iop/smap_rtc_calendar.h` and the two accesses of `smap_irx.c` to the clock of the mechacon, which keeps
Japanese time in BCD with a year of two digits. What the calls of `cdvdman` return is a parameter.
-/

namespace KosTool.Ps2

open ByteWord Gregorian

/-- `SMAP_CDVD_RTC_JST_BIAS_SECS`. -/
abbrev smapCdvdRtcJstBiasSecs : ℕ := 9 * 60 * 60

/-- `enum ps2_smap_rc`, as far as the clock answers with it. -/
abbrev ps2SmapRcOk : ℤ := 0
abbrev ps2SmapRcBadLen : ℤ := -3
abbrev ps2SmapRcInternal : ℤ := -7

/-- `smap_cdvd_clock_t`. -/
structure SmapCdvdClock where
  stat : Byte
  second : Byte
  minute : Byte
  hour : Byte
  pad : Byte
  day : Byte
  month : Byte
  year : Byte
deriving DecidableEq, Repr

def smapBcdToInt (bcd : Byte) : ℤ :=
  let hi := ((bcd >>> 4) &&& 0x0F).toNat
  let lo := (bcd &&& 0x0F).toNat
  if 9 < hi ∨ 9 < lo then -1 else hi * 10 + lo

def smapIntToBcd (value : ℕ) : Byte := BitVec.ofNat 8 (((value / 10) <<< 4) ||| (value % 10))

def smapIsLeapYear (year : ℕ) : Bool :=
  if year % 4 ≠ 0 then false
  else if year % 100 ≠ 0 then true
  else year % 400 = 0

def smapDaysBeforeMonth (year month : ℕ) : ℕ :=
  if month = 0 ∨ 12 < month then 0
  else
    let total := [0, 31, 59, 90, 120, 151, 181, 212, 243, 273, 304, 334].getD (month - 1) 0
    if 2 < month ∧ smapIsLeapYear year then total + 1 else total

def smapDaysBeforeYear (year : ℕ) : ℕ :=
  (List.range' 1970 (year - 1970)).foldl (fun days y => days + if smapIsLeapYear y then 366 else 365) 0

/-- The arithmetic wraps as `unsigned int` does. -/
def smapDatetimeToUnix (year month day hour minute second : ℕ) : Word :=
  let days := BitVec.ofNat 32 (smapDaysBeforeYear year + smapDaysBeforeMonth year month) + (BitVec.ofNat 32 day - 1)
  ((days * 24 + BitVec.ofNat 32 hour) * 60 + BitVec.ofNat 32 minute) * 60 + BitVec.ofNat 32 second

/-- `smap_unix_to_datetime`: a year takes off at least one day, and the last month is not tested. -/
def smapUnixToDatetime (timestamp : Word) : DateTime :=
  let days := timestamp.toNat / 86400
  let rem := timestamp.toNat % 86400
  let years := count (fun y => if smapIsLeapYear y then 366 else 365) days 1970 days
  let months := count (fun m => smapDaysBeforeMonth years.1 (m + 1) - smapDaysBeforeMonth years.1 m) 11 1 years.2
  { year := years.1
    month := months.1
    day := months.2 + 1
    hour := rem / 3600
    minute := rem % 3600 / 60
    second := rem % 3600 % 60 }

/-- `smap_cdvd_read_rtc`, with what `iop_cd_read_clock` returns and leaves in `clock`: what it returns, and what it leaves in
`*timestamp`. -/
def smapCdvdReadRtc (got : ℤ) (clock : SmapCdvdClock) (timestamp : Word) : ℤ × Word :=
  if got ≤ 0 then (ps2SmapRcInternal, timestamp)
  else
    let sec := smapBcdToInt clock.second
    let min := smapBcdToInt clock.minute
    let hour := smapBcdToInt clock.hour
    let day := smapBcdToInt clock.day
    let month := smapBcdToInt clock.month
    let year := smapBcdToInt clock.year
    if sec < 0 ∨ 59 < sec ∨ min < 0 ∨ 59 < min ∨ hour < 0 ∨ 23 < hour ∨ day ≤ 0 ∨ 31 < day ∨ month ≤ 0 ∨ 12 < month ∨
        year < 0 then
      (ps2SmapRcInternal, timestamp)
    else
      let jstUnix := smapDatetimeToUnix (2000 + year.toNat) month.toNat day.toNat hour.toNat min.toNat sec.toNat
      (ps2SmapRcOk, jstUnix - BitVec.ofNat 32 smapCdvdRtcJstBiasSecs)

/-- The calendar that `smap_cdvd_write_rtc` writes. -/
def SmapCdvdClock.ofDatetime (date : DateTime) : SmapCdvdClock where
  stat := 0
  second := smapIntToBcd date.second
  minute := smapIntToBcd date.minute
  hour := smapIntToBcd date.hour
  pad := 0
  day := smapIntToBcd date.day
  month := smapIntToBcd date.month
  year := smapIntToBcd (date.year - 2000)

/-- `smap_cdvd_write_rtc`, with what `iop_cd_write_clock` returns: what it returns, and the calendar that it has written, if it
has come to that. -/
def smapCdvdWriteRtc (took : ℤ) (timestamp : Word) : ℤ × Option SmapCdvdClock :=
  let date := smapUnixToDatetime (timestamp + BitVec.ofNat 32 smapCdvdRtcJstBiasSecs)
  if date.year < 2000 ∨ 2099 < date.year then (ps2SmapRcBadLen, none)
  else if took ≤ 0 then (ps2SmapRcInternal, some (.ofDatetime date))
  else (ps2SmapRcOk, some (.ofDatetime date))

end KosTool.Ps2
