import KosTool.Machine.Run
import KosTool.Math.ByteWord

/-! # The clock of the PSP

`client/psp/target.c`: the ticks of the 32-bit `Count` of COP0 are made 64 bits wide by the wraps that two samples show, and the
wall clock is the time that the host has set and the ticks since then. Beside it runs what the clock stands for: the time that
was last set and the ticks that have really gone by.
-/

namespace KosTool.Psp

open ByteWord Machine

/-- `PSP_TICKS_PER_SEC`. -/
abbrev pspTicksPerSec : ℕ := 333000000

/-- `Count` and the variables of the clock. -/
structure PspClock where
  count : Word
  lastCount : Word
  countHi : Word
  rtcEpoch : Word
  rtcEpochTicks : BitVec 64
deriving DecidableEq, Repr

/-- A step of the loop takes a second off. -/
theorem toNat_sub_add_lt {now rtcEpochTicks : BitVec 64} (due : BitVec.ofNat 64 pspTicksPerSec ≤ now - rtcEpochTicks) :
    (now - (rtcEpochTicks + BitVec.ofNat 64 pspTicksPerSec)).toNat + pspTicksPerSec = (now - rtcEpochTicks).toNat := by
  rw [BitVec.le_def, BitVec.toNat_ofNat] at due
  rw [BitVec.toNat_sub, BitVec.toNat_add, BitVec.toNat_ofNat]
  rw [BitVec.toNat_sub] at due ⊢
  change 333000000 ≤ _ at due
  have range := now.isLt
  have range' := rtcEpochTicks.isLt
  change (2 ^ 64 - (_ + 333000000) % 2 ^ 64 + _) % 2 ^ 64 + 333000000 = _
  omega

/-- The loop of `psp_get_rtc` that steps the anchor a second at a time. -/
def stepAnchor (now rtcEpochTicks : BitVec 64) (rtcEpoch : Word) : BitVec 64 × Word :=
  if BitVec.ofNat 64 pspTicksPerSec ≤ now - rtcEpochTicks then
    stepAnchor now (rtcEpochTicks + BitVec.ofNat 64 pspTicksPerSec) (rtcEpoch + 1)
  else (rtcEpochTicks, rtcEpoch)
termination_by (now - rtcEpochTicks).toNat
decreasing_by
  have step := toNat_sub_add_lt ‹_›
  change _ + 333000000 = _ at step
  omega

namespace PspClock

/-- The state after a reset, with what `Count` is at. -/
def initial (count : Word) : PspClock where
  count := count
  lastCount := 0
  countHi := 0
  rtcEpoch := 0
  rtcEpochTicks := 0

/-- So many ticks go by. -/
def elapse (clock : PspClock) (gap : ℕ) : PspClock := { clock with count := clock.count + BitVec.ofNat 32 gap }

/-- `psp_get_ticks`. -/
def getTicks (clock : PspClock) : BitVec 64 × PspClock :=
  let c := clock.count
  let countHi := if c < clock.lastCount then clock.countHi + 1 else clock.countHi
  ((countHi.setWidth 64 <<< 32) ||| c.setWidth 64, { clock with lastCount := c, countHi := countHi })

/-- `psp_set_rtc`. -/
def setRtc (clock : PspClock) (unixTimestamp : Word) : PspClock :=
  let sampled := { clock with rtcEpoch := unixTimestamp }.getTicks
  { sampled.2 with rtcEpochTicks := sampled.1 }

/-- `psp_get_rtc`. -/
def getRtc (clock : PspClock) : Word × PspClock :=
  if clock.rtcEpoch = 0 then (0, clock)
  else
    let sampled := clock.getTicks
    let now := sampled.1
    let rtcEpochTicks := if now < sampled.2.rtcEpochTicks then now else sampled.2.rtcEpochTicks
    let stepped := stepAnchor now rtcEpochTicks sampled.2.rtcEpoch
    (stepped.2, { sampled.2 with rtcEpochTicks := stepped.1, rtcEpoch := stepped.2 })

/-- `psp_restart_timer`. -/
def restartTimer (clock : PspClock) : PspClock :=
  let told := clock.getRtc
  { told.2 with rtcEpoch := told.1, rtcEpochTicks := 0, count := 0, lastCount := 0, countHi := 0 }

end PspClock

/-- The time that was set last, 0 if none was, and the ticks since then. -/
structure WallClock where
  timestamp : Word
  ticks : ℕ
deriving DecidableEq, Repr

namespace WallClock

def elapse (wall : WallClock) (gap : ℕ) : WallClock := { wall with ticks := wall.ticks + gap }

/-- The time that is to be told: what was set and the whole seconds since then. -/
def tell (wall : WallClock) : ℕ := if wall.timestamp = 0 then 0 else wall.timestamp.toNat + wall.ticks / pspTicksPerSec

end WallClock

/-- The calls of the target that touch the clock. -/
inductive ClockCall where
  | setRtc (unixTimestamp : Word)
  | getRtc
  | getTicks
  | restartTimer
deriving DecidableEq, Repr

/-- So many ticks go by before a call. -/
structure ClockEvent where
  gap : ℕ
  call : ClockCall

/-- A call to the clock, and what it means for the time. -/
def clockStep (clock : PspClock) (wall : WallClock) : ClockCall → PspClock × WallClock
  | .setRtc unixTimestamp => (clock.setRtc unixTimestamp, ⟨unixTimestamp, 0⟩)
  | .getRtc => (clock.getRtc.2, wall)
  | .getTicks => (clock.getTicks.2, wall)
  | .restartTimer => (clock.restartTimer, wall)

/-- The clock and the time. -/
def pspClock : LabeledMachine (PspClock × WallClock) ClockEvent where
  step state event := some (clockStep (state.1.elapse event.gap) (state.2.elapse event.gap) event.call)

end KosTool.Psp
