import KosTool.Model.Psp.Clock

/-! # The clock of the PSP keeps the time between two samples of `Count`

A sample shows one wrap of `Count` at most, and a restart drops what has passed of the current second. Along a run in which no
sample is further than a wrap behind the one before it and no restart is in the midst of a second, the anchor and the ticks
since it are the time that was set and the ticks since then.
-/

namespace KosTool.Psp

open ByteWord Machine

namespace PspClock

variable {clock : PspClock} {gap : ℕ}

/-- The ticks at the last sample. -/
def now (clock : PspClock) : ℕ := clock.countHi.toNat * 2 ^ 32 + clock.lastCount.toNat

theorem toNat_getTicks : clock.getTicks.1.toNat = clock.getTicks.2.now := by
  have high (hi c : Word) : ((hi.setWidth 64 <<< 32) ||| c.setWidth 64).toNat = hi.toNat * 2 ^ 32 + c.toNat := by
    have hi_lt := hi.isLt
    have c_lt := c.isLt
    rw [BitVec.toNat_or, BitVec.toNat_shiftLeft, BitVec.toNat_setWidth, BitVec.toNat_setWidth, Nat.shiftLeft_eq,
      Nat.mod_eq_of_lt (by omega : hi.toNat < 2 ^ 64), Nat.mod_eq_of_lt (by omega : c.toNat < 2 ^ 64),
      Nat.mod_eq_of_lt (by omega : hi.toNat * 2 ^ 32 < 2 ^ 64), ← Nat.shiftLeft_eq, ← Nat.shiftLeft_add_eq_or_of_lt c_lt]
  exact high _ _

/-- A sample less than a wrap behind the one before shows the ticks between them. -/
theorem now_getTicks (sampled : clock.count = clock.lastCount) (near : gap < 2 ^ 32) (fits : clock.now + gap < 2 ^ 64) :
    (clock.elapse gap).getTicks.2.now = clock.now + gap := by
  have last := clock.lastCount.isLt
  have high := clock.countHi.isLt
  have count : (clock.count + BitVec.ofNat 32 gap).toNat = (clock.lastCount.toNat + gap) % 2 ^ 32 := by
    rw [BitVec.toNat_add, BitVec.toNat_ofNat, sampled, Nat.add_mod_mod]
  unfold now at fits ⊢
  simp only [getTicks, elapse, BitVec.lt_def, count]
  split_ifs with wrapped
  · rw [BitVec.toNat_add]
    change (_ + 1) % 2 ^ 32 * 2 ^ 32 + _ = _
    omega
  · omega

/-- The other fields of a sample. -/
theorem getTicks_fields : clock.getTicks.2.count = clock.count ∧ clock.getTicks.2.lastCount = clock.count ∧
    clock.getTicks.2.rtcEpoch = clock.rtcEpoch ∧ clock.getTicks.2.rtcEpochTicks = clock.rtcEpochTicks :=
  ⟨rfl, rfl, rfl, rfl⟩

end PspClock

/-- The loop of the anchor takes off the whole seconds. -/
theorem stepAnchor_eq {now rtcEpochTicks : BitVec 64} {rtcEpoch : Word} (behind : rtcEpochTicks.toNat ≤ now.toNat)
    (fits : rtcEpoch.toNat + (now.toNat - rtcEpochTicks.toNat) / pspTicksPerSec < 2 ^ 32) :
    (stepAnchor now rtcEpochTicks rtcEpoch).2.toNat = rtcEpoch.toNat + (now.toNat - rtcEpochTicks.toNat) / pspTicksPerSec ∧
    (stepAnchor now rtcEpochTicks rtcEpoch).1.toNat + (now.toNat - rtcEpochTicks.toNat) % pspTicksPerSec = now.toNat := by
  have range := now.isLt
  have distance : (now - rtcEpochTicks).toNat = now.toNat - rtcEpochTicks.toNat := BitVec.toNat_sub_of_le behind
  change _ + _ / 333000000 < 2 ^ 32 at fits
  change _ = _ + _ / 333000000 ∧ _ + _ % 333000000 = _
  induction rtcEpochTicks, rtcEpoch using stepAnchor.induct now with
  | case1 rtcEpochTicks rtcEpoch due ih =>
    rw [stepAnchor, if_pos due]
    rw [BitVec.le_def, distance] at due
    change 333000000 ≤ _ at due
    have anchor : (rtcEpochTicks + BitVec.ofNat 64 pspTicksPerSec).toNat = rtcEpochTicks.toNat + 333000000 := by
      rw [BitVec.toNat_add, BitVec.toNat_ofNat]
      simp only [pspTicksPerSec]
      omega
    have epoch : (rtcEpoch + 1).toNat = rtcEpoch.toNat + 1 := by
      rw [BitVec.toNat_add]
      change (_ + 1) % 2 ^ 32 = _
      omega
    have left : (now - (rtcEpochTicks + BitVec.ofNat 64 pspTicksPerSec)).toNat =
        now.toNat - (rtcEpochTicks + BitVec.ofNat 64 pspTicksPerSec).toNat :=
      BitVec.toNat_sub_of_le (BitVec.le_def.mpr (by omega))
    have later := ih (by omega) left
    rw [anchor, epoch] at later
    omega
  | case2 rtcEpochTicks rtcEpoch early =>
    rw [stepAnchor, if_neg early]
    rw [BitVec.le_def, distance] at early
    change ¬ 333000000 ≤ _ at early
    dsimp only
    omega

/-- The clock agrees with the time: the anchor and the ticks since then are the time that was set and the ticks since then. -/
structure Agrees (clock : PspClock) (wall : WallClock) : Prop where
  unset : wall.timestamp = 0 → clock.rtcEpoch = 0
  sampled : wall.timestamp ≠ 0 → clock.count = clock.lastCount
  later : wall.timestamp ≠ 0 → wall.timestamp.toNat ≤ clock.rtcEpoch.toNat
  behind : wall.timestamp ≠ 0 → clock.rtcEpochTicks.toNat ≤ clock.now
  ticks : wall.timestamp ≠ 0 → clock.rtcEpoch.toNat * pspTicksPerSec + (clock.now - clock.rtcEpochTicks.toNat) =
    wall.timestamp.toNat * pspTicksPerSec + wall.ticks

/-- A step leaves the clock in agreement. A time that is set anew does; another call does, once a time is set, if it comes less
than a wrap of `Count` behind the one before, if the ticks still fit 64 bits and the time that it looks at fits 32, and if it is
no restart in the midst of a second. -/
def Keeps (state : PspClock × WallClock) (event : ClockEvent) : Prop :=
  match event.call with
  | .setRtc _ => True
  | .getTicks => state.2.timestamp ≠ 0 → event.gap < 2 ^ 32 ∧ state.1.now + event.gap < 2 ^ 64
  | .getRtc => state.2.timestamp ≠ 0 → event.gap < 2 ^ 32 ∧ state.1.now + event.gap < 2 ^ 64 ∧
      (state.2.elapse event.gap).tell < 2 ^ 32
  | .restartTimer => state.2.timestamp ≠ 0 → event.gap < 2 ^ 32 ∧ state.1.now + event.gap < 2 ^ 64 ∧
      (state.2.elapse event.gap).tell < 2 ^ 32 ∧ (state.2.ticks + event.gap) % pspTicksPerSec = 0

instance (state : PspClock × WallClock) : ∀ event, Decidable (Keeps state event)
  | ⟨_, .setRtc _⟩ => inferInstanceAs (Decidable True)
  | ⟨_, .getTicks⟩ => inferInstanceAs (Decidable (_ → _))
  | ⟨_, .getRtc⟩ => inferInstanceAs (Decidable (_ → _))
  | ⟨_, .restartTimer⟩ => inferInstanceAs (Decidable (_ → _))

section Step

variable {clock : PspClock} {wall : WallClock} {gap : ℕ}

/-- Setting the time anchors it. -/
theorem agrees_setRtc (clock : PspClock) (unixTimestamp : Word) : Agrees (clock.setRtc unixTimestamp) ⟨unixTimestamp, 0⟩ := by
  have now : (clock.setRtc unixTimestamp).now = (clock.setRtc unixTimestamp).rtcEpochTicks.toNat :=
    PspClock.toNat_getTicks.symm
  have epoch : (clock.setRtc unixTimestamp).rtcEpoch = unixTimestamp := rfl
  constructor
  · exact id
  · exact fun _ => rfl
  · exact fun _ => le_of_eq (congrArg BitVec.toNat epoch.symm)
  · exact fun _ => now.ge
  · intro _
    rw [now, epoch, Nat.sub_self]

/-- A sample keeps the agreement. -/
theorem agrees_getTicks (agrees : Agrees clock wall)
    (near : wall.timestamp ≠ 0 → gap < 2 ^ 32 ∧ clock.now + gap < 2 ^ 64) :
    Agrees (clock.elapse gap).getTicks.2 (wall.elapse gap) := by
  constructor
  · exact agrees.unset
  · exact fun _ => rfl
  · exact agrees.later
  · intro set
    obtain ⟨close, fits⟩ := near set
    have behind := agrees.behind set
    rw [PspClock.now_getTicks (agrees.sampled set) close fits]
    change clock.rtcEpochTicks.toNat ≤ _
    omega
  · intro set
    obtain ⟨close, fits⟩ := near set
    have behind := agrees.behind set
    have ticks := agrees.ticks set
    rw [PspClock.now_getTicks (agrees.sampled set) close fits]
    change clock.rtcEpoch.toNat * 333000000 + (_ - clock.rtcEpochTicks.toNat) = wall.timestamp.toNat * 333000000 + (wall.ticks + gap)
    change clock.rtcEpoch.toNat * 333000000 + (_ - clock.rtcEpochTicks.toNat) = wall.timestamp.toNat * 333000000 + wall.ticks at ticks
    omega

/-- What `psp_get_rtc` returns is the time, and it keeps the agreement, with less than a second behind the anchor. -/
theorem agrees_getRtc (agrees : Agrees clock wall)
    (near : wall.timestamp ≠ 0 → gap < 2 ^ 32 ∧ clock.now + gap < 2 ^ 64 ∧ (wall.elapse gap).tell < 2 ^ 32) :
    (clock.elapse gap).getRtc.1.toNat = (wall.elapse gap).tell ∧
    Agrees (clock.elapse gap).getRtc.2 (wall.elapse gap) ∧
    (wall.timestamp ≠ 0 → (clock.elapse gap).getRtc.2.now - (clock.elapse gap).getRtc.2.rtcEpochTicks.toNat < pspTicksPerSec) := by
  by_cases set : wall.timestamp = 0
  · have zero : (clock.elapse gap).rtcEpoch = 0 := agrees.unset set
    rw [PspClock.getRtc, if_pos zero]
    refine ⟨?_, ?_, fun other => absurd set other⟩
    · rw [WallClock.tell, if_pos (show (wall.elapse gap).timestamp = 0 from set)]
      rfl
    · exact
        { unset := fun _ => zero
          sampled := fun other => absurd set other
          later := fun other => absurd set other
          behind := fun other => absurd set other
          ticks := fun other => absurd set other }
  · obtain ⟨close, fits, told⟩ := near set
    have sample := agrees_getTicks agrees fun _ => ⟨close, fits⟩
    have now := @PspClock.toNat_getTicks (clock.elapse gap)
    have behind := sample.behind set
    have ticks := sample.ticks set
    have later := sample.later set
    rw [← now] at behind ticks
    have nonzero : ¬(clock.elapse gap).rtcEpoch = 0 := by
      intro zero
      apply set
      apply BitVec.eq_of_toNat_eq
      change wall.timestamp.toNat ≤ (clock.elapse gap).rtcEpoch.toNat at later
      rw [zero] at later
      exact Nat.le_zero.mp later
    have forward : ¬(clock.elapse gap).getTicks.1 < (clock.elapse gap).getTicks.2.rtcEpochTicks := not_lt.mpr behind
    have read : (clock.elapse gap).getRtc = ((stepAnchor (clock.elapse gap).getTicks.1 clock.rtcEpochTicks clock.rtcEpoch).2,
        { (clock.elapse gap).getTicks.2 with
          rtcEpochTicks := (stepAnchor (clock.elapse gap).getTicks.1 clock.rtcEpochTicks clock.rtcEpoch).1
          rtcEpoch := (stepAnchor (clock.elapse gap).getTicks.1 clock.rtcEpochTicks clock.rtcEpoch).2 }) := by
      rw [PspClock.getRtc, if_neg nonzero]
      dsimp only
      rw [if_neg forward]
      rfl
    change clock.rtcEpochTicks.toNat ≤ _ at behind
    change clock.rtcEpoch.toNat * 333000000 + (_ - clock.rtcEpochTicks.toNat) =
      wall.timestamp.toNat * 333000000 + (wall.ticks + gap) at ticks
    change _ ≤ clock.rtcEpoch.toNat at later
    rw [WallClock.tell, if_neg (show ¬(wall.elapse gap).timestamp = 0 from set)] at told ⊢
    change wall.timestamp.toNat + (wall.ticks + gap) / 333000000 < _ at told
    obtain ⟨epoch, anchor⟩ := @stepAnchor_eq _ _ clock.rtcEpoch behind (by
      change _ + _ / 333000000 < _
      omega)
    change _ = _ + _ / 333000000 at epoch
    change _ + _ % 333000000 = _ at anchor
    rw [read]
    dsimp only
    have sampled : PspClock.now { (clock.elapse gap).getTicks.2 with
          rtcEpochTicks := (stepAnchor (clock.elapse gap).getTicks.1 clock.rtcEpochTicks clock.rtcEpoch).1
          rtcEpoch := (stepAnchor (clock.elapse gap).getTicks.1 clock.rtcEpochTicks clock.rtcEpoch).2 } =
        (clock.elapse gap).getTicks.1.toNat := now.symm
    rw [sampled]
    refine ⟨?_, ?_, fun _ => ?_⟩
    · change _ = wall.timestamp.toNat + (wall.ticks + gap) / 333000000
      omega
    · constructor
      · exact fun other => absurd other set
      · exact fun _ => rfl
      · intro _
        change wall.timestamp.toNat ≤ _
        dsimp only
        omega
      · intro _
        rw [sampled]
        dsimp only
        omega
      · intro _
        rw [sampled]
        have rest : (clock.elapse gap).getTicks.1.toNat -
            (stepAnchor (clock.elapse gap).getTicks.1 clock.rtcEpochTicks clock.rtcEpoch).1.toNat =
            ((clock.elapse gap).getTicks.1.toNat - clock.rtcEpochTicks.toNat) % 333000000 := by
          omega
        simp only [pspTicksPerSec, WallClock.elapse]
        rw [epoch, rest, ← ticks, Nat.add_mul, Nat.add_assoc, Nat.div_add_mod']
    · simp only [pspTicksPerSec]
      omega

/-- What `psp_get_rtc` returns is the anchor. -/
theorem getRtc_eq (clock : PspClock) : clock.getRtc.1 = clock.getRtc.2.rtcEpoch := by
  rw [PspClock.getRtc]
  split_ifs with unset
  · exact unset.symm
  · rfl

/-- A restart at a whole second keeps the agreement. -/
theorem agrees_restartTimer (agrees : Agrees clock wall)
    (near : wall.timestamp ≠ 0 → gap < 2 ^ 32 ∧ clock.now + gap < 2 ^ 64 ∧ (wall.elapse gap).tell < 2 ^ 32 ∧
      (wall.ticks + gap) % pspTicksPerSec = 0) : Agrees (clock.elapse gap).restartTimer (wall.elapse gap) := by
  have told (set : wall.timestamp ≠ 0) : gap < 2 ^ 32 ∧ clock.now + gap < 2 ^ 64 ∧ (wall.elapse gap).tell < 2 ^ 32 := by
    obtain ⟨close, fits, small, -⟩ := near set
    exact ⟨close, fits, small⟩
  obtain ⟨-, read, below⟩ := agrees_getRtc agrees told
  have epoch : (clock.elapse gap).restartTimer.rtcEpoch = (clock.elapse gap).getRtc.2.rtcEpoch := getRtc_eq _
  have now : (clock.elapse gap).restartTimer.now = 0 := by simp [PspClock.now, PspClock.restartTimer]
  have anchor : (clock.elapse gap).restartTimer.rtcEpochTicks.toNat = 0 := rfl
  constructor
  · intro unset
    rw [epoch]
    exact read.unset unset
  · exact fun _ => rfl
  · intro set
    rw [epoch]
    exact read.later set
  · intro _
    rw [now, anchor]
  · intro set
    obtain ⟨-, -, -, whole⟩ := near set
    have second := below set
    have ticks := read.ticks set
    have none_left : (clock.elapse gap).getRtc.2.now - (clock.elapse gap).getRtc.2.rtcEpochTicks.toNat = 0 := by
      have rest := congrArg (· % pspTicksPerSec) ticks
      rwa [Nat.mul_add_mod', Nat.mul_add_mod', Nat.mod_eq_of_lt second, show (wall.elapse gap).ticks = wall.ticks + gap from rfl,
        whole] at rest
    rw [none_left] at ticks
    rw [now, anchor, epoch]
    exact ticks

/-- A step that meets the condition keeps the agreement. -/
theorem agrees_step {event : ClockEvent} (agrees : Agrees clock wall) (keeps : Keeps (clock, wall) event) :
    Agrees (clockStep (clock.elapse event.gap) (wall.elapse event.gap) event.call).1
      (clockStep (clock.elapse event.gap) (wall.elapse event.gap) event.call).2 := by
  obtain ⟨gap, call⟩ := event
  cases call with
  | setRtc unixTimestamp => exact agrees_setRtc _ unixTimestamp
  | getRtc => exact (agrees_getRtc agrees keeps).2.1
  | getTicks => exact agrees_getTicks agrees keeps
  | restartTimer => exact agrees_restartTimer agrees keeps

end Step

/-- Nothing is set after a reset. -/
theorem agrees_initial (count : Word) : Agrees (.initial count) ⟨0, 0⟩ where
  unset _ := rfl
  sampled set := absurd rfl set
  later set := absurd rfl set
  behind set := absurd rfl set
  ticks set := absurd rfl set

/-- At the end of a run all of whose steps meet the condition, the clock agrees with the time and `psp_get_rtc` tells it. -/
theorem psp_clock_right {count : Word} {events : List ClockEvent} {gap : ℕ} {clock : PspClock} {wall : WallClock}
    (along : pspClock.Along Keeps (PspClock.initial count, ⟨0, 0⟩) (events ++ [⟨gap, .getRtc⟩]))
    (run : pspClock.run? (PspClock.initial count, ⟨0, 0⟩) events = some (clock, wall)) :
    Agrees clock wall ∧ (clock.elapse gap).getRtc.1.toNat = (wall.elapse gap).tell := by
  have kept (source : PspClock × WallClock) (event : ClockEvent) (next : PspClock × WallClock) (agrees : Agrees source.1 source.2)
      (keeps : Keeps source event) (stepped : pspClock.step source event = some next) : Agrees next.1 next.2 := by
    cases stepped
    exact agrees_step agrees keeps
  have agrees : Agrees clock wall := LabeledMachine.run?_invariant kept (agrees_initial count) along.of_append run
  exact ⟨agrees, (agrees_getRtc agrees (along.at_cut run)).1⟩

/-- A minute after the time was set, and a restart at its end, `psp_get_rtc` tells the time. -/
theorem psp_clock_right_minute :
    ∃ clock wall, pspClock.run? (PspClock.initial 7, ⟨0, 0⟩)
      (⟨5, .setRtc 1000000000⟩ :: List.replicate 6 ⟨10 * 333000000, .getTicks⟩ ++ [⟨0, .restartTimer⟩]) = some (clock, wall) ∧
    Agrees clock wall ∧ (clock.elapse 333000000).getRtc.1.toNat = (wall.elapse 333000000).tell := by
  obtain ⟨clock, wall, run⟩ : ∃ clock wall, pspClock.run? (PspClock.initial 7, ⟨0, 0⟩)
      (⟨5, .setRtc 1000000000⟩ :: List.replicate 6 ⟨10 * 333000000, .getTicks⟩ ++ [⟨0, .restartTimer⟩]) =
      some (clock, wall) := ⟨_, _, rfl⟩
  exact ⟨clock, wall, run, psp_clock_right (by decide) run⟩

/-- Two samples a minute apart see eight seconds pass. -/
theorem psp_clock_loses_wraps : ¬∀ (count : Word) (events : List ClockEvent) (gap : ℕ) (clock : PspClock) (wall : WallClock),
    pspClock.run? (PspClock.initial count, ⟨0, 0⟩) events = some (clock, wall) →
      (clock.elapse gap).getRtc.1.toNat = (wall.elapse gap).tell := by
  intro right
  have told := right 0 [⟨0, .setRtc 1000000000⟩] (60 * 333000000) _ _ rfl
  have sampled : ((((PspClock.initial 0).elapse 0).setRtc 1000000000).elapse (60 * 333000000)).getRtc.1 =
      (stepAnchor 2800130816 0 1000000000).2 := by
    rfl
  have eight := (@stepAnchor_eq 2800130816 0 1000000000 (by decide) (by decide)).1
  rw [← sampled] at eight
  exact absurd (eight.symm.trans told) (by decide)

end KosTool.Psp
