import KosTool.Model.DivUtil

/-! # Milliseconds to ticks

`ms_to_ticks` takes the rate apart into the ticks of a millisecond and what is left over, and scales both by the milliseconds.
The undoing of an overshot quotient makes the two parts exact; the product of the left over ticks is only right as long as it
fits a word, which is not said by the result fitting one.
-/

namespace KosTool.DivUtil

open ReciprocalDivision

/-- `per_ms` and `rem` of `ms_to_ticks`, after an overshoot is undone. -/
def perMsRem (tps : Word) : Word × Word :=
  let perMs := udivConst tps 1000#32
  let rem := tps - perMs * 1000#32
  if 1000#32 ≤ rem then (perMs - 1#32, rem + 1000#32) else (perMs, rem)

theorem msToTicks_eq (tps ms : Word) :
    msToTicks tps ms = (perMsRem tps).1 * ms + udivConst ((perMsRem tps).2 * ms) 1000#32 := by
  rw [msToTicks, perMsRem]
  split_ifs <;> rfl

/-- The two parts are the quotient and the remainder, whether or not the quotient came out too large. -/
theorem toNat_perMsRem (tps : Word) :
    (perMsRem tps).1.toNat = tps.toNat / 1000 ∧ (perMsRem tps).2.toNat = tps.toNat % 1000 := by
  have quotient := toNat_udivConst_eq tps (d := 1000#32) (by decide)
  have below := tps.isLt
  rw [show (1000#32).toNat = 1000 from rfl] at quotient
  rw [perMsRem]
  split_ifs at quotient with overshoots
  · have wrapped : (tps - udivConst tps 1000#32 * 1000#32).toNat = 2 ^ 32 + tps.toNat % 1000 - 1000 := by
      rw [BitVec.toNat_sub, BitVec.toNat_mul, quotient, BitVec.toNat_ofNat]
      omega
    rw [if_pos (by rw [BitVec.le_def, wrapped, BitVec.toNat_ofNat]; omega)]
    dsimp only
    rw [BitVec.toNat_sub, BitVec.toNat_add, wrapped, quotient, BitVec.toNat_ofNat, BitVec.toNat_ofNat]
    omega
  · have exact : (tps - udivConst tps 1000#32 * 1000#32).toNat = tps.toNat % 1000 := by
      rw [BitVec.toNat_sub, BitVec.toNat_mul, quotient, BitVec.toNat_ofNat]
      omega
    rw [if_neg (by rw [BitVec.le_def, exact, BitVec.toNat_ofNat]; omega)]
    exact ⟨quotient, exact⟩

/-- `ms_to_ticks` is right for a rate and a time: it is off by a tick at most, no product and no sum wraps, and no shorter time
gives more ticks. -/
structure Converts (tps ms : Word) : Prop where
  near : (msToTicks tps ms).toNat ≤ tps.toNat * ms.toNat / 1000 + 1 ∧
    tps.toNat * ms.toNat / 1000 ≤ (msToTicks tps ms).toNat + 1
  whole : ((perMsRem tps).1 * ms).toNat = (perMsRem tps).1.toNat * ms.toNat
  rest : ((perMsRem tps).2 * ms).toNat = (perMsRem tps).2.toNat * ms.toNat
  sum : (msToTicks tps ms).toNat = ((perMsRem tps).1 * ms).toNat + (udivConst ((perMsRem tps).2 * ms) 1000#32).toNat
  rises : ∀ earlier : Word, earlier ≤ ms → msToTicks tps earlier ≤ msToTicks tps ms

/-- The left over ticks of the time fit a word before they are divided, and the ticks fit one. -/
def Fits (tps ms : Word) : Prop :=
  tps.toNat % 1000 * ms.toNat < 2 ^ 32 ∧
    tps.toNat * ms.toNat / 1000 + (if Overshoots (2 ^ 32) 1000 (tps.toNat % 1000 * ms.toNat) then 1 else 0) < 2 ^ 32

instance (tps ms : Word) : Decidable (Fits tps ms) := inferInstanceAs (Decidable (_ ∧ _))

section Parts

variable (tps ms : Word)

/-- The ticks without any wrapping. -/
def ticks : ℕ :=
  tps.toNat / 1000 * ms.toNat + tps.toNat % 1000 * ms.toNat * reciprocal (2 ^ 32) 1000 / 2 ^ 32

/-- The product of rate and time is the one of the parts. -/
theorem mul_eq_parts : tps.toNat * ms.toNat = 1000 * (tps.toNat / 1000 * ms.toNat) + tps.toNat % 1000 * ms.toNat := by
  calc tps.toNat * ms.toNat = (1000 * (tps.toNat / 1000) + tps.toNat % 1000) * ms.toNat := by rw [Nat.div_add_mod]
    _ = _ := by ring

variable {tps ms}

/-- A product of the left over ticks that fits a word is divided with at most one tick too many. -/
theorem ticks_eq (small : tps.toNat % 1000 * ms.toNat < 2 ^ 32) :
    ticks tps ms = tps.toNat * ms.toNat / 1000 +
      if Overshoots (2 ^ 32) 1000 (tps.toNat % 1000 * ms.toNat) then 1 else 0 := by
  rw [ticks, mul_reciprocal_div (by decide) small, mul_eq_parts, Nat.mul_add_div (by decide), Nat.add_assoc]

theorem ticks_mono {earlier : Word} (before : earlier ≤ ms) : ticks tps earlier ≤ ticks tps ms := by
  have less : earlier.toNat ≤ ms.toNat := before
  apply Nat.add_le_add
  · exact Nat.mul_le_mul_left _ less
  · apply Nat.div_le_div_right
    apply Nat.mul_le_mul_right
    exact Nat.mul_le_mul_left _ less

/-- What comes out are the ticks modulo the word, of the left over ticks of the time modulo the word. -/
theorem toNat_msToTicks : (msToTicks tps ms).toNat =
    (tps.toNat / 1000 * ms.toNat +
      tps.toNat % 1000 * ms.toNat % 2 ^ 32 * reciprocal (2 ^ 32) 1000 / 2 ^ 32) % 2 ^ 32 := by
  obtain ⟨whole, rest⟩ := toNat_perMsRem tps
  rw [msToTicks_eq, BitVec.toNat_add, toNat_udivConst _ (by decide), BitVec.toNat_mul, BitVec.toNat_mul, whole, rest,
    Nat.mod_add_mod]
  rfl

theorem toNat_msToTicks_of_fits (fits : Fits tps ms) : (msToTicks tps ms).toNat = ticks tps ms := by
  obtain ⟨small, below⟩ := fits
  rw [← ticks_eq small] at below
  rw [toNat_msToTicks, Nat.mod_eq_of_lt small]
  exact Nat.mod_eq_of_lt below

/-- A shorter time fits where a longer one does. -/
theorem Fits.earlier {earlier : Word} (fits : Fits tps ms) (before : earlier ≤ ms) : Fits tps earlier := by
  obtain ⟨small, below⟩ := fits
  have less : tps.toNat % 1000 * earlier.toNat ≤ tps.toNat % 1000 * ms.toNat := Nat.mul_le_mul_left _ before
  have fewer : ticks tps earlier ≤ ticks tps ms := ticks_mono before
  refine ⟨Nat.lt_of_le_of_lt less small, ?_⟩
  rw [← ticks_eq small] at below
  rw [← ticks_eq (Nat.lt_of_le_of_lt less small)]
  exact Nat.lt_of_le_of_lt fewer below

/-- Being off by a tick at most already says that nothing wraps. A product of the left over ticks that wraps loses millions of
ticks, and a sum that wraps loses all of a word. -/
theorem fits_of_near (near : tps.toNat * ms.toNat / 1000 ≤ (msToTicks tps ms).toNat + 1) : Fits tps ms := by
  rw [toNat_msToTicks] at near
  have kept : tps.toNat % 1000 * ms.toNat % 2 ^ 32 < 2 ^ 32 := Nat.mod_lt _ (by decide)
  have small : tps.toNat % 1000 * ms.toNat < 2 ^ 32 := by
    rw [mul_reciprocal_div (by decide) kept, mul_eq_parts, Nat.mul_add_div (by decide)] at near
    generalize tps.toNat / 1000 * ms.toNat = whole at near
    generalize tps.toNat % 1000 * ms.toNat = rest at near kept ⊢
    have wraps := Nat.mod_le (whole + (rest % 2 ^ 32 / 1000 +
      if Overshoots (2 ^ 32) 1000 (rest % 2 ^ 32) then 1 else 0)) (2 ^ 32)
    by_contra large
    have lost : rest % 2 ^ 32 / 1000 + 4294967 ≤ rest / 1000 := by omega
    split_ifs at near wraps <;> omega
  refine ⟨small, ?_⟩
  rw [← ticks_eq small]
  rw [Nat.mod_eq_of_lt small] at near
  change _ ≤ ticks tps ms % 2 ^ 32 + 1 at near
  have exact := ticks_eq small
  generalize ticks tps ms = total at near exact ⊢
  generalize tps.toNat * ms.toNat / 1000 = floor at near exact
  split_ifs at exact <;> omega

end Parts

/-- `ms_to_ticks` is right exactly where the left over ticks of the time fit a word before they are divided, and the result fits
one. -/
theorem ms_to_ticks_right_iff (tps ms : Word) : Converts tps ms ↔ Fits tps ms := by
  constructor
  · intro converts
    exact fits_of_near converts.near.2
  · intro fits
    obtain ⟨whole, rest⟩ := toNat_perMsRem tps
    have value := toNat_msToTicks_of_fits fits
    obtain ⟨small, below⟩ := fits
    have exact := ticks_eq small
    rw [← exact] at below
    have parts : ticks tps ms = tps.toNat / 1000 * ms.toNat +
        tps.toNat % 1000 * ms.toNat * reciprocal (2 ^ 32) 1000 / 2 ^ 32 := rfl
    have wholeFits : ((perMsRem tps).1 * ms).toNat = (perMsRem tps).1.toNat * ms.toNat := by
      rw [BitVec.toNat_mul, whole]
      apply Nat.mod_eq_of_lt
      omega
    have restFits : ((perMsRem tps).2 * ms).toNat = (perMsRem tps).2.toNat * ms.toNat := by
      rw [BitVec.toNat_mul, rest]
      exact Nat.mod_eq_of_lt small
    constructor
    · rw [value]
      split_ifs at exact <;> omega
    · exact wholeFits
    · exact restFits
    · rw [value, wholeFits, toNat_udivConst _ (by decide), restFits, whole, rest]
      exact parts
    · intro earlier before
      change (msToTicks tps earlier).toNat ≤ (msToTicks tps ms).toNat
      rw [value, toNat_msToTicks_of_fits (Fits.earlier ⟨small, by rwa [← exact]⟩ before)]
      exact ticks_mono before

/-- At 32768 ticks a second, an hour and a half is more than four million ticks short. -/
theorem ms_to_ticks_slow_clock : ¬ ∀ tps ms, Converts tps ms := by
  intro converts
  have near := (converts 32768#32 5592406#32).near.2
  revert near
  decide

end KosTool.DivUtil
