import KosTool.Math.ByteWord
import KosTool.Math.ReciprocalDivision

/-! # Division by a constant without a divide instruction

`UDIV_CONST` of `divutil.h`: a widening multiply by the 32-bit reciprocal, keeping the high half.
The widths are those of the source; `toNat_udivConst` says which natural number comes out, and
the generic error analysis says when that is the floor. `ms_to_ticks` divides twice by it.
-/

namespace KosTool.DivUtil

open ReciprocalDivision

/-- `UDIV_RECIP(d)`. -/
def udivRecip (d : Word) : Word := 0xFFFFFFFF#32 / d + 1#32

/-- `UDIV_CONST(n, d)`. -/
def udivConst (n d : Word) : Word :=
  ((n.setWidth 64 * (udivRecip d).setWidth 64) >>> 32).setWidth 32

/-- `ms_to_ticks(tps, ms)`: an overshot quotient shows as a wrapped remainder and is undone. -/
def msToTicks (tps ms : Word) : Word :=
  let perMs := udivConst tps 1000#32
  let rem := tps - perMs * 1000#32
  if 1000#32 ≤ rem then
    (perMs - 1#32) * ms + udivConst ((rem + 1000#32) * ms) 1000#32
  else perMs * ms + udivConst (rem * ms) 1000#32

theorem toNat_udivRecip {d : Word} (divisor : 2 ≤ d.toNat) :
    (udivRecip d).toNat = reciprocal (2 ^ 32) d.toNat := by
  have quotient : (2 ^ 32 - 1) / d.toNat ≤ (2 ^ 32 - 1) / 2 :=
    Nat.div_le_div_left divisor (by decide)
  rw [udivRecip, reciprocal, BitVec.toNat_add, BitVec.toNat_udiv]
  exact Nat.mod_eq_of_lt (Nat.lt_of_le_of_lt (Nat.add_le_add_right quotient 1) (by decide))

/-- The 64-bit product never wraps and its high half always fits a word. -/
theorem toNat_udivConst (n : Word) {d : Word} (divisor : 2 ≤ d.toNat) :
    (udivConst n d).toNat = n.toNat * reciprocal (2 ^ 32) d.toNat / 2 ^ 32 := by
  have recip := toNat_udivRecip divisor
  have product : n.toNat * (udivRecip d).toNat ≤ (2 ^ 32 - 1) * (2 ^ 32 - 1) :=
    Nat.mul_le_mul (Nat.le_sub_one_of_lt n.isLt) (Nat.le_sub_one_of_lt (udivRecip d).isLt)
  have high : n.toNat * (udivRecip d).toNat / 2 ^ 32 < 2 ^ 32 :=
    (Nat.div_lt_iff_lt_mul (by decide)).mpr (Nat.lt_of_le_of_lt product (by decide))
  rw [← recip, udivConst, BitVec.toNat_setWidth, BitVec.toNat_ushiftRight, BitVec.toNat_mul,
    BitVec.toNat_setWidth, BitVec.toNat_setWidth, Nat.mod_eq_of_lt (by omega : n.toNat < 2 ^ 64),
    Nat.mod_eq_of_lt (by omega : (udivRecip d).toNat < 2 ^ 64),
    Nat.mod_eq_of_lt (Nat.lt_of_le_of_lt product (by decide)), Nat.shiftRight_eq_div_pow,
    Nat.mod_eq_of_lt high]

/-- The quotient is the floor, or one more exactly where the rounded reciprocal overshoots. -/
theorem toNat_udivConst_eq (n : Word) {d : Word} (divisor : 2 ≤ d.toNat) :
    (udivConst n d).toNat =
      n.toNat / d.toNat + if Overshoots (2 ^ 32) d.toNat n.toNat then 1 else 0 := by
  rw [toNat_udivConst n divisor, mul_reciprocal_div (by omega) n.isLt]

/-- Multiples of the divisor are divided exactly. -/
theorem toNat_udivConst_of_dvd {n d : Word} (divisor : 2 ≤ d.toNat) {k : ℕ}
    (multiple : n.toNat = k * d.toNat) : (udivConst n d).toNat = k := by
  rw [toNat_udivConst n divisor, multiple]
  exact mul_reciprocal_div_of_dvd (by omega) (multiple ▸ n.isLt)

end KosTool.DivUtil

/-! # Numbers on the screen of the network loader

`client/common/network/entry.c`: `uint_to_string_dec` takes the digits of a number off by `UDIV_CONST`, least significant first,
and copies them turned around.
-/

namespace KosTool.Client.Display

open ByteWord DivUtil ReciprocalDivision

/-- A round takes the number down, overshot or not. -/
theorem udivConst_ten_lt {foo : Word} (positive : ¬ foo = 0) : (udivConst foo 10#32).toNat < foo.toNat := by
  have nonzero : foo.toNat ≠ 0 := fun zero => positive (BitVec.eq_of_toNat_eq zero)
  rw [toNat_udivConst foo (by decide)]
  change foo.toNat * 429496730 / 2 ^ 32 < foo.toNat
  omega

/-- The loop of `uint_to_string_dec`, with what is in `tmp` so far. -/
def takeDigits (tmp : List Byte) (foo : Word) : List Byte :=
  if foo = 0 then tmp
  else
    let q := udivConst foo 10#32
    takeDigits (tmp ++ [(0x30#32 + (foo - q * 10#32)).setWidth 8]) q
termination_by foo.toNat
decreasing_by exact udivConst_ten_lt ‹_›

/-- `uint_to_string_dec`: what it writes to `bar`. -/
def uintToStringDec (foo : Word) : List Byte :=
  if foo = 0 then [0x30, 0] else (takeDigits [] foo).reverse ++ [0]

end KosTool.Client.Display
