import KosTool.Math.ByteWord
import Mathlib.Algebra.Field.ZMod
import Mathlib.RingTheory.AdjoinRoot
import Mathlib.Tactic.LinearCombination

/-! # Reed–Solomon code words with two parity symbols

A code word is a polynomial that vanishes at `1` and at `α`; its symbols are the coefficients, the highest first. A Horner
loop over the data symbols leaves what the two parity symbols have to cancel. Over bytes the ring is that of the polynomials
modulo `x⁸ + x⁴ + x³ + x² + 1`, in which the bits of a byte are the coefficients.
-/

namespace ReedSolomon

section Ring

variable {R : Type*} [CommRing R] {α parity : R}

/-- The polynomial of some symbols at a point. -/
def evaluate (x : R) : List R → R
  | [] => 0
  | symbol :: symbols => symbol * x ^ symbols.length + evaluate x symbols

/-- The plain sum and the weighted sum of the symbols are both zero. -/
structure IsCodeword (α : R) (symbols : List R) : Prop where
  plain : symbols.sum = 0
  weighted : evaluate α symbols = 0

theorem evaluate_append (x : R) (first second : List R) :
    evaluate x (first ++ second) = evaluate x first * x ^ second.length + evaluate x second := by
  induction first with
  | nil => rw [List.nil_append, evaluate, zero_mul, zero_add]
  | cons symbol symbols ih =>
    rw [List.cons_append, evaluate, evaluate, ih, List.length_append, pow_add]
    ring

/-- The loop multiplies after every symbol, the last one too. -/
theorem horner_eq (α : R) (symbols : List R) :
    symbols.foldl (fun sum symbol => α * (sum + symbol)) 0 = α * evaluate α symbols := by
  induction symbols using List.reverseRecOn with
  | nil => rw [List.foldl_nil, evaluate, mul_zero]
  | append_singleton symbols symbol ih =>
    rw [List.foldl_append, List.foldl_cons, List.foldl_nil, ih, evaluate_append, evaluate, evaluate, List.length_singleton,
      List.length_nil]
    ring

/-- The two parity symbols complete a code word where `2 = 0`. -/
theorem isCodeword_parity (two : (2 : R) = 0) {symbols : List R}
    (solves : α * parity + parity = α * (α * evaluate α symbols) + symbols.sum) :
    IsCodeword α (symbols ++ [parity, parity + symbols.sum]) where
  plain := by
    rw [List.sum_append, List.sum_cons, List.sum_singleton]
    linear_combination (parity + symbols.sum) * two
  weighted := by
    rw [evaluate_append, evaluate, evaluate, evaluate, List.length_cons, List.length_singleton, List.length_nil]
    linear_combination solves + (α * (α * evaluate α symbols) + symbols.sum) * two

end Ring

section Bytes

open Polynomial

/-- The polynomial of `0x11d`. -/
noncomputable def modulus : (ZMod 2)[X] := X ^ 8 + X ^ 4 + X ^ 3 + X ^ 2 + 1

/-- The polynomials modulo it. -/
abbrev Gf256 := AdjoinRoot modulus

/-- The class of `x`. -/
noncomputable def alpha : Gf256 := AdjoinRoot.root modulus

/-- The bits of a byte are the coefficients of its polynomial. -/
noncomputable def ofByte (byte : Byte) : Gf256 := ∑ i ∈ Finset.range 8, if byte.getLsbD i then alpha ^ i else 0

theorem two_eq_zero : (2 : Gf256) = 0 := by
  have image := map_ofNat (AdjoinRoot.of modulus) 2
  rw [← image, show (OfNat.ofNat 2 : ZMod 2) = 0 from rfl, map_zero]

theorem alpha_pow_eight : alpha ^ 8 + alpha ^ 4 + alpha ^ 3 + alpha ^ 2 + 1 = 0 := by
  have vanishes : AdjoinRoot.mk modulus (X ^ 8 + X ^ 4 + X ^ 3 + X ^ 2 + 1) = 0 := AdjoinRoot.mk_self
  rw [map_add, map_add, map_add, map_add, map_pow, map_pow, map_pow, map_pow, AdjoinRoot.mk_X, map_one] at vanishes
  exact vanishes

theorem ofByte_zero : ofByte 0#8 = 0 := by
  refine Finset.sum_eq_zero fun i inside => ?_
  rw [if_neg (by simp)]

/-- Addition is `xor`. -/
theorem ofByte_xor (first second : Byte) : ofByte (first ^^^ second) = ofByte first + ofByte second := by
  rw [ofByte, ofByte, ofByte, ← Finset.sum_add_distrib]
  refine Finset.sum_congr rfl fun i _ => ?_
  rw [BitVec.getLsbD_xor]
  cases first.getLsbD i <;> cases second.getLsbD i
  · simp
  · simp
  · simp
  · simp only [Bool.xor_self, Bool.false_eq_true, if_false, if_true]
    linear_combination -alpha ^ i * two_eq_zero

/-- A byte is multiplied by `x`. -/
def double (byte : Byte) : Byte := (byte <<< 1) ^^^ if byte.getLsbD 7 then 0x1d#8 else 0#8

theorem ofByte_double (byte : Byte) : ofByte (double byte) = alpha * ofByte byte := by
  have shifted : ofByte (byte <<< 1) + (if byte.getLsbD 7 then alpha ^ 8 else 0) = alpha * ofByte byte := by
    rw [ofByte, ofByte, Finset.sum_range_succ', Finset.sum_range_succ _ 7, mul_add, Finset.mul_sum]
    have low : ∀ i ∈ Finset.range 7, (if (byte <<< 1).getLsbD (i + 1) then alpha ^ (i + 1) else 0) =
        alpha * if byte.getLsbD i then alpha ^ i else 0 := by
      intro i inside
      have bound : i < 7 := Finset.mem_range.mp inside
      rw [BitVec.getLsbD_shiftLeft, mul_ite, mul_zero, ← pow_succ']
      simp [show i + 1 < 8 by omega]
    rw [Finset.sum_congr rfl low, mul_ite, mul_zero, ← pow_succ', BitVec.getLsbD_shiftLeft]
    simp
  rw [double, ofByte_xor, ← shifted]
  cases byte.getLsbD 7
  · rw [if_neg Bool.false_ne_true, if_neg Bool.false_ne_true, ofByte_zero]
  · have low : ofByte 0x1d#8 = alpha ^ 4 + alpha ^ 3 + alpha ^ 2 + 1 := by
      simp [ofByte, Finset.sum_range_succ]
      ring
    rw [if_pos rfl, if_pos rfl, low]
    linear_combination alpha_pow_eight - alpha ^ 8 * two_eq_zero

/-- No byte but zero is its own double. -/
theorem double_add_injective : Function.Injective fun byte : Byte => byte ^^^ double byte := by
  have none_fixed : ∀ byte : Byte, byte ^^^ double byte = 0 → byte = 0 := by decide
  have linear : ∀ first second : Byte, double (first ^^^ second) = double first ^^^ double second := by
    intro first second
    unfold double
    rw [BitVec.getLsbD_xor, BitVec.shiftLeft_xor_distrib]
    cases first.getLsbD 7 <;> cases second.getLsbD 7
    all_goals simp only [Bool.xor_self, Bool.xor_false, Bool.xor_true, Bool.not_false, Bool.false_eq_true, if_true, if_false,
      BitVec.xor_zero]
    · ac_rfl
    · ac_rfl
    · have twice : first <<< 1 ^^^ 0x1d#8 ^^^ (second <<< 1 ^^^ 0x1d#8) = first <<< 1 ^^^ second <<< 1 ^^^ (0x1d#8 ^^^ 0x1d#8) := by ac_rfl
      rw [twice, BitVec.xor_self, BitVec.xor_zero]
  intro first second same
  refine BitVec.xor_eq_zero_iff.mp (none_fixed _ ?_)
  rw [linear]
  calc
    first ^^^ second ^^^ (double first ^^^ double second) = (first ^^^ double first) ^^^ (second ^^^ double second) := by
      ac_rfl
    _ = 0 := BitVec.xor_eq_zero_iff.mpr same

end Bytes

end ReedSolomon

/-! # Reflected cyclic redundancy checks

The check of a message is what a shift register holds after its bits, the lowest of every byte first. Since the register is
linear, a byte can be taken in one step from a table of the 256 registers that eight steps lead to.
-/

namespace CyclicRedundancy

variable {w : ℕ} {poly : BitVec w}

/-- The register after one bit of the message. -/
def crcBit (poly crc : BitVec w) (bit : Bool) : BitVec w :=
  if crc.getLsbD 0 ^^ bit then (crc >>> 1) ^^^ poly else crc >>> 1

/-- The register after the first bits of a byte. -/
def crcBits (poly crc : BitVec w) (byte : Byte) (count : ℕ) : BitVec w :=
  (List.range count).foldl (fun crc i => crcBit poly crc (byte.getLsbD i)) crc

/-- The register after some bytes. -/
def crc (poly : BitVec w) (bytes : List Byte) : BitVec w := bytes.foldl (fun crc byte => crcBits poly crc byte 8) 0

/-- The register moves without a message. -/
def shift (poly crc : BitVec w) : BitVec w := crcBit poly crc false

theorem shift_xor (first second : BitVec w) : shift poly (first ^^^ second) = shift poly first ^^^ shift poly second := by
  simp only [shift, crcBit, BitVec.getLsbD_xor, Bool.xor_false, BitVec.ushiftRight_xor_distrib]
  cases first.getLsbD 0 <;> cases second.getLsbD 0
  all_goals simp only [Bool.xor_self, Bool.xor_false, Bool.xor_true, Bool.not_false, Bool.false_eq_true, if_true, if_false]
  · ac_rfl
  · ac_rfl
  · have twice : first >>> 1 ^^^ poly ^^^ (second >>> 1 ^^^ poly) = first >>> 1 ^^^ second >>> 1 ^^^ (poly ^^^ poly) := by ac_rfl
    rw [twice, BitVec.xor_self, BitVec.xor_zero]

theorem shift_iterate_xor (count : ℕ) (first second : BitVec w) :
    (shift poly)^[count] (first ^^^ second) = (shift poly)^[count] first ^^^ (shift poly)^[count] second := by
  induction count generalizing first second with
  | zero => rfl
  | succ count ih => rw [Function.iterate_succ_apply, shift_xor, ih, Function.iterate_succ_apply, Function.iterate_succ_apply]

/-- As long as no bit falls out nothing is mixed in. -/
theorem shift_iterate_high {high : BitVec w} {count : ℕ} (clear : ∀ i < count, high.getLsbD i = false) :
    (shift poly)^[count] high = high >>> count := by
  induction count with
  | zero => rw [Function.iterate_zero_apply, BitVec.ushiftRight_zero]
  | succ count ih =>
    have falls : (high >>> count).getLsbD 0 = false := by
      rw [BitVec.getLsbD_ushiftRight]
      exact clear count (Nat.lt_succ_self count)
    rw [Function.iterate_succ_apply', ih fun i below => clear i (Nat.lt_succ_of_lt below), shift, crcBit, falls,
      if_neg (by decide), BitVec.shiftRight_add]

/-- The bits of a byte may as well be mixed in before the first step. -/
theorem crcBits_eq (crc : BitVec w) (byte : Byte) (wide : 8 ≤ w) (count : ℕ) : crcBits poly crc byte count =
    (shift poly)^[count] (crc ^^^ byte.setWidth w) ^^^ (byte.setWidth w >>> count) := by
  induction count with
  | zero =>
    rw [Function.iterate_zero_apply, BitVec.ushiftRight_zero, BitVec.xor_assoc, BitVec.xor_self, BitVec.xor_zero]
    rfl
  | succ count ih =>
    have bit : (byte.setWidth w >>> count).getLsbD 0 = byte.getLsbD count := by
      rw [BitVec.getLsbD_ushiftRight, BitVec.getLsbD_setWidth, Nat.add_zero]
      by_cases inside : count < w
      · rw [decide_eq_true inside, Bool.true_and]
      · rw [BitVec.getLsbD_of_ge byte count (by omega), Bool.and_false]
    have taken : crcBits poly crc byte (count + 1) = crcBit poly (crcBits poly crc byte count) (byte.getLsbD count) := by
      rw [crcBits, List.range_succ, List.foldl_append]
      rfl
    rw [taken, ih, crcBit, BitVec.getLsbD_xor, bit, Bool.xor_assoc, Bool.xor_self, Bool.xor_false,
      BitVec.ushiftRight_xor_distrib, BitVec.shiftRight_add, Function.iterate_succ_apply', shift, crcBit, Bool.xor_false]
    split
    · ac_rfl
    · rfl

/-- One step of the table loop. -/
theorem crcBits_table (crc : BitVec w) (byte : Byte) (wide : 8 ≤ w) : crcBits poly crc byte 8 =
    (crc >>> 8) ^^^ (shift poly)^[8] (((crc ^^^ byte.setWidth w).setWidth 8).setWidth w) := by
  have gone : byte.setWidth w >>> 8 = 0#w := by
    apply BitVec.eq_of_getLsbD_eq
    intro i inside
    rw [BitVec.getLsbD_ushiftRight, BitVec.getLsbD_setWidth, BitVec.getLsbD_of_ge byte (8 + i) (by omega), Bool.and_false,
      BitVec.getLsbD_zero]
  generalize mixed : crc ^^^ byte.setWidth w = start
  have low (i : ℕ) : ((start.setWidth 8).setWidth w).getLsbD i = (decide (i < 8) && start.getLsbD i) := by
    rw [BitVec.getLsbD_setWidth, BitVec.getLsbD_setWidth]
    by_cases inside : i < w
    · rw [decide_eq_true inside, Bool.true_and]
    · rw [BitVec.getLsbD_of_ge start i (by omega), Bool.and_false, Bool.and_false]
  have split : start = (start ^^^ (start.setWidth 8).setWidth w) ^^^ (start.setWidth 8).setWidth w := by
    rw [BitVec.xor_assoc, BitVec.xor_self, BitVec.xor_zero]
  have clear : ∀ i < 8, (start ^^^ (start.setWidth 8).setWidth w).getLsbD i = false := by
    intro i below
    rw [BitVec.getLsbD_xor, low, decide_eq_true below, Bool.true_and, Bool.xor_self]
  have lowGone : (start.setWidth 8).setWidth w >>> 8 = 0#w := by
    apply BitVec.eq_of_getLsbD_eq
    intro i inside
    rw [BitVec.getLsbD_ushiftRight, low, decide_eq_false (by omega), Bool.false_and, BitVec.getLsbD_zero]
  have front : crc = start ^^^ byte.setWidth w := by rw [← mixed, BitVec.xor_assoc, BitVec.xor_self, BitVec.xor_zero]
  rw [crcBits_eq crc byte wide, gone, BitVec.xor_zero, mixed]
  conv_lhs => rw [split]
  rw [shift_iterate_xor, shift_iterate_high clear, BitVec.ushiftRight_xor_distrib, lowGone, BitVec.xor_zero, front,
    BitVec.ushiftRight_xor_distrib, gone, BitVec.xor_zero]

end CyclicRedundancy
