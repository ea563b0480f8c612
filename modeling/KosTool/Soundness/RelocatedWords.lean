import KosTool.Math.MipsAbi
import KosTool.Model.Binary.Irx

/-! # Relocating a word twice

An addend that has been added in place is the addend of the next relocation. The high half of a pair keeps this
although only 16 bits of it are stored, since the sign of the low half is made up for.
-/

namespace KosTool.Elf2irx

/-- The low half of a word. -/
def low (word : Word) : BitVec 16 := word.setWidth 16

/-- The high half of a word. -/
def high (word : Word) : BitVec 16 := word.extractLsb' 16 16

theorem setLow_eq (word value : Word) : setLow word value = high word ++ low value := by
  apply BitVec.eq_of_getLsbD_eq
  intro i bound
  have inHigh : (0xffff0000#32).getLsbD i = decide (16 ≤ i) := by
    revert i
    decide
  have inLow : (0xffff#32).getLsbD i = decide (i < 16) := by
    revert i
    decide
  simp only [setLow, high, low, BitVec.getLsbD_or, BitVec.getLsbD_and, inHigh, inLow, BitVec.getLsbD_append,
    BitVec.getLsbD_extractLsb', BitVec.getLsbD_setWidth]
  rcases Nat.lt_or_ge i 16 with below | above
  · simp [below, Nat.not_le.mpr below]
  · simp [above, Nat.not_lt.mpr above, show i - 16 < 16 by omega, show 16 + (i - 16) = i by omega]

@[simp] theorem low_setLow (word value : Word) : low (setLow word value) = low value := by
  rw [setLow_eq, low, BitVec.setWidth_append]
  simp

@[simp] theorem high_setLow (word value : Word) : high (setLow word value) = high word := by
  rw [setLow_eq, high, BitVec.extractLsb'_append_eq_of_le (by decide), BitVec.extractLsb'_eq_self]

theorem setLow_setLow (word first second : Word) : setLow (setLow word first) second = setLow word second := by
  rw [setLow_eq, high_setLow, ← setLow_eq]

theorem setLow_congr (word : Word) {first second : Word} (same : low first = low second) :
    setLow word first = setLow word second := by rw [setLow_eq, setLow_eq, same]

theorem low_add (first second : Word) : low (first + second) = low first + low second :=
  BitVec.setWidth_add first second (by decide)

@[simp] theorem low_signExtend16 (word : Word) : low (signExtend16 word) = low word := by
  apply BitVec.eq_of_getLsbD_eq
  intro i bound
  have inside : i < 32 := by omega
  simp only [low, signExtend16, BitVec.getLsbD_setWidth, BitVec.getLsbD_signExtend, bound, inside, decide_true,
    Bool.true_and, if_true]

theorem signExtend16_congr {first second : Word} (same : low first = low second) :
    signExtend16 first = signExtend16 second := congrArg (BitVec.signExtend 32) same

/-- Two additions to the low half are one. -/
theorem addLow_addLow (word first second : Word) :
    addLow (addLow word first) second = addLow word (first + second) := by
  rw [addLow, addLow, setLow_setLow]
  apply setLow_congr
  rw [low_add, low_signExtend16, low_setLow, low_add, low_add, low_add, BitVec.add_assoc]

/-- The low half of a pair's addend is that of the LO16 alone. -/
theorem low_pairAddend (word loWord : Word) : low (pairAddend word loWord) = low loWord := by
  have shifted : low ((word &&& 0xffff#32) <<< 16) = 0#16 := by
    apply BitVec.eq_of_getLsbD_eq
    intro i bound
    simp [low, bound]
  rw [pairAddend, low_add, low_signExtend16, shifted, BitVec.zero_add]

/-- The low half that the loader stores beside a HI16 does not depend on the HI16. -/
theorem setLow_pairAddend (word loWord value : Word) :
    setLow loWord (pairAddend word loWord + value) = addLow loWord value := by
  apply setLow_congr
  rw [low_add, low_add, low_pairAddend, low_signExtend16]

theorem toNat_low (word : Word) : (low word).toNat = word.toNat % 65536 := BitVec.toNat_setWidth 16 word

@[simp] theorem low_masked (word : Word) : low (word &&& 0xffff#32) = low word := by
  apply BitVec.eq_of_toNat_eq
  rw [toNat_low, toNat_low, BitVec.toNat_and]
  exact (congrArg (· % 65536) (Nat.and_two_pow_sub_one_eq_mod word.toNat 16)).trans (Nat.mod_mod _ _)

theorem toNat_signExtend16 (word : Word) : (signExtend16 word).toNat =
    if word.toNat % 65536 < 32768 then word.toNat % 65536 else word.toNat % 65536 + 4294901760 := by
  rw [signExtend16, BitVec.toNat_signExtend, BitVec.msb_eq_decide, BitVec.toNat_setWidth, BitVec.toNat_setWidth]
  split_ifs <;> simp_all <;> omega

theorem toNat_pairAddend (word loWord : Word) : (pairAddend word loWord).toNat =
    (word.toNat % 65536 * 65536 + (signExtend16 loWord).toNat) % 4294967296 := by
  have masked : (word &&& 0xffff#32).toNat = word.toNat % 65536 := by
    rw [BitVec.toNat_and]
    exact Nat.and_two_pow_sub_one_eq_mod word.toNat 16
  rw [pairAddend, BitVec.toNat_add, BitVec.toNat_shiftLeft, masked, Nat.shiftLeft_eq]
  omega

/-- The stored halves of a value stand for the value: what the sign of the low half takes, the high half has more. -/
theorem pairAddend_of_halves {hiWord loWord value : Word} (highHalf : low hiWord = low ((value + 0x8000#32) >>> 16))
    (lowHalf : low loWord = low value) : pairAddend hiWord loWord = value := by
  have highNat := congrArg BitVec.toNat highHalf
  rw [toNat_low, toNat_low, BitVec.toNat_ushiftRight, BitVec.toNat_add, Nat.shiftRight_eq_div_pow] at highNat
  apply BitVec.eq_of_toNat_eq
  rw [toNat_pairAddend, signExtend16_congr lowHalf, toNat_signExtend16]
  have bound := value.isLt
  change _ = (value.toNat + 32768) % 4294967296 / 65536 % 65536 at highNat
  split_ifs <;> omega

/-- Two additions to a pair are one, whichever word holds the stored low half the second time. -/
theorem addHigh_addHigh (word : Word) {loWord stored first : Word} (second : Word)
    (kept : low stored = low (addLow loWord first)) :
    addHigh (addHigh word loWord first) stored second = addHigh word loWord (first + second) := by
  have sum : pairAddend (addHigh word loWord first) stored = pairAddend word loWord + first := by
    apply pairAddend_of_halves
    · rw [addHigh, low_setLow]
    · rw [kept, addLow, low_setLow, low_add, low_add, low_signExtend16, low_pairAddend]
  change setLow (addHigh word loWord first) ((pairAddend (addHigh word loWord first) stored + second + _) >>> 16) = _
  rw [sum, addHigh, setLow_setLow, BitVec.add_assoc _ first second]
  rfl

/-- The target field of a jump is replaced. -/
theorem field_eq (word value : Word) : (word &&& 0xfc000000#32) ||| (value &&& 0x03ffffff#32) =
    word.extractLsb' 26 6 ++ value.setWidth 26 := by
  apply BitVec.eq_of_getLsbD_eq
  intro i bound
  have inHigh : (0xfc000000#32).getLsbD i = decide (26 ≤ i) := by
    revert i
    decide
  have inLow : (0x03ffffff#32).getLsbD i = decide (i < 26) := by
    revert i
    decide
  simp only [BitVec.getLsbD_or, BitVec.getLsbD_and, inHigh, inLow, BitVec.getLsbD_append, BitVec.getLsbD_extractLsb',
    BitVec.getLsbD_setWidth]
  rcases Nat.lt_or_ge i 26 with below | above
  · simp [below, Nat.not_le.mpr below]
  · simp [above, Nat.not_lt.mpr above, show i - 26 < 6 by omega, show 26 + (i - 26) = i by omega]

theorem addTarget_eq (word value : Word) : addTarget word value =
    word.extractLsb' 26 6 ++ (((word &&& 0x03ffffff#32) <<< 2 + value) >>> 2).setWidth 26 := field_eq word _

theorem toNat_targetSum (word value : Word) : (((word &&& 0x03ffffff#32) <<< 2 + value) >>> 2).toNat =
    (word.toNat % 67108864 * 4 + value.toNat) % 4294967296 / 4 := by
  have masked : (word &&& 0x03ffffff#32).toNat = word.toNat % 67108864 := by
    rw [BitVec.toNat_and]
    exact Nat.and_two_pow_sub_one_eq_mod word.toNat 26
  rw [BitVec.toNat_ushiftRight, BitVec.toNat_add, BitVec.toNat_shiftLeft, masked, Nat.shiftLeft_eq,
    Nat.shiftRight_eq_div_pow]
  omega

/-- Two additions to the target of a jump are one, if the parts below a word do not carry. -/
theorem addTarget_addTarget (word : Word) {first second : Word} (aligned : first.toNat % 4 + second.toNat % 4 < 4) :
    addTarget (addTarget word first) second = addTarget word (first + second) := by
  have field : (addTarget word first).toNat % 67108864 =
      (word.toNat % 67108864 * 4 + first.toNat) % 4294967296 / 4 % 67108864 := by
    rw [addTarget_eq, BitVec.toNat_append, ← Nat.shiftLeft_add_eq_or_of_lt (BitVec.isLt _), Nat.shiftLeft_eq,
      BitVec.toNat_setWidth, toNat_targetSum]
    omega
  have opcode : (addTarget word first).extractLsb' 26 6 = word.extractLsb' 26 6 := by
    rw [addTarget_eq, BitVec.extractLsb'_append_eq_of_le (by decide), BitVec.extractLsb'_eq_self]
  rw [addTarget_eq (addTarget word first), opcode, addTarget_eq word (first + second)]
  congr 1
  apply BitVec.eq_of_toNat_eq
  rw [BitVec.toNat_setWidth, BitVec.toNat_setWidth, toNat_targetSum, toNat_targetSum, field, BitVec.toNat_add]
  have bound := first.isLt
  have bound' := second.isLt
  omega

/-! What the words become is what the ABI has. -/

theorem pairAddend_eq_ahl (word loWord : Word) : pairAddend word loWord = MipsAbi.ahl word loWord := by
  rw [pairAddend, MipsAbi.ahl]
  congr 1
  apply BitVec.eq_of_toNat_eq
  have masked : (word &&& 0xffff#32).toNat = word.toNat % 65536 := by
    rw [BitVec.toNat_and]
    exact Nat.and_two_pow_sub_one_eq_mod word.toNat 16
  rw [BitVec.toNat_shiftLeft, masked, BitVec.toNat_append, BitVec.toNat_setWidth, BitVec.toNat_ofNat, Nat.shiftLeft_eq,
    Nat.zero_mod, Nat.or_zero]
  omega

theorem r16_eq (word symbol : Word) : MipsAbi.r16 word symbol = addLow word symbol := by
  rw [addLow, setLow_eq, BitVec.add_comm]
  rfl

theorem lo16_eq (hiWord word symbol : Word) : MipsAbi.lo16 hiWord word symbol = addLow word symbol := by
  rw [← setLow_pairAddend hiWord, setLow_eq, pairAddend_eq_ahl]
  rfl

/-- The rounded high half is what is left without the signed low half. -/
theorem low_rounded (value : Word) :
    low ((value + 0x8000#32) >>> 16) = low ((value - MipsAbi.short value) >>> 16) := by
  apply BitVec.eq_of_toNat_eq
  have signed : (MipsAbi.short value).toNat = _ := toNat_signExtend16 value
  have bound := value.isLt
  rw [toNat_low, toNat_low, BitVec.toNat_ushiftRight, BitVec.toNat_ushiftRight, BitVec.toNat_add, BitVec.toNat_sub,
    Nat.shiftRight_eq_div_pow, Nat.shiftRight_eq_div_pow, signed]
  change (value.toNat + 32768) % 4294967296 / 65536 % 65536 = _
  split_ifs <;> omega

theorem hi16_eq (word loWord symbol : Word) : MipsAbi.hi16 word loWord symbol = addHigh word loWord symbol := by
  rw [addHigh, setLow_eq, low_rounded, pairAddend_eq_ahl]
  rfl

theorem r26_eq (word symbol : Word) : MipsAbi.r26 word symbol = addTarget word symbol := by
  rw [addTarget_eq, MipsAbi.r26]
  congr 1
  apply BitVec.eq_of_toNat_eq
  have shifted : ((word.setWidth 26 ++ 0#2).setWidth 32).toNat = word.toNat % 67108864 * 4 := by
    rw [BitVec.toNat_setWidth, BitVec.toNat_append, BitVec.toNat_setWidth, BitVec.toNat_ofNat, Nat.shiftLeft_eq,
      Nat.zero_mod, Nat.or_zero]
    omega
  rw [BitVec.toNat_setWidth, toNat_targetSum, BitVec.extractLsb'_toNat, BitVec.toNat_add, shifted,
    Nat.shiftRight_eq_div_pow]

end KosTool.Elf2irx
