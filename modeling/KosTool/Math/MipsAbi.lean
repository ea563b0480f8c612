import KosTool.Math.ByteWord

/-! # The relocations of MIPS words

The calculations of the MIPS ABI for the value of a symbol, with the addends that the words hold. A word keeps what is
outside the field that is relocated.
-/

namespace MipsAbi

/-- The signed half-word at the end of a word. -/
def short (word : Word) : Word := (word.setWidth 16).signExtend 32

/-- The last half-word of a word is replaced. -/
def half (word value : Word) : Word := word.extractLsb' 16 16 ++ value.setWidth 16

/-- The combined addend of a HI16 and its LO16. -/
def ahl (hi lo : Word) : Word := (hi.setWidth 16 ++ 0#16) + short lo

/-- `R_MIPS_16` -/
def r16 (word symbol : Word) : Word := half word (symbol + short word)

/-- `R_MIPS_32` -/
def r32 (word symbol : Word) : Word := symbol + word

/-- `R_MIPS_26` -/
def r26 (word symbol : Word) : Word :=
  word.extractLsb' 26 6 ++ ((word.setWidth 26 ++ 0#2).setWidth 32 + symbol).extractLsb' 2 26

/-- `R_MIPS_HI16`, of a HI16 with its LO16. -/
def hi16 (hi lo symbol : Word) : Word :=
  half hi ((ahl hi lo + symbol - short (ahl hi lo + symbol)) >>> 16)

/-- `R_MIPS_LO16`, of a LO16 with its HI16. -/
def lo16 (hi lo symbol : Word) : Word := half lo (ahl hi lo + symbol)

end MipsAbi
