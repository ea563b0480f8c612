import KosTool.Math.SlotTable

/-! # The date in the system settings of the Dreamcast

`client/dreamcast/target.c`: `update_flashrom_syscfg` copies the newest block of settings with a new date to the first unused
slot of partition 2. The flash calls of the BIOS are parameters: what they report, which reads succeed, what programming does to
a byte, and for each write how far it has come.
-/

namespace KosTool.Dreamcast

open ByteWord BitTable

/-- `FLASHROM_BLOCK_SIZE`. -/
abbrev flashromBlockSize : ℕ := 64
/-- `FLASHROM_BITMAP_MAX_BYTES`. -/
abbrev flashromBitmapMaxBytes : ℕ := 64
/-- `FLASHROM_OFFSET_CRC`. -/
abbrev flashromOffsetCrc : ℕ := 62
/-- `FLASHROM_BLOCK_ID_SYSCFG`. -/
abbrev flashromBlockIdSyscfg : ℕ := 5

/-- A partition, as `fr_info` reports it. -/
structure Partition where
  start : ℕ
  size : ℕ
deriving DecidableEq, Repr

namespace Partition

variable (part : Partition)

/-- `num_blocks`. -/
def numBlocks : ℕ := part.size / flashromBlockSize

/-- `bmcnt`: a bit for each block, rounded up to 64 bytes. -/
def bmcnt : ℕ := (part.numBlocks + 64 * 8 - 1) / (64 * 8) * (64 * 8) / 8

/-- Where the bitmap is, and the block of a slot. -/
def bitmapPos : ℕ := part.start + part.size - part.bmcnt
def slotPos (slot : ℕ) : ℕ := part.start + (slot + 1) * flashromBlockSize

end Partition

/-- The flash calls of the BIOS for partition 2. To program a byte to some of its own set bits clears the others. -/
structure FlashBios where
  info : Option Partition
  reads : ℕ → Bool
  program : Byte → Byte → Byte
  clears : ∀ stale mask, program stale (stale &&& mask) = stale &&& mask

/-- How a write ends: what it returns, and which of its bytes it has programmed. -/
structure FlashWrite where
  rc : ℤ
  programmed : ℕ → Bool
  done : 0 ≤ rc → ∀ i, programmed i = true

/-- `flashrom_crc`. -/
def flashromCrc (buf : List Byte) : BitVec 16 :=
  let step (n : Word) (byte : Byte) : Word :=
    (List.range 8).foldl (fun n _ => if n &&& 0x8000 ≠ 0 then (n <<< 1) ^^^ 4129 else n <<< 1) (n ^^^ (byte.setWidth 32 <<< 8))
  (~~~((buf.take flashromOffsetCrc).foldl step 0xffff)).setWidth 16

/-- The little-endian halfword at a place of a block. -/
def halfAt (block : List Byte) (i : ℕ) : BitVec 16 :=
  (block.getD i 0).setWidth 16 ||| ((block.getD (i + 1) 0).setWidth 16 <<< 8)

/-- The block is a block of settings with its checksum. -/
def isSyscfg (block : List Byte) : Bool :=
  (halfAt block 0).toNat = flashromBlockIdSyscfg ∧ flashromCrc block = halfAt block flashromOffsetCrc

/-- The block with another date, and the checksum for it. -/
def redate (block : List Byte) (aicaTime : Word) : List Byte :=
  let dated := (((block.set 2 (aicaTime.setWidth 8)).set 3 ((aicaTime >>> 8).setWidth 8)).set 4
    ((aicaTime >>> 16).setWidth 8)).set 5 ((aicaTime >>> 24).setWidth 8)
  let crc := flashromCrc dated
  (dated.set flashromOffsetCrc (crc.setWidth 8)).set (flashromOffsetCrc + 1) ((crc >>> 8).setWidth 8)

/-- The block of a slot. -/
def readSlot (flash : Buffer) (part : Partition) (slot : ℕ) : List Byte := slice flash (part.slotPos slot) flashromBlockSize

/-- The scan for the newest block of settings, from a slot down to slot 1. -/
def scanSyscfg (bios : FlashBios) (flash : Buffer) (part : Partition) (bitmap : List Byte) : ℕ → Option ℕ
  | 0 => none
  | slot + 1 =>
    if bit bitmap (slot + 1) then scanSyscfg bios flash part bitmap slot
    else if bios.reads (part.slotPos (slot + 1)) = false then scanSyscfg bios flash part bitmap slot
    else if isSyscfg (readSlot flash part (slot + 1)) = false then scanSyscfg bios flash part bitmap slot
    else some (slot + 1)

/-- The first unused slot, behind slot 0. -/
def freeSlot (part : Partition) (bitmap : List Byte) : Option ℕ :=
  (List.range' 1 (part.numBlocks - 1)).find? (bit bitmap)

/-- What is in flash behind a write. -/
def FlashBios.write (bios : FlashBios) (flash : Buffer) (pos : ℕ) (data : List Byte) (done : FlashWrite) : Buffer := fun a =>
  if pos ≤ a ∧ a < pos + data.length ∧ done.programmed (a - pos) = true then bios.program (flash a) (data.getD (a - pos) 0)
  else flash a

/-- The bitmap, if the checks of the partition pass and it can be read. -/
def FlashBios.bitmap (bios : FlashBios) (flash : Buffer) (part : Partition) : Option (List Byte) :=
  if part.size < flashromBlockSize * 2 then none
  else if flashromBitmapMaxBytes < part.bmcnt then none
  else if bios.reads part.bitmapPos = false then none
  else some (slice flash part.bitmapPos part.bmcnt)

/-- A write to flash. -/
structure FlashStore where
  pos : ℕ
  data : List Byte
deriving DecidableEq, Repr

/-- The write that marks a slot as used, and the one of its block. -/
def Partition.mark (part : Partition) (bitmap : List Byte) (slot : ℕ) : FlashStore :=
  ⟨part.bitmapPos + slot / 8, [cleared bitmap slot]⟩
def Partition.store (part : Partition) (slot : ℕ) (block : List Byte) : FlashStore := ⟨part.slotPos slot, block⟩

/-- `update_flashrom_syscfg`: what it leaves in flash, and its writes. -/
def updateFlashromSyscfg (bios : FlashBios) (flash : Buffer) (aicaTime : Word) (marking storing : FlashWrite) :
    Buffer × List FlashStore :=
  match bios.info with
  | none => (flash, [])
  | some part =>
    match bios.bitmap flash part with
    | none => (flash, [])
    | some bitmap =>
      match scanSyscfg bios flash part bitmap (part.numBlocks - 1) with
      | none => (flash, [])
      | some found =>
        let block := redate (readSlot flash part found) aicaTime
        match freeSlot part bitmap with
        | none => (flash, [])
        | some slot =>
          let mark := part.mark bitmap slot
          let marked := bios.write flash mark.pos mark.data marking
          if marking.rc < 0 then (marked, [mark])
          else
            let store := part.store slot block
            (bios.write marked store.pos store.data storing, [mark, store])

end KosTool.Dreamcast
