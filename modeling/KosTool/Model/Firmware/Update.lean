import KosTool.Math.BlockCopy
import KosTool.Model.FirmwareIp

/-! # What is uploaded to replace a loader

`perform_update` of `firmware_update.c`: a trampoline for the console with the firmware image behind it. The trampolines are
machine code; they are listed here by their bytes.
-/

namespace KosTool.Firmware

open ByteWord

/-- `arch_update_params_t`; the size is patched inside the trampoline. -/
structure ArchUpdateParams where
  trampoline : List Byte
  sizePatchOffset : ℕ
  loadAddr : Word
  loaderBase : Word
  order : ByteOrder
  patch_inside : sizePatchOffset + 4 ≤ trampoline.length

/-- `sh4_trampoline`. -/
def sh4Trampoline : List Byte :=
  [
    0x0b, 0xd0, 0x0e, 0x40, 0x0b, 0xd4, 0x0c, 0xd5, 0x0c, 0xd6, 0x44, 0x60, 0x00, 0x25, 0x01, 0x75,
    0x10, 0x46, 0xfa, 0x8b, 0x0a, 0xd0, 0x0b, 0xd1, 0x12, 0x20, 0x09, 0x00, 0x09, 0x00, 0x09, 0x00,
    0x09, 0x00, 0x09, 0x00, 0x09, 0x00, 0x09, 0x00, 0x09, 0x00, 0x07, 0xd0, 0x2b, 0x40, 0x09, 0x00,
    0xf0, 0x00, 0x00, 0x50, 0x00, 0x01, 0x01, 0x8c, 0x00, 0x40, 0x00, 0x8c, 0x00, 0x00, 0x00, 0x00,
    0x1c, 0x00, 0x00, 0xff, 0x08, 0x08, 0x00, 0x00, 0x00, 0x40, 0x00, 0xac
  ] ++ List.replicate 180 0

/-- `ppc_trampoline`. -/
def ppcTrampoline : List Byte :=
  [
    0x3c, 0xe0, 0x80, 0x00, 0x38, 0x00, 0x20, 0x30, 0x7c, 0x00, 0x01, 0x24, 0x4c, 0x00, 0x01, 0x2c,
    0x3c, 0x20, 0x80, 0x20, 0x60, 0x21, 0x00, 0x00, 0x94, 0x01, 0xff, 0xf0, 0x80, 0x87, 0x31, 0x90,
    0x80, 0xa7, 0x31, 0x94, 0x80, 0xc7, 0x31, 0x98, 0x80, 0x67, 0x31, 0x9c, 0x7c, 0xa9, 0x2b, 0x78,
    0x7c, 0xca, 0x33, 0x78, 0x54, 0xc6, 0xf0, 0xbe, 0x7c, 0xc9, 0x03, 0xa6, 0x80, 0x04, 0x00, 0x00,
    0x90, 0x05, 0x00, 0x00, 0x38, 0x84, 0x00, 0x04, 0x38, 0xa5, 0x00, 0x04, 0x42, 0x00, 0xff, 0xf0,
    0x7d, 0x24, 0x4b, 0x78, 0x7c, 0xa9, 0x52, 0x14, 0x7c, 0x00, 0x20, 0xac, 0x38, 0x84, 0x00, 0x20,
    0x7c, 0x04, 0x28, 0x40, 0x41, 0x80, 0xff, 0xf4, 0x7c, 0x00, 0x04, 0xac, 0x7d, 0x24, 0x4b, 0x78,
    0x7c, 0x00, 0x27, 0xac, 0x38, 0x84, 0x00, 0x20, 0x7c, 0x04, 0x28, 0x40, 0x41, 0x80, 0xff, 0xf4,
    0x7c, 0x00, 0x04, 0xac, 0x4c, 0x00, 0x01, 0x2c, 0x7c, 0x69, 0x03, 0xa6, 0x4e, 0x80, 0x04, 0x20,
    0x80, 0x00, 0x32, 0x00, 0x81, 0x7e, 0xc0, 0x00, 0x00, 0x00, 0x00, 0x00, 0x81, 0x7e, 0xc0, 0x00
  ] ++ List.replicate 96 0

/-- `ppc_wii_trampoline`. -/
def ppcWiiTrampoline : List Byte :=
  [
    0x3c, 0xe0, 0x80, 0x00, 0x38, 0x00, 0x20, 0x30, 0x7c, 0x00, 0x01, 0x24, 0x4c, 0x00, 0x01, 0x2c,
    0x3c, 0x20, 0x80, 0x20, 0x60, 0x21, 0x00, 0x00, 0x94, 0x01, 0xff, 0xf0, 0x80, 0x87, 0x40, 0x90,
    0x80, 0xa7, 0x40, 0x94, 0x80, 0xc7, 0x40, 0x98, 0x80, 0x67, 0x40, 0x9c, 0x7c, 0xa9, 0x2b, 0x78,
    0x7c, 0xca, 0x33, 0x78, 0x54, 0xc6, 0xf0, 0xbe, 0x7c, 0xc9, 0x03, 0xa6, 0x80, 0x04, 0x00, 0x00,
    0x90, 0x05, 0x00, 0x00, 0x38, 0x84, 0x00, 0x04, 0x38, 0xa5, 0x00, 0x04, 0x42, 0x00, 0xff, 0xf0,
    0x7d, 0x24, 0x4b, 0x78, 0x7c, 0xa9, 0x52, 0x14, 0x7c, 0x00, 0x20, 0xac, 0x38, 0x84, 0x00, 0x20,
    0x7c, 0x04, 0x28, 0x40, 0x41, 0x80, 0xff, 0xf4, 0x7c, 0x00, 0x04, 0xac, 0x7d, 0x24, 0x4b, 0x78,
    0x7c, 0x00, 0x27, 0xac, 0x38, 0x84, 0x00, 0x20, 0x7c, 0x04, 0x28, 0x40, 0x41, 0x80, 0xff, 0xf4,
    0x7c, 0x00, 0x04, 0xac, 0x4c, 0x00, 0x01, 0x2c, 0x7c, 0x69, 0x03, 0xa6, 0x4e, 0x80, 0x04, 0x20,
    0x80, 0x00, 0x41, 0x00, 0x81, 0x33, 0x00, 0x00, 0x00, 0x00, 0x00, 0x00, 0x81, 0x33, 0x00, 0x00
  ] ++ List.replicate 96 0

/-- `mips_r5900_trampoline`. -/
def mipsR5900Trampoline : List Byte :=
  [
    0x00, 0x60, 0x09, 0x40, 0x04, 0x00, 0x29, 0x35, 0x00, 0x60, 0x89, 0x40, 0x0f, 0x04, 0x00, 0x00,
    0x10, 0x00, 0x08, 0x3c, 0xf8, 0x00, 0x10, 0x8d, 0x00, 0xa0, 0x19, 0x3c, 0x80, 0x02, 0x39, 0x37,
    0x00, 0x01, 0x18, 0x35, 0x00, 0x00, 0x00, 0x00, 0x00, 0x80, 0x08, 0x3c, 0x40, 0x00, 0x0a, 0x24,
    0x00, 0x00, 0x14, 0xbd, 0x0f, 0x00, 0x00, 0x00, 0x01, 0x00, 0x14, 0xbd, 0x0f, 0x00, 0x00, 0x00,
    0x40, 0x00, 0x08, 0x25, 0xff, 0xff, 0x4a, 0x25, 0xf9, 0xff, 0x40, 0x15, 0x00, 0x00, 0x00, 0x00,
    0x82, 0x88, 0x10, 0x00, 0x08, 0x00, 0x20, 0x12, 0x00, 0x00, 0x00, 0x00, 0x00, 0x00, 0x08, 0x8f,
    0x00, 0x00, 0x28, 0xaf, 0x04, 0x00, 0x18, 0x27, 0x04, 0x00, 0x39, 0x27, 0xff, 0xff, 0x31, 0x26,
    0xfa, 0xff, 0x20, 0x16, 0x00, 0x00, 0x00, 0x00, 0x0f, 0x00, 0x00, 0x00, 0x0f, 0x04, 0x00, 0x00,
    0x00, 0x80, 0x08, 0x3c, 0x00, 0x80, 0x0a, 0x3c, 0x00, 0x20, 0x4a, 0x35, 0x00, 0x00, 0x07, 0xbd,
    0x01, 0x00, 0x07, 0xbd, 0x40, 0x00, 0x08, 0x25, 0xfc, 0xff, 0x0a, 0x15, 0x00, 0x00, 0x00, 0x00,
    0x0f, 0x04, 0x00, 0x00, 0x00, 0x80, 0x08, 0x3c, 0x80, 0x02, 0x08, 0x35, 0x00, 0xf0, 0x88, 0x40,
    0x0f, 0x04, 0x00, 0x00, 0x00, 0x60, 0x09, 0x40, 0x04, 0x00, 0x29, 0x35, 0x00, 0x60, 0x89, 0x40,
    0x0f, 0x04, 0x00, 0x00, 0x18, 0x00, 0x00, 0x42, 0x00, 0x00, 0x00, 0x00
  ] ++ List.replicate 52 0

/-- `allegrex_trampoline`, with its destination at 0x1f0. -/
def allegrexTrampoline : List Byte :=
  [
    0x00, 0x60, 0x0e, 0x40, 0xfe, 0xff, 0x0f, 0x24, 0x24, 0x70, 0xcf, 0x01, 0x00, 0x60, 0x8e, 0x40,
    0x00, 0x00, 0x00, 0x00, 0x00, 0x00, 0x00, 0x00, 0x01, 0x00, 0x11, 0x04, 0x00, 0x00, 0x00, 0x00,
    0x20, 0x00, 0x0e, 0x24, 0x23, 0x40, 0xee, 0x03, 0xff, 0x1f, 0x0e, 0x3c, 0xff, 0xff, 0xce, 0x35,
    0x24, 0x50, 0x0e, 0x01, 0x00, 0x40, 0x0e, 0x3c, 0x25, 0x50, 0x4e, 0x01, 0x0c, 0x01, 0x0e, 0x24,
    0x21, 0x70, 0x0e, 0x01, 0x00, 0xc8, 0x8e, 0x40, 0x00, 0x00, 0x00, 0x00, 0x00, 0x00, 0x00, 0x00,
    0x00, 0x48, 0xce, 0x40, 0x00, 0x00, 0x00, 0x00, 0x00, 0x00, 0x00, 0x00, 0xf0, 0x01, 0x50, 0x8d,
    0xf8, 0x01, 0x4b, 0x8d, 0x00, 0x02, 0x4d, 0x25, 0x00, 0x08, 0x0e, 0x3c, 0x2b, 0x78, 0x0e, 0x02,
    0x28, 0x00, 0xe0, 0x15, 0x00, 0x00, 0x00, 0x00, 0x00, 0x0a, 0x0e, 0x3c, 0x2b, 0x78, 0x0e, 0x02,
    0x24, 0x00, 0xe0, 0x11, 0x00, 0x00, 0x00, 0x00, 0x22, 0x00, 0x60, 0x11, 0x00, 0x00, 0x00, 0x00,
    0x10, 0x00, 0x0e, 0x3c, 0x2b, 0x78, 0xcb, 0x01, 0x1e, 0x00, 0xe0, 0x15, 0x00, 0x00, 0x00, 0x00,
    0x25, 0x60, 0x00, 0x02, 0x25, 0x78, 0x00, 0x02, 0x03, 0x00, 0x6b, 0x25, 0xfc, 0xff, 0x0e, 0x24,
    0x24, 0x58, 0x6e, 0x01, 0x25, 0xc0, 0x60, 0x01, 0x08, 0x00, 0x60, 0x11, 0x00, 0x00, 0x00, 0x00,
    0x00, 0x00, 0xae, 0x8d, 0x00, 0x00, 0x8e, 0xad, 0x04, 0x00, 0xad, 0x25, 0x04, 0x00, 0x8c, 0x25,
    0xfc, 0xff, 0x6b, 0x25, 0xfa, 0xff, 0x60, 0x15, 0x00, 0x00, 0x00, 0x00, 0x21, 0xc8, 0xf8, 0x01,
    0x07, 0x00, 0x00, 0x13, 0x00, 0x00, 0x00, 0x00, 0x00, 0x00, 0xfb, 0xbd, 0x00, 0x00, 0xe8, 0xbd,
    0x40, 0x00, 0xef, 0x25, 0x2b, 0x70, 0xf9, 0x01, 0xfb, 0xff, 0xc0, 0x15, 0x00, 0x00, 0x00, 0x00,
    0x0f, 0x00, 0x00, 0x00, 0x08, 0x00, 0x00, 0x02, 0x00, 0x00, 0x00, 0x00, 0xff, 0xff, 0x00, 0x10,
    0x00, 0x00, 0x00, 0x00, 0xff, 0xff, 0x00, 0x10, 0x00, 0x00, 0x00, 0x00
  ] ++ List.replicate 212 0 ++ [0x00, 0x00, 0x00, 0x08] ++ List.replicate 12 0

/-- `i386_xbox_trampoline`. -/
def i386XboxTrampoline : List Byte :=
  [
    0xfa, 0xfc, 0x0f, 0x20, 0xc0, 0x89, 0xc3, 0x25, 0xff, 0xff, 0xfe, 0xff, 0x0f, 0x22, 0xc0, 0xbc,
    0x00, 0xc0, 0x03, 0x02, 0xbe, 0x00, 0xc1, 0x03, 0x00, 0xbf, 0x00, 0x10, 0x01, 0x00, 0xb9, 0x00,
    0x00, 0x00, 0x00, 0xf3, 0xa4, 0x0f, 0x09, 0x0f, 0x22, 0xc3, 0xb8, 0x20, 0x10, 0x01, 0x00, 0xff,
    0xe0
  ] ++ List.replicate 207 0

def sh4Params : ArchUpdateParams := ⟨sh4Trampoline, 0x3c, 0x8c010000, 0x8c004000, .little, by decide +kernel⟩
def ppcParams : ArchUpdateParams := ⟨ppcTrampoline, 0x98, 0x80003100, 0x817ec000, .big, by decide +kernel⟩
def ppcWiiParams : ArchUpdateParams := ⟨ppcWiiTrampoline, 0x98, 0x80004000, 0x81330000, .big, by decide +kernel⟩
def mipsR5900Params : ArchUpdateParams := ⟨mipsR5900Trampoline, 0xf8, 0x00100000, 0x80000280, .little, by decide +kernel⟩
def allegrexParams : ArchUpdateParams := ⟨allegrexTrampoline, 0x1f8, 0x08804000, 0x08000000, .little, by decide +kernel⟩
def i386XboxParams : ArchUpdateParams := ⟨i386XboxTrampoline, 31, 0x0003c000, 0x00011000, .little, by decide +kernel⟩

/-- The image as it is uploaded: with the address patched in, if there is one to patch and a place for it. -/
def firmwareImage (fwData : Buffer) (fwSize : ℕ) (patchIp : Option CString) : Buffer :=
  (patchIp.bind fun ip => Host.patchFirmwareIp fwData fwSize ip).getD fwData

/-- The blob of `perform_update`: the trampoline, the image, and the size of the image in the trampoline. -/
def updateBlob (arch : ArchUpdateParams) (image : Buffer) (fwSize : ℕ) : Buffer :=
  storeAt (overlay arch.trampoline fun i => image (i - arch.trampoline.length)) arch.sizePatchOffset
    (be32 (arch.order.htonl (BitVec.ofNat 32 fwSize)))

section Blob

variable (arch : ArchUpdateParams) (image : Buffer) (fwSize : ℕ)

/-- The rest of the trampoline is uploaded as it is. -/
theorem updateBlob_code {i : ℕ} (inside : i < arch.trampoline.length)
    (apart : i < arch.sizePatchOffset ∨ arch.sizePatchOffset + 4 ≤ i) :
    updateBlob arch image fwSize i = overlay arch.trampoline (fun _ => 0) i := by
  rw [updateBlob, storeAt_outside _ apart, overlay_of_lt inside, overlay_of_lt inside]

/-- The size as the trampoline loads it. -/
theorem load32_updateBlob :
    arch.order.load32 (updateBlob arch image fwSize) arch.sizePatchOffset = BitVec.ofNat 32 fwSize := by
  rw [ByteOrder.load32, updateBlob, readBe32_storeAt_self, ByteOrder.htonl_htonl]

theorem updateBlob_image (i : ℕ) : updateBlob arch image fwSize (arch.trampoline.length + i) = image i := by
  have inside := arch.patch_inside
  rw [updateBlob, storeAt_outside _ (by rw [length_be32]; omega), overlay_of_le (Nat.le_add_right _ _),
    Nat.add_sub_cancel_left]

variable {arch}

/-- A word of the trampoline, where it is uploaded. -/
theorem readBe32_code {mem : Buffer} {base i : ℕ} (inside : i + 4 ≤ arch.trampoline.length)
    (uploaded : ∀ j < 4, mem (base + i + j) = updateBlob arch image fwSize (i + j))
    (apart : i + 4 ≤ arch.sizePatchOffset ∨ arch.sizePatchOffset + 4 ≤ i) :
    readBe32 mem (base + i) = readBe32 (overlay arch.trampoline fun _ => 0) i := by
  apply readBe32_of_slice
  rw [BlockCopy.be32_readBe32_slice]
  refine slice_congr fun j below => ?_
  rw [uploaded j below]
  exact updateBlob_code arch image fwSize (by omega) (by omega)

/-- The word of the size, where it is uploaded. -/
theorem load32_size {mem : Buffer} {base : ℕ}
    (uploaded : ∀ j < arch.trampoline.length, mem (base + j) = updateBlob arch image fwSize j) :
    arch.order.load32 mem (base + arch.sizePatchOffset) = BitVec.ofNat 32 fwSize := by
  have inside := arch.patch_inside
  rw [← load32_updateBlob arch image fwSize, ByteOrder.load32, ByteOrder.load32]
  congr 1
  apply readBe32_of_slice
  rw [BlockCopy.be32_readBe32_slice]
  refine slice_congr fun j below => ?_
  rw [Nat.add_assoc]
  exact uploaded _ (by omega)

end Blob

end KosTool.Firmware
