import KosTool.Model.Disc.Iso9660

/-! # An ISO 9660 image as it is read

The reader finds the root directory by the volume descriptor and goes through its records, and finds the boot file by the
boot record and its catalog. Each of these is read as it is written.
-/

namespace KosTool.IsoLite

open ByteWord WordPatch Placement Extent

section Reader

/-- A sector of an image. -/
def sectorAt (image : List Byte) (lba : ℕ) : List Byte := cut image ⟨2048 * lba, 2048⟩

/-- Bytes to read numbers from. -/
def words (bytes : List Byte) : Buffer := overlay bytes fun _ => 0

def readRecord (bytes : List Byte) : Record :=
  ⟨rd32 (words bytes) 2, rd32 (words bytes) 10, words bytes 25, slice (words bytes) 33 (words bytes 32).toNat⟩

/-- The records of a directory, up to a length of zero. -/
def readRecords : ℕ → List Byte → List Record
  | 0, _ => []
  | steps + 1, bytes =>
    if words bytes 0 = 0#8 then [] else readRecord bytes :: readRecords steps (bytes.drop (words bytes 0).toNat)

/-- The sector of the image that an address means. Addresses are counted in 32 bits. -/
def imageSector (config : Config) (address : Word) : ℕ := (address - config.startLba).toNat

/-- The record of the root directory in the volume descriptor. -/
def rootRecord (image : List Byte) : Record := readRecord (cut (sectorAt image 16) ⟨156, 34⟩)

/-- The records of the root directory. -/
def directory (config : Config) (image : List Byte) : List Record :=
  let root := rootRecord image
  readRecords root.size.toNat (cut image ⟨2048 * imageSector config root.extent, root.size.toNat⟩)

/-- The sector of the boot catalog. -/
def catalogSector (config : Config) (image : List Byte) : ℕ := imageSector config (rd32 (words (sectorAt image 17)) 71)

/-- What the catalog says of the boot file. -/
structure BootEntry where
  load : ℕ
  address : Word

def bootEntry (config : Config) (image : List Byte) : BootEntry :=
  let catalog := words (sectorAt image (catalogSector config image))
  ⟨(catalog 0x26).toNat + 256 * (catalog 0x27).toNat, rd32 catalog 0x28⟩

end Reader

section Records

variable {r : Record}

theorem dirRecordLength_le (nameLength : ℕ) : 33 + nameLength ≤ dirRecordLength nameLength ∧
    dirRecordLength nameLength ≤ 34 + nameLength := by
  rw [dirRecordLength]
  split_ifs <;> omega

@[simp] theorem length_dirRecord (time : Fin 7 → Byte) (r : Record) :
    (dirRecord time r).length = dirRecordLength r.name.length := by
  have bounds := dirRecordLength_le r.name.length
  simp only [dirRecord, List.length_append, List.length_cons, List.length_nil, length_le32, length_be32, List.length_ofFn,
    length_both16, length_zeros]
  omega

/-- A part of some bytes is read where it stands. -/
theorem slice_words {bytes : List Byte} {offset count : ℕ} (inside : offset + count ≤ bytes.length) :
    slice (words bytes) offset count = cut bytes ⟨offset, count⟩ := by
  apply List.ext_getElem
  · rw [length_slice, cut, List.length_take, List.length_drop]
    dsimp only
    omega
  · intro i left right
    rw [length_slice] at left
    rw [getElem_slice, words, overlay_of_lt (show offset + i < bytes.length by omega)]
    simp only [cut, List.getElem_take, List.getElem_drop]

/-- A record is read as it is written, whatever stands behind it. -/
theorem readRecord_dirRecord (time : Fin 7 → Byte) (short : r.name.length < 256) (rest : List Byte) :
    readRecord (dirRecord time r ++ rest) = r := by
  have bounds := dirRecordLength_le r.name.length
  have total : (dirRecord time r ++ rest).length = dirRecordLength r.name.length + rest.length := by
    rw [List.length_append, length_dirRecord]
  have extent : rd32 (words (dirRecord time r ++ rest)) 2 = r.extent :=
    rd32_of_slice (slice_words (by omega))
  have size : rd32 (words (dirRecord time r ++ rest)) 10 = r.size :=
    rd32_of_slice (slice_words (by omega))
  have flags : words (dirRecord time r ++ rest) 25 = r.flags := rfl
  have length : (words (dirRecord time r ++ rest) 32).toNat = r.name.length := by
    have byte : words (dirRecord time r ++ rest) 32 = BitVec.ofNat 8 r.name.length := rfl
    rw [byte, BitVec.toNat_ofNat, Nat.mod_eq_of_lt short]
  have behind : (dirRecord time r ++ rest).drop 33 =
      r.name ++ (zeros (dirRecordLength r.name.length - (33 + r.name.length)) ++ rest) := by
    rw [dirRecord, List.append_assoc, List.append_assoc]
    rfl
  rw [readRecord, extent, size, flags, length, slice_words (by omega), cut]
  dsimp only
  rw [behind, List.take_left]

/-- The records of a directory are read as they are written. -/
theorem readRecords_dirRecords {records : List Record} (short : ∀ r ∈ records, r.name.length < 200) (time : ℕ → Fin 7 → Byte)
    {steps i : ℕ} (enough : records.length < steps) (rest : ℕ) :
    readRecords steps (((records.zipIdx i).flatMap fun (r, i) => dirRecord (time i) r) ++ zeros rest) = records := by
  induction records generalizing steps i with
  | nil =>
    cases steps with
    | zero => nomatch enough
    | succ steps =>
      have none : words (zeros rest) 0 = 0#8 := by
        cases rest with
        | zero => rfl
        | succ rest => rfl
      rw [List.zipIdx_nil, List.flatMap_nil, List.nil_append, readRecords, if_pos none]
  | cons r records ih =>
    cases steps with
    | zero => nomatch enough
    | succ steps =>
      have small := short r List.mem_cons_self
      have bounds := dirRecordLength_le r.name.length
      rw [List.zipIdx_cons, List.flatMap_cons, List.append_assoc]
      generalize others : (List.flatMap _ _ ++ zeros rest) = behind
      have byte : words (dirRecord (time i) r ++ behind) 0 = BitVec.ofNat 8 (dirRecordLength r.name.length) := rfl
      have length : (words (dirRecord (time i) r ++ behind) 0).toNat = (dirRecord (time i) r).length := by
        rw [byte, BitVec.toNat_ofNat, length_dirRecord, Nat.mod_eq_of_lt (by omega)]
      have some : ¬words (dirRecord (time i) r ++ behind) 0 = 0#8 := by
        intro zero
        rw [zero, length_dirRecord] at length
        change 0 = _ at length
        omega
      have more : records.length < steps := by
        rw [List.length_cons] at enough
        omega
      rw [readRecords, if_neg some, readRecord_dirRecord (time i) (by omega), length, List.drop_left, ← others,
        ih (fun r member => short r (List.mem_cons_of_mem _ member)) more]

end Records

section Sectors

variable {pieces : List Piece}

/-- A part of a sector is that of what was placed in it. -/
theorem cut_sector {offset count : ℕ} (inside : offset + count ≤ 2048) :
    cut (sector pieces) ⟨offset, count⟩ = slice (place pieces fun _ => 0) offset count := by
  have part := slice_slice (place pieces fun _ => 0) 0 inside
  rw [Nat.zero_add] at part
  exact part.symm

theorem slice_sector {offset count : ℕ} (inside : offset + count ≤ 2048) :
    slice (words (sector pieces)) offset count = slice (place pieces fun _ => 0) offset count := by
  rw [slice_words (by rwa [length_sector]), cut_sector inside]

/-- A piece of a sector is found where it was placed. -/
theorem slice_sector_piece (clear : pieces.Pairwise fun first second => first.extent.Clear second.extent) {offset : ℕ}
    {bytes : List Byte} (inside : offset + bytes.length ≤ 2048) (member : ⟨offset, bytes⟩ ∈ pieces) :
    slice (words (sector pieces)) offset bytes.length = bytes := by
  rw [slice_sector inside]
  exact slice_place clear member _

end Sectors

end KosTool.IsoLite
