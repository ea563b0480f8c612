import KosTool.Math.CodeWords
import KosTool.Math.Placement
import KosTool.Model.Disc.Cdi

/-! # The codes of a disc sector

The error detection code is the bitwise check of the bytes before it, and with the parity bytes every column and every
diagonal of a sector, the parity bytes of the columns among the diagonals, is a code word.
-/

namespace KosTool.Cdi

open ByteWord CyclicRedundancy ReedSolomon WordPatch

variable {raw : Buffer} {i major majorCount minorCount majorMult minorInc dest : ℕ}

section Tables

/-- The polynomial of the error detection code, reflected. -/
abbrev edcPoly : Word := 0xd8018001

theorem edcBit_eq (r : Word) : edcBit r = shift edcPoly r := by
  have low : (r &&& 1 ≠ 0) ↔ r.getLsbD 0 := by
    rw [show (1 : Word) = 1#32 from rfl, BitVec.and_one_eq_setWidth_ofBool_getLsbD]
    cases r.getLsbD 0
    · exact iff_of_false (fun some => some rfl) Bool.false_ne_true
    · exact iff_of_true (by decide) rfl
  rw [edcBit, shift, crcBit, Bool.xor_false]
  simp only [low]

theorem eccDouble_eq : ∀ byte : Byte, eccDouble byte = double byte := by decide

/-- The entries that some passes leave. -/
theorem initTables_entries (bytes : List Byte) (tables : DcdiscTables) {byte : Byte} (member : byte ∈ bytes) :
    (bytes.foldl initTablesAt tables).edcTable byte = (shift edcPoly)^[8] (byte.setWidth 32) ∧
    (bytes.foldl initTablesAt tables).eccFLut byte = double byte ∧
    (bytes.foldl initTablesAt tables).eccBLut (byte ^^^ double byte) = byte := by
  induction bytes using List.reverseRecOn with
  | nil => nomatch member
  | append_singleton bytes last ih =>
    have same : edcBit = shift edcPoly := funext edcBit_eq
    rw [List.foldl_append, List.foldl_cons, List.foldl_nil]
    simp only [initTablesAt, eccDouble_eq, same]
    by_cases here : byte = last
    · rw [here, Function.update_self, Function.update_self, Function.update_self]
      exact ⟨rfl, rfl, rfl⟩
    · have before : byte ∈ bytes := by
        rcases List.mem_append.mp member with before | here'
        · exact before
        · exact absurd (List.mem_singleton.mp here') here
      have apart : byte ^^^ double byte ≠ last ^^^ double last := fun same => here (double_add_injective same)
      rw [Function.update_of_ne here, Function.update_of_ne here, Function.update_of_ne apart]
      exact ih before

theorem initTables_byte (byte : Byte) : dcdiscInitTables.edcTable byte = (shift edcPoly)^[8] (byte.setWidth 32) ∧
    dcdiscInitTables.eccFLut byte = double byte ∧ dcdiscInitTables.eccBLut (byte ^^^ double byte) = byte := by
  have named : BitVec.ofNat 8 byte.toNat = byte := (BitVec.ofNat_toNat 8 byte).trans byte.setWidth_eq
  exact initTables_entries _ _ (List.mem_map.mpr ⟨byte.toNat, List.mem_range.mpr byte.isLt, named⟩)

/-- The table of inverses inverts: every byte is the sum of a byte and its double. -/
theorem initTables_inverse (byte : Byte) :
    dcdiscInitTables.eccBLut byte ^^^ double (dcdiscInitTables.eccBLut byte) = byte := by
  have : Finite Byte := Finite.of_injective BitVec.toFin fun _ _ same => BitVec.toFin_inj.mp same
  obtain ⟨root, sum⟩ := Finite.injective_iff_surjective.mp double_add_injective byte
  dsimp only at sum
  rw [← sum, (initTables_byte root).2.2]

/-- The table loop computes the bitwise check. -/
theorem dcdiscBuildEdc_eq (data : Buffer) (start last : ℕ) :
    dcdiscBuildEdc dcdiscInitTables data start last = crc edcPoly (slice data start (last + 1 - start)) := by
  have step (edc : Word) (byte : Byte) :
      (edc >>> 8) ^^^ dcdiscInitTables.edcTable ((edc ^^^ byte.setWidth 32).setWidth 8) = crcBits edcPoly edc byte 8 := by
    rw [crcBits_table edc byte (by decide), (initTables_byte _).1]
  rw [dcdiscBuildEdc, crc, slice, List.range'_eq_map_range, List.foldl_map, List.foldl_map]
  simp only [step]

end Tables

section Ecc

/-- The symbols that the loop over `minor` has read after some passes. -/
noncomputable def symbols (raw : Buffer) (size minorInc start count : ℕ) : List Gf256 :=
  (List.range count).map fun minor => ofByte (raw (12 + (start + minor * minorInc) % size))

theorem symbols_succ (raw : Buffer) (size minorInc start count : ℕ) : symbols raw size minorInc start (count + 1) =
    symbols raw size minorInc start count ++ [ofByte (raw (12 + (start + count * minorInc) % size))] := by
  rw [symbols, List.range_succ, List.map_append, List.map_singleton, symbols]

/-- What the loop over `minor` holds after some passes. -/
structure EccHolds (raw : Buffer) (size minorInc start count : ℕ) (loop : EccLoop) : Prop where
  index : loop.index = (start + count * minorInc) % size
  weighted : ofByte loop.eccA = (symbols raw size minorInc start count).foldl (fun sum symbol => alpha * (sum + symbol)) 0
  plain : ofByte loop.eccB = (symbols raw size minorInc start count).sum

theorem eccMinor_holds {size start count : ℕ} {loop : EccLoop} (some : 0 < size) (short : minorInc ≤ size)
    (holds : EccHolds raw size minorInc start count loop) :
    EccHolds raw size minorInc start (count + 1) (eccMinor dcdiscInitTables raw size minorInc loop) where
  index := by
    have inside := Nat.mod_lt (start + count * minorInc) some
    have next : start + (count + 1) * minorInc = start + count * minorInc + minorInc := by ring
    rw [eccMinor, next, holds.index, Nat.add_mod (start + count * minorInc)]
    dsimp only
    generalize (start + count * minorInc) % size = place at inside
    by_cases whole : minorInc = size
    · rw [whole, if_pos (Nat.le_add_left _ _), Nat.mod_self, Nat.add_zero, Nat.mod_eq_of_lt inside, Nat.add_sub_cancel]
    · rw [Nat.mod_eq_of_lt (by omega : minorInc < size)]
      split_ifs with behind
      · rw [Nat.mod_eq_sub_mod behind, Nat.mod_eq_of_lt (by omega)]
      · rw [Nat.mod_eq_of_lt (Nat.lt_of_not_le behind)]
  weighted := by
    rw [eccMinor, symbols_succ, List.foldl_append, List.foldl_cons, List.foldl_nil, ← holds.weighted, (initTables_byte _).2.1,
      ofByte_double, ofByte_xor, holds.index]
  plain := by
    rw [eccMinor, symbols_succ, List.sum_append, List.sum_singleton, ← holds.plain, ofByte_xor, holds.index]

theorem eccLoop_holds (raw : Buffer) {size start : ℕ} (inside : start < size) (short : minorInc ≤ size) (count : ℕ) :
    EccHolds raw size minorInc start count ((eccMinor dcdiscInitTables raw size minorInc)^[count] ⟨start, 0, 0⟩) := by
  induction count with
  | zero =>
    refine ⟨?_, ofByte_zero, ofByte_zero⟩
    rw [Nat.zero_mul, Nat.add_zero, Nat.mod_eq_of_lt inside]
    rfl
  | succ count ih =>
    rw [Function.iterate_succ_apply']
    exact eccMinor_holds (Nat.zero_lt_of_lt inside) short ih

/-- The first parity byte of a column. -/
def parityA (raw : Buffer) (majorCount minorCount majorMult minorInc major : ℕ) : Byte :=
  let loop := (eccMinor dcdiscInitTables raw (majorCount * minorCount) minorInc)^[minorCount] ⟨eccStart majorMult major, 0, 0⟩
  dcdiscInitTables.eccBLut (dcdiscInitTables.eccFLut loop.eccA ^^^ loop.eccB)

/-- The second parity byte of a column. -/
def parityB (raw : Buffer) (majorCount minorCount majorMult minorInc major : ℕ) : Byte :=
  let loop := (eccMinor dcdiscInitTables raw (majorCount * minorCount) minorInc)^[minorCount] ⟨eccStart majorMult major, 0, 0⟩
  parityA raw majorCount minorCount majorMult minorInc major ^^^ loop.eccB

/-- The parity bytes complete what the loop has read to a code word. -/
theorem parity_codeword (raw : Buffer) (inside : eccStart majorMult major < majorCount * minorCount)
    (short : minorInc ≤ majorCount * minorCount) :
    IsCodeword alpha (symbols raw (majorCount * minorCount) minorInc (eccStart majorMult major) minorCount ++
      [ofByte (parityA raw majorCount minorCount majorMult minorInc major),
        ofByte (parityB raw majorCount minorCount majorMult minorInc major)]) := by
  have holds := eccLoop_holds raw inside short minorCount
  rw [parityB, ofByte_xor, holds.plain]
  refine isCodeword_parity two_eq_zero ?_
  have inverse := congrArg ofByte (initTables_inverse (dcdiscInitTables.eccFLut
    ((eccMinor dcdiscInitTables raw (majorCount * minorCount) minorInc)^[minorCount] ⟨eccStart majorMult major, 0, 0⟩).eccA ^^^
    ((eccMinor dcdiscInitTables raw (majorCount * minorCount) minorInc)^[minorCount] ⟨eccStart majorMult major, 0, 0⟩).eccB))
  rw [ofByte_xor, ofByte_double, ofByte_xor, (initTables_byte _).2.1, ofByte_double, holds.plain, holds.weighted, horner_eq,
    add_comm] at inverse
  rw [parityA, (initTables_byte _).2.1]
  exact inverse

/-- The loop reads nothing behind the bytes that it covers. -/
theorem eccLoop_congr {first second : Buffer} {size start : ℕ} (same : ∀ i < size, first (12 + i) = second (12 + i))
    (inside : start < size) (short : minorInc ≤ size) (count : ℕ) :
    (eccMinor dcdiscInitTables first size minorInc)^[count] ⟨start, 0, 0⟩ =
      (eccMinor dcdiscInitTables second size minorInc)^[count] ⟨start, 0, 0⟩ := by
  induction count with
  | zero => rfl
  | succ count ih =>
    have holds := eccLoop_holds second inside short count
    have here := same _ (Nat.mod_lt (start + count * minorInc) (Nat.zero_lt_of_lt inside))
    rw [Function.iterate_succ_apply', Function.iterate_succ_apply', ih, eccMinor, eccMinor, holds.index, here]

/-- What the loop over `major` has done after some passes. -/
theorem eccMajor_run (raw : Buffer) (behind : 12 + majorCount * minorCount ≤ dest)
    (starts : ∀ major < majorCount, eccStart majorMult major < majorCount * minorCount)
    (short : minorInc ≤ majorCount * minorCount) {count : ℕ} (bound : count ≤ majorCount) :
    let after := (List.range count).foldl (eccMajor dcdiscInitTables majorCount minorCount majorMult minorInc dest) raw
    (∀ i < dest, after i = raw i) ∧ ∀ major < count,
      after (dest + major) = parityA raw majorCount minorCount majorMult minorInc major ∧
      after (dest + major + majorCount) = parityB raw majorCount minorCount majorMult minorInc major := by
  induction count with
  | zero => exact ⟨fun _ _ => rfl, fun _ none => absurd none (Nat.not_lt_zero _)⟩
  | succ count ih =>
    obtain ⟨kept, done⟩ := ih (Nat.le_of_succ_le bound)
    have loops := eccLoop_congr (fun i inside => kept (12 + i) (by omega)) (starts count bound) short minorCount
    dsimp only at kept done loops ⊢
    rw [List.range_succ, List.foldl_append, List.foldl_cons, List.foldl_nil]
    rw [eccMajor, loops]
    refine ⟨fun i inside => ?_, fun major below => ?_⟩
    · rw [Function.update_of_ne (by omega), Function.update_of_ne (by omega), kept i inside]
    · by_cases last : major = count
      · rw [last, Function.update_self, Function.update_of_ne (by omega), Function.update_self]
        exact ⟨rfl, rfl⟩
      · rw [Function.update_of_ne (by omega), Function.update_of_ne (by omega), Function.update_of_ne (by omega),
          Function.update_of_ne (by omega)]
        exact done major (by omega)

/-- A column of `dcdisc_encode_ecc`: the bytes that it reads, and its parity bytes. -/
def eccColumn (sector : Buffer) (majorCount minorCount majorMult minorInc dest major : ℕ) : List Byte :=
  (List.range minorCount).map (fun minor =>
    sector (12 + (eccStart majorMult major + minor * minorInc) % (majorCount * minorCount))) ++
  [sector (dest + major), sector (dest + major + majorCount)]

/-- The pass changes nothing in front of its parity bytes, and every column is a code word. -/
theorem encodeEcc_columns (behind : 12 + majorCount * minorCount ≤ dest)
    (starts : ∀ major < majorCount, eccStart majorMult major < majorCount * minorCount)
    (short : minorInc ≤ majorCount * minorCount) :
    let after := dcdiscEncodeEcc dcdiscInitTables raw majorCount minorCount majorMult minorInc dest
    (∀ i < dest, after i = raw i) ∧ ∀ major < majorCount,
      IsCodeword alpha ((eccColumn after majorCount minorCount majorMult minorInc dest major).map ofByte) := by
  obtain ⟨kept, done⟩ := eccMajor_run raw behind starts short (Nat.le_refl majorCount)
  refine ⟨kept, fun major below => ?_⟩
  obtain ⟨first, second⟩ := done major below
  have read : ∀ minor, dcdiscEncodeEcc dcdiscInitTables raw majorCount minorCount majorMult minorInc dest
      (12 + (eccStart majorMult major + minor * minorInc) % (majorCount * minorCount)) =
      raw (12 + (eccStart majorMult major + minor * minorInc) % (majorCount * minorCount)) := by
    intro minor
    have inside := Nat.mod_lt (eccStart majorMult major + minor * minorInc) (Nat.zero_lt_of_lt (starts major below))
    exact kept _ (by omega)
  have codeword := parity_codeword raw (starts major below) short
  rw [symbols] at codeword
  rw [eccColumn, List.map_append, List.map_map, List.map_cons, List.map_singleton]
  simp only [Function.comp_def, read]
  rw [dcdiscEncodeEcc, first, second]
  exact codeword

end Ecc

section Sector

/-- The bytes of a sector from what is written of it, its header taken as zero. -/
def headerless (out : List Byte) : Buffer := fun i => if i < 16 then 0 else out.getD (i - 16) 0

/-- A column of the bytes in front of the P parity, with its two parity bytes. -/
def pColumn (sector : Buffer) (major : ℕ) : List Byte := (List.range 26).map fun minor => sector (12 + major + 86 * minor)

/-- A diagonal of the bytes in front of the Q parity, with its two parity bytes. -/
def qDiagonal (sector : Buffer) (major : ℕ) : List Byte :=
  (List.range 43).map (fun minor => sector (12 + (major / 2 * 86 + major % 2 + 88 * minor) % 2236)) ++
  [sector (2248 + major), sector (2248 + 52 + major)]

/-- The codes of a sector are right. -/
structure SectorCodes (sector : Buffer) : Prop where
  edc : rd32 sector 2072 = crc edcPoly (slice sector 16 2056)
  columns : ∀ major < 86, IsCodeword alpha ((pColumn sector major).map ofByte)
  diagonals : ∀ major < 52, IsCodeword alpha ((qDiagonal sector major).map ofByte)

theorem eccStart_eq (majorMult major : ℕ) : eccStart majorMult major = major / 2 * majorMult + major % 2 := by
  rw [eccStart, Nat.shiftRight_one, Nat.and_one_is_mod]

/-- The bytes of a P column follow each other in one distance, the parity bytes too. -/
theorem pColumn_eq {sector : Buffer} (same : ∀ i, 12 ≤ i → i < 2248 → sector i = raw i) (below : major < 86) :
    pColumn sector major = eccColumn raw 86 24 2 86 2076 major := by
  have ends : List.range 26 = List.range 24 ++ [24, 25] := rfl
  rw [pColumn, eccColumn, ends, List.map_append, eccStart_eq, Nat.div_add_mod' major 2]
  congr 1
  · refine List.map_congr_left fun minor member => ?_
    have inside : minor < 24 := List.mem_range.mp member
    rw [Nat.mod_eq_of_lt (by omega), same _ (by omega) (by omega), Nat.mul_comm 86, Nat.add_assoc]
  · have first : 12 + major + 86 * 24 = 2076 + major := by omega
    have second : 12 + major + 86 * 25 = 2076 + major + 86 := by omega
    rw [List.map_cons, List.map_singleton, first, second, same _ (by omega) (by omega), same _ (by omega) (by omega)]

theorem qDiagonal_eq {sector : Buffer} (same : ∀ i, 12 ≤ i → i < 2352 → sector i = raw i) (below : major < 52) :
    qDiagonal sector major = eccColumn raw 52 43 86 88 2248 major := by
  rw [qDiagonal, eccColumn, eccStart_eq]
  congr 1
  · refine List.map_congr_left fun minor _ => ?_
    have inside := Nat.mod_lt (major / 2 * 86 + major % 2 + 88 * minor) (by decide : 0 < 2236)
    rw [same _ (by omega) (by omega), Nat.mul_comm 88]
  · rw [same _ (by omega) (by omega), same _ (by omega) (by omega), Nat.add_right_comm]

/-- What the sector holds before the header is put back is what is written of it. -/
theorem headerless_eq {savedHeader : List Byte} (four : savedHeader.length = 4) (clear : ∀ i < 4, raw (12 + i) = 0) (i : ℕ)
    (low : 12 ≤ i) (high : i < 2352) : headerless (slice (storeAt raw 12 savedHeader) 16 dcGapSectorSize) i = raw i := by
  unfold headerless
  split_ifs with header
  · rw [← clear (i - 12) (by omega), Nat.add_sub_cancel' low]
  · have back : 16 + (i - 16) = i := by omega
    rw [getD_slice _ _ (by simp only [dcGapSectorSize]; omega), back, storeAt_outside _ (.inr (by omega))]

/-- The first pass. -/
theorem pPass_columns (raw : Buffer) : (∀ i < 2076, dcdiscEncodeEcc dcdiscInitTables raw 86 24 2 86 2076 i = raw i) ∧
    ∀ major < 86,
      IsCodeword alpha ((eccColumn (dcdiscEncodeEcc dcdiscInitTables raw 86 24 2 86 2076) 86 24 2 86 2076 major).map ofByte) :=
  encodeEcc_columns (by decide) (fun major below => by rw [eccStart_eq]; omega) (by decide)

/-- The second pass. -/
theorem qPass_columns (raw : Buffer) : (∀ i < 2248, dcdiscEncodeEcc dcdiscInitTables raw 52 43 86 88 2248 i = raw i) ∧
    ∀ major < 52,
      IsCodeword alpha ((eccColumn (dcdiscEncodeEcc dcdiscInitTables raw 52 43 86 88 2248) 52 43 86 88 2248 major).map ofByte) :=
  encodeEcc_columns (by decide) (fun major below => by rw [eccStart_eq]; omega) (by decide)

/-- The error detection code of every sector is the check of the bytes before it, every column and every diagonal is a code
word, and the user data is in its place. -/
theorem encodeSector_codes (userData : Vector Byte isoLiteSectorSize) :
    SectorCodes (headerless (dcdiscEncodeSector dcdiscInitTables userData)) ∧
    slice (headerless (dcdiscEncodeSector dcdiscInitTables userData)) 24 isoLiteSectorSize = userData.toList := by
  rw [dcdiscEncodeSector]
  generalize edcEq : dcdiscBuildEdc dcdiscInitTables (plainSector userData) 16 (16 + 8 + isoLiteSectorSize - 1) = edc
  generalize checkedEq : wr32 (plainSector userData) 2072 edc = checked
  generalize clearedEq : storeAt checked 12 (List.replicate 4 0) = cleared
  obtain ⟨keptP, columns⟩ := pPass_columns cleared
  generalize dcdiscEncodeEcc dcdiscInitTables cleared 86 24 2 86 2076 = columned at keptP columns ⊢
  obtain ⟨keptQ, diagonals⟩ := qPass_columns columned
  generalize dcdiscEncodeEcc dcdiscInitTables columned 52 43 86 88 2248 = coded at keptQ diagonals ⊢
  have front (i : ℕ) (low : i < 2076) : coded i = cleared i := by rw [keptQ i (by omega), keptP i low]
  have zero : ∀ i < 4, coded (12 + i) = 0 := by
    intro i inside
    rw [front _ (by omega), ← clearedEq, storeAt_add, overlay_of_lt (by rwa [List.length_replicate]), List.getElem_replicate]
  have written := headerless_eq (length_slice checked 12 4) zero
  generalize headerless (slice (storeAt coded 12 (slice checked 12 4)) 16 dcGapSectorSize) = sector at written ⊢
  -- What the codes are computed from is not touched again.
  have kept (i : ℕ) (low : 16 ≤ i) (high : i < 2076) : sector i = checked i := by
    have behind : 12 + (List.replicate 4 (0 : Byte)).length ≤ i := by rwa [List.length_replicate]
    rw [written i (by omega) (by omega), front i high, ← clearedEq, storeAt_outside _ (.inr behind)]
  have plain (i : ℕ) (low : 16 ≤ i) (high : i < 2072) : sector i = plainSector userData i := by
    rw [kept i low (by omega), ← checkedEq, wr32_outside _ _ (.inl high)]
  refine ⟨⟨?_, fun major below => ?_, fun major below => ?_⟩, ?_⟩
  · rw [rd32_congr fun i inside => kept (2072 + i) (by omega) (by omega), ← checkedEq, rd32_wr32, ← edcEq, dcdiscBuildEdc_eq]
    refine congrArg _ (slice_congr fun i inside => (plain (16 + i) (by omega) ?_).symm)
    have bound : i < 2056 := inside
    omega
  · rw [pColumn_eq (fun i low high => (written i low (by omega)).trans (keptQ i high)) below]
    exact columns major below
  · rw [qDiagonal_eq written below]
    exact diagonals major below
  · have stored := Placement.slice_storeAt (storeAt (Function.update (storeAt (fun _ => 0) 1 (List.replicate 10 0xff)) 15 0x02) 16
      subheader) 24 userData.toList
    rw [Vector.length_toList] at stored
    refine (slice_congr fun i inside => ?_).trans stored
    have bound : i < 2048 := inside
    exact plain (24 + i) (by omega) (by omega)

end Sector

end KosTool.Cdi
