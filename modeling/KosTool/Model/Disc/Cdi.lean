import KosTool.Math.WordPatch

/-! # Sectors of a Dreamcast disc image

`make-dist/tools/mkcdi-lite.c`: the tables, the error detection code, and the two passes of the error correction code over a
Mode 2 Form 1 sector. An index into a table of 256 entries is a byte.
-/

namespace KosTool.Cdi

open ByteWord

/-- `DC_GAP_SECTOR_SIZE` -/
abbrev dcGapSectorSize : ℕ := 2336

/-- `ISO_LITE_SECTOR_SIZE` -/
abbrev isoLiteSectorSize : ℕ := 2048

/-- The static tables. -/
structure DcdiscTables where
  edcTable : Byte → Word
  eccFLut : Byte → Byte
  eccBLut : Byte → Byte

/-- One pass of the loop over `bit`. -/
def edcBit (r : Word) : Word := if r &&& 1 ≠ 0 then (r >>> 1) ^^^ 0xd8018001 else r >>> 1

/-- `j` of the loop over `i`. -/
def eccDouble (i : Byte) : Byte :=
  let wide : BitVec 64 := i.setWidth 64
  (((wide <<< 1) ^^^ (if wide &&& 0x80 ≠ 0 then 0x11d else 0)) &&& 0xff).setWidth 8

/-- One pass of the loop over `i`. -/
def initTablesAt (tables : DcdiscTables) (i : Byte) : DcdiscTables where
  edcTable := Function.update tables.edcTable i (edcBit^[8] (i.setWidth 32))
  eccFLut := Function.update tables.eccFLut i (eccDouble i)
  eccBLut := Function.update tables.eccBLut (i ^^^ eccDouble i) i

/-- `dcdisc_init_tables` -/
def dcdiscInitTables : DcdiscTables :=
  ((List.range 256).map (BitVec.ofNat 8)).foldl initTablesAt ⟨fun _ => 0, fun _ => 0, fun _ => 0⟩

/-- `dcdisc_build_edc`, from `start` up to and with `end`. -/
def dcdiscBuildEdc (tables : DcdiscTables) (data : Buffer) (start last : ℕ) : Word :=
  (List.range' start (last + 1 - start)).foldl
    (fun edc i => (edc >>> 8) ^^^ tables.edcTable ((edc ^^^ (data i).setWidth 32).setWidth 8)) 0

/-- The variables of the loop over `minor`. -/
structure EccLoop where
  index : ℕ
  eccA : Byte
  eccB : Byte

/-- One pass of the loop over `minor`. -/
def eccMinor (tables : DcdiscTables) (raw : Buffer) (size minorInc : ℕ) (loop : EccLoop) : EccLoop :=
  let temp := raw (12 + loop.index)
  let index := loop.index + minorInc
  { index := if size ≤ index then index - size else index
    eccA := tables.eccFLut (loop.eccA ^^^ temp)
    eccB := loop.eccB ^^^ temp }

/-- `index` before the loop over `minor`. -/
def eccStart (majorMult major : ℕ) : ℕ := (major >>> 1) * majorMult + (major &&& 1)

/-- One pass of the loop over `major`. -/
def eccMajor (tables : DcdiscTables) (majorCount minorCount majorMult minorInc dest : ℕ) (raw : Buffer) (major : ℕ) : Buffer :=
  let loop := (eccMinor tables raw (majorCount * minorCount) minorInc)^[minorCount] ⟨eccStart majorMult major, 0, 0⟩
  let eccA := tables.eccBLut (tables.eccFLut loop.eccA ^^^ loop.eccB)
  Function.update (Function.update raw (dest + major) eccA) (dest + major + majorCount) (eccA ^^^ loop.eccB)

/-- `dcdisc_encode_ecc` -/
def dcdiscEncodeEcc (tables : DcdiscTables) (raw : Buffer) (majorCount minorCount majorMult minorInc dest : ℕ) : Buffer :=
  (List.range majorCount).foldl (eccMajor tables majorCount minorCount majorMult minorInc dest) raw

/-- `subheader` -/
def subheader : List Byte := [0x00, 0x00, 0x09, 0x00, 0x00, 0x00, 0x09, 0x00]

/-- `raw` before its codes. -/
def plainSector (userData : Vector Byte isoLiteSectorSize) : Buffer :=
  let raw : Buffer := storeAt (fun _ => 0) 1 (List.replicate 10 0xff)
  let raw := Function.update raw 15 0x02
  storeAt (storeAt raw 16 subheader) 24 userData.toList

/-- `dcdisc_encode_sector` with the tables: what it stores at `out_sector`. -/
def dcdiscEncodeSector (tables : DcdiscTables) (userData : Vector Byte isoLiteSectorSize) : List Byte :=
  let raw := plainSector userData
  let raw := WordPatch.wr32 raw 2072 (dcdiscBuildEdc tables raw 16 (16 + 8 + isoLiteSectorSize - 1))
  let savedHeader := slice raw 12 4
  let raw := storeAt raw 12 (List.replicate 4 0)
  let raw := dcdiscEncodeEcc tables raw 86 24 2 86 2076
  let raw := dcdiscEncodeEcc tables raw 52 43 86 88 2248
  slice (storeAt raw 12 savedHeader) 16 dcGapSectorSize

end KosTool.Cdi
