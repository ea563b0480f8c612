import KosTool.Math.Placement
import KosTool.Model.Binary.Elf

/-! # The ISO 9660 images of `mkiso-lite`

`make-dist/tools/iso9660-lite.c` and `mkiso-lite.c`: the names and sizes of the input files, the sectors that are laid out
for them in 32 bits, and the stream that is written. Writes and allocations do not fail here.
-/

namespace KosTool.IsoLite

open ByteWord WordPatch Placement
open Elf2irx (orDie)

/-- `ISO_LITE_FILE_NAME_SIZE` -/
def fileNameSize : ℕ := 16

/-- `ISO_LITE_SECTOR_SIZE` -/
def sectorSize : ℕ := 2048

/-- `ISO_LITE_ELTORITO_PAD_SECTORS` -/
def eltoritoPadSectors : ℕ := 150

def ascii (text : String) : List Byte := text.toList.map fun c => BitVec.ofNat 8 c.toNat

def le16 (value : ℕ) : List Byte := [BitVec.ofNat 8 value, BitVec.ofNat 8 (value / 256)]

def be16 (value : ℕ) : List Byte := [BitVec.ofNat 8 (value / 256), BitVec.ofNat 8 value]

def leNat (value : ℕ) : List Byte := le32 (BitVec.ofNat 32 value)

def beNat (value : ℕ) : List Byte := be32 (BitVec.ofNat 32 value)

def both16 (value : ℕ) : List Byte := le16 value ++ be16 value

def both32 (value : ℕ) : List Byte := leNat value ++ beNat value

@[simp] theorem length_le16 (value : ℕ) : (le16 value).length = 2 := rfl

@[simp] theorem length_leNat (value : ℕ) : (leNat value).length = 4 := rfl

@[simp] theorem length_beNat (value : ℕ) : (beNat value).length = 4 := rfl

@[simp] theorem length_both16 (value : ℕ) : (both16 value).length = 4 := rfl

@[simp] theorem length_both32 (value : ℕ) : (both32 value).length = 8 := rfl

def zeros (count : ℕ) : List Byte := List.replicate count 0

@[simp] theorem length_zeros (count : ℕ) : (zeros count).length = count := List.length_replicate

/-- `iso_lite_write_padded_field` -/
def paddedField (width : ℕ) (value : List Byte) : List Byte :=
  value.take width ++ List.replicate (width - value.length) 0x20

@[simp] theorem length_paddedField (width : ℕ) (value : List Byte) : (paddedField width value).length = width := by
  rw [paddedField, List.length_append, List.length_take, List.length_replicate]
  omega

section Names

/-- `isalnum`, in the locale of a program that sets none. -/
def isAlnum (c : Byte) : Bool := (0x30#8 ≤ c && c ≤ 0x39#8) || (0x41#8 ≤ c && c ≤ 0x5A#8) || (0x61#8 ≤ c && c ≤ 0x7A#8)

def toUpper (c : Byte) : Byte := if 0x61#8 ≤ c ∧ c ≤ 0x7A#8 then c - 0x20 else c

/-- A character of a name on the disc. -/
def nameChar (c : Byte) : Byte := if isAlnum c || c == 0x5F then toUpper c else 0x5F

/-- `strrchr` -/
def strrchr (text : List Byte) (c : Byte) : Option ℕ := ((text.zipIdx.filter fun (b, _) => b == c).getLast?).map Prod.snd

/-- `compat_str_append`, to a text that is terminated within the size. -/
def strAppend (size : ℕ) (dst src : List Byte) : List Byte := dst ++ src.take (size - 1 - dst.length)

/-- The base of a name and its extension, by the last dot that does not start the name. -/
def splitName (input : List Byte) : List Byte × List Byte :=
  match strrchr input 0x2E with
  | some (dot + 1) =>
    (((input.take (dot + 1)).take 8).map nameChar, ((input.drop (dot + 2)).take 3).map nameChar)
  | _ => ((input.take 8).map nameChar, [])

/-- `iso_lite_normalize_file_name`, for the size of a file name. -/
def normalizeFileName (input : List Byte) : List Byte :=
  let (base, ext) := splitName input
  let output := strAppend fileNameSize [] base
  let output := if ext.isEmpty then output else strAppend fileNameSize (strAppend fileNameSize output (ascii ".")) ext
  strAppend fileNameSize output (ascii ";1")

/-- `iso_lite_normalize_volume_id`, for the size of a volume name. -/
def normalizeVolumeId (input : List Byte) : List Byte :=
  if input.isEmpty then ascii "KOSLOAD"
  else (input.take 32).map fun c => if isAlnum c || c == 0x5F || c == 0x2D then toUpper c else 0x5F

end Names

/-- `iso_lite_file_t` -/
structure File where
  name : List Byte
  data : List Byte

/-- `iso_lite_config_t`. An empty boot name is none. -/
structure Config where
  volumeId : List Byte
  systemId : Option (List Byte)
  systemArea : Option Buffer
  systemAreaSize : ℕ
  startLba : Word
  bootName : List Byte

/-- The times that the records and the descriptor get, in the order of their writes. -/
structure Clock where
  dir : ℕ → Fin 7 → Byte
  volume : ℕ → Fin 17 → Byte

def Config.useEltorito (config : Config) : Bool := !config.bootName.isEmpty

/-- `iso_lite_layout_file_t` -/
structure LayoutFile where
  name : List Byte
  data : List Byte
  extentLba : ℕ

section Layout

/-- `iso_lite_dir_record_length` -/
def dirRecordLength (nameLength : ℕ) : ℕ := if (33 + nameLength) % 2 = 1 then 33 + nameLength + 1 else 33 + nameLength

/-- The checks of an input file. -/
def checkFile (i : ℕ) (file : File) : Except String Unit := do
  orDie (!file.name.isEmpty) s!"input file {i} is missing an ISO name"
  orDie (file.data.length ≤ 2 ^ 32 - 1) s!"input file {i} is too large"

/-- `compat_str_copy` into a layout entry. -/
def layoutName (name : List Byte) : List Byte := name.take (fileNameSize - 1)

/-- The sectors for a size, in 32 bits. -/
def sectorsFor (size : ℕ) : ℕ := (size + sectorSize - 1) % 2 ^ 32 / sectorSize

/-- The extents of the files, one behind the other in 32 bits, and the sector behind the last one. -/
def layFiles : List File → ℕ → List LayoutFile × ℕ
  | [], lba => ([], lba)
  | file :: rest, lba =>
    let (others, last) := layFiles rest ((lba + sectorsFor file.data.length) % 2 ^ 32)
    (⟨layoutName file.name, file.data, lba⟩ :: others, last)

/-- The sectors of the fixed parts. -/
structure Places where
  pathTableL : ℕ
  pathTableM : ℕ
  rootDir : ℕ
  bootCatalog : ℕ
  firstFile : ℕ
  trailingPad : ℕ

def places (useEltorito : Bool) : Places :=
  if useEltorito then ⟨20, 22, 24, 25, 26, eltoritoPadSectors⟩ else ⟨18, 19, 20, 0, 21, 0⟩

/-- `BOOT.CAT;1` -/
def bootCatName : List Byte := ascii "BOOT.CAT;1"

/-- The bytes of the records of the root directory. -/
def rootBytes (config : Config) (layout : List LayoutFile) : ℕ :=
  dirRecordLength 1 + dirRecordLength 1 + (if config.useEltorito then dirRecordLength 10 else 0) +
    (layout.map fun file => dirRecordLength file.name.length).sum

/-- The address of the boot file, and how many sectors of 512 bytes are loaded of it, in 16 bits. -/
def bootImage (config : Config) (layout : List LayoutFile) : Except String (ℕ × ℕ) :=
  if config.useEltorito then
    match layout.find? fun file => file.name == config.bootName with
    | none => .error "El Torito boot file was not found"
    | some file => do
      let lba := (file.extentLba + config.startLba.toNat) % 2 ^ 32
      let load := sectorsFor file.data.length * 4 % 2 ^ 16
      orDie (lba != 0 && load != 0) "El Torito boot file was not found"
      return (lba, load)
  else .ok (0, 0)

end Layout

section Sectors

/-- A sector of zeros with the pieces written over it. -/
def sector (pieces : List Piece) : List Byte := slice (place pieces fun _ => 0) 0 sectorSize

@[simp] theorem length_sector (pieces : List Piece) : (sector pieces).length = 2048 := length_slice ..

/-- What a directory record says. -/
structure Record where
  extent : Word
  size : Word
  flags : Byte
  name : List Byte
deriving DecidableEq

/-- `iso_lite_write_dir_record` -/
def dirRecord (time : Fin 7 → Byte) (r : Record) : List Byte :=
  [BitVec.ofNat 8 (dirRecordLength r.name.length), 0] ++ (le32 r.extent ++ be32 r.extent) ++ (le32 r.size ++ be32 r.size) ++
    List.ofFn time ++ [r.flags, 0, 0] ++ both16 1 ++ [BitVec.ofNat 8 r.name.length] ++ r.name ++
    zeros (dirRecordLength r.name.length - (33 + r.name.length))

/-- The record of a directory for itself or its parent. -/
def dirSelf (config : Config) (name : Byte) : Record :=
  ⟨BitVec.ofNat 32 (places config.useEltorito).rootDir + config.startLba, 2048, 2, [name]⟩

/-- The primary volume descriptor. -/
def pvd (config : Config) (clock : Clock) (total : ℕ) : List Piece :=
  let p := places config.useEltorito
  let start := config.startLba.toNat
  let volumeId := normalizeVolumeId config.volumeId
  [⟨0, [1]⟩, ⟨1, ascii "CD001"⟩, ⟨6, [1]⟩, ⟨8, paddedField 32 (config.systemId.getD (ascii "KOS-TOOL"))⟩,
    ⟨40, paddedField 32 volumeId⟩, ⟨80, both32 total⟩, ⟨120, both16 1⟩, ⟨124, both16 1⟩, ⟨128, both16 sectorSize⟩,
    ⟨132, both32 10⟩, ⟨140, leNat (p.pathTableL + start)⟩, ⟨144, leNat 0⟩, ⟨148, beNat (p.pathTableM + start)⟩,
    ⟨152, beNat 0⟩, ⟨156, dirRecord (clock.dir 0) (dirSelf config 0)⟩, ⟨190, paddedField 128 volumeId⟩,
    ⟨318, paddedField 128 (ascii "KOS-TOOL")⟩, ⟨446, paddedField 128 (ascii "KOS-TOOL")⟩,
    ⟨574, paddedField 128 (ascii "KOS-TOOL")⟩, ⟨813, List.ofFn (clock.volume 0)⟩, ⟨830, List.ofFn (clock.volume 1)⟩,
    ⟨847, List.ofFn (clock.volume 2)⟩, ⟨864, List.replicate 16 0x30⟩, ⟨880, [1]⟩]

/-- The boot record. -/
def bootRecord (config : Config) : List Piece :=
  [⟨0, [0]⟩, ⟨1, ascii "CD001"⟩, ⟨6, [1]⟩, ⟨7, ascii "EL TORITO SPECIFICATION"⟩,
    ⟨71, leNat ((places config.useEltorito).bootCatalog + config.startLba.toNat)⟩]

/-- The end of the descriptors. -/
def terminator : List Piece := [⟨0, [0xFF]⟩, ⟨1, ascii "CD001"⟩, ⟨6, [1]⟩]

/-- The path table, with the root alone, by how its numbers are written. -/
def pathTable (config : Config) (long short : ℕ → List Byte) : List Piece :=
  [⟨0, [1]⟩, ⟨1, [0]⟩, ⟨2, long ((places config.useEltorito).rootDir + config.startLba.toNat)⟩, ⟨6, short 1⟩, ⟨8, [0]⟩,
    ⟨9, [0]⟩]

/-- The first bytes of the boot catalog, still without their checksum. -/
def validation : List Piece := [⟨0, [1]⟩, ⟨1, [0]⟩, ⟨0x1E, [0x55]⟩, ⟨0x1F, [0xAA]⟩]

/-- The checksum makes the sum of the sixteen half-words zero. -/
def validationChecksum : ℕ :=
  let entry := place validation fun _ => 0
  let half i := (entry (2 * i)).toNat + 256 * (entry (2 * i + 1)).toNat
  (2 ^ 16 - (((List.range 16).filter (· != 0x0E)).map half).sum % 2 ^ 16) % 2 ^ 16

/-- The boot catalog. -/
def bootCatalog (bootLba bootLoad : ℕ) : List Piece :=
  validation ++ [⟨0x1C, le16 validationChecksum⟩, ⟨0x20, [0x88, 0]⟩, ⟨0x22, le16 0⟩, ⟨0x24, [0, 0]⟩, ⟨0x26, le16 bootLoad⟩,
    ⟨0x28, leNat bootLba⟩]

/-- The records of the root directory. -/
def records (config : Config) (layout : List LayoutFile) : List Record :=
  [dirSelf config 0, dirSelf config 1] ++
    (if config.useEltorito then
      [⟨BitVec.ofNat 32 (places true).bootCatalog + config.startLba, 2048, 0, bootCatName⟩] else []) ++
    layout.map fun file =>
      ⟨BitVec.ofNat 32 file.extentLba + config.startLba, BitVec.ofNat 32 file.data.length, 0, file.name⟩

/-- The root directory. The first of the times is that of the descriptor. -/
def rootDir (clock : Clock) (records : List Record) : List Byte :=
  let bytes := records.zipIdx.flatMap fun (r, i) => dirRecord (clock.dir (i + 1)) r
  bytes ++ zeros (sectorSize - bytes.length)

/-- `iso_lite_write_padded`, whose sizes are not cut to 32 bits. -/
def padded (data : List Byte) : List Byte :=
  data ++ zeros ((data.length + sectorSize - 1) / sectorSize * sectorSize - data.length)

/-- The sectors up to a target, if there are any. -/
def padTo (current target : ℕ) : List Byte := zeros ((target - current) * sectorSize)

end Sectors

/-- The bytes of the system area that are there. -/
def systemArea (config : Config) : List Byte :=
  match config.systemArea with
  | some area => if config.systemAreaSize = 0 then [] else slice area 0 config.systemAreaSize
  | none => []

/-- What stands between the system area and the files. -/
def middle (config : Config) (clock : Clock) (layout : List LayoutFile) (total bootLba bootLoad : ℕ) : List (List Byte) :=
  let p := places config.useEltorito
  let boot sectors := if config.useEltorito then sectors else []
  let current := if config.useEltorito then 19 else 18
  [sector (pvd config clock total)] ++ boot [sector (bootRecord config)] ++ [sector terminator] ++
    [padTo current p.pathTableL, sector (pathTable config leNat le16), padTo (p.pathTableL + 1) p.pathTableM,
      sector (pathTable config beNat be16), padTo (p.pathTableM + 1) p.rootDir, rootDir clock (records config layout)] ++
    boot [padTo (p.rootDir + 1) p.bootCatalog, sector (bootCatalog bootLba bootLoad)]

/-- `iso_lite_write_stream`: the image, and the number of its sectors. -/
def writeStream (config : Config) (files : List File) (clock : Clock) : Except String (List Byte × ℕ) := do
  orDie (!files.isEmpty) "mkiso-lite requires at least one input file"
  files.zipIdx.forM fun (file, i) => checkFile i file
  let p := places config.useEltorito
  let (layout, lba) := layFiles files p.firstFile
  orDie (rootBytes config layout ≤ sectorSize) "root directory would exceed one ISO sector"
  let (bootLba, bootLoad) ← bootImage config layout
  let total := (lba + p.trailingPad) % 2 ^ 32
  orDie (config.systemAreaSize ≤ 16 * sectorSize) "system area is larger than 16 ISO sectors"
  let image := systemArea config ++ zeros (16 * sectorSize - config.systemAreaSize) ++
    (middle config clock layout total bootLba bootLoad).flatten ++
    padTo p.firstFile ((layout[0]?.map (·.extentLba)).getD 0) ++ layout.flatMap (fun file => padded file.data) ++
    zeros (p.trailingPad * sectorSize)
  return (image, total)

section Tool

/-- An entry of the source directory. -/
structure Entry where
  name : List Byte
  regular : Bool
  data : List Byte

/-- `mkiso_collect_files` -/
def collectFiles (entries : List Entry) : List File :=
  (entries.filter fun entry => entry.name.head? != some 0x2E && entry.regular).map fun entry =>
    ⟨normalizeFileName entry.name, entry.data⟩

/-- `mkiso_path_basename` -/
def pathBasename (path : List Byte) : List Byte :=
  let tail at_ := if (path.drop (at_ + 1)).isEmpty then path.drop at_ else path.drop (at_ + 1)
  match strrchr path 0x2F, strrchr path 0x5C with
  | some slash, none => tail slash
  | some slash, some backslash => if backslash < slash then tail slash else tail backslash
  | none, some backslash => tail backslash
  | none, none => path

/-- The configuration that the tool makes of its arguments. -/
def toolConfig (config : Config) (bootPath : Option (List Byte)) : Config :=
  { config with bootName := bootPath.elim [] fun path => normalizeFileName (pathBasename path) }

/-- `mkiso-lite`, with the files in an order that their names have been sorted to. -/
def mkiso (config : Config) (bootPath : Option (List Byte)) (entries : List Entry) (sort : List File → List File)
    (clock : Clock) : Except String (List Byte × ℕ) := do
  orDie (!(collectFiles entries).isEmpty) "no regular files found"
  writeStream (toolConfig config bootPath) (sort (collectFiles entries)) clock

end Tool

end KosTool.IsoLite
