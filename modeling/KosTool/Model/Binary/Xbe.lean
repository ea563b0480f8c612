import KosTool.Math.Placement
import KosTool.Model.Binary.Prx

/-! # The conversion of an ELF into an XBE

`host/tools/elf2xbe/elf2xbe.c`: the segments of the input with their checks, the base of the image, the cursors that lay
out the headers and the raw data, and the pieces that are written over a zeroed file.
-/

namespace KosTool.Elf2xbe

open ByteWord WordPatch Placement
open Elf2irx (orDie isPowerOfTwoU32)
open Elf2prx (rd16 u32 le16 leNat requireRange inputString)

def checkedAddU32 (a b : ℕ) (what : String) : Except String ℕ :=
  if 2 ^ 32 - 1 - b < a then .error s!"{what} overflows the 32-bit XBE address space" else .ok (a + b)

def checkedMulU32 (a b : ℕ) (what : String) : Except String ℕ :=
  if a ≠ 0 ∧ (2 ^ 32 - 1) / a < b then .error s!"{what} overflows the 32-bit XBE address space" else .ok (a * b)

/-- The mask of a power of two keeps the multiples of it. -/
def alignUp (value : ℕ) (alignment : Word) (what : String) : Except String ℕ := do
  orDie (isPowerOfTwoU32 alignment) s!"{what} has invalid alignment {alignment.toNat}"
  let sum ← checkedAddU32 value (alignment.toNat - 1) what
  return sum / alignment.toNat * alignment.toNat

def rangesOverlap (aStart aSize bStart bSize : ℕ) : Bool :=
  aSize != 0 && bSize != 0 && (aStart < bStart + bSize && bStart < aStart + aSize)

/-- `XOR_EP_RETAIL` -/
def xorEpRetail : Word := 0xA8FC57AB

/-- `XOR_KT_RETAIL` -/
def xorKtRetail : Word := 0x5B6D40B6

/-- `XBE_HDR_SIZE` -/
def xbeHdrSize : ℕ := 0x178

/-- `XBE_CERT_SIZE` -/
def xbeCertSize : ℕ := 0x1D0

/-- `XBE_SECHDR_SIZE` -/
def xbeSechdrSize : ℕ := 0x38

/-- `XBE_LIBVER_SIZE` -/
def xbeLibverSize : ℕ := 0x10

/-- `HEADER_RESERVE` -/
def headerReserve : ℕ := 0x1000

/-- `MAX_XBE_SECTIONS` -/
def maxXbeSections : ℕ := (headerReserve - xbeHdrSize - xbeCertSize - xbeLibverSize) / xbeSechdrSize

/-- The bytes of a text. -/
def ascii (text : String) : List Byte := text.toList.map fun c => BitVec.ofNat 8 c.toNat

/-- `THUNK_SECTION` -/
def thunkSection : List Byte := ascii ".xbethnk"

section Title

/-- The code point at the start of a text, and how many bytes it takes. Behind the end is the terminator. -/
def nextUtf8Codepoint (text : List Byte) : Except String (ℕ × ℕ) :=
  let b i := (text.getD i 0).toNat
  let more i := b i / 0x40 == 2
  if b 0 < 0x80 then .ok (b 0, 1)
  else if 0xC2 ≤ b 0 ∧ b 0 ≤ 0xDF then do
    orDie (more 1) "title is not valid UTF-8"
    return (b 0 % 0x20 * 2 ^ 6 + b 1 % 0x40, 2)
  else if 0xE0 ≤ b 0 ∧ b 0 ≤ 0xEF then do
    orDie (more 1 && more 2 && !(b 0 == 0xE0 && b 1 < 0xA0) && !(b 0 == 0xED && 0xA0 ≤ b 1)) "title is not valid UTF-8"
    return (b 0 % 0x10 * 2 ^ 12 + b 1 % 0x40 * 2 ^ 6 + b 2 % 0x40, 3)
  else if 0xF0 ≤ b 0 ∧ b 0 ≤ 0xF4 then do
    orDie (more 1 && more 2 && more 3 && !(b 0 == 0xF0 && b 1 < 0x90) && !(b 0 == 0xF4 && 0x8F < b 1))
      "title is not valid UTF-8"
    return (b 0 % 8 * 2 ^ 18 + b 1 % 0x40 * 2 ^ 12 + b 2 % 0x40 * 2 ^ 6 + b 3 % 0x40, 4)
  else .error "title is not valid UTF-8"

/-- The units of a title, behind those that are already there. A step takes at least one byte. -/
def titleUnits : ℕ → List Byte → ℕ → Except String (List Byte)
  | 0, _, _ => .ok []
  | _, [], _ => .ok []
  | steps + 1, text, units => do
    let (codepoint, taken) ← nextUtf8Codepoint text
    if codepoint ≤ 0xFFFF then do
      orDie (units < 40) "title exceeds the 40-character XBE certificate field"
      let rest ← titleUnits steps (text.drop taken) (units + 1)
      return le16 codepoint ++ rest
    else do
      orDie (units ≤ 38) "title exceeds the 40-character XBE certificate field"
      let rest ← titleUnits steps (text.drop taken) (units + 2)
      return le16 (0xD800 + (codepoint - 0x10000) / 2 ^ 10) ++ le16 (0xDC00 + (codepoint - 0x10000) % 2 ^ 10) ++ rest

/-- The field of the title, with zeros behind its units. -/
def writeTitleUtf16le (title : List Byte) : Except String (List Byte) := do
  let text := title.takeWhile (· != 0)
  let units ← titleUnits text.length text 0
  return units ++ List.replicate (80 - units.length) 0

end Title

/-- The fields of the file header that are read. -/
structure Header where
  entry : Word
  phoff : ℕ
  shoff : ℕ
  ehsize : ℕ
  phentsize : ℕ
  phnum : ℕ
  shentsize : ℕ
  shnum : ℕ
  shstrndx : ℕ

/-- `seg_t` -/
structure Seg where
  name : List Byte
  hasElfName : Bool
  vaddr : ℕ
  vsize : ℕ
  rsize : ℕ
  roff : ℕ
  flags : Word

/-- `PF_X` -/
def Seg.executable (s : Seg) : Bool := s.flags.getLsbD 0

/-- `PF_W` -/
def Seg.writable (s : Seg) : Bool := s.flags.getLsbD 1

/-- The fields of a section header that are read, with the name. -/
structure Sec where
  name : List Byte
  type : Word
  flags : Word
  addr : ℕ
  offset : ℕ
  size : ℕ
  alignment : Word

/-- `SHF_ALLOC` -/
def Sec.alloc (s : Sec) : Bool := s.flags.getLsbD 1

/-- `SHT_NOBITS` -/
def Sec.nobits (s : Sec) : Bool := s.type == 8#32

section Input

variable (e : Buffer) (elen : ℕ)

def readHeader : Header where
  entry := rd32 e 0x18
  phoff := u32 e 0x1C
  shoff := u32 e 0x20
  ehsize := rd16 e 0x28
  phentsize := rd16 e 0x2A
  phnum := rd16 e 0x2C
  shentsize := rd16 e 0x2E
  shnum := rd16 e 0x30
  shstrndx := rd16 e 0x32

/-- The checks of the section header table. -/
def checkSections (header : Header) : Except String Unit :=
  if header.shnum = 0 then
    orDie (header.shoff == 0 && header.shstrndx == 0) "extended or malformed section numbering is not supported"
  else do
    orDie (header.shentsize == 40) "unexpected section header size"
    orDie (header.shstrndx < header.shnum) "invalid section-name table index"
    requireRange header.shoff (header.shnum * header.shentsize) elen "section header table"

def checkHeader (header : Header) : Except String Unit := do
  orDie (52 ≤ elen) "input too small to be an ELF32"
  orDie (elen < 2 ^ 32) "input is too large for ELF32"
  orDie (slice e 0 4 == [0x7F, 0x45, 0x4C, 0x46]) "not an ELF image (bad magic)"
  orDie (e 4 == 1) "not ELF32 (EI_CLASS != ELFCLASS32)"
  orDie (e 5 == 1) "not little-endian (EI_DATA != ELFDATA2LSB)"
  orDie (e 6 == 1) "unsupported ELF identification version"
  orDie (rd16 e 0x10 == 2) "not a fixed-address executable (e_type != ET_EXEC)"
  orDie (rd16 e 0x12 == 3) "not an i386 ELF (e_machine != EM_386)"
  orDie (u32 e 0x14 == 1) "unsupported ELF header version"
  orDie (header.ehsize == 52) "unexpected ELF header size"
  orDie (header.phnum != 0) "no program headers"
  orDie (header.phentsize == 32) "unexpected program header size"
  requireRange header.phoff (header.phnum * header.phentsize) elen "program header table"
  checkSections elen header

/-- The places of the program headers. -/
def programHeaders (header : Header) : List ℕ :=
  (List.range header.phnum).map fun i => header.phoff + i * header.phentsize

/-- A program header with memory for the kernel to map. -/
def mapped (ph : ℕ) : Bool := u32 e ph == 1 && u32 e (ph + 0x14) != 0

/-- The segment of a program header, still with its fallback name. -/
def readSeg (ph number : ℕ) : Seg where
  name := ascii s!".seg{number}"
  hasElfName := false
  roff := u32 e (ph + 0x04)
  vaddr := u32 e (ph + 0x08)
  rsize := u32 e (ph + 0x10)
  vsize := u32 e (ph + 0x14)
  flags := rd32 e (ph + 0x18)

/-- The segments so far with that of another program header. -/
def addSeg (S : List Seg) (ph : ℕ) : Except String (List Seg) := do
  orDie (S.length < maxXbeSections) "too many PT_LOAD segments for the reserved XBE header page"
  let s := readSeg e ph S.length
  let alignment := rd32 e (ph + 0x1C)
  orDie (s.rsize ≤ s.vsize) "PT_LOAD p_filesz exceeds p_memsz"
  orDie (alignment ≤ 1#32 || isPowerOfTwoU32 alignment) s!"PT_LOAD has invalid alignment {alignment.toNat}"
  orDie (alignment ≤ 1#32 || s.roff % alignment.toNat == s.vaddr % alignment.toNat)
    "PT_LOAD file and memory offsets violate its alignment"
  requireRange s.roff s.rsize elen "PT_LOAD file data"
  let _ ← checkedAddU32 s.vaddr s.vsize "PT_LOAD virtual range"
  S.forM fun other => do
    orDie (!rangesOverlap s.vaddr s.vsize other.vaddr other.vsize) "PT_LOAD virtual ranges overlap"
    orDie (!rangesOverlap s.roff s.rsize other.roff other.rsize) "PT_LOAD file ranges overlap"
  return S ++ [s]

/-- The segments of the input. -/
def collect (header : Header) : Except String (List Seg) := do
  let S ← ((programHeaders header).filter (mapped e)).foldlM (addSeg e elen) []
  orDie (S.length != 0) "no loadable PT_LOAD segments"
  orDie (S.any fun s => s.executable && (s.vaddr ≤ header.entry.toNat && header.entry.toNat < s.vaddr + s.rsize))
    "ELF entry point does not lie in a file-backed executable PT_LOAD"
  return S

end Input

namespace Seg

variable (s : Seg)

/-- The section lies in the memory of the segment. -/
def holds (sec : Sec) : Bool := s.vaddr ≤ sec.addr && sec.addr - s.vaddr + sec.size ≤ s.vsize

/-- The section's bytes are those that the segment has there. -/
def backs (sec : Sec) : Bool :=
  sec.nobits || s.roff ≤ sec.offset && sec.offset - s.roff == sec.addr - s.vaddr &&
    sec.offset - s.roff + sec.size ≤ s.rsize

end Seg

/-- The first unnamed segment at the address takes the name. -/
def nameFirst (addr : ℕ) (name : List Byte) : List Seg → List Seg
  | [] => []
  | s :: rest =>
    if s.vaddr = addr ∧ s.hasElfName = false then { s with name, hasElfName := true } :: rest
    else s :: nameFirst addr name rest

/-- The named segments, and the kernel-thunk list. -/
structure Naming where
  segs : List Seg
  thunkVaddr : ℕ
  foundThunk : Bool

section Naming

variable (e : Buffer) (elen : ℕ)

/-- A section header, and the checks that all of them pass. -/
def readSec (header : Header) (strtabOff strtabLen i : ℕ) : Except String Sec := do
  let sh := header.shoff + i * header.shentsize
  let name ← inputString e strtabOff strtabLen (u32 e sh) s!"section {i} name"
  let sec : Sec := {
    name
    type := rd32 e (sh + 0x04)
    flags := rd32 e (sh + 0x08)
    addr := u32 e (sh + 0x0C)
    offset := u32 e (sh + 0x10)
    size := u32 e (sh + 0x14)
    alignment := rd32 e (sh + 0x20) }
  orDie (sec.alignment == 0 || isPowerOfTwoU32 sec.alignment)
    s!"section {i} has invalid alignment {sec.alignment.toNat}"
  orDie (sec.nobits || sec.offset ≤ elen && sec.size ≤ elen - sec.offset) "section data lies outside its containing data"
  return sec

/-- The checks of the kernel-thunk list. -/
def checkThunk (sec : Sec) (foundThunk : Bool) : Except String Unit := do
  orDie (!foundThunk) "multiple .xbethnk sections"
  orDie (sec.type == 1#32 && (4 ≤ sec.size && sec.size % 4 == 0)) ".xbethnk has an invalid size or type"
  orDie (u32 e (sec.offset + sec.size - 4) == 0) ".xbethnk is not NULL-terminated"

/-- What a section gives to the segments. -/
def nameSec (naming : Naming) (sec : Sec) : Except String Naming :=
  if sec.alloc = false then do
    orDie (sec.name != thunkSection) ".xbethnk is not allocated"
    return naming
  else do
    let _ ← checkedAddU32 sec.addr sec.size "allocated section virtual range"
    orDie (naming.segs.any fun s => s.holds sec) "allocated section lies outside every PT_LOAD"
    orDie (naming.segs.any fun s => s.holds sec && s.backs sec) "allocated section has an invalid PT_LOAD file mapping"
    let segs := nameFirst sec.addr sec.name naming.segs
    if sec.name = thunkSection then do
      checkThunk e sec naming.foundThunk
      return { segs, thunkVaddr := sec.addr, foundThunk := true }
    else return { naming with segs }

/-- The segments with the names of the sections that start them, and the kernel-thunk list. -/
def nameSegs (header : Header) (S : List Seg) : Except String Naming :=
  if header.shnum = 0 then .ok ⟨S, 0, false⟩
  else do
    orDie (u32 e (header.shoff + 0x04) == 0) "section zero is not SHT_NULL"
    let shstr := header.shoff + header.shstrndx * header.shentsize
    orDie (u32 e (shstr + 0x04) == 3) "section-name table is not SHT_STRTAB"
    let strtabOff := u32 e (shstr + 0x10)
    let strtabLen := u32 e (shstr + 0x14)
    requireRange strtabOff strtabLen elen "section-name string table"
    (List.range header.shnum).foldlM (fun naming i => do
      let sec ← readSec e elen header strtabOff strtabLen i
      nameSec e naming sec) ⟨S, 0, false⟩

end Naming

section Layout

/-- The lowest address of the segments. -/
def minVaddr (S : List Seg) : ℕ := (S.map Seg.vaddr).foldl min ((S.map Seg.vaddr).headD 0)

/-- The highest end of the segments. -/
def maxEnd (S : List Seg) : Except String ℕ :=
  S.foldlM (fun top s => do
    let stop ← checkedAddU32 s.vaddr s.vsize "PT_LOAD virtual range"
    return max top stop) 0

/-- The base that is asked for, or the page in front of the first one. -/
def deriveBase (asked : Option Word) (low : ℕ) : Except String ℕ :=
  match asked with
  | some base => .ok base.toNat
  | none => do
    let firstPage := low / 0x1000 * 0x1000
    orDie (headerReserve ≤ firstPage) "cannot derive an image base below the reserved header page"
    return firstPage - headerReserve

/-- The base and the size of the image. -/
def imageRange (asked : Option Word) (S : List Seg) : Except String (ℕ × ℕ) := do
  let top ← maxEnd S
  let base ← deriveBase asked (minVaddr S)
  orDie (base % 0x1000 == 0) "image base must be aligned to 0x1000 bytes"
  orDie (base ≤ minVaddr S) "a PT_LOAD lies below the image base"
  orDie (headerReserve ≤ minVaddr S - base) ("first PT_LOAD overlaps the reserved XBE header page; " ++
    "the linker script must leave image_base..+0x1000 free")
  let size ← alignUp (top - base) 0x1000 "XBE image size"
  let _ ← checkedAddU32 base size "XBE image range"
  return (base, size)

/-- The names one behind the other, and the end of the last one. -/
def layNames : List Seg → ℕ → Except String (List ℕ × ℕ)
  | [], off => .ok ([], off)
  | s :: rest, off => do
    let next ← checkedAddU32 off (s.name.length + 1) "XBE section names"
    let (others, stop) ← layNames rest next
    return (off :: others, stop)

/-- The cursor behind the raw data of a segment. -/
def layRaw (s : Seg) (fileOff : ℕ) : Except String (ℕ × ℕ) :=
  if s.rsize = 0 then .ok (0, fileOff)
  else do
    let stop ← checkedAddU32 fileOff s.rsize "XBE raw section data"
    let next ← alignUp stop 0x20 "XBE raw section data"
    return (fileOff, next)

/-- The raw data one behind the other, and the end of the file. -/
def layRaws : List Seg → ℕ → Except String (List ℕ × ℕ)
  | [], fileOff => .ok ([], fileOff)
  | s :: rest, fileOff => do
    let (raw, next) ← layRaw s fileOff
    let (others, stop) ← layRaws rest next
    return (raw :: others, stop)

/-- The offsets of the parts of the file. -/
structure Layout where
  certOff : ℕ
  secOff : ℕ
  libverOff : ℕ
  nameOff : List ℕ
  refOff : ℕ
  thunkOff : ℕ
  headersSize : ℕ
  rawAddr : List ℕ
  xbeLen : ℕ

def layout (S : List Seg) : Except String Layout := do
  let certOff ← checkedAddU32 0 xbeHdrSize "XBE image header"
  let secOff ← checkedAddU32 certOff xbeCertSize "XBE certificate"
  let secSize ← checkedMulU32 S.length xbeSechdrSize "XBE section headers"
  let libverOff ← checkedAddU32 secOff secSize "XBE section headers"
  let namesOff ← checkedAddU32 libverOff xbeLibverSize "XBE library version"
  let (nameOff, namesEnd) ← layNames S namesOff
  let refOff ← alignUp namesEnd 4 "XBE section names"
  let refSize ← checkedMulU32 (S.length + 1) 2 "XBE section reference counts"
  let refEnd ← checkedAddU32 refOff refSize "XBE section reference counts"
  let thunkOff ← alignUp refEnd 4 "XBE section reference counts"
  let headersSize ← checkedAddU32 thunkOff 4 "fallback kernel thunk table"
  orDie (headersSize ≤ headerReserve)
    "XBE headers exceed the reserved page; raise HEADER_RESERVE and the linker reserve"
  let fileOff ← alignUp headersSize 0x20 "XBE raw data offset"
  let (rawAddr, xbeLen) ← layRaws S fileOff
  return { certOff, secOff, libverOff, nameOff, refOff, thunkOff, headersSize, rawAddr, xbeLen }

end Layout

section Emission

/-- The image header, without the words that are left zero. -/
def imageHeader (entry kt : Word) (base size certAddr secAddr libverAddr count headersSize : ℕ) (timestamp : Word) :
    List Piece :=
  [⟨0x000, ascii "XBEH"⟩, ⟨0x104, leNat base⟩, ⟨0x108, leNat headersSize⟩, ⟨0x10C, leNat size⟩, ⟨0x110, leNat xbeHdrSize⟩,
    ⟨0x114, le32 timestamp⟩, ⟨0x118, leNat certAddr⟩, ⟨0x11C, leNat count⟩, ⟨0x120, leNat secAddr⟩, ⟨0x124, leNat 0⟩,
    ⟨0x128, le32 (entry ^^^ xorEpRetail)⟩, ⟨0x12C, leNat 0⟩, ⟨0x130, leNat 0x00010000⟩, ⟨0x134, leNat 0x00100000⟩,
    ⟨0x138, leNat 0x00001000⟩, ⟨0x13C, leNat base⟩, ⟨0x140, leNat size⟩, ⟨0x144, leNat 0⟩, ⟨0x148, le32 timestamp⟩,
    ⟨0x14C, leNat 0⟩, ⟨0x150, leNat 0⟩, ⟨0x154, leNat 0⟩, ⟨0x158, le32 (kt ^^^ xorKtRetail)⟩, ⟨0x15C, leNat 0⟩,
    ⟨0x160, leNat 1⟩, ⟨0x164, leNat libverAddr⟩, ⟨0x168, leNat libverAddr⟩, ⟨0x16C, leNat 0⟩, ⟨0x170, leNat 0⟩,
    ⟨0x174, leNat 0⟩]

/-- The certificate at an offset. -/
def certificate (c : ℕ) (timestamp : Word) (titleUtf16 : List Byte) : List Piece :=
  [⟨c, leNat xbeCertSize⟩, ⟨c + 0x004, le32 timestamp⟩, ⟨c + 0x008, leNat 0x4B4F0001⟩, ⟨c + 0x00C, titleUtf16⟩,
    ⟨c + 0x09C, leNat 0x00FFFFFF⟩, ⟨c + 0x0A0, leNat 0x80000007⟩, ⟨c + 0x0A4, leNat 0⟩, ⟨c + 0x0A8, leNat 0⟩,
    ⟨c + 0x0AC, leNat 1⟩]

/-- The flags of the XBE section: preloaded, and what the segment allows. -/
def sectionFlags (s : Seg) : Word :=
  2#32 ||| (if s.executable then 4#32 else 0#32) ||| if s.writable then 1#32 else 0#32

/-- The section header at an offset. -/
def sectionHeader (sh : ℕ) (s : Seg) (raw nameAddr headRef tailRef : ℕ) : List Piece :=
  [⟨sh, le32 (sectionFlags s)⟩, ⟨sh + 0x04, leNat s.vaddr⟩, ⟨sh + 0x08, leNat s.vsize⟩, ⟨sh + 0x0C, leNat raw⟩,
    ⟨sh + 0x10, leNat s.rsize⟩, ⟨sh + 0x14, leNat nameAddr⟩, ⟨sh + 0x18, leNat 0⟩, ⟨sh + 0x1C, leNat headRef⟩,
    ⟨sh + 0x20, leNat tailRef⟩]

/-- The library version at an offset. -/
def libraryVersion (l : ℕ) : List Piece :=
  [⟨l, ascii "XBOXKRNL"⟩, ⟨l + 0x08, le16 1⟩, ⟨l + 0x0A, le16 0⟩, ⟨l + 0x0C, le16 5838⟩, ⟨l + 0x0E, le16 0⟩]

/-- The section headers, each with its name, from a number on. -/
def emitSections (base : ℕ) (layout : Layout) : ℕ → List (Seg × ℕ × ℕ) → Except String (List Piece)
  | _, [] => .ok []
  | i, (s, nameOff, raw) :: rest => do
    let nameAddr ← checkedAddU32 base nameOff "XBE section-name address"
    let twice ← checkedMulU32 i 2 "XBE section reference address"
    let headRef ← checkedAddU32 layout.refOff twice "XBE section reference address"
    let tailRef ← checkedAddU32 headRef 2 "XBE section reference address"
    let headAddr ← checkedAddU32 base headRef "XBE head-page reference address"
    let tailAddr ← checkedAddU32 base tailRef "XBE tail-page reference address"
    let others ← emitSections base layout (i + 1) rest
    return sectionHeader (layout.secOff + i * xbeSechdrSize) s raw nameAddr headAddr tailAddr ++
      [⟨nameOff, s.name ++ [0]⟩] ++ others

/-- The raw data of the segments that have some. -/
def rawData (e : Buffer) (S : List (Seg × ℕ)) : List Piece :=
  (S.filter fun (s, _) => s.rsize ≠ 0).map fun (s, raw) => ⟨raw, slice e s.roff s.rsize⟩

/-- The output file with what it was made of. -/
structure Xbe where
  bytes : Buffer
  length : ℕ
  layout : Layout
  base : ℕ
  segs : List Seg

/-- The address of the kernel-thunk list: that of the loader, or of the empty one in the headers. -/
def thunkAddress (naming : Naming) (base : ℕ) (layout : Layout) : Except String ℕ :=
  if naming.thunkVaddr ≠ 0 then .ok naming.thunkVaddr
  else checkedAddU32 base layout.thunkOff "fallback kernel thunk address"

/-- The file of zeros with the pieces written over it. -/
def emit (e : Buffer) (header : Header) (naming : Naming) (base size : ℕ) (layout : Layout) (titleUtf16 : List Byte)
    (timestamp : Word) : Except String Xbe := do
  let kt ← thunkAddress naming base layout
  let certAddr ← checkedAddU32 base layout.certOff "XBE certificate address"
  let secAddr ← checkedAddU32 base layout.secOff "XBE section-header address"
  let libverAddr ← checkedAddU32 base layout.libverOff "XBE library-version address"
  let sections ← emitSections base layout 0 (naming.segs.zip (layout.nameOff.zip layout.rawAddr))
  let pieces := imageHeader header.entry (BitVec.ofNat 32 kt) base size certAddr secAddr libverAddr naming.segs.length
      layout.headersSize timestamp ++ certificate layout.certOff timestamp titleUtf16 ++ sections ++
    libraryVersion layout.libverOff ++ rawData e (naming.segs.zip layout.rawAddr)
  return { bytes := place pieces fun _ => 0, length := layout.xbeLen, layout, base, segs := naming.segs }

end Emission

/-- The tool. The base, the title and the build time come from the command line and its environment. -/
def elf2xbe (e : Buffer) (elen : ℕ) (asked : Option Word) (title : List Byte) (timestamp : Word) : Except String Xbe := do
  let titleUtf16 ← writeTitleUtf16le title
  let header := readHeader e
  checkHeader e elen header
  let S ← collect e elen header
  let naming ← nameSegs e elen header S
  let (base, size) ← imageRange asked naming.segs
  let laid ← layout naming.segs
  emit e header naming base size laid titleUtf16 timestamp

end KosTool.Elf2xbe
