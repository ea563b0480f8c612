import KosTool.Math.Extents
import KosTool.Math.TerminatedStrings
import KosTool.Model.Binary.Elf

/-! # The conversion of an ELF into a PRX

`host/tools/elf2prx/elf2prx.c`: the parser of the input, the checks of its relocations, the conversion of each table into
the form of the loader, and the output that is put together behind a growing end.
-/

namespace KosTool.Elf2prx

open ByteWord WordPatch
open Elf2irx (orDie checkedAddU32 checkedMulU32 checkedAlignU32 isPowerOfTwoU32)

def rd16 (buffer : Buffer) (offset : ℕ) : ℕ := (buffer offset).toNat + 256 * (buffer (offset + 1)).toNat

def u32 (buffer : Buffer) (offset : ℕ) : ℕ := (rd32 buffer offset).toNat

/-- The two bytes of a half-word, least significant first. -/
def le16 (value : ℕ) : List Byte := [BitVec.ofNat 8 value, BitVec.ofNat 8 (value / 256)]

/-- A word of 32 bits, least significant byte first. -/
def leNat (value : ℕ) : List Byte := le32 (BitVec.ofNat 32 value)

@[simp] theorem length_le16 (value : ℕ) : (le16 value).length = 2 := rfl

@[simp] theorem length_leNat (value : ℕ) : (leNat value).length = 4 := rfl

/-- `SHN_UNDEF` -/
def shnUndef : ℕ := 0

/-- `SHN_ABS` -/
def shnAbs : ℕ := 0xFFF1

/-- `EF_MIPS_MACH_ALLEGREX` -/
def machAllegrex : Word := 0x00A20000

def requireRange (offset size limit : ℕ) (what : String) : Except String Unit :=
  orDie (offset ≤ limit && size ≤ limit - offset) s!"{what} lies outside its containing data"

/-- The section types that the tool tells apart. -/
inductive SectionType where
  | null
  | progbits
  | symtab
  | strtab
  | nobits
  | rel
  | prxreloc
  | other (code : Word)
deriving DecidableEq, Repr

namespace SectionType

def ofCode (code : Word) : SectionType :=
  if code = 0#32 then .null
  else if code = 1#32 then .progbits
  else if code = 2#32 then .symtab
  else if code = 3#32 then .strtab
  else if code = 8#32 then .nobits
  else if code = 9#32 then .rel
  else if code = 0x700000A0#32 then .prxreloc
  else .other code

def code : SectionType → Word
  | null => 0
  | progbits => 1
  | symtab => 2
  | strtab => 3
  | nobits => 8
  | rel => 9
  | prxreloc => 0x700000A0
  | other code => code

@[simp] theorem code_ofCode (code : Word) : (ofCode code).code = code := by
  rw [ofCode]
  split_ifs with h h h h h h h <;> first | exact h.symm | rfl

end SectionType

/-- `sec_t` -/
structure Sec where
  name : List Byte
  type : SectionType
  flags : Word
  addr : ℕ
  off : ℕ
  size : ℕ
  link : ℕ
  info : ℕ
  addralign : Word
  entsize : ℕ

/-- `SHF_ALLOC` -/
def Sec.alloc (s : Sec) : Bool := s.flags.getLsbD 1

/-- The fields of the file header that are read. -/
structure Header where
  entry : ℕ
  phoff : ℕ
  shoff : ℕ
  flags : Word
  ehsize : ℕ
  phentsize : ℕ
  phnum : ℕ
  shentsize : ℕ
  shnum : ℕ
  shstrndx : ℕ

/-- The fields of the segment that are read. -/
structure Load where
  offset : ℕ
  vaddr : ℕ
  filesz : ℕ
  memsz : ℕ
  flags : Word
  align : Word

section Input

variable (e : Buffer) (elen : ℕ)

def readHeader : Header where
  entry := u32 e 24
  phoff := u32 e 28
  shoff := u32 e 32
  flags := rd32 e 36
  ehsize := rd16 e 40
  phentsize := rd16 e 42
  phnum := rd16 e 44
  shentsize := rd16 e 46
  shnum := rd16 e 48
  shstrndx := rd16 e 50

/-- The checks of the file header. -/
def checkHeader (header : Header) : Except String Unit := do
  orDie (52 ≤ elen) "input too small to be an ELF"
  orDie (elen < 2 ^ 32) "input is too large for ELF32"
  orDie (slice e 0 4 == [0x7F, 0x45, 0x4C, 0x46]) "not an ELF file"
  orDie (e 4 == 1) "not ELF32"
  orDie (e 5 == 1) "not little-endian"
  orDie (e 6 == 1) "unsupported ELF identification version"
  orDie (rd16 e 16 == 2) "input is not ET_EXEC (link the image as a static executable)"
  orDie (rd16 e 18 == 8) "not a MIPS ELF"
  orDie (u32 e 20 == 1) "unsupported ELF header version"
  orDie (header.ehsize == 52) "unexpected ELF header size"
  orDie (header.phentsize == 32 && header.shentsize == 40) "unexpected ELF table entry sizes"
  orDie (header.shnum != 0 && header.shstrndx < header.shnum) "missing section header table"
  requireRange header.shoff (header.shnum * 40) elen "section header table"
  requireRange header.phoff (header.phnum * 32) elen "program header table"

def readLoad (ph : ℕ) : Load where
  offset := u32 e (ph + 4)
  vaddr := u32 e (ph + 8)
  filesz := u32 e (ph + 16)
  memsz := u32 e (ph + 20)
  flags := rd32 e (ph + 24)
  align := rd32 e (ph + 28)

/-- The places of the segments that are loaded. -/
def loads (header : Header) : List ℕ :=
  ((List.range header.phnum).map fun i => header.phoff + i * 32).filter fun ph => u32 e ph = 1

/-- The single loadable segment. -/
def findLoad (header : Header) : Except String Load :=
  match loads e header with
  | [] => .error "no PT_LOAD segment"
  | [ph] => .ok (readLoad e ph)
  | _ => .error "more than one PT_LOAD segment; a PRX must have exactly one"

def checkLoad (header : Header) (load : Load) : Except String Unit := do
  orDie (load.vaddr == 0) ("PT_LOAD p_vaddr is not 0: a PRX must be linked at base 0 so the " ++
    "loader can relocate it (see the linker script)")
  orDie (load.filesz ≤ load.memsz) "PT_LOAD file size exceeds its memory size"
  orDie (load.align ≤ 1#32 || isPowerOfTwoU32 load.align) "PT_LOAD has an invalid alignment"
  orDie (load.align ≤ 1#32 || load.offset % load.align.toNat == load.vaddr % load.align.toNat)
    "PT_LOAD file and memory offsets violate its alignment"
  requireRange load.offset load.filesz elen "PT_LOAD segment"
  orDie (header.entry < load.memsz) "entry point lies outside the PT_LOAD segment"

/-- One section header, still without its name. -/
def readSection (sh i : ℕ) : Except String Sec := do
  let s : Sec := {
    name := []
    type := .ofCode (rd32 e (sh + 4))
    flags := rd32 e (sh + 8)
    addr := u32 e (sh + 12)
    off := u32 e (sh + 16)
    size := u32 e (sh + 20)
    link := u32 e (sh + 24)
    info := u32 e (sh + 28)
    addralign := rd32 e (sh + 32)
    entsize := u32 e (sh + 36) }
  orDie (s.addralign == 0 || isPowerOfTwoU32 s.addralign) s!"section {i} has invalid alignment {s.addralign.toNat}"
  orDie (s.type == .nobits || s.off ≤ elen && s.size ≤ elen - s.off) "section data lies outside its containing data"
  return s

/-- `input_string_length`, and the string. -/
def inputString (tableOffset tableSize stringOffset : ℕ) (what : String) : Except String (List Byte) := do
  orDie (stringOffset < tableSize) s!"{what} has an invalid string-table offset"
  let text := slice e (tableOffset + stringOffset) (tableSize - stringOffset)
  let name := text.takeWhile (· != 0)
  orDie (name.length != text.length) s!"{what} is not NUL-terminated inside its string table"
  return name

/-- The section headers with their names. -/
def readSections (header : Header) : Except String (List Sec) := do
  let sections ← (List.range header.shnum).mapM fun i => readSection e elen (header.shoff + i * 40) i
  orDie ((sections[0]?.map (·.type)) == some .null) "section zero is not SHT_NULL"
  match sections[header.shstrndx]? with
  | none => .error "missing section header table"
  | some shstr =>
    orDie (shstr.type == .strtab) "section-name table is not SHT_STRTAB"
    sections.zipIdx.mapM fun (s, i) => do
      let name ← inputString e shstr.off shstr.size (u32 e (header.shoff + i * 40)) s!"section {i} name"
      return { s with name }

end Input

/-- The input with what the parser finds in it. -/
structure Elf where
  e : Buffer
  elen : ℕ
  header : Header
  load : Load
  sections : List Sec
  symtabIdx : ℕ
  symtab : ℕ
  symcount : ℕ

/-- The section of a symbol table. -/
def checkSymtab (sections : List Sec) (s : Sec) : Except String Unit := do
  orDie (s.entsize == 16 && s.size % 16 == 0) "symbol table has an invalid entry size or length"
  orDie ((sections[s.link]?.map (·.type)) == some .strtab) "symbol table does not link to a string table"
  orDie (s.info ≤ s.size / 16) "symbol table local-symbol count is out of range"

def parse (e : Buffer) (elen : ℕ) : Except String Elf := do
  let header := readHeader e
  checkHeader e elen header
  let load ← findLoad e header
  checkLoad elen header load
  let sections ← readSections e elen header
  match sections.zipIdx.filter fun (s, _) => s.type = .symtab with
  | [] => .error "no .symtab: relink with --emit-relocs and without -s/--strip-all"
  | [(s, i)] => do
    checkSymtab sections s
    return { e, elen, header, load, sections, symtabIdx := i, symtab := s.off, symcount := s.size / 16 }
  | _ => .error "multiple symbol tables are not supported"

/-- One entry of a relocation table. -/
structure Reloc where
  offset : Word
  type : Word
  symbol : ℕ
deriving DecidableEq, Repr

namespace Elf

variable (elf : Elf)

/-- The entries of a relocation table. -/
def entries (s : Sec) : List Reloc :=
  (List.range (s.size / 8)).map fun k =>
    let info := rd32 elf.e (s.off + k * 8 + 4)
    { offset := rd32 elf.e (s.off + k * 8), type := info &&& 0xff#32, symbol := (info >>> 8).toNat }

/-- `st_shndx` -/
def shndx (symbol : ℕ) : ℕ := rd16 elf.e (elf.symtab + symbol * 16 + 14)

/-- The index is that of a section without memory. -/
def nonAllocated (shndx : ℕ) : Bool := elf.sections[shndx]?.any (!·.alloc)

/-- The checks of one entry. -/
def validateEntry (target : Sec) (k : ℕ) (entry : Reloc) : Except String Unit :=
  if entry.type = 0#32 then .ok ()
  else do
    orDie (target.addr ≤ entry.offset.toNat && entry.offset.toNat - target.addr + 4 ≤ target.size)
      s!"relocation {k} patches outside section"
    orDie (entry.symbol < elf.symcount) s!"relocation {k} references invalid symbol {entry.symbol}"
    let shndx := elf.shndx entry.symbol
    orDie (shndx == shnAbs || shndx == shnUndef || shndx < elf.sections.length)
      s!"relocation {k} references a symbol with an invalid section"
    orDie (!(target.alloc && elf.nonAllocated shndx)) s!"relocation {k} references a non-allocated symbol"

/-- The checks of one relocation section, which is noted down for its target. -/
def validateSection (relidx : List (ℕ × ℕ)) (s : Sec) (i : ℕ) : Except String (List (ℕ × ℕ)) := do
  orDie (s.entsize == 8 && s.size % 8 == 0) "relocation section has an invalid entry size or length"
  orDie (s.link == elf.symtabIdx) "relocation section does not link to the symbol table"
  orDie (s.info != 0) "relocation section has an invalid target section"
  match elf.sections[s.info]? with
  | none => .error "relocation section has an invalid target section"
  | some target => do
    orDie (!(relidx.any fun (t, _) => t == s.info)) "multiple relocation sections target a section"
    orDie (s.size / 8 == 0 || target.type != .nobits) "relocation section targets SHT_NOBITS"
    (elf.entries s).zipIdx.forM fun (entry, k) => elf.validateEntry target k entry
    return (s.info, i) :: relidx

/-- The relocation table of each target, once all of them are checked. -/
def validateRelocations : Except String (List (ℕ × ℕ)) :=
  ((elf.sections.zipIdx.drop 1).filter fun (s, _) => s.type = .rel).foldlM
    (fun relidx (s, i) => elf.validateSection relidx s i) []

end Elf

/-- `MODINFO_SECTION` -/
def modinfoSection : List Byte := ".rodata.sceModuleInfo".toList.map fun c => BitVec.ofNat 8 c.toNat

/-- The module descriptor. -/
def findModinfo (sections : List Sec) : Except String Sec :=
  match sections.filter fun s => s.name = modinfoSection with
  | [] => .error "no .rodata.sceModuleInfo section"
  | [s] => do
    orDie (s.size == 0x34) ".rodata.sceModuleInfo is not 52 bytes: SceModuleInfo layout is wrong"
    orDie s.alloc ".rodata.sceModuleInfo is not allocated"
    orDie (s.type != .nobits) ".rodata.sceModuleInfo has no file-backed data"
    return s
  | _ => .error "multiple .rodata.sceModuleInfo sections"

/-- `out_t`: a section of the output, with its own bytes if it is a converted table. -/
structure OutSec where
  name : List Byte
  type : SectionType
  flags : Word
  addr : ℕ
  off : ℕ
  size : ℕ
  link : ℕ
  info : ℕ
  addralign : Word
  entsize : ℕ
  reloc : Option (List Byte)

/-- The mandatory first section. -/
def nullOut : OutSec := ⟨[], .null, 0, 0, 0, 0, 0, 0, 0, 0, none⟩

/-- The section of the names. -/
def shstrtabOut : OutSec :=
  ⟨".shstrtab".toList.map fun c => BitVec.ofNat 8 c.toNat, .strtab, 0, 0, 0, 0, 0, 0, 1, 0, none⟩

namespace Elf

variable (elf : Elf)

/-- The bytes of the entries that the loader gets: an entry without a type and one of a symbol that does not move are
dropped. -/
def convert : List Reloc → Except String (List Byte)
  | [] => .ok []
  | entry :: rest => do
    if entry.type = 0#32 then convert rest
    else do
      orDie (entry.symbol < elf.symcount) "relocation references a symbol past the end of .symtab"
      if elf.shndx entry.symbol = shnAbs ∨ elf.shndx entry.symbol = shnUndef then convert rest
      else do
        let others ← convert rest
        return le32 entry.offset ++ le32 entry.type ++ others

/-- The checks of an allocated section, and its offset in the segment. -/
def segmentOff (s : Sec) : Except String ℕ := do
  requireRange s.addr s.size elf.load.memsz "allocated section memory range"
  orDie (elf.load.offset ≤ s.off) "allocated section lies before the PT_LOAD segment"
  let off := s.off - elf.load.offset
  orDie (s.type == .nobits || off ≤ elf.load.filesz && s.size ≤ elf.load.filesz - off)
    "allocated section file range lies outside its containing data"
  orDie (s.type == .nobits || off == s.addr) "allocated section file and memory offsets disagree"
  orDie (s.type != .nobits || off ≤ elf.load.filesz) "allocated SHT_NOBITS section has an invalid file offset"
  return off

/-- The converted table behind the section at an index of the output, unless it has no entries. -/
def tableOut (r : Sec) (outidx : ℕ) : Except String (List OutSec) := do
  let conv ← elf.convert (elf.entries r)
  if conv.isEmpty then return []
  else return [⟨r.name, .prxreloc, 0x40, 0, 0, conv.length, 0, outidx, 4, 8, some conv⟩]

/-- The table of a section, if it has one. -/
def tablesOf (relidx : List (ℕ × ℕ)) (i outidx : ℕ) : Except String (List OutSec) :=
  match ((relidx.find? fun (t, _) => t == i).bind fun (_, r) => elf.sections[r]?) with
  | none => .ok []
  | some r => elf.tableOut r outidx

/-- The outputs of one section, from an index on. -/
def planSection (relidx : List (ℕ × ℕ)) (segOff nout : ℕ) (s : Sec) (i : ℕ) : Except String (List OutSec) := do
  let off ← elf.segmentOff s
  let off ← checkedAddU32 segOff off "allocated section output offset"
  let tables ← elf.tablesOf relidx i nout
  return ⟨s.name, s.type, s.flags, s.addr, off, s.size, 0, 0, s.addralign, s.entsize, none⟩ :: tables

/-- The allocated sections in their order, each with its table behind it. -/
def plan (relidx : List (ℕ × ℕ)) (segOff : ℕ) : List (Sec × ℕ) → ℕ → Except String (List OutSec)
  | [], _ => .ok []
  | (s, i) :: rest, nout => do
    if s.alloc then do
      let here ← elf.planSection relidx segOff nout s i
      let others ← plan relidx segOff rest (nout + here.length)
      return here ++ others
    else plan relidx segOff rest nout

end Elf

/-- `buf_put` -/
def bufPut (o d : List Byte) : Except String (List Byte) := do
  let _ ← checkedAddU32 o.length d.length "output buffer"
  return o ++ d

/-- `buf_pad` -/
def bufPad (o : List Byte) (alignment : Word) : Except String (List Byte) := do
  let want ← checkedAlignU32 o.length alignment "output padding"
  return o ++ List.replicate (want - o.length) 0

/-- The converted tables behind what is there, with their offsets filled in. -/
def putTables : List OutSec → List Byte → Except String (List OutSec × List Byte)
  | [], o => .ok ([], o)
  | out :: rest, o =>
    match out.reloc with
    | none => do
      let (others, o) ← putTables rest o
      return (out :: others, o)
    | some reloc => do
      let padded ← bufPad o 4
      let put ← bufPut padded reloc
      let (others, o) ← putTables rest put
      return ({ out with off := padded.length } :: others, o)

/-- The names, and where each of them starts. -/
def putNames : List OutSec → List Byte → Except String (List ℕ × List Byte)
  | [], names => .ok ([], names)
  | out :: rest, names => do
    let put ← bufPut names (out.name ++ [0])
    let (offsets, all) ← putNames rest put
    return (names.length :: offsets, all)

/-- One section header of the output. -/
def headerBytes (out : OutSec) (nameOff : ℕ) : List Byte :=
  leNat nameOff ++ le32 out.type.code ++ le32 out.flags ++ leNat out.addr ++ leNat out.off ++ leNat out.size ++
    leNat out.link ++ leNat out.info ++ le32 out.addralign ++ leNat out.entsize

/-- The file header: that of the input, but for what the output has otherwise. -/
def fileHeader (elf : Elf) (shoff nout shstrIdx : ℕ) : List Byte :=
  slice elf.e 0 16 ++ le16 0xFFA0 ++ slice elf.e 18 6 ++ leNat elf.header.entry ++ leNat 52 ++ leNat shoff ++
    le32 (elf.header.flags ||| machAllegrex) ++ slice elf.e 40 4 ++ le16 1 ++ slice elf.e 46 2 ++ le16 nout ++
    le16 shstrIdx

/-- The program header. -/
def programHeader (elf : Elf) (segOff modinfoOff : ℕ) : List Byte :=
  leNat 1 ++ leNat segOff ++ leNat 0 ++ leNat modinfoOff ++ leNat elf.load.filesz ++ leNat elf.load.memsz ++
    le32 elf.load.flags ++ leNat 0x10

/-- The output file, with the sections that its headers describe. -/
structure Prx where
  bytes : List Byte
  out : List OutSec
  nameOffs : List ℕ
  segOff : ℕ
  shstrtabOff : ℕ
  shstrtabSize : ℕ
  shoff : ℕ

/-- The output behind the plan of its sections. The headers are written last, over the zero bytes in front. -/
def assemble (elf : Elf) (modinfo : Sec) (segOff : ℕ) (planned : List OutSec) : Except String Prx := do
  let shstrIdx := planned.length + 1
  let nout := planned.length + 2
  orDie (nout ≤ 65535) s!"output has too many sections ({nout})"
  let first ← bufPut [] [0]
  let (nameOffs, names) ← putNames (planned ++ [shstrtabOut]) first
  let segment ← bufPut (List.replicate segOff 0) (slice elf.e elf.load.offset elf.load.filesz)
  let (placed, o) ← putTables planned segment
  let padded ← bufPad o 4
  let named ← bufPut padded names
  let aligned ← bufPad named 4
  let headersSize ← checkedMulU32 nout 40 "section header table"
  let _ ← checkedAddU32 aligned.length headersSize "section header table"
  let modinfoOff ← checkedAddU32 segOff modinfo.addr "module descriptor output offset"
  let out := nullOut :: placed ++ [{ shstrtabOut with off := padded.length, size := names.length }]
  let headers := (out.zip (0 :: nameOffs)).flatMap fun (out, nameOff) => headerBytes out nameOff
  let front := fileHeader elf aligned.length nout shstrIdx ++ programHeader elf segOff modinfoOff
  return { bytes := front ++ (aligned ++ headers).drop front.length, out, nameOffs := 0 :: nameOffs, segOff,
           shstrtabOff := padded.length, shstrtabSize := names.length, shoff := aligned.length }

/-- The tool. -/
def elf2prx (e : Buffer) (elen : ℕ) : Except String (Elf × Prx) := do
  let elf ← parse e elen
  let relidx ← elf.validateRelocations
  let modinfo ← findModinfo elf.sections
  let header ← checkedAddU32 52 32 "program header table"
  let segOff ← checkedAlignU32 header 16 "LOAD segment offset"
  let planned ← elf.plan relidx segOff (elf.sections.zipIdx.drop 1) 1
  let prx ← assemble elf modinfo segOff planned
  return (elf, prx)

end KosTool.Elf2prx
