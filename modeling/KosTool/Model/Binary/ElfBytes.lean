import KosTool.Machine.Tracked
import KosTool.Model.Binary.Elf

/-! # The bytes of the ELF that `elf2irx` reads

`host/tools/elf2irx/elf2irx.c`: the parser, the sort of the relocation sections in place and their checks, over the
bytes of the input, with every range of the input that they touch. The sections may overlap, so that the sort of one
can change the entries of another. The passes read the entries that they need; here each of them reads whole tables.
Allocation failures are left out.
-/

namespace KosTool.Elf2irx

open ByteWord WordPatch

/-- The buffers of the tool: the file that is read and the file that is made up. -/
inductive Memory where
  | input
  | output
deriving DecidableEq, Repr

/-- A step of the tool, which may `die`. -/
abbrev Tool := Tracked Memory String

/-- `die`, unless the condition holds. -/
def require (condition : Bool) (message : String) : Tool Unit := .ofExcept (orDie condition message)

/-- `g_in` and `g_in_size` -/
structure InputFile where
  bytes : Buffer
  size : ℕ

/-- `load_input`; the offsets of an ELF32 file have 32 bits. -/
def loadInput (contents : List Byte) : Except String InputFile := do
  orDie (52 ≤ contents.length) s!"input too small to be ELF ({contents.length} bytes)"
  orDie (contents.length < 2 ^ 32) s!"input is too large for ELF32 ({contents.length} bytes)"
  return ⟨overlay contents fun _ => 0, contents.length⟩

namespace InputFile

variable (file : InputFile)

def touch (offset count : ℕ) : Tool Unit := .touch ⟨.input, offset, count, file.size⟩

def rd8 (offset : ℕ) : Tool Byte := do
  file.touch offset 1
  return file.bytes offset

def rd16 (offset : ℕ) : Tool ℕ := do
  file.touch offset 2
  return (file.bytes offset).toNat + (file.bytes (offset + 1)).toNat * 256

def rd32 (offset : ℕ) : Tool Word := do
  file.touch offset 4
  return WordPatch.rd32 file.bytes offset

/-- `memcpy` into the buffer -/
def store (offset : ℕ) (contents : List Byte) : Tool InputFile := do
  file.touch offset contents.length
  return { file with bytes := storeAt file.bytes offset contents }

/-- `memcpy` out of the buffer -/
def load (offset count : ℕ) : Tool (List Byte) := do
  file.touch offset count
  return slice file.bytes offset count

/-- `require_input_range` -/
def requireInputRange (offset size : ℕ) (what : String) : Tool Unit :=
  require (offset ≤ file.size ∧ size ≤ file.size - offset) s!"{what} lies outside the input file"

/-- `bounded_strlen` -/
def boundedStrlen (offset maxlen : ℕ) : ℕ :=
  ((List.range maxlen).find? fun n => file.bytes (offset + n) = 0).getD maxlen

/-- `input_string_length`: the terminator is read, if there is one. -/
def inputStringLength (tableOffset tableSize stringOffset : Word) (what : String) : Tool ℕ := do
  require (stringOffset < tableSize) s!"{what} has an invalid string-table offset"
  let text := tableOffset.toNat + stringOffset.toNat
  let available := (tableSize - stringOffset).toNat
  let length := file.boundedStrlen text available
  file.touch text (min (length + 1) available)
  require (length ≠ available) s!"{what} is not NUL-terminated inside its string table"
  return length

end InputFile

/-- The fields of the ELF header that later passes read. -/
structure ElfHeader where
  entry : Word
  shoff : Word
  shnum : ℕ
  shstrndx : ℕ

/-- `parse_elf_header` -/
def parseElfHeader (file : InputFile) : Tool ElfHeader := do
  let magic ← file.rd32 0
  require (magic == 0x464C457F#32) "not ELF (bad magic)"
  let elfClass ← file.rd8 4
  require (elfClass == 1#8) "not ELFCLASS32"
  let data ← file.rd8 5
  require (data == 1#8) "not little-endian"
  let version ← file.rd8 6
  require (version == 1#8) s!"unsupported ELF identification version {version.toNat}"
  let type ← file.rd16 16
  let machine ← file.rd16 18
  let entry ← file.rd32 24
  let _phoff ← file.rd32 28
  let shoff ← file.rd32 32
  let _flags ← file.rd32 36
  let ehsize ← file.rd16 40
  let shentsize ← file.rd16 46
  let shnum ← file.rd16 48
  let shstrndx ← file.rd16 50
  require (machine == 8) s!"not MIPS (e_machine={machine})"
  require (type == 1 || type == 0xFF80)
    s!"not relocatable (e_type={type}, expected ET_REL=1 or ELF_IRX_TYPE=0xFF80)"
  require (shentsize == 40) s!"section header size {shentsize} != 40"
  require (ehsize == 52) s!"ELF header size {ehsize} != 52"
  require (shnum != 0) "no sections"
  require (shstrndx < shnum) s!"invalid shstrndx {shstrndx} (only {shnum} sections)"
  file.requireInputRange shoff.toNat (shnum * shentsize) "section header table"
  return ⟨entry, shoff, shnum, shstrndx⟩

/-- The type of a section header. -/
def SectionType.ofWord (word : Word) : SectionType :=
  if word = 0#32 then .null
  else if word = 1#32 then .progbits
  else if word = 2#32 then .symtab
  else if word = 3#32 then .strtab
  else if word = 9#32 then .rel
  else if word = 8#32 then .nobits
  else if word = 0x70000006#32 then .reginfo
  else if word = 0x70000080#32 then .iopmod
  else .other word

/-- A section with its place in the file. -/
structure FileSection extends Section where
  shName : Word
  addr : Word
  offset : Word

/-- A section with bytes has them in the file. -/
def requireData (file : InputFile) (type offset size : Word) : Tool Unit :=
  if SectionType.ofWord type ≠ .nobits then file.requireInputRange offset.toNat size.toNat "section data"
  else return ()

/-- One section header; the name is resolved later. -/
def parseSectionHeader (file : InputFile) (header : ElfHeader) (i : ℕ) : Tool FileSection := do
  let sh := header.shoff.toNat + i * 40
  let shName ← file.rd32 sh
  let type ← file.rd32 (sh + 4)
  let flags ← file.rd32 (sh + 8)
  let addr ← file.rd32 (sh + 12)
  let offset ← file.rd32 (sh + 16)
  let size ← file.rd32 (sh + 20)
  let link ← file.rd32 (sh + 24)
  let info ← file.rd32 (sh + 28)
  let addralign ← file.rd32 (sh + 32)
  let entsize ← file.rd32 (sh + 36)
  require (addralign = 0 ∨ isPowerOfTwoU32 addralign) s!"section {i} has invalid alignment {addralign.toNat}"
  requireData file type offset size
  return {
    name := ""
    type := .ofWord type
    flags, size, link, info, addralign, entsize
    contents i := file.bytes (offset.toNat + i)
    shName, addr, offset }

/-- A text of one character a byte. -/
def textOf (contents : List Byte) : String := String.ofList (contents.map fun byte => Char.ofNat byte.toNat)

/-- The name of a section, which has to fit into 64 bytes. -/
def resolveName (file : InputFile) (shstr : FileSection) (i : ℕ) (s : FileSection) : Tool FileSection := do
  let n ← file.inputStringLength shstr.offset shstr.size s.shName s!"section {i} name"
  require (n < 64) s!"section {i} name is too long ({n} bytes, maximum 63)"
  let name ← file.load (shstr.offset.toNat + s.shName.toNat) n
  return { s with name := textOf name }

/-- What the parser finds. -/
structure ElfFile where
  entry : Word
  sections : List FileSection
  iopmodIdx : ℕ
  synth : Bool
  symtabIdx : Option ℕ
  symbols : List Symbol

/-- The module information that the tool makes up has no place in the file. -/
def synthSection : FileSection := { synthIopmod with shName := 0, addr := 0, offset := 0 }

/-- The search for the module information, which is added if there is none, and for the symbol table. -/
def findSections (entry : Word) (sections : List FileSection) : Except String ElfFile := do
  let symtabs := (List.range sections.length).filter fun i => (sections[i]?.map (·.type)) == some .symtab
  orDie (symtabs.length ≤ 1) "multiple SHT_SYMTAB sections are not supported"
  match lastNamed (sections.map (·.toSection)) ".iopmod" with
  | some i =>
    orDie ((sections[i]?.map (·.type)) != some .nobits) ".iopmod cannot be SHT_NOBITS"
    return ⟨entry, sections, i, false, symtabs.head?, []⟩
  | none =>
    orDie (sections.length ≠ 65535) "cannot synthesize .iopmod: section table is full"
    return ⟨entry, sections ++ [synthSection], sections.length, true, symtabs.head?, []⟩

/-- `parse_section_headers` -/
def parseSectionHeadersAt (file : InputFile) (header : ElfHeader) : Tool ElfFile := do
  let sections ← (List.range header.shnum).mapM (parseSectionHeader file header)
  match sections[header.shstrndx]? with
  | none => .ofExcept (.error "invalid shstrndx")
  | some shstr => do
    require (shstr.type == .strtab) "section-name table is not SHT_STRTAB"
    let sections ← sections.zipIdx.mapM fun (s, i) => resolveName file shstr i s
    .ofExcept (findSections header.entry sections)

/-- One symbol; what is left of a name that is too long is its first 95 bytes. -/
def parseSymbol (file : InputFile) (symtab strtab : FileSection) (i : ℕ) : Tool Symbol := do
  let p := symtab.offset.toNat + i * 16
  let stName ← file.rd32 p
  let value ← file.rd32 (p + 4)
  let _size ← file.rd32 (p + 8)
  let _info ← file.rd8 (p + 12)
  let _other ← file.rd8 (p + 13)
  let shndx ← file.rd16 (p + 14)
  let fullLength ← file.inputStringLength strtab.offset strtab.size stName s!"symbol {i} name"
  let name ← file.load (strtab.offset.toNat + stName.toNat) (min fullLength 95)
  return ⟨textOf name, value, shndx⟩

namespace ElfFile

/-- The tables without their places. -/
def elf (parsed : ElfFile) : Elf :=
  ⟨parsed.sections.map (·.toSection), parsed.symbols, parsed.iopmodIdx, parsed.symtabIdx⟩

variable (parsed : ElfFile)

/-- `parse_symbols` -/
def parseSymbols (file : InputFile) : Tool ElfFile :=
  match parsed.symtabIdx.bind (parsed.sections[·]?) with
  | none => return parsed
  | some symtab => do
    require (symtab.entsize == 16#32 && symtab.size % 16#32 == 0#32) "invalid .symtab"
    match parsed.sections[symtab.link.toNat]? with
    | none => .ofExcept (.error "invalid .symtab sh_link")
    | some strtab => do
      require (strtab.type == .strtab) ".symtab does not link to a string table"
      let symbols ← (List.range (symtab.size.toNat / 16)).mapM (parseSymbol file symtab strtab)
      return { parsed with symbols }

/-- The kept relocation sections with their indices. -/
def relSections : List (FileSection × ℕ) :=
  parsed.sections.zipIdx.filter fun (s, i) => parsed.elf.keep i s.toSection && s.type == .rel

end ElfFile

/-- The inner loop of the sort: the entries before a position move up while they have a greater offset. What is left is
the position for the entry. -/
def moveUp (base : ℕ) (offJ : Word) : ℕ → InputFile → Tool (ℕ × InputFile)
  | 0, file => return (0, file)
  | k + 1, file => do
    let offK ← file.rd32 (base + k * 8)
    if offK ≤ offJ then return (k + 1, file)
    else do
      let entry ← file.load (base + k * 8) 8
      let file ← file.store (base + (k + 1) * 8) entry
      moveUp base offJ k file

/-- One round of the sort: the entry at a position goes where it belongs among those before it. -/
def insertAt (base : ℕ) (file : InputFile) (j : ℕ) : Tool InputFile := do
  let offJ := rd32 file.bytes (base + j * 8)
  let entry ← file.load (base + j * 8) 8
  let (k, file) ← moveUp base offJ j file
  file.store (base + k * 8) entry

/-- The sort of one section. -/
def sortSection (file : InputFile) (s : FileSection) : Tool InputFile :=
  (List.range' 1 (s.size.toNat / 8 - 1)).foldlM (insertAt s.offset.toNat) file

/-- The entries of a relocation section in the file. -/
def InputFile.table (file : InputFile) (s : FileSection) : List Reloc :=
  (List.range (s.size.toNat / 8)).map fun k =>
    .ofWords (WordPatch.rd32 file.bytes (s.offset.toNat + k * 8)) (WordPatch.rd32 file.bytes (s.offset.toNat + k * 8 + 4))

/-- A pass over the entries of a relocation section. -/
def InputFile.readTable (file : InputFile) (s : FileSection) : Tool (List Reloc) := do
  (List.range (s.size.toNat / 8)).forM fun k => file.touch (s.offset.toNat + k * 8) 8
  return file.table s

namespace ElfFile

variable (parsed : ElfFile)

/-- `sort_relocations` -/
def sortRelocations (file : InputFile) : Tool InputFile :=
  parsed.relSections.foldlM (fun file (s, _) => sortSection file s) file

/-- The checks of one kept relocation section. -/
def validateSection (file : InputFile) (s : FileSection) : Tool Unit := do
  require (s.entsize == 8#32 && s.size % 8#32 == 0#32) s!".rel section {s.name} has invalid size {s.size.toNat}"
  match parsed.elf.target? s.toSection with
  | none => .ofExcept (.error s!".rel section {s.name} has invalid target section {s.info.toNat}")
  | some target => do
    require target.alloc s!".rel section {s.name} targets a non-allocated section"
    require ((parsed.sections[s.link.toNat]?.map (·.type)) == some .symtab)
      s!".rel section {s.name} does not link to a symbol table"
    require (parsed.symtabIdx == some s.link.toNat) s!".rel section {s.name} links to an unsupported symbol table"
    let table ← file.readTable s
    .ofExcept (table.zipIdx.forM fun (entry, k) => parsed.elf.validateEntry s.name target k entry)

/-- `validate_relocations` -/
def validateRelocations (file : InputFile) : Tool Unit :=
  parsed.relSections.forM fun (s, _) => parsed.validateSection file s

end ElfFile

end KosTool.Elf2irx
