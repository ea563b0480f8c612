import KosTool.Math.ByteOrder

/-! # From ELF to DOL, and the DOL loader

`main` of `make-dist/tools/elf2dol.c`, and `parse_header` and `dol_load` of `host/src/binary/dol.c`. Both go
through two tables of sections in the header, one for text and one for data, in the same way. Allocations succeed,
and files can be read and written.
-/

namespace KosTool.Binary

open ByteWord

def elfHeaderSize : ℕ := 52
def ptLoad : Word := 1
def pfX : Word := 1

/-- An `Elf32_Phdr`, without what is not used. -/
structure Phdr where
  type : Word
  offset : Word
  vaddr : Word
  filesz : Word
  memsz : Word
  flags : Word
deriving DecidableEq, Repr

def dolHeaderSize : ℕ := 256
def dolAlign : Word := 64

/-- Where a table of the DOL header has its columns, and how many rows. -/
structure SectionTable where
  offset : ℕ
  address : ℕ
  size : ℕ
  max : ℕ

def textTable : SectionTable := ⟨0x00, 0x48, 0x90, 7⟩
def dataTable : SectionTable := ⟨0x1C, 0x64, 0xAC, 11⟩

/-- `align_up`. -/
def alignUp (val align : Word) : Word := (val + align - 1) &&& ~~~ (align - 1)

namespace Phdr

/-- A program header read from an address. -/
def read (elfData : Buffer) (p : ℕ) : Phdr where
  type := readBe32 elfData p
  offset := readBe32 elfData (p + 4)
  vaddr := readBe32 elfData (p + 8)
  filesz := readBe32 elfData (p + 16)
  memsz := readBe32 elfData (p + 20)
  flags := readBe32 elfData (p + 24)

/-- A segment that is loaded. -/
def IsLoad (phdr : Phdr) : Prop := phdr.type = ptLoad

instance (phdr : Phdr) : Decidable phdr.IsLoad := inferInstanceAs (Decidable (_ = _))

/-- A segment with bytes in the file that goes into the text table, or else into the data table. -/
def IsText (phdr : Phdr) : Prop := phdr.IsLoad ∧ phdr.filesz ≠ 0 ∧ phdr.flags &&& pfX ≠ 0

def IsData (phdr : Phdr) : Prop := phdr.IsLoad ∧ phdr.filesz ≠ 0 ∧ phdr.flags &&& pfX = 0

instance (phdr : Phdr) : Decidable phdr.IsText := inferInstanceAs (Decidable (_ ∧ _))
instance (phdr : Phdr) : Decidable phdr.IsData := inferInstanceAs (Decidable (_ ∧ _))

end Phdr

/-- What the first pass over the program headers has counted. -/
structure FirstPass where
  numText : ℕ
  numData : ℕ
  bssAddr : Word
  bssEnd : Word

/-- The part of the first pass that tracks BSS. -/
def FirstPass.trackBss (pass : FirstPass) (phdr : Phdr) : FirstPass :=
  if phdr.filesz < phdr.memsz then
    { pass with
      bssAddr :=
        if pass.bssAddr = 0 ∨ phdr.vaddr + phdr.filesz < pass.bssAddr then phdr.vaddr + phdr.filesz else pass.bssAddr
      bssEnd := if pass.bssEnd < phdr.vaddr + phdr.memsz then phdr.vaddr + phdr.memsz else pass.bssEnd }
  else pass

/-- The first pass; `none` when there are too many sections. -/
def firstPass : List Phdr → FirstPass → Option FirstPass
  | [], pass => some pass
  | phdr :: rest, pass =>
    if phdr.IsLoad then
      if phdr.IsText then
        if textTable.max ≤ pass.numText then none
        else firstPass rest ({ pass with numText := pass.numText + 1 }.trackBss phdr)
      else if phdr.IsData then
        if dataTable.max ≤ pass.numData then none
        else firstPass rest ({ pass with numData := pass.numData + 1 }.trackBss phdr)
      else firstPass rest (pass.trackBss phdr)
    else firstPass rest pass

/-- The output of the second pass: the header to come, the file so far, and the next offset and row. -/
structure DolWriter where
  header : Buffer
  file : List Byte
  fileOffset : Word
  num : ℕ

/-- `write32be`. -/
def write32be (header : Buffer) (offset : ℕ) (val : Word) : Buffer := storeAt header offset (be32 val)

/-- A section is aligned, written and entered into its table. -/
def DolWriter.writeSection (table : SectionTable) (elfData : Buffer) (writer : DolWriter) (phdr : Phdr) : DolWriter where
  header :=
    write32be (write32be (write32be writer.header (table.offset + 4 * writer.num) (alignUp writer.fileOffset dolAlign))
      (table.address + 4 * writer.num) phdr.vaddr) (table.size + 4 * writer.num) phdr.filesz
  file :=
    -- `while((uint32_t)ftell(fout) < file_offset)`
    writer.file ++ List.replicate ((alignUp writer.fileOffset dolAlign).toNat - writer.file.length % 2 ^ 32) 0 ++
      slice elfData phdr.offset.toNat phdr.filesz.toNat
  fileOffset := alignUp writer.fileOffset dolAlign + phdr.filesz
  num := writer.num + 1

/-- The sections of a table. -/
def DolWriter.writeSections (table : SectionTable) (elfData : Buffer) (writer : DolWriter) (phdrs : List Phdr) :
    DolWriter :=
  phdrs.foldl (DolWriter.writeSection table elfData) { writer with num := 0 }

/-- The first offset of a table without sections. -/
def fillEmpty (table : SectionTable) (num : ℕ) (header : Buffer) : Buffer :=
  if num = 0 then write32be header table.offset (alignUp (BitVec.ofNat 32 dolHeaderSize) dolAlign) else header

/-- The BSS range and the entry point. -/
def fillBss (pass : FirstPass) (entry : Word) (header : Buffer) : Buffer :=
  write32be
    (if pass.bssAddr < pass.bssEnd then
      write32be (write32be header 0xD8 pass.bssAddr) 0xDC (pass.bssEnd - pass.bssAddr) else header) 0xE0 entry

/-- The program headers. -/
def readPhdrs (elfData : Buffer) : List Phdr :=
  (List.range (ByteOrder.big.load16 elfData 44).toNat).map fun i =>
    .read elfData ((readBe32 elfData 28).toNat + i * (ByteOrder.big.load16 elfData 42).toNat)

/-- The file written for program headers and an entry point. -/
def writeDol (elfData : Buffer) (phdrs : List Phdr) (pass : FirstPass) (entry : Word) : List Byte :=
  let text := DolWriter.writeSections textTable elfData
    ⟨fun _ => 0, List.replicate dolHeaderSize 0, BitVec.ofNat 32 dolHeaderSize, 0⟩ (phdrs.filter (·.IsText))
  let data := DolWriter.writeSections dataTable elfData text (phdrs.filter (·.IsData))
  slice (fillBss pass entry (fillEmpty dataTable data.num (fillEmpty textTable text.num data.header))) 0 dolHeaderSize ++
    data.file.drop dolHeaderSize

/-- `main` of `elf2dol` on an ELF file, in front of whatever memory holds behind it; `none` for an error. -/
def elf2dol (elf : List Byte) (memory : Buffer) : Option (List Byte) :=
  if elf.length < elfHeaderSize ∨ elf.take 4 ≠ [0x7f, 0x45, 0x4c, 0x46] then none
  else if elf.getD 4 0 ≠ 1 ∨ elf.getD 5 0 ≠ 2 then none
  else
    (firstPass (readPhdrs (overlay elf memory)) ⟨0, 0, 0, 0⟩).map fun pass =>
      writeDol (overlay elf memory) (readPhdrs (overlay elf memory)) pass (readBe32 (overlay elf memory) 24)

/-- A `binary_section_t`, without its name. -/
structure BinarySection where
  loadAddr : Word
  data : List Byte
deriving DecidableEq

/-- A table of a `dol_header_t`. -/
structure DolSections where
  offset : ℕ → Word
  address : ℕ → Word
  size : ℕ → Word

structure DolHeader where
  text : DolSections
  data : DolSections
  bssAddress : Word
  bssSize : Word
  entryPoint : Word

def parseSections (table : SectionTable) (raw : Buffer) : DolSections where
  offset i := readBe32 raw (table.offset + i * 4)
  address i := readBe32 raw (table.address + i * 4)
  size i := readBe32 raw (table.size + i * 4)

/-- `parse_header`. -/
def parseHeader (raw : Buffer) : DolHeader where
  text := parseSections textTable raw
  data := parseSections dataTable raw
  bssAddress := readBe32 raw 0xD8
  bssSize := readBe32 raw 0xDC
  entryPoint := readBe32 raw 0xE0

/-- The loop of `dol_load` over the rows of a table from one on, as many as are left. -/
def loadSections (file : List Byte) (sections : DolSections) : ℕ → ℕ → Option (List BinarySection)
  | 0, _ => some []
  | rows + 1, i =>
    if sections.size i = 0 then loadSections file sections rows (i + 1)
    else if BitVec.ofNat 32 file.length < sections.offset i + sections.size i then none
    else if ((file.drop (sections.offset i).toNat).take (sections.size i).toNat).length ≠ (sections.size i).toNat then none
    else
      (loadSections file sections rows (i + 1)).map
        (⟨sections.address i, (file.drop (sections.offset i).toNat).take (sections.size i).toNat⟩ :: ·)

/-- What `dol_load` leaves: the header, the entry address, and the sections in the order of the callbacks. -/
structure DolImage where
  header : DolHeader
  entryAddr : Word
  sections : List BinarySection

/-- `dol_load`, with callbacks that succeed. -/
def dolLoad (file : List Byte) : Option DolImage :=
  if file.length < dolHeaderSize then none
  else
    let header := parseHeader (overlay (file.take dolHeaderSize) fun _ => 0)
    match loadSections file header.text textTable.max 0, loadSections file header.data dataTable.max 0 with
    | some text, some data => some ⟨header, header.entryPoint, text ++ data⟩
    | _, _ => none

end KosTool.Binary
