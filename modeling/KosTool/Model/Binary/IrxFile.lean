import KosTool.Math.Extents
import KosTool.Model.Binary.Irx

/-! # The file around the IRX image

`host/tools/elf2irx/elf2irx.c`: the second half of `compute_layout`, where the headers, the names and the tables stand in
the file. A section name is one character a byte. The sizes of the emitted relocation tables are counted ahead of their
emission.
-/

namespace KosTool.Elf2irx

/-- `PADLO_NAME` -/
def padloName : String := ".elf2irx_padlo"

/-- A kept section with its size in the file, or in memory if it has no bytes. -/
structure OutSection where
  sec : Section
  idx : ℕ
  outSize : ℕ

/-- Where the parts of the file stand. -/
structure FileLayout where
  phoff : ℕ
  iopmodOff : ℕ
  allocOff : ℕ
  shstrtabOff : ℕ
  shstrSize : ℕ
  shnum : ℕ
  shoff : ℕ
  relocbase : ℕ
  symtabOff : ℕ
  strtabOff : ℕ
  totalSize : ℕ
  sections : List OutSection
  outOffset : List ℕ
  padloOffset : ℕ

/-- A running total of checked additions. -/
def checkedSumU32 (start : ℕ) (sizes : List ℕ) (what : String) : Except String ℕ :=
  sizes.foldlM (fun sum size => checkedAddU32 sum size what) start

namespace Elf

variable (elf : Elf)

/-- `output_relocation_size` -/
def outputRelocationSize (i : ℕ) (s : Section) : Except String ℕ :=
  if s.type ≠ .rel then .ok s.size.toNat
  else do
    let kept := s.table.countP fun entry => relocationKeptForLoader entry.type
    let count ← checkedAddU32 kept (elf.strays.countP (·.relSecIdx == i)) "output relocation count"
    let count ← checkedAddU32 count (elf.extraLos.countP (·.relSecIdx == i)) "output relocation count"
    checkedMulU32 count 8 "output relocation size"

/-- The kept sections with their sizes. -/
def outSections : Except String (List OutSection) :=
  (elf.sections.zipIdx.filter fun (s, i) => elf.keep i s).mapM fun (s, i) => do
    let outSize ← elf.outputRelocationSize i s
    return ⟨s, i, outSize⟩

/-- The scratch words have a section of their own, if there are any. -/
def hasPadlo : Bool := 0 < elf.strays.length + elf.extraLos.length

/-- The lengths in the name table: of the kept sections, of the scratch words and of the three tables. -/
def nameSizes (kept : List OutSection) : List ℕ :=
  (kept.map (·.sec.name) ++ (if elf.hasPadlo then [padloName] else []) ++ [".shstrtab", ".symtab", ".strtab"]).map
    fun name => name.length + 1

def iopmodSize : ℕ := (elf.sections[elf.iopmodIdx]?.map (·.size.toNat)).getD 0

end Elf

/-- The sizes of the relocation tables, among them that of a module information of this type. -/
def tableSizes (kept : List OutSection) : List ℕ := (kept.filter fun out => out.sec.type = .rel).map (·.outSize)

/-- The offset of one kept section, and where the next relocation table goes. -/
def outOffsetOf (elf : Elf) (layout : Layout) (iopmodOff allocOff curReloc : ℕ) (out : OutSection) :
    Except String (ℕ × ℕ) :=
  if out.idx = elf.iopmodIdx then .ok (iopmodOff, curReloc)
  else if out.sec.type = .progbits ∧ out.sec.alloc then do
    let offset ← checkedAddU32 allocOff (layout.addr out.idx) "allocated section output offset"
    return (offset, curReloc)
  else if out.sec.type = .nobits then do
    let offset ← checkedAddU32 allocOff layout.filesz "NOBITS output offset"
    return (offset, curReloc)
  else if out.sec.type = .rel then do
    let next ← checkedAddU32 curReloc out.outSize "relocation section output offset"
    return (curReloc, next)
  else .ok (0, curReloc)

/-- The offsets of the kept sections; the relocation tables follow one another. -/
def outOffsets (elf : Elf) (layout : Layout) (iopmodOff allocOff : ℕ) :
    List OutSection → ℕ → Except String (List ℕ)
  | [], _ => .ok []
  | out :: rest, curReloc => do
    let (offset, curReloc) ← outOffsetOf elf layout iopmodOff allocOff curReloc out
    let offsets ← outOffsets elf layout iopmodOff allocOff rest curReloc
    return offset :: offsets

/-- The offset of the scratch words, if there are any. -/
def padloOffsetOf (elf : Elf) (layout : Layout) (allocOff : ℕ) : Except String ℕ :=
  if elf.hasPadlo then checkedAddU32 allocOff layout.padloAddr "scratch relocation output offset" else .ok 0

/-- The second half of `compute_layout`. -/
def computeFileLayout (elf : Elf) (layout : Layout) : Except String FileLayout := do
  let kept ← elf.outSections
  let shstrSize ← checkedSumU32 1 (elf.nameSizes kept) "section-name string table"
  let phoff := 52
  let iopmodOff ← checkedAddU32 phoff (2 * 32) "program header table"
  let iopmodEnd ← checkedAddU32 iopmodOff elf.iopmodSize ".iopmod layout"
  let allocOff ← checkedAlignU32 iopmodEnd 16 "allocated payload offset"
  let shstrtabOff ← checkedAddU32 allocOff layout.filesz "section-name table offset"
  let shnum ← checkedAddU32 kept.length (if elf.hasPadlo then 1 else 0) "output section count"
  let shnum ← checkedAddU32 shnum 4 "output section count"
  orDie (shnum ≤ 65535) s!"output has too many sections ({shnum})"
  let namesEnd ← checkedAddU32 shstrtabOff shstrSize "section header offset"
  let shoff ← checkedAlignU32 namesEnd 4 "section header offset"
  let headers ← checkedMulU32 shnum 40 "section header table"
  let relocbase ← checkedAddU32 shoff headers "section header table"
  let relocTotal ← checkedSumU32 0 (tableSizes kept) "relocation tables"
  let relocEnd ← checkedAddU32 relocbase relocTotal "symbol table offset"
  let symtabOff ← checkedAlignU32 relocEnd 4 "symbol table offset"
  let strtabOff ← checkedAddU32 symtabOff 16 "string table offset"
  let totalSize ← checkedAddU32 strtabOff 1 "IRX output size"
  let outOffset ← outOffsets elf layout iopmodOff allocOff kept relocbase
  let padloOffset ← padloOffsetOf elf layout allocOff
  return { phoff, iopmodOff, allocOff, shstrtabOff, shstrSize, shnum, shoff, relocbase, symtabOff, strtabOff, totalSize,
           sections := kept, outOffset, padloOffset }

namespace Elf

variable (elf : Elf)

/-- The names in the name table, with or without that of the scratch words. -/
def outNames (padlo : Bool) (kept : List OutSection) : List String :=
  kept.map (·.sec.name) ++ (if padlo then [padloName] else []) ++ [".shstrtab", ".symtab", ".strtab"]

/-- The offset of the scratch words, if there are any. -/
def padloOffsetFor (layout : Layout) (padlo : Bool) (allocOff : ℕ) : Except String ℕ :=
  if padlo then checkedAddU32 allocOff layout.padloAddr "scratch relocation output offset" else .ok 0

/-- The second half of `compute_layout`, for the kept sections with their sizes. -/
def fileLayoutFor (layout : Layout) (padlo : Bool) (kept : List OutSection) : Except String FileLayout := do
  let shstrSize ← checkedSumU32 1 ((outNames padlo kept).map fun name => name.length + 1) "section-name string table"
  let phoff := 52
  let iopmodOff ← checkedAddU32 phoff (2 * 32) "program header table"
  let iopmodEnd ← checkedAddU32 iopmodOff elf.iopmodSize ".iopmod layout"
  let allocOff ← checkedAlignU32 iopmodEnd 16 "allocated payload offset"
  let shstrtabOff ← checkedAddU32 allocOff layout.filesz "section-name table offset"
  let shnum ← checkedAddU32 kept.length (if padlo then 1 else 0) "output section count"
  let shnum ← checkedAddU32 shnum 4 "output section count"
  orDie (shnum ≤ 65535) s!"output has too many sections ({shnum})"
  let namesEnd ← checkedAddU32 shstrtabOff shstrSize "section header offset"
  let shoff ← checkedAlignU32 namesEnd 4 "section header offset"
  let headers ← checkedMulU32 shnum 40 "section header table"
  let relocbase ← checkedAddU32 shoff headers "section header table"
  let relocTotal ← checkedSumU32 0 (tableSizes kept) "relocation tables"
  let relocEnd ← checkedAddU32 relocbase relocTotal "symbol table offset"
  let symtabOff ← checkedAlignU32 relocEnd 4 "symbol table offset"
  let strtabOff ← checkedAddU32 symtabOff 16 "string table offset"
  let totalSize ← checkedAddU32 strtabOff 1 "IRX output size"
  let outOffset ← outOffsets elf layout iopmodOff allocOff kept relocbase
  let padloOffset ← padloOffsetFor layout padlo allocOff
  return { phoff, iopmodOff, allocOff, shstrtabOff, shstrSize, shnum, shoff, relocbase, symtabOff, strtabOff, totalSize,
           sections := kept, outOffset, padloOffset }

theorem computeFileLayout_eq (layout : Layout) : computeFileLayout elf layout =
    elf.outSections >>= fun kept => elf.fileLayoutFor layout elf.hasPadlo kept := by
  simp only [computeFileLayout, fileLayoutFor, nameSizes, outNames, padloOffsetOf, padloOffsetFor]

end Elf

namespace FileLayout

variable (file : FileLayout) (elf : Elf) (layout : Layout)

/-- The emitted relocation tables in the file. The module information is not among them, whatever its type. -/
def tables : List Extent :=
  ((file.sections.zip file.outOffset).filter fun (out, _) => out.idx ≠ elf.iopmodIdx ∧ out.sec.type = .rel).map
    fun (out, offset) => ⟨offset, out.outSize⟩

/-- The parts of the file: the header, the program headers, the module information, the payload, the names, the section
headers, the relocation tables, and the empty symbol and string tables. -/
def parts : List Extent :=
  [⟨0, 52⟩, ⟨file.phoff, 2 * 32⟩, ⟨file.iopmodOff, elf.iopmodSize⟩, ⟨file.allocOff, layout.filesz⟩,
    ⟨file.shstrtabOff, file.shstrSize⟩, ⟨file.shoff, file.shnum * 40⟩] ++
  file.tables elf ++ [⟨file.symtabOff, 16⟩, ⟨file.strtabOff, 1⟩]

end FileLayout

end KosTool.Elf2irx
