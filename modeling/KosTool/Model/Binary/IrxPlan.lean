import KosTool.Model.Binary.ElfBytes
import KosTool.Model.Binary.IrxFile

/-! # The layout of an IRX for the bytes of an input

`host/tools/elf2irx/elf2irx.c`: the passes between the checks of the relocations and the emission, over the tables as
they are in the sorted input. The layout is that of the image and the file, for the numbers of scratch words that these
tables need. The warnings and listings of `-v` are left out.
-/

namespace KosTool.Elf2irx

open ByteWord WordPatch

/-- The relocations of some tables that get a scratch word. -/
def detectIn (tables : List (FileSection × ℕ × List Reloc)) (partner : List Reloc → ℕ → Option ℕ) : List Scratch :=
  tables.flatMap fun (s, i, table) => (repeats (partner table) table.length).map fun (k, m) =>
    { relSecIdx := i
      inIdx := k
      partnerOffIn := (table[m]?.map (·.offset.toNat)).getD 0
      targetSecIdx := s.info.toNat }

namespace ElfFile

variable (parsed : ElfFile) (file : InputFile)

/-- The kept relocation sections with their entries. -/
def tables : List (FileSection × ℕ × List Reloc) := parsed.relSections.map fun (s, i) => (s, i, file.table s)

/-- A pass over all kept relocation sections. -/
def readTables : Tool (List (FileSection × ℕ × List Reloc)) := do
  parsed.relSections.forM fun (s, _) => discard (file.readTable s)
  return parsed.tables file

/-- `detect_stray_hi16` -/
def detectStrayHi16 : Tool (List Scratch) := do
  let tables ← parsed.readTables file
  return detectIn tables nextLo

/-- `detect_extra_lo16` -/
def detectExtraLo16 : Tool (List Scratch) := do
  let tables ← parsed.readTables file
  return detectIn tables prevHi

/-- `output_relocation_size` -/
def outputRelocationSize (strays extraLos : List Scratch) (i : ℕ) (s : FileSection) : Except String ℕ :=
  if s.type ≠ .rel then .ok s.size.toNat
  else do
    let kept := (file.table s).countP fun entry => relocationKeptForLoader entry.type
    let count ← checkedAddU32 kept (strays.countP (·.relSecIdx == i)) "output relocation count"
    let count ← checkedAddU32 count (extraLos.countP (·.relSecIdx == i)) "output relocation count"
    checkedMulU32 count 8 "output relocation size"

/-- The kept sections with their sizes. -/
def outSections (strays extraLos : List Scratch) : Except String (List OutSection) :=
  (parsed.sections.zipIdx.filter fun (s, i) => parsed.elf.keep i s.toSection).mapM fun (s, i) => do
    let outSize ← outputRelocationSize file strays extraLos i s
    return ⟨s.toSection, i, outSize⟩

/-- The allocated section that an address of the input is in: of several the one that starts last. -/
def sectionOf (inAddr : Word) : Option (FileSection × ℕ) :=
  parsed.sections.zipIdx.foldl (fun best (s, i) =>
    if s.alloc ∧ s.addr ≤ inAddr ∧ inAddr.toNat < s.addr.toNat + s.size.toNat ∧
        (best.all fun (other, _) => other.addr < s.addr) then
      some (s, i)
    else best) none

/-- `translate_input_addr` -/
def translateInputAddr (layout : Layout) (inAddr : Word) : Except String (Option Word) :=
  match parsed.sectionOf inAddr with
  | none => .ok none
  | some (best, i) => do
    let outAddr ← checkedAddU32 (layout.addr i) (inAddr - best.addr).toNat "translated input address"
    return some (BitVec.ofNat 32 outAddr)

end ElfFile

/-- What `compute_layout` leaves. -/
structure Plan where
  layout : Layout
  out : FileLayout
  entryOut : Word

/-- The module information that the tool makes up. -/
structure IopmodData where
  irxId : Word
  entry : Word
  gp : Word
  name : Word
  initDataSize : ℕ
  bssSize : ℕ
  version : Word

namespace ElfFile

variable (parsed : ElfFile) (file : InputFile) (layout : Layout)

/-- The global pointer of a module information that is given. -/
def readGp : Tool Unit :=
  match parsed.sections[parsed.iopmodIdx]? with
  | none => return ()
  | some module =>
    if !parsed.synth && 12#32 ≤ module.size then discard (file.rd32 (module.offset.toNat + 8)) else return ()

/-- `compute_layout` -/
def computeLayout (strays extraLos : List Scratch) : Tool Plan := do
  let _ ← parsed.readTables file
  let kept ← .ofExcept (parsed.outSections file strays extraLos)
  let layout ← .ofExcept (parsed.elf.layoutFor strays.length extraLos.length)
  let out ← .ofExcept (parsed.elf.fileLayoutFor layout (0 < strays.length + extraLos.length) kept)
  let entryOut ← .ofExcept (parsed.translateInputAddr layout parsed.entry)
  parsed.readGp file
  return ⟨layout, out, entryOut.getD parsed.entry⟩

/-- `find_symbol` -/
def findSymbol (name : String) : Option Symbol := parsed.symbols.find? (·.name == name)

/-- The word at an offset of a section, if it has one there; the end of the word is reckoned in 32 bits. -/
def addendAt (target : FileSection) (offset : Word) : Tool Word :=
  if target.type ≠ .nobits ∧ offset + 4#32 ≤ target.size then file.rd32 (target.offset.toNat + offset.toNat)
  else return 0#32

/-- `resolve_relocation_value` -/
def resolveRelocationValue (rel : FileSection) (entry : Reloc) : Tool Word :=
  match parsed.symbols[entry.sym]? with
  | none => .ofExcept (.error s!"relocation references invalid symbol {entry.sym}")
  | some sym =>
    match parsed.sections[rel.info.toNat]? with
    | none => .ofExcept (.error "relocation section has invalid target")
    | some target => do
      let addend ← addendAt file target entry.offset
      require (sym.shndx < parsed.sections.length) s!"relocation references non-section symbol {sym.name}"
      let symAddr ← .ofExcept (layout.symbolOutAddr sym)
      return symAddr + addend

/-- The global pointer of a module whose register information does not tell it. -/
def gpOfBss : Except String Word :=
  match parsed.findSymbol "__bss_start" with
  | none => .ok 0
  | some bss => do
    let bssAddr ← layout.symbolOutAddr bss
    return bssAddr + 0x7fe8#32

/-- The global pointer of the register information. -/
def gpOfReginfo : Tool Word :=
  match parsed.sections.find? fun s => s.type = .reginfo ∧ 24#32 ≤ s.size with
  | none => return 0#32
  | some s => do
    let gpIn ← file.rd32 (s.offset.toNat + 20)
    let translated ← .ofExcept (parsed.translateInputAddr layout gpIn)
    match translated with
    | some gp => return gp
    | none => .ofExcept (parsed.gpOfBss layout)

/-- The global pointer: that of the register information, else the one reckoned from the zero bytes. -/
def gpOut : Tool Word := do
  let gp ← parsed.gpOfReginfo file layout
  if gp = 0#32 then .ofExcept (parsed.gpOfBss layout) else return gp

/-- The version behind the name of `_irx_id`. -/
def versionOf (irx : Symbol) : Tool Word :=
  match parsed.sections[irx.shndx]? with
  | none => .ofExcept (.error "cannot synthesize .iopmod: invalid _irx_id section")
  | some irxSec =>
    if irxSec.type ≠ .nobits ∧ irx.value.toNat + 8 ≤ irxSec.size.toNat then
      file.rd32 (irxSec.offset.toNat + irx.value.toNat + 4)
    else return 0#32

/-- The name that `_irx_id` is relocated to, by the last section that does so. -/
def nameOf (irx : Symbol) : Tool Word :=
  parsed.sections.foldlM (fun name rel =>
    if rel.type = .rel ∧ rel.info.toNat = irx.shndx then do
      let table ← file.readTable rel
      match table.find? fun entry => entry.offset = irx.value ∧ entry.type = .mips32 with
      | none => return name
      | some entry => parsed.resolveRelocationValue file layout rel entry
    else return name) 0#32

/-- The sizes of the initialized data, without the instructions, and of the zero bytes. -/
def dataSizes : Except String (ℕ × ℕ) :=
  (parsed.sections.zipIdx.filter fun (s, i) => parsed.elf.keep i s.toSection && s.alloc).foldlM (fun (data, bss) (s, _) =>
    if s.type = .nobits then do
      let bss ← checkedAddU32 bss s.size.toNat ".iopmod BSS size"
      return (data, bss)
    else if s.flags.getLsbD 2 then return (data, bss)
    else do
      let data ← checkedAddU32 data s.size.toNat ".iopmod initialized-data size"
      return (data, bss)) (0, 0)

/-- `synthesize_iopmod` -/
def synthesizeIopmod (entryOut : Word) : Tool (Option IopmodData) :=
  if !parsed.synth then return none
  else
    match parsed.findSymbol "_irx_id" with
    | none => .ofExcept (.error "cannot synthesize .iopmod: missing _irx_id symbol")
    | some irx => do
      require (irx.shndx < parsed.sections.length) "cannot synthesize .iopmod: invalid _irx_id section"
      let irxId ← .ofExcept (layout.symbolOutAddr irx)
      let gp ← parsed.gpOut file layout
      let version ← parsed.versionOf file irx
      let name ← parsed.nameOf file layout irx
      require (name != 0#32) "cannot synthesize .iopmod: _irx_id name relocation not found"
      let (initDataSize, bssSize) ← .ofExcept parsed.dataSizes
      return some ⟨irxId, entryOut, gp, name, initDataSize, bssSize, version⟩

end ElfFile

/-- What is known when the emission starts. -/
structure Prepared where
  parsed : ElfFile
  file : InputFile
  strays : List Scratch
  extraLos : List Scratch
  plan : Plan
  iopmod : Option IopmodData

/-- The passes before the emission, over the contents of the input. -/
def prepare (contents : List Byte) : Tool Prepared := do
  let file ← .ofExcept (loadInput contents)
  let header ← parseElfHeader file
  let parsed ← parseSectionHeadersAt file header
  let parsed ← parsed.parseSymbols file
  .ofExcept parsed.elf.markSectionsToKeep
  let file ← parsed.sortRelocations file
  parsed.validateRelocations file
  let strays ← parsed.detectStrayHi16 file
  let extraLos ← parsed.detectExtraLo16 file
  let plan ← parsed.computeLayout file strays extraLos
  let iopmod ← parsed.synthesizeIopmod file plan.layout plan.entryOut
  return ⟨parsed, file, strays, extraLos, plan, iopmod⟩

end KosTool.Elf2irx
