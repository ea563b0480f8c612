import KosTool.Math.WordPatch
import Mathlib.Data.List.DropRight

/-! # The relocatable ELF that `elf2irx` reads

`host/tools/elf2irx/elf2irx.c`: the sections and symbols of the input, which of them are kept, the sort of the kept
relocation sections and the checks of their entries. The section and the symbol table are taken as they are parsed.
-/

namespace KosTool.Elf2irx

open WordPatch

/-- `die`, unless the condition holds. -/
def orDie (condition : Bool) (message : String) : Except String Unit := if condition then .ok () else .error message

def checkedAddU32 (a b : ℕ) (what : String) : Except String ℕ :=
  if 2 ^ 32 - 1 - b < a then .error s!"{what} overflows ELF32 address space" else .ok (a + b)

def checkedMulU32 (a b : ℕ) (what : String) : Except String ℕ :=
  if a ≠ 0 ∧ (2 ^ 32 - 1) / a < b then .error s!"{what} overflows ELF32 address space" else .ok (a * b)

def isPowerOfTwoU32 (value : Word) : Bool := value ≠ 0 ∧ value &&& (value - 1) = 0

/-- The mask of a power of two keeps the multiples of it. -/
def checkedAlignU32 (value : ℕ) (alignment : Word) (what : String) : Except String ℕ := do
  orDie (isPowerOfTwoU32 alignment) s!"{what} has invalid alignment {alignment.toNat}"
  let sum ← checkedAddU32 value (alignment.toNat - 1) what
  return sum / alignment.toNat * alignment.toNat

/-- The section types that the tool tells apart. -/
inductive SectionType where
  | null
  | progbits
  | symtab
  | strtab
  | rel
  | nobits
  | reginfo
  | iopmod
  | other (code : Word)
deriving DecidableEq, Repr

/-- The relocation types that the tool tells apart. -/
inductive RelType where
  | none
  | mips16
  | mips32
  | rel32
  | mips26
  | hi16
  | lo16
  | gprel16
  | other (code : ℕ)
deriving DecidableEq, Repr

/-- `ELF32_R_TYPE` -/
def RelType.ofInfo (info : Word) : RelType :=
  match (info &&& 0xff#32).toNat with
  | 0 => .none
  | 1 => .mips16
  | 2 => .mips32
  | 3 => .rel32
  | 4 => .mips26
  | 5 => .hi16
  | 6 => .lo16
  | 7 => .gprel16
  | code => .other code

/-- One entry of a relocation section. -/
structure Reloc where
  offset : Word
  type : RelType
  sym : ℕ
deriving DecidableEq, Repr

/-- The two words of an entry; `ELF32_R_SYM` is the rest of the second one. -/
def Reloc.ofWords (offset info : Word) : Reloc := ⟨offset, .ofInfo info, (info >>> 8).toNat⟩

/-- The entry is of the type and for the symbol. -/
def Reloc.Matches (entry : Reloc) (type : RelType) (sym : ℕ) : Prop := entry.type = type ∧ entry.sym = sym

instance (entry : Reloc) (type : RelType) (sym : ℕ) : Decidable (entry.Matches type sym) := instDecidableAnd

structure Section where
  name : String
  type : SectionType
  flags : Word
  size : Word
  link : Word
  info : Word
  addralign : Word
  entsize : Word
  contents : Buffer

namespace Section

/-- `SHF_ALLOC` -/
def alloc (s : Section) : Bool := s.flags.getLsbD 1

/-- The entries of a relocation section. -/
def entries (s : Section) : List Reloc :=
  (List.range (s.size.toNat / 8)).map fun k => .ofWords (rd32 s.contents (k * 8)) (rd32 s.contents (k * 8 + 4))

end Section

structure Symbol where
  name : String
  value : Word
  shndx : ℕ

/-- The tables of an input file. -/
structure Input where
  sections : List Section
  symbols : List Symbol

/-- The input with its module-information section, and the indices that the parser finds. -/
structure Elf where
  sections : List Section
  symbols : List Symbol
  iopmodIdx : ℕ
  symtabIdx : Option ℕ

/-- The module-information section of an input that has none; its 27 bytes are made up later. -/
def synthIopmod : Section where
  name := ".iopmod"
  type := .iopmod
  flags := 0
  size := 27
  link := 0
  info := 0
  addralign := 4
  entsize := 0
  contents _ := 0

/-- The last section of a name. -/
def lastNamed (sections : List Section) (name : String) : Option ℕ :=
  (List.range sections.length).reverse.find? fun i => (sections[i]?.map (·.name)) == some name

def parseSectionHeaders (input : Input) : Except String Elf := do
  orDie (input.sections.all fun s => s.addralign = 0 ∨ isPowerOfTwoU32 s.addralign) "section has invalid alignment"
  let symtabs := (List.range input.sections.length).filter fun i =>
    (input.sections[i]?.map (·.type)) == some .symtab
  orDie (symtabs.length ≤ 1) "multiple SHT_SYMTAB sections are not supported"
  match lastNamed input.sections ".iopmod" with
  | some i =>
    orDie ((input.sections[i]?.map (·.type)) != some .nobits) ".iopmod cannot be SHT_NOBITS"
    return ⟨input.sections, input.symbols, i, symtabs.head?⟩
  | none =>
    orDie (input.sections.length < 65535) "cannot synthesize .iopmod: section table is full"
    return ⟨input.sections ++ [synthIopmod], input.symbols, input.sections.length, symtabs.head?⟩

namespace Elf

variable (elf : Elf)

/-- The section that a relocation section is for. -/
def target? (s : Section) : Option Section := elf.sections[s.info.toNat]?

/-- `keep`: the module information, the allocated sections but the register information, and the relocations of
allocated sections. -/
def keep (i : ℕ) (s : Section) : Bool :=
  i == elf.iopmodIdx || (s.type != .reginfo && s.alloc) || (s.type == .rel && (elf.target? s).any (·.alloc))

/-- An allocated section has to be one of program or of zero bytes. -/
def markSectionsToKeep : Except String Unit :=
  orDie (elf.sections.zipIdx.all fun (s, i) => i == elf.iopmodIdx || s.type == .reginfo || !s.alloc ||
    s.type == .progbits || s.type == .nobits) "allocated section has unsupported type"

/-- The kept relocation sections with their indices. -/
def relSections : List (Section × ℕ) := elf.sections.zipIdx.filter fun (s, i) => elf.keep i s && s.type == .rel

end Elf

/-- One step of the sort: from the end, the entries of a greater offset move up. -/
def insertReloc (sorted : List Reloc) (entry : Reloc) : List Reloc :=
  sorted.rdropWhile (fun other => entry.offset < other.offset) ++
    entry :: sorted.rtakeWhile fun other => entry.offset < other.offset

/-- `sort_relocations` on one section: an insertion sort. -/
def sortRelocations (entries : List Reloc) : List Reloc := entries.foldl insertReloc []

/-- The entries of a kept relocation section, sorted by their offsets. -/
def Section.table (s : Section) : List Reloc := sortRelocations s.entries

namespace Elf

variable (elf : Elf)

/-- The types that may stand in a kept table. -/
def supported : RelType → Bool
  | .other _ => false
  | _ => true

/-- The checks of one entry. The index 0 of a symbol's section is not told apart from the others. -/
def validateEntry (name : String) (target : Section) (k : ℕ) (entry : Reloc) : Except String Unit := do
  orDie (supported entry.type) s!"unsupported relocation type in {name} entry {k}"
  if entry.type = .none then return ()
  orDie (!(target.size < entry.offset || target.size - entry.offset < 4#32))
    s!"relocation {k} in {name} patches outside section {target.name}"
  match elf.symbols[entry.sym]? with
  | none => .error s!"relocation {k} in {name} references invalid symbol {entry.sym}"
  | some symbol =>
    orDie (symbol.shndx < elf.sections.length)
      s!"relocation {k} in {name} references non-section symbol {symbol.name}"

/-- The checks of one kept relocation section. -/
def validateSection (s : Section) : Except String Unit := do
  orDie (s.entsize == 8#32 && s.size % 8#32 == 0#32) s!".rel section {s.name} has invalid size {s.size.toNat}"
  match elf.target? s with
  | none => .error s!".rel section {s.name} has invalid target section {s.info.toNat}"
  | some target =>
    orDie target.alloc s!".rel section {s.name} targets a non-allocated section"
    orDie ((elf.sections[s.link.toNat]?.map (·.type)) == some .symtab)
      s!".rel section {s.name} does not link to a symbol table"
    orDie (elf.symtabIdx == some s.link.toNat) s!".rel section {s.name} links to an unsupported symbol table"
    s.table.zipIdx.forM fun (entry, k) => elf.validateEntry s.name target k entry

def validateRelocations : Except String Unit := elf.relSections.forM fun (s, _) => elf.validateSection s

end Elf

end KosTool.Elf2irx
