import KosTool.Model.Binary.IrxLayout

/-! # The IRX that `elf2irx` writes, and its relocation by the loader

`host/tools/elf2irx/elf2irx.c`: the image with the addends applied in place, the scratch words, and the relocation
tables with each HI16 next to its LO16. Of the file around them only what the loader's relocation reads is kept: the
image, its sizes, the addresses of the sections and the tables. The loader's rule is the one that the tool's comments
state: the entries of a table in order, a HI16 takes the next entry as its LO16 and both are patched in place, and a
LO16 by itself is not applied.
-/

namespace KosTool.Elf2irx

open ByteWord WordPatch

/-- The low half of the word is replaced by that of the value. -/
def setLow (word value : Word) : Word := (word &&& 0xffff0000#32) ||| (value &&& 0xffff#32)

/-- `sign_extend16` -/
def signExtend16 (word : Word) : Word := (word.setWidth 16).signExtend 32

/-- The addend of a HI16 with its LO16. -/
def pairAddend (word loWord : Word) : Word := (word &&& 0xffff#32) <<< 16 + signExtend16 loWord

/-- A value is added to what the low half stands for. -/
def addLow (word value : Word) : Word := setLow word (signExtend16 word + value)

/-- A value is added to the target of a jump. -/
def addTarget (word value : Word) : Word :=
  (word &&& 0xfc000000#32) ||| ((((word &&& 0x03ffffff#32) <<< 2 + value) >>> 2) &&& 0x03ffffff#32)

/-- A value is added to the addend of a pair: the high half, which makes up for the sign of the low half. -/
def addHigh (word loWord value : Word) : Word := setLow word ((pairAddend word loWord + value + 0x8000#32) >>> 16)

namespace Layout

variable (layout : Layout)

/-- `symbol_out_addr`: the value of a symbol may be negative. -/
def symbolOutAddr (symbol : Symbol) : Except String Word :=
  match layout.outAddr[symbol.shndx]? with
  | none => .error "cannot translate symbol"
  | some outAddr =>
    if 2 ^ 31 - 1 < symbol.value.toNat then
      let magnitude := (-symbol.value).toNat
      if outAddr < magnitude then .error s!"symbol {symbol.name} lies below the output image"
      else .ok (BitVec.ofNat 32 (outAddr - magnitude))
    else do
      let sum ← checkedAddU32 outAddr symbol.value.toNat "symbol output address"
      return BitVec.ofNat 32 sum

end Layout

/-- One entry of the static pass, with the entries behind it: the value of the symbol is added in place. A HI16
without a LO16 is left as it is, and so is an entry relative to the global pointer. -/
def applyEntry (place : Reloc → ℕ) (symAddr : Word) (entry : Reloc) (behind : List Reloc) (image : Buffer) : Buffer :=
  let word := rd32 image (place entry)
  match entry.type with
  | .mips16 => wr32 image (place entry) (addLow word symAddr)
  | .mips32 | .rel32 => wr32 image (place entry) (word + symAddr)
  | .mips26 => wr32 image (place entry) (addTarget word symAddr)
  | .hi16 =>
    match behind.find? fun lo => lo.Matches .lo16 entry.sym with
    | none => image
    | some lo => wr32 image (place entry) (addHigh word (rd32 image (place lo)) symAddr)
  | .lo16 => wr32 image (place entry) (addLow word symAddr)
  | _ => image

/-- The static pass over one table. -/
def applyTable (place : Reloc → ℕ) (symAddr : Reloc → Except String Word) :
    List Reloc → Buffer → Except String Buffer
  | [], image => .ok image
  | entry :: behind, image =>
    if entry.type = .none then applyTable place symAddr behind image
    else do
      let addr ← symAddr entry
      applyTable place symAddr behind (applyEntry place addr entry behind image)

/-- An entry of an emitted table; its symbol is 0. -/
structure IrxReloc where
  offset : ℕ
  type : RelType
deriving DecidableEq, Repr

structure KeptRel where
  offOut : ℕ
  type : RelType
  sym : ℕ
  strayIdx : Option ℕ
  extraLoIdx : Option ℕ
deriving DecidableEq, Repr

def relocationKeptForLoader : RelType → Bool
  | .mips16 | .mips32 | .rel32 | .mips26 | .hi16 | .lo16 => true
  | _ => false

/-- The index of an entry's scratch word. -/
def scratchIdx (scratches : List Scratch) (relSecIdx inIdx : ℕ) : Option ℕ :=
  scratches.findIdx? fun scratch => scratch.relSecIdx == relSecIdx && scratch.inIdx == inIdx

/-- The first pass of `emit_relocation_section`: the kept entries with their scratch words. -/
def keptRel (strays extraLos : List Scratch) (relSecIdx base : ℕ) (entry : Reloc) (k : ℕ) :
    Except String KeptRel := do
  let offOut ← checkedAddU32 entry.offset.toNat base "relocation output offset"
  return {
    offOut
    type := entry.type
    sym := entry.sym
    strayIdx := if entry.type = .hi16 then scratchIdx strays relSecIdx k else none
    extraLoIdx := if entry.type = .lo16 then scratchIdx extraLos relSecIdx k else none }

namespace Emission

variable (kept : List KeptRel)

/-- The second pass: a HI16 that is not stray is paired with the next LO16 for its symbol. -/
def pair (k : ℕ) : Option ℕ :=
  (kept[k]?.filter fun hi => hi.type = .hi16 ∧ hi.strayIdx = none).bind fun hi =>
    (List.range' (k + 1) (kept.length - (k + 1))).find? fun j =>
      kept[j]?.any fun lo => lo.type = .lo16 ∧ lo.sym = hi.sym

/-- One position of the second pass, which stops if an earlier HI16 has the LO16. -/
def pairStep (name : String) (used : List ℕ) (k : ℕ) : Except String (List ℕ) :=
  match pair kept k with
  | none => .ok used
  | some m => if used.contains m then .error s!"{name}: internal error" else .ok (m :: used)

def pairAll (name : String) : Except String (List ℕ) := (List.range kept.length).foldlM (pairStep kept name) []

/-- The type that is written: a HI16 without a LO16 is marked to be dropped. -/
def typeOut (k : ℕ) (rel : KeptRel) : RelType :=
  if rel.type = .hi16 ∧ rel.strayIdx = none ∧ pair kept k = none then .none else rel.type

/-- What the third pass has consumed and written. -/
structure State where
  consumed : List ℕ
  out : List IrxReloc

/-- The first entry from a position on that is not consumed. -/
def nextLeft (consumed : List ℕ) (k : ℕ) : ℕ :=
  ((List.range' k (kept.length - k)).find? fun j => !consumed.contains j).getD kept.length

/-- The entry as it is written. -/
def written (k : ℕ) : List IrxReloc := (kept[k]?.map fun rel => ⟨rel.offOut, typeOut kept k rel⟩).toList

/-- One position of the third pass. -/
def step (padloAddr strayCount : ℕ) (state : State) (k : ℕ) : State :=
  if state.consumed.contains k then state
  else
    let scratchHi := (kept[k]?.bind (·.extraLoIdx)).toList.map fun i =>
      (⟨padloAddr + strayCount * 4 + i * 4, .hi16⟩ : IrxReloc)
    let out := state.out ++ scratchHi ++ written kept k
    match kept[k]?.bind (·.strayIdx) with
    | some i => { state with out := out ++ [⟨padloAddr + i * 4, .lo16⟩] }
    | none =>
      match pair kept k with
      | none => { state with out := out }
      | some m =>
        if nextLeft kept state.consumed (k + 1) = m then { state with out := out }
        else ⟨m :: state.consumed, out ++ written kept m⟩

/-- The third pass. -/
def emit (padloAddr strayCount : ℕ) : List IrxReloc :=
  ((List.range kept.length).foldl (step kept padloAddr strayCount) ⟨[], []⟩).out

end Emission

/-- The image, with its sizes and the addresses of the sections of the input in it, and the relocation tables. -/
structure Irx where
  outAddr : List ℕ
  payload : Buffer
  filesz : ℕ
  memsz : ℕ
  tables : List (List IrxReloc)

namespace Elf

variable (elf : Elf) (layout : Layout)

/-- `relocation_symbol_addr` -/
def relocationSymbolAddr (entry : Reloc) : Except String Word :=
  match elf.symbols[entry.sym]? with
  | none => .error s!"relocation references invalid symbol {entry.sym}"
  | some symbol =>
    if elf.sections.length ≤ symbol.shndx then .error s!"relocation references non-section symbol {symbol.name}"
    else layout.symbolOutAddr symbol

/-- A section whose bytes are copied into the image. -/
def copied (i : ℕ) (s : Section) : Bool := elf.keep i s && i != elf.iopmodIdx && s.type == .progbits && s.alloc

/-- The payload before the relocation. -/
def copySections : Buffer :=
  elf.sections.zipIdx.foldl (fun image (s, i) =>
    if elf.copied i s then storeAt image (layout.addr i) (slice s.contents 0 s.size.toNat) else image) fun _ => 0

/-- Where an entry of a relocation section is in the image. -/
def place (s : Section) (entry : Reloc) : ℕ := layout.addr s.info.toNat + entry.offset.toNat

/-- `apply_static_relocation_addends` -/
def applyStaticRelocationAddends (image : Buffer) : Except String Buffer :=
  elf.relSections.foldlM (fun image (s, _) =>
    if (elf.target? s).any fun target => target.alloc && target.type != .nobits then
      applyTable (place layout s) (elf.relocationSymbolAddr layout) s.table image
    else .ok image) image

/-- Where the word of a scratch relocation's partner is in the image. -/
def partnerPlace (scratch : Scratch) : ℕ := layout.addr scratch.targetSecIdx + scratch.partnerOffIn

/-- The scratch words: the low half of the LO16 for each stray HI16, the HI16 for each extra LO16. -/
def initPadlo (image : Buffer) : Buffer :=
  let image := elf.strays.zipIdx.foldl (fun image (stray, i) =>
    wr32 image (layout.padloAddr + i * 4) (rd32 image (partnerPlace layout stray) &&& 0xffff#32)) image
  elf.extraLos.zipIdx.foldl (fun image (extra, i) =>
    wr32 image (layout.padloAddr + elf.strays.length * 4 + i * 4) (rd32 image (partnerPlace layout extra))) image

/-- `emit_relocation_section` -/
def emitRelocationSection (s : Section) (relSecIdx : ℕ) : Except String (List IrxReloc) := do
  let base := layout.addr s.info.toNat
  let kept ← (s.table.zipIdx.filter fun (entry, _) => relocationKeptForLoader entry.type).mapM fun (entry, k) =>
    keptRel elf.strays elf.extraLos relSecIdx base entry k
  let _ ← Emission.pairAll kept s.name
  let out := Emission.emit kept layout.padloAddr elf.strays.length
  let expected := kept.length + elf.strays.countP (·.relSecIdx == relSecIdx) +
    elf.extraLos.countP (·.relSecIdx == relSecIdx)
  orDie (out.length == expected) s!"{s.name}: internal error"
  return out

end Elf

/-- The tool: the module information and the file around the image are left out. -/
def elf2irx (input : Input) : Except String Irx := do
  let elf ← parseSectionHeaders input
  elf.markSectionsToKeep
  elf.validateRelocations
  let layout ← elf.computeLayout
  let image ← elf.applyStaticRelocationAddends layout (elf.copySections layout)
  let payload := elf.initPadlo layout image
  let tables ← elf.relSections.mapM fun (s, i) => elf.emitRelocationSection layout s i
  return ⟨layout.outAddr, payload, layout.filesz, layout.memsz, tables⟩

/-- One entry that the loader applies by itself. -/
def loadEntry (base : Word) (entry : IrxReloc) (image : Buffer) : Buffer :=
  let word := rd32 image entry.offset
  match entry.type with
  | .mips16 => wr32 image entry.offset (addLow word base)
  | .mips32 | .rel32 => wr32 image entry.offset (word + base)
  | .mips26 => wr32 image entry.offset (addTarget word base)
  | _ => image

/-- A HI16 and the entry that the loader takes for its LO16. -/
def loadPair (base : Word) (hi lo : IrxReloc) (image : Buffer) : Buffer :=
  let word := rd32 image hi.offset
  let loWord := rd32 image lo.offset
  wr32 (wr32 image hi.offset (addHigh word loWord base)) lo.offset (setLow loWord (pairAddend word loWord + base))

/-- The entries of one table. -/
def loadTable (base : Word) : List IrxReloc → Buffer → Buffer
  | [], image => image
  | [entry], image => loadEntry base entry image
  | entry :: next :: rest, image =>
    if entry.type = .hi16 then loadTable base rest (loadPair base entry next image)
    else loadTable base (next :: rest) (loadEntry base entry image)

namespace Irx

variable (irx : Irx)

/-- The image in memory: the file's part, and zero bytes behind it. -/
def loaded : Buffer := fun i => if i < irx.filesz then irx.payload i else 0

/-- LOADCORE's relocation of the image for a base. -/
def loadcore (base : Word) : Buffer := irx.tables.foldl (fun image table => loadTable base table image) irx.loaded

end Irx

end KosTool.Elf2irx
