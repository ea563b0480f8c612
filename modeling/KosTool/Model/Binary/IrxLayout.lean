import KosTool.Model.Binary.Elf

/-! # The layout of the IRX image

`host/tools/elf2irx/elf2irx.c`: the HI16 entries that share their LO16 and the LO16 entries that share their HI16,
the scratch words that are made up for them, and the addresses of the sections in the image. The file offsets of the
headers and tables around the image are left out.
-/

namespace KosTool.Elf2irx

open WordPatch

/-- The entry at a position is of the type and for the symbol. -/
def entryMatches (table : List Reloc) (type : RelType) (sym k : ℕ) : Bool :=
  table[k]?.any fun entry => entry.Matches type sym

/-- The LO16 of a HI16: the first behind it for the same symbol. -/
def nextLo (table : List Reloc) (k : ℕ) : Option ℕ :=
  (table[k]?.filter fun entry => entry.type = .hi16).bind fun entry =>
    (List.range' (k + 1) (table.length - (k + 1))).find? (entryMatches table .lo16 entry.sym)

/-- The HI16 of a LO16: the last before it for the same symbol. -/
def prevHi (table : List Reloc) (k : ℕ) : Option ℕ :=
  (table[k]?.filter fun entry => entry.type = .lo16).bind fun entry =>
    (List.range k).reverse.find? (entryMatches table .hi16 entry.sym)

/-- One position of the loop over `lo_user` or `hi_has_lo`: a partner that an earlier position has marked makes it a
repeat. -/
def repeatStep (partner : ℕ → Option ℕ) (found : List ℕ × List (ℕ × ℕ)) (k : ℕ) : List ℕ × List (ℕ × ℕ) :=
  match partner k with
  | none => found
  | some m => if found.1.contains m then (found.1, found.2 ++ [(k, m)]) else (m :: found.1, found.2)

/-- The positions whose partner an earlier one has as well, with their partners. -/
def repeats (partner : ℕ → Option ℕ) (n : ℕ) : List (ℕ × ℕ) :=
  ((List.range n).foldl (repeatStep partner) ([], [])).2

/-- A relocation that gets a scratch word: `StrayHi16`, and `ExtraLo16` with the parts of HI16 and LO16 exchanged. -/
structure Scratch where
  relSecIdx : ℕ
  inIdx : ℕ
  partnerOffIn : ℕ
  targetSecIdx : ℕ
deriving DecidableEq, Repr

namespace Elf

variable (elf : Elf)

/-- The repeats of all kept tables, in the order of the sections. -/
def detect (partner : List Reloc → ℕ → Option ℕ) : List Scratch :=
  elf.relSections.flatMap fun (s, i) => (repeats (partner s.table) s.table.length).map fun (k, m) =>
    { relSecIdx := i
      inIdx := k
      partnerOffIn := (s.table[m]?.map (·.offset.toNat)).getD 0
      targetSecIdx := s.info.toNat }

/-- `detect_stray_hi16` -/
def strays : List Scratch := elf.detect nextLo

/-- `detect_extra_lo16` -/
def extraLos : List Scratch := elf.detect prevHi

end Elf

/-- The cursors of the layout. -/
structure Cursor where
  alloc : ℕ
  fileTop : ℕ
  memTop : ℕ

/-- The next address of a section's alignment. -/
def alignedAddr (alloc : ℕ) (s : Section) : Except String ℕ :=
  let align := if s.addralign = 0 then 1#32 else s.addralign
  if 1#32 < align then checkedAlignU32 alloc align "allocated section layout" else .ok alloc

/-- The end of the file's part behind a section. -/
def fileTopBehind (fileTop addr : ℕ) (s : Section) : Except String ℕ :=
  if s.type = .nobits then .ok fileTop else checkedAddU32 addr s.size.toNat "file-backed section layout"

/-- The next allocated section: its address and the cursors behind it. -/
def placeSection (cursor : Cursor) (s : Section) : Except String (ℕ × Cursor) := do
  let addr ← alignedAddr cursor.alloc s
  let fileTop ← fileTopBehind cursor.fileTop addr s
  let top ← checkedAddU32 addr s.size.toNat "allocated section layout"
  return (addr, ⟨top, fileTop, top⟩)

/-- Where the sections and the scratch words stand in the image. -/
structure Layout where
  outAddr : List ℕ
  padloAddr : ℕ
  filesz : ℕ
  memsz : ℕ

/-- The address of a section in the image. -/
def Layout.addr (layout : Layout) (i : ℕ) : ℕ := layout.outAddr.getD i 0

namespace Elf

variable (elf : Elf)

/-- The addresses of the sections; one that is not in the image has the address 0. -/
def placeSections : List (Section × ℕ) → Cursor → Except String (List ℕ × Cursor)
  | [], cursor => .ok ([], cursor)
  | (s, i) :: rest, cursor =>
    if elf.keep i s && s.alloc then do
      let (addr, cursor) ← placeSection cursor s
      let (addrs, cursor) ← placeSections rest cursor
      return (addr :: addrs, cursor)
    else do
      let (addrs, cursor) ← placeSections rest cursor
      return (0 :: addrs, cursor)

/-- The sections of zero bytes that start at the file's end or behind it move on, behind the scratch words. -/
def shiftNobits (fileTop shift : ℕ) (s : Section) (i addr : ℕ) : Except String ℕ :=
  if elf.keep i s && s.alloc && s.type == .nobits && decide (fileTop ≤ addr) then
    checkedAddU32 addr shift "shifted NOBITS section"
  else .ok addr

/-- The end of the memory once the scratch words are in it. -/
def memTopBehind (memTop padloEnd shift : ℕ) : Except String ℕ :=
  if memTop < padloEnd then .ok padloEnd else checkedAddU32 memTop shift "IRX memory size"

def computeLayout : Except String Layout := do
  let (outAddr, cursor) ← elf.placeSections elf.sections.zipIdx ⟨0, 0, 0⟩
  let words ← checkedAddU32 elf.strays.length elf.extraLos.length "scratch relocation count"
  if 0 < words then do
    let padloSize ← checkedMulU32 words 4 "scratch relocation data"
    let padloAddr ← checkedAlignU32 cursor.fileTop 4 "scratch relocation data"
    let padloEnd ← checkedAddU32 padloAddr padloSize "scratch relocation data"
    let shift := padloEnd - cursor.fileTop
    let outAddr ← (elf.sections.zipIdx.zip outAddr).mapM fun ((s, i), addr) =>
      elf.shiftNobits cursor.fileTop shift s i addr
    let memTop ← memTopBehind cursor.memTop padloEnd shift
    let filesz ← checkedAlignU32 padloEnd 4 "IRX file payload size"
    let memsz ← checkedAlignU32 memTop 4 "IRX memory size"
    return ⟨outAddr, padloAddr, filesz, memsz⟩
  else do
    let filesz ← checkedAlignU32 cursor.fileTop 4 "IRX file payload size"
    let memsz ← checkedAlignU32 cursor.memTop 4 "IRX memory size"
    return ⟨outAddr, 0, filesz, memsz⟩

/-- The layout for some numbers of stray HI16 and extra LO16 entries. -/
def layoutFor (strayCount extraLoCount : ℕ) : Except String Layout := do
  let (outAddr, cursor) ← elf.placeSections elf.sections.zipIdx ⟨0, 0, 0⟩
  let words ← checkedAddU32 strayCount extraLoCount "scratch relocation count"
  if 0 < words then do
    let padloSize ← checkedMulU32 words 4 "scratch relocation data"
    let padloAddr ← checkedAlignU32 cursor.fileTop 4 "scratch relocation data"
    let padloEnd ← checkedAddU32 padloAddr padloSize "scratch relocation data"
    let shift := padloEnd - cursor.fileTop
    let outAddr ← (elf.sections.zipIdx.zip outAddr).mapM fun ((s, i), addr) =>
      elf.shiftNobits cursor.fileTop shift s i addr
    let memTop ← memTopBehind cursor.memTop padloEnd shift
    let filesz ← checkedAlignU32 padloEnd 4 "IRX file payload size"
    let memsz ← checkedAlignU32 memTop 4 "IRX memory size"
    return ⟨outAddr, padloAddr, filesz, memsz⟩
  else do
    let filesz ← checkedAlignU32 cursor.fileTop 4 "IRX file payload size"
    let memsz ← checkedAlignU32 cursor.memTop 4 "IRX memory size"
    return ⟨outAddr, 0, filesz, memsz⟩

theorem computeLayout_eq : elf.computeLayout = elf.layoutFor elf.strays.length elf.extraLos.length := rfl

end Elf

end KosTool.Elf2irx
