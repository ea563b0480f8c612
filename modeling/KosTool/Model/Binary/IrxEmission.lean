import KosTool.Model.Binary.IrxPlan

/-! # The accesses of the emission of an IRX

`host/tools/elf2irx/elf2irx.c`: what `emit_irx` reads and writes of the output buffer, and of the input, in its order,
with the places of the relocations as they are reckoned from the layout. What is written is left out here. A section
header is taken as one write. `main` puts the passes together; a file is missing or has some contents.
-/

namespace KosTool.Elf2irx

namespace Prepared

variable (p : Prepared)

abbrev elf : Elf := p.parsed.elf
abbrev layout : Layout := p.plan.layout
abbrev out : FileLayout := p.plan.out

/-- An access to the output buffer of `g_out_total_size` bytes. -/
def touch (offset count : ℕ) : Tool Unit := .touch ⟨.output, offset, count, p.out.totalSize⟩

/-- Where an offset of a section is in the output buffer. -/
def place (target : ℕ) (offset : Word) : ℕ := p.out.allocOff + p.layout.addr target + offset.toNat

/-- The ELF header without the index of the name table, and the program headers. -/
def writeHeaders : Tool Unit := do
  p.touch 0 50
  p.touch p.out.phoff 32
  p.touch (p.out.phoff + 32) 32

/-- The sections with bytes. -/
def copySections : Tool Unit :=
  p.parsed.sections.zipIdx.forM fun (s, i) =>
    if p.elf.copied i s.toSection then do
      p.file.touch s.offset.toNat s.size.toNat
      p.touch (p.out.allocOff + p.layout.addr i) s.size.toNat
    else return ()

/-- The LO16 of a HI16. -/
def loBehind (table : List Reloc) (entry : Reloc) (k : ℕ) : Option Reloc :=
  (table.drop (k + 1)).find? fun lo => lo.Matches .lo16 entry.sym

/-- The accesses of one entry, whose word is read first. -/
def patch (target : ℕ) (table : List Reloc) (entry : Reloc) (k : ℕ) : Tool Unit := do
  p.touch (p.place target entry.offset) 4
  match entry.type with
  | .mips16 | .mips32 | .rel32 | .mips26 | .lo16 => p.touch (p.place target entry.offset) 4
  | .hi16 =>
    match loBehind table entry k with
    | none => return ()
    | some lo => do
      p.touch (p.place target lo.offset) 4
      p.touch (p.place target entry.offset) 4
  | _ => return ()

/-- One entry of the static pass. -/
def applyRelocation (target : ℕ) (table : List Reloc) (entry : Reloc) (k : ℕ) : Tool Unit :=
  if entry.type = .none then return ()
  else do
    let _ ← .ofExcept (p.elf.relocationSymbolAddr p.layout entry)
    p.patch target table entry k

/-- A section that the static pass applies relocations to. -/
def patched (s : FileSection) : Bool := (p.elf.target? s.toSection).any fun target => target.alloc && target.type != .nobits

/-- `apply_static_relocation_addends` -/
def applyStaticRelocationAddends : Tool Unit :=
  p.parsed.relSections.forM fun (s, _) =>
    if p.patched s then do
      let table ← p.file.readTable s
      table.zipIdx.forM fun (entry, k) => p.applyRelocation s.info.toNat table entry k
    else return ()

/-- Where the word of a scratch relocation's partner is in the output buffer. -/
def partnerPlace (scratch : Scratch) : ℕ :=
  p.out.allocOff + p.layout.addr scratch.targetSecIdx + scratch.partnerOffIn

/-- The scratch words: the half of the LO16 for each stray HI16, the HI16 for each extra LO16. -/
def initPadlo : Tool Unit := do
  p.strays.zipIdx.forM fun (stray, i) => do
    p.touch (p.partnerPlace stray) 2
    p.touch (p.out.padloOffset + i * 4) 4
  p.extraLos.zipIdx.forM fun (extra, i) => do
    p.touch (p.partnerPlace extra) 4
    p.touch (p.out.padloOffset + p.strays.length * 4 + i * 4) 4

/-- The module information: the one made up, or the one given with its entry point patched. -/
def copyIopmod : Tool Unit :=
  match p.parsed.sections[p.parsed.iopmodIdx]? with
  | none => return ()
  | some s =>
    if p.parsed.synth then p.touch p.out.iopmodOff s.size.toNat
    else do
      p.file.touch s.offset.toNat s.size.toNat
      p.touch p.out.iopmodOff s.size.toNat
      if 8#32 ≤ s.size then p.touch (p.out.iopmodOff + 4) 4 else return ()

/-- Some names, one behind the other with their terminators, and where the next one goes. -/
def writeNames (cur : ℕ) (names : List String) : Tool ℕ :=
  names.foldlM (fun cur name => do
    p.touch (p.out.shstrtabOff + cur) (name.length + 1)
    return cur + (name.length + 1)) cur

/-- The names of the kept sections: first that of the module information. -/
def keptNames : List String :=
  let kept := p.out.sections
  ((kept.filter fun out => out.idx = p.parsed.iopmodIdx) ++ kept.filter fun out => out.idx ≠ p.parsed.iopmodIdx).map
    (·.sec.name)

/-- There are scratch words. -/
def hasPadlo : Bool := 0 < p.strays.length + p.extraLos.length

/-- The name table. -/
def writeNameTable : Tool Unit := do
  p.touch p.out.shstrtabOff 1
  let cur ← p.writeNames 1 (p.keptNames ++ (if p.hasPadlo then [padloName] else []) ++ [".shstrtab"])
  require (cur ≤ p.out.shstrSize) s!"shstrtab overflow ({cur} > {p.out.shstrSize})"
  let cur ← p.writeNames cur [".symtab", ".strtab"]
  require (cur ≤ p.out.shstrSize) s!"shstrtab overflow ({cur} > {p.out.shstrSize})"

/-- The section headers behind the null one, and the index of the name table. -/
def writeSectionHeaders : Tool Unit := do
  let count := p.out.sections.length + (if p.hasPadlo then 1 else 0) + 3
  (List.range count).forM fun k => p.touch (p.out.shoff + (k + 1) * 40) 40
  p.touch 50 2

/-- The first pass of `emit_relocation_section`. -/
def keptRels (s : FileSection) (relSecIdx : ℕ) (table : List Reloc) : Except String (List KeptRel) :=
  (table.zipIdx.filter fun (entry, _) => relocationKeptForLoader entry.type).mapM fun (entry, k) =>
    keptRel p.strays p.extraLos relSecIdx (p.layout.addr s.info.toNat) entry k

/-- `emit_relocation_section`: the entries are written from the section's offset on. -/
def emitRelocationSection (s : FileSection) (relSecIdx outOffset : ℕ) : Tool Unit := do
  let table ← p.file.readTable s
  let kept ← .ofExcept (p.keptRels s relSecIdx table)
  let _ ← .ofExcept (Emission.pairAll kept s.name)
  let out := Emission.emit kept p.layout.padloAddr p.strays.length
  (List.range out.length).forM fun k => p.touch (outOffset + k * 8) 8
  let expected := kept.length + p.strays.countP (·.relSecIdx == relSecIdx) +
    p.extraLos.countP (·.relSecIdx == relSecIdx)
  require (out.length == expected) s!"{s.name}: internal error"

/-- One kept section: a relocation section is emitted. -/
def emitSection (out : OutSection) (outOffset : ℕ) : Tool Unit :=
  match p.parsed.sections[out.idx]? with
  | none => return ()
  | some s => if s.type = .rel then p.emitRelocationSection s out.idx outOffset else return ()

/-- `emit_irx`, with the buffer written to the file at the end. -/
def emitIrx : Tool Unit := do
  p.writeHeaders
  p.copySections
  p.applyStaticRelocationAddends
  p.initPadlo
  p.copyIopmod
  p.writeNameTable
  p.writeSectionHeaders
  (p.out.sections.zip p.out.outOffset).forM fun (out, outOffset) => p.emitSection out outOffset
  p.touch 0 p.out.totalSize

end Prepared

/-- What the command line has said so far. -/
structure Arguments where
  verbose : Bool
  outName : Option String
  positional : List String
  parseOptions : Bool

/-- The loop over the arguments of `main`. -/
def parseArguments : Arguments → List String → Except String Arguments
  | args, [] => .ok args
  | args, arg :: rest =>
    if args.parseOptions && arg == "--" then parseArguments { args with parseOptions := false } rest
    else if args.parseOptions && arg == "-v" then parseArguments { args with verbose := true } rest
    else if args.parseOptions && arg == "-o" then
      if args.outName.isSome then .error "output path specified more than once"
      else
        match rest with
        | [] => .error "-o requires an output path"
        | name :: rest => parseArguments { args with outName := some name } rest
    else if args.parseOptions && arg.startsWith "-" then .error s!"unknown option {arg}"
    else if args.positional.length == 2 then .error "too many positional arguments"
    else parseArguments { args with positional := args.positional ++ [arg] } rest

structure Options where
  verbose : Bool
  inName : String
  outName : String

/-- The files that the command line names. -/
def options (argv : List String) : Except String Options := do
  let args ← parseArguments ⟨false, none, [], true⟩ argv
  match args.outName, args.positional with
  | some outName, [inName] => return ⟨args.verbose, inName, outName⟩
  | none, [inName, outName] => return ⟨args.verbose, inName, outName⟩
  | _, _ => .error "Usage: elf2irx [-v] -o output.irx input.elf\n       elf2irx [-v] input.elf output.irx  (legacy form)"

/-- `main`, without the name of the program. -/
def main (files : String → Option (List Byte)) (argv : List String) : Tool Unit := do
  let options ← .ofExcept (options argv)
  match files options.inName with
  | none => .ofExcept (.error s!"cannot open input {options.inName}")
  | some contents => do
    let prepared ← prepare contents
    prepared.emitIrx

end KosTool.Elf2irx
