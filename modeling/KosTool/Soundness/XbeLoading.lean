import KosTool.Soundness.XbeLayout

/-! # An XBE loads as its ELF

The loader copies the raw bytes of each section to its address, with zeros up to its size. What that makes of the memory is
what the segments of the ELF make of it.
-/

namespace KosTool.Elf2xbe

open ByteWord WordPatch Placement Fallible Extent
open Elf2irx (orDie orDie_eq_ok)
open Elf2prx (u32 le16 leNat length_le16)

section Loader

/-- A section as the file describes it. -/
structure XbeSection where
  vaddr : ℕ
  vsize : ℕ
  raw : ℕ
  rsize : ℕ
  nameAddr : ℕ
  headRef : ℕ
  tailRef : ℕ

/-- What the loader reads of the headers, with the keyed words as they are. -/
structure XbeHeader where
  base : ℕ
  headersSize : ℕ
  certAddr : ℕ
  secAddr : ℕ
  libverAddr : ℕ
  entry : Word
  thunk : Word
  sections : List XbeSection

variable (xbe : Buffer)

def readXbeSection (sh : ℕ) : XbeSection where
  vaddr := u32 xbe (sh + 0x04)
  vsize := u32 xbe (sh + 0x08)
  raw := u32 xbe (sh + 0x0C)
  rsize := u32 xbe (sh + 0x10)
  nameAddr := u32 xbe (sh + 0x14)
  headRef := u32 xbe (sh + 0x1C)
  tailRef := u32 xbe (sh + 0x20)

/-- The headers stand in the file as they do at the base. -/
def readXbe : XbeHeader where
  base := u32 xbe 0x104
  headersSize := u32 xbe 0x108
  certAddr := u32 xbe 0x118
  secAddr := u32 xbe 0x120
  libverAddr := u32 xbe 0x164
  entry := rd32 xbe 0x128
  thunk := rd32 xbe 0x158
  sections := (List.range (u32 xbe 0x11C)).map fun i => readXbeSection xbe (u32 xbe 0x120 - u32 xbe 0x104 + i * 0x38)

/-- The raw bytes of a section, and zeros up to its size. -/
def mapSection (memory : Buffer) (s : XbeSection) : Buffer :=
  storeAt memory s.vaddr (slice xbe s.raw s.rsize ++ List.replicate (s.vsize - s.rsize) 0)

/-- The memory with all sections of the file. -/
def mapXbe (memory : Buffer) : Buffer := (readXbe xbe).sections.foldl (mapSection xbe) memory

variable (e : Buffer)

/-- The memory of a program header: the bytes of the file, and zeros up to its size. -/
def loadSegment (memory : Buffer) (ph : ℕ) : Buffer :=
  storeAt memory (u32 e (ph + 0x08)) ((slice e (u32 e (ph + 0x04)) (u32 e (ph + 0x10)) ++
    List.replicate (u32 e (ph + 0x14) - u32 e (ph + 0x10)) 0).take (u32 e (ph + 0x14)))

/-- The memory with all segments that are to be loaded. -/
def loadElf (memory : Buffer) : Buffer :=
  ((programHeaders (readHeader e)).filter fun ph => u32 e ph == 1).foldl (loadSegment e) memory

end Loader

section Collected

variable {e : Buffer} {elen : ℕ} {phs : List ℕ} {S S' : List Seg} {memory : Buffer}

/-- The fields of a segment that do not depend on its name. -/
def Seg.spot (s : Seg) : ℕ × ℕ × ℕ × ℕ × Word := (s.vaddr, s.vsize, s.rsize, s.roff, s.flags)

/-- The segment is that of a program header. -/
def Seg.Of (e : Buffer) (ph : ℕ) (s : Seg) : Prop := s.spot = (readSeg e ph 0).spot ∧ s.rsize ≤ s.vsize

theorem addSeg_eq_ok {ph : ℕ} (through : addSeg e elen S ph = .ok S') :
    S.length < maxXbeSections ∧ ∃ s, S' = S ++ [s] ∧ s.Of e ph := by
  obtain ⟨⟨⟩, few, through⟩ := bind_eq_ok.mp through
  obtain ⟨⟨⟩, sizes, through⟩ := bind_eq_ok.mp through
  obtain ⟨⟨⟩, -, through⟩ := bind_eq_ok.mp through
  obtain ⟨⟨⟩, -, through⟩ := bind_eq_ok.mp through
  obtain ⟨⟨⟩, -, through⟩ := bind_eq_ok.mp through
  obtain ⟨sum, -, through⟩ := bind_eq_ok.mp through
  obtain ⟨⟨⟩, -, through⟩ := bind_eq_ok.mp through
  cases pure_eq_ok.mp through
  exact ⟨of_decide_eq_true (orDie_eq_ok few), _, rfl, rfl, of_decide_eq_true (orDie_eq_ok sizes)⟩

/-- Each program header that is mapped gives a segment. -/
theorem collect_foldlM (through : phs.foldlM (addSeg e elen) [] = .ok S) :
    S.length ≤ maxXbeSections ∧ List.Forall₂ (Seg.Of e) phs S := by
  refine foldlM_induct (motive := fun phs S => S.length ≤ maxXbeSections ∧ List.Forall₂ (Seg.Of e) phs S)
    ⟨Nat.zero_le _, .nil⟩ ?_ through
  rintro done ph S S' ⟨-, related⟩ added
  obtain ⟨few, s, rfl, own⟩ := addSeg_eq_ok added
  refine ⟨?_, List.rel_append related (.cons own .nil)⟩
  rw [List.length_append]
  exact few

end Collected

section Named

variable {e : Buffer} {elen : ℕ} {S : List Seg} {naming naming' : Naming} {sec : Sec}

theorem nameFirst_spot (addr : ℕ) (name : List Byte) (S : List Seg) :
    (nameFirst addr name S).map Seg.spot = S.map Seg.spot := by
  induction S with
  | nil => rfl
  | cons s rest ih =>
    rw [nameFirst]
    split_ifs
    · rfl
    · rw [List.map_cons, ih, List.map_cons]

/-- The addresses are among what the name does not change. -/
theorem vaddr_of_spot {S S' : List Seg} (same : S'.map Seg.spot = S.map Seg.spot) :
    S'.map Seg.vaddr = S.map Seg.vaddr := by
  have first := congrArg (List.map Prod.fst) same
  rw [List.map_map, List.map_map] at first
  exact first

/-- A section by its index. -/
def sectionOf (e : Buffer) (elen i : ℕ) : Except String Sec :=
  let header := readHeader e
  let shstr := header.shoff + header.shstrndx * header.shentsize
  readSec e elen header (u32 e (shstr + 0x10)) (u32 e (shstr + 0x14)) i

/-- The section is the kernel-thunk list. -/
def IsThunk (e : Buffer) (elen i : ℕ) (sec : Sec) : Prop :=
  sectionOf e elen i = .ok sec ∧ sec.name = thunkSection ∧ sec.alloc

/-- What is known of the kernel-thunk list once some sections have been looked at. -/
def ThunkKnown (e : Buffer) (elen : ℕ) (S : List Seg) (done : List ℕ) (naming : Naming) : Prop :=
  (naming.thunkVaddr = 0 ∧ ∀ i ∈ done, ∀ sec, sectionOf e elen i = .ok sec → sec.name ≠ thunkSection) ∨
    ∃ i ∈ done, ∃ sec, IsThunk e elen i sec ∧ naming.thunkVaddr = sec.addr ∧ ∃ vaddr ∈ S.map Seg.vaddr, vaddr ≤ sec.addr

/-- A section leaves the segments and the list as they are, or it is the list. -/
theorem nameSec_eq_ok (through : nameSec e naming sec = .ok naming') :
    naming'.segs.map Seg.spot = naming.segs.map Seg.spot ∧
      (sec.name ≠ thunkSection ∧ naming'.thunkVaddr = naming.thunkVaddr ∨
        sec.name = thunkSection ∧ sec.alloc ∧ naming'.thunkVaddr = sec.addr ∧
          ∃ vaddr ∈ naming.segs.map Seg.vaddr, vaddr ≤ sec.addr) := by
  rw [nameSec] at through
  split_ifs at through with outside thunk
  · obtain ⟨⟨⟩, other, through⟩ := bind_eq_ok.mp through
    cases pure_eq_ok.mp through
    have different := orDie_eq_ok other
    exact ⟨rfl, .inl ⟨bne_iff_ne.mp different, rfl⟩⟩
  · obtain ⟨sum, -, through⟩ := bind_eq_ok.mp through
    obtain ⟨⟨⟩, inside, through⟩ := bind_eq_ok.mp through
    obtain ⟨⟨⟩, -, through⟩ := bind_eq_ok.mp through
    obtain ⟨⟨⟩, -, through⟩ := bind_eq_ok.mp through
    cases pure_eq_ok.mp through
    obtain ⟨s, member, holds⟩ := List.any_eq_true.mp (orDie_eq_ok inside)
    rw [Seg.holds, Bool.and_eq_true] at holds
    refine ⟨nameFirst_spot _ _ _, .inr ⟨thunk, ?_, rfl, s.vaddr, List.mem_map_of_mem member, of_decide_eq_true holds.1⟩⟩
    exact Bool.not_eq_false _ ▸ outside
  · obtain ⟨sum, -, through⟩ := bind_eq_ok.mp through
    obtain ⟨⟨⟩, -, through⟩ := bind_eq_ok.mp through
    obtain ⟨⟨⟩, -, through⟩ := bind_eq_ok.mp through
    cases pure_eq_ok.mp through
    exact ⟨nameFirst_spot _ _ _, .inl ⟨thunk, rfl⟩⟩

/-- The segments with their names, and the kernel-thunk list among the sections. -/
theorem nameSegs_eq_ok (through : nameSegs e elen (readHeader e) S = .ok naming) :
    naming.segs.map Seg.spot = S.map Seg.spot ∧
      ThunkKnown e elen S (List.range (readHeader e).shnum) naming := by
  rw [nameSegs] at through
  split_ifs at through with none
  · cases through
    rw [none]
    exact ⟨rfl, .inl ⟨rfl, nofun⟩⟩
  · obtain ⟨⟨⟩, -, through⟩ := bind_eq_ok.mp through
    obtain ⟨⟨⟩, -, through⟩ := bind_eq_ok.mp through
    obtain ⟨⟨⟩, -, through⟩ := bind_eq_ok.mp through
    refine foldlM_induct (motive := fun done naming => naming.segs.map Seg.spot = S.map Seg.spot ∧
      ThunkKnown e elen S done naming) ⟨rfl, .inl ⟨rfl, nofun⟩⟩ ?_ through
    rintro done i naming naming' ⟨same, known⟩ here
    obtain ⟨sec, read, here⟩ := bind_eq_ok.mp here
    obtain ⟨kept, thunk⟩ := nameSec_eq_ok here
    refine ⟨kept.trans same, ?_⟩
    rcases thunk with ⟨other, unchanged⟩ | ⟨named, alloc, addr, vaddr, member, low⟩
    · rcases known with ⟨zero, absent⟩ | ⟨j, before, found, thunk, at_found, low⟩
      · refine .inl ⟨unchanged.trans zero, fun j member sec' read' => ?_⟩
        rcases List.mem_append.mp member with earlier | own
        · exact absent j earlier sec' read'
        · cases List.mem_singleton.mp own
          cases Except.ok.inj (read.symm.trans read')
          exact other
      · exact .inr ⟨j, List.mem_append_left _ before, found, thunk, unchanged.trans at_found, low⟩
    · refine .inr ⟨i, List.mem_append_right _ (List.mem_singleton_self i), sec, ⟨read, named, alloc⟩, addr, vaddr, ?_, low⟩
      rwa [vaddr_of_spot same] at member

end Named

section Base

variable {S : List Seg} {base size : ℕ} {asked : Option Word}

theorem foldl_min_le (values : List ℕ) (start : ℕ) :
    values.foldl min start ≤ start ∧ ∀ value ∈ values, values.foldl min start ≤ value := by
  induction values generalizing start with
  | nil => exact ⟨le_rfl, nofun⟩
  | cons value rest ih =>
    obtain ⟨below, all⟩ := ih (min start value)
    refine ⟨below.trans (min_le_left _ _), fun other member => ?_⟩
    rcases List.mem_cons.mp member with rfl | later
    · exact below.trans (min_le_right _ _)
    · exact all other later

/-- The page of the headers lies below all segments. -/
theorem imageRange_eq_ok (through : imageRange asked S = .ok (base, size)) :
    ∀ vaddr ∈ S.map Seg.vaddr, base + 0x1000 ≤ vaddr := by
  obtain ⟨top, -, through⟩ := bind_eq_ok.mp through
  obtain ⟨base', -, through⟩ := bind_eq_ok.mp through
  obtain ⟨⟨⟩, -, through⟩ := bind_eq_ok.mp through
  obtain ⟨⟨⟩, below, through⟩ := bind_eq_ok.mp through
  obtain ⟨⟨⟩, reserve, through⟩ := bind_eq_ok.mp through
  obtain ⟨size', -, through⟩ := bind_eq_ok.mp through
  obtain ⟨stop, -, through⟩ := bind_eq_ok.mp through
  cases pure_eq_ok.mp through
  have low : base ≤ minVaddr S := of_decide_eq_true (orDie_eq_ok below)
  have room : 0x1000 ≤ minVaddr S - base := of_decide_eq_true (orDie_eq_ok reserve)
  intro vaddr member
  have least := (foldl_min_le (S.map Seg.vaddr) ((S.map Seg.vaddr).headD 0)).2 vaddr member
  change minVaddr S ≤ vaddr at least
  omega

end Base

section Read

variable {pieces : List Piece} {buffer : Buffer}

/-- A number is read from where it was written. -/
theorem u32_place (apart : pieces.Pairwise fun first second => first.extent.Clear second.extent) {offset value : ℕ}
    (member : ⟨offset, leNat value⟩ ∈ pieces) (small : value < 2 ^ 32) (buffer : Buffer) :
    u32 (place pieces buffer) offset = value := by
  rw [u32, rd32_place apart member, BitVec.toNat_ofNat, Nat.mod_eq_of_lt small]

/-- The fields of a segment are words. -/
structure Seg.Small (s : Seg) : Prop where
  vaddr : s.vaddr < 2 ^ 32
  vsize : s.vsize < 2 ^ 32
  rsize : s.rsize < 2 ^ 32

theorem Seg.small_of_spot {s : Seg} {e : Buffer} {ph number : ℕ} (same : s.spot = (readSeg e ph number).spot) : s.Small := by
  rw [Seg.spot, Seg.spot, Prod.mk.injEq, Prod.mk.injEq, Prod.mk.injEq] at same
  obtain ⟨vaddr, vsize, rsize, -⟩ := same
  exact ⟨vaddr ▸ BitVec.isLt _, vsize ▸ BitVec.isLt _, rsize ▸ BitVec.isLt _⟩

/-- A section header is read from where it was written. -/
theorem readXbeSection_place (buffer : Buffer) (apart : pieces.Pairwise fun first second => first.extent.Clear second.extent)
    {sh raw nameAddr headRef tailRef : ℕ} {s : Seg}
    (member : ∀ piece ∈ sectionHeader sh s raw nameAddr headRef tailRef, piece ∈ pieces) (small : s.Small)
    (raw_lt : raw < 2 ^ 32) (name_lt : nameAddr < 2 ^ 32) (head_lt : headRef < 2 ^ 32) (tail_lt : tailRef < 2 ^ 32) :
    readXbeSection (place pieces buffer) sh = ⟨s.vaddr, s.vsize, raw, s.rsize, nameAddr, headRef, tailRef⟩ := by
  rw [readXbeSection, u32_place apart (member _ (by simp [sectionHeader])) small.vaddr,
    u32_place apart (member _ (by simp [sectionHeader])) small.vsize,
    u32_place apart (member _ (by simp [sectionHeader])) raw_lt,
    u32_place apart (member _ (by simp [sectionHeader])) small.rsize,
    u32_place apart (member _ (by simp [sectionHeader])) name_lt,
    u32_place apart (member _ (by simp [sectionHeader])) head_lt,
    u32_place apart (member _ (by simp [sectionHeader])) tail_lt]

end Read

section Emitted

variable {e : Buffer} {header : Header} {naming : Naming} {base size : ℕ} {l : Layout} {titleUtf16 : List Byte}
  {timestamp : Word} {xbe : Xbe}

/-- The segments with their offsets and their numbers. -/
def entries (S : List Seg) (l : Layout) : List ((Seg × ℕ × ℕ) × ℕ) := (S.zip (l.nameOff.zip l.rawAddr)).zipIdx

/-- What is read of a section. -/
def sectionRead (base : ℕ) (l : Layout) (entry : (Seg × ℕ × ℕ) × ℕ) : XbeSection :=
  ⟨entry.1.1.vaddr, entry.1.1.vsize, entry.1.2.2, entry.1.1.rsize, base + entry.1.2.1, base + (l.refOff + entry.2 * 2),
    base + (l.refOff + entry.2 * 2 + 2)⟩

/-- What is read of the headers, and where the bytes of the segments and their names stand. -/
structure Emitted (e : Buffer) (entry : Word) (S : List Seg) (base kt : ℕ) (l : Layout) (bytes : Buffer) : Prop where
  header : readXbe bytes = ⟨base, l.headersSize, base + l.certOff, base + l.secOff, base + l.libverOff,
    entry ^^^ xorEpRetail, BitVec.ofNat 32 kt ^^^ xorKtRetail, (entries S l).map (sectionRead base l)⟩
  names : ∀ entry ∈ entries S l, slice bytes entry.1.2.1 (entry.1.1.name.length + 1) = entry.1.1.name ++ [0]
  raws : ∀ s raw, (s, raw) ∈ S.zip l.rawAddr → slice bytes raw s.rsize = slice e s.roff s.rsize
  zeros : ∀ i, l.refOff ≤ i → i < l.headersSize → bytes i = 0

theorem length_entries {S : List Seg} (laid : Laid S l) : (entries S l).length = S.length := by
  rw [entries, List.length_zipIdx, List.length_zip, List.length_zip, laid.nameLength, laid.rawLength, Nat.min_self,
    Nat.min_self]

/-- An entry is a segment with a name in the headers and a raw offset. -/
theorem mem_of_entries {S : List Seg} (laid : Laid S l) {entry : (Seg × ℕ × ℕ) × ℕ} (member : entry ∈ entries S l) :
    entry.1.1 ∈ S ∧ entry.1.2.1 + (entry.1.1.name.length + 1) ≤ l.refOff ∧ entry.1.2.2 ∈ l.rawAddr ∧ entry.2 < S.length := by
  obtain ⟨⟨s, nameOff, raw⟩, i⟩ := entry
  have at_i := List.mem_zipIdx_iff_getElem?.mp member
  obtain ⟨of_s, of_pair⟩ := List.of_mem_zip (List.mem_of_getElem? at_i)
  have at_zip := List.getElem?_zip_eq_some.mp at_i
  have at_offs := List.getElem?_zip_eq_some.mp at_zip.2
  have named : (⟨nameOff, s.name.length + 1⟩ : Extent) ∈ nameExtents S l.nameOff :=
    List.mem_map.mpr ⟨(s, nameOff), List.mem_of_getElem? (List.getElem?_zip_eq_some.mpr ⟨at_zip.1, at_offs.1⟩), rfl⟩
  refine ⟨of_s, laid.names.below _ named, (List.of_mem_zip of_pair).2, ?_⟩
  exact (List.getElem?_eq_some_iff.mp at_zip.1).1

/-- The addresses in the headers are words. -/
structure Addressed (base : ℕ) (S : List Seg) (l : Layout) : Prop where
  low : base < 2 ^ 32
  cert : base + l.certOff < 2 ^ 32
  sec : base + l.secOff < 2 ^ 32
  libver : base + l.libverOff < 2 ^ 32
  entry : ∀ entry ∈ entries S l, base + entry.1.2.1 < 2 ^ 32 ∧ base + (l.refOff + entry.2 * 2 + 2) < 2 ^ 32

theorem mem_written {entries : List ((Seg × ℕ × ℕ) × ℕ)} {image cert version raw : List Piece} {piece : Piece} :
    piece ∈ writtenPieces base l entries image cert version raw ↔ piece ∈ image ∨ piece ∈ cert ∨
      (∃ entry ∈ entries, piece ∈ headerPieces base l entry ∨ piece = namePiece entry) ∨ piece ∈ version ∨ piece ∈ raw := by
  simp only [writtenPieces, List.mem_append, List.mem_flatMap, List.mem_singleton, or_assoc]

/-- The headers are read as they are written. -/
theorem readXbe_place {S : List Seg} {entry kt : Word} {pieces : List Piece} (laid : Laid S l) (small : ∀ s ∈ S, s.Small)
    (addressed : Addressed base S l) (clear : pieces.Pairwise fun first second => first.extent.Clear second.extent)
    (image : ∀ piece ∈ imageHeader entry kt base size (base + l.certOff) (base + l.secOff) (base + l.libverOff) S.length
      l.headersSize timestamp, piece ∈ pieces)
    (heads : ∀ entry ∈ entries S l, ∀ piece ∈ headerPieces base l entry, piece ∈ pieces) (buffer : Buffer) :
    readXbe (place pieces buffer) = ⟨base, l.headersSize, base + l.certOff, base + l.secOff, base + l.libverOff,
      entry ^^^ xorEpRetail, kt ^^^ xorKtRetail, (entries S l).map (sectionRead base l)⟩ := by
  have refs := laid.refs
  have reserve := laid.reserve
  have headers := laid.headers
  have low : u32 (place pieces buffer) 0x104 = base := u32_place clear (image _ (by simp [imageHeader])) addressed.low _
  have secs : u32 (place pieces buffer) 0x120 = base + l.secOff :=
    u32_place clear (image _ (by simp [imageHeader])) addressed.sec _
  have count : u32 (place pieces buffer) 0x11C = S.length :=
    u32_place clear (image _ (by simp [imageHeader])) (by omega) _
  have sections : ((List.range S.length).map fun i => readXbeSection (place pieces buffer) (base + l.secOff - base + i * 0x38)) =
      (entries S l).map (sectionRead base l) := by
    apply List.ext_getElem
    · rw [List.length_map, List.length_map, List.length_range, length_entries laid]
    intro i inside inside'
    rw [List.length_map] at inside'
    have member := List.getElem_mem inside'
    obtain ⟨of_s, -, of_raw, -⟩ := mem_of_entries laid member
    obtain ⟨name_lt, tail_lt⟩ := addressed.entry _ member
    have number : (entries S l)[i].2 = i := by
      simp only [entries, List.getElem_zipIdx, Nat.zero_add]
    have raw_lt := laid.raws_lt (fun s member => (small s member).rsize) _ of_raw
    have read := readXbeSection_place buffer clear (heads _ member) (small _ of_s) raw_lt name_lt
      (by omega) tail_lt
    rw [number] at read
    rw [List.getElem_map, List.getElem_map, List.getElem_range, Nat.add_sub_cancel_left, sectionRead, number]
    exact read
  have total : u32 (place pieces buffer) 0x108 = l.headersSize :=
    u32_place clear (image _ (by simp [imageHeader])) (by omega) _
  have cert : u32 (place pieces buffer) 0x118 = base + l.certOff :=
    u32_place clear (image _ (by simp [imageHeader])) addressed.cert _
  have libver : u32 (place pieces buffer) 0x164 = base + l.libverOff :=
    u32_place clear (image _ (by simp [imageHeader])) addressed.libver _
  have start : rd32 (place pieces buffer) 0x128 = entry ^^^ xorEpRetail :=
    rd32_place clear (image _ (by simp [imageHeader])) _
  have thunk : rd32 (place pieces buffer) 0x158 = kt ^^^ xorKtRetail :=
    rd32_place clear (image _ (by simp [imageHeader])) _
  rw [readXbe, low, total, cert, secs, libver, start, thunk, count, sections]

theorem emitted_of_pieces {S : List Seg} {entry : Word} {kt : ℕ} (laid : Laid S l) (small : ∀ s ∈ S, s.Small)
    (addressed : Addressed base S l) {image cert version raw : List Piece}
    (written : image = imageHeader entry (BitVec.ofNat 32 kt) base size (base + l.certOff) (base + l.secOff)
      (base + l.libverOff) S.length l.headersSize timestamp)
    (rawWritten : raw = rawData e (S.zip l.rawAddr)) (certFills : Fills 0x178 (0x178 + 0x1D0) (extents cert))
    (versionFills : Fills l.libverOff (l.libverOff + 0x10) (extents version)) :
    Emitted e entry S base kt l (place (writtenPieces base l (entries S l) image cert version raw) fun _ => 0) := by
  have imageFills : Fills 0 0x178 (extents image) := written ▸ fills_imageHeader ..
  have rawPlaces : extents raw = rawExtents S l.rawAddr := rawWritten ▸ extents_rawData ..
  obtain ⟨front, behind⟩ := fills_sortedPieces (l := l) laid imageFills certFills versionFills rawPlaces
  have refs := laid.refs
  have headers := laid.headers
  have gap : l.refOff ≤ l.headersSize := by omega
  have clear : (writtenPieces base l (entries S l) image cert version raw).Pairwise _ :=
    written_clear front gap behind
  constructor
  · have fields (piece : Piece) (member : piece ∈ imageHeader entry (BitVec.ofNat 32 kt) base size (base + l.certOff)
        (base + l.secOff) (base + l.libverOff) S.length l.headersSize timestamp) :
        piece ∈ writtenPieces base l (entries S l) image cert version raw :=
      mem_written.mpr (.inl (written ▸ member))
    refine readXbe_place laid small addressed clear fields (fun entry member piece inside => ?_) _
    exact mem_written.mpr (.inr (.inr (.inl ⟨entry, member, .inl inside⟩)))
  · intro entry member
    have found := slice_place clear (mem_written.mpr (.inr (.inr (.inl ⟨entry, member, .inr rfl⟩)))) fun _ => 0
    rw [namePiece, List.length_append, List.length_singleton] at found
    exact found
  · intro s raw' member
    rcases eq_or_ne s.rsize 0 with none | some
    · rw [none]
      rfl
    · have piece : ⟨raw', slice e s.roff s.rsize⟩ ∈ raw := by
        rw [rawWritten]
        exact List.mem_map.mpr ⟨(s, raw'), List.mem_filter.mpr ⟨member, decide_eq_true some⟩, rfl⟩
      have found := slice_place clear (mem_written.mpr (.inr (.inr (.inr (.inr piece))))) fun _ => 0
      rw [length_slice] at found
      exact found
  · intro i above below
    refine place_outside (fun piece member holds => ?_) _
    have inFile := (written_perm _ _ _ _ _).mem_iff.mp member
    rcases List.mem_append.mp inFile with early | late
    · have last := front.below _ (List.mem_map_of_mem early)
      exact absurd (holds.2.trans_le last) (Nat.not_lt.mpr above)
    · have first := behind.above _ (List.mem_map_of_mem late)
      exact absurd (first.trans holds.1) (Nat.not_le.mpr below)

theorem emit_eq_ok (through : emit e header naming base size l titleUtf16 timestamp = .ok xbe)
    (title : titleUtf16.length = 80) (laid : Laid naming.segs l) (small : ∀ s ∈ naming.segs, s.Small)
    (base_lt : base < 2 ^ 32) :
    ∃ kt, thunkAddress naming base l = .ok kt ∧ Emitted e header.entry naming.segs base kt l xbe.bytes ∧
      xbe.length = l.xbeLen ∧ xbe.layout = l ∧ xbe.segs = naming.segs := by
  obtain ⟨kt, thunk, through⟩ := bind_eq_ok.mp through
  obtain ⟨certAddr, cert, through⟩ := bind_eq_ok.mp through
  obtain ⟨secAddr, sec, through⟩ := bind_eq_ok.mp through
  obtain ⟨libverAddr, libver, through⟩ := bind_eq_ok.mp through
  obtain ⟨sections, emitted, through⟩ := bind_eq_ok.mp through
  cases pure_eq_ok.mp through
  cases checkedAddU32_eq_ok cert
  cases checkedAddU32_eq_ok sec
  cases checkedAddU32_eq_ok libver
  obtain ⟨rfl, addresses⟩ := emitSections_eq_ok emitted
  have refs := laid.refs
  have headers := laid.headers
  have reserve := laid.reserve
  have versionEnd := laid.names.le
  have addressed : Addressed base naming.segs l := {
    low := base_lt
    cert := checkedAddU32_lt cert (by rw [laid.cert]; decide)
    sec := checkedAddU32_lt sec (by rw [laid.sec]; decide)
    libver := checkedAddU32_lt libver (by omega)
    entry := fun entry member => by
      obtain ⟨-, name, -, number⟩ := mem_of_entries laid member
      exact ⟨(addresses entry member).1 (by omega), (addresses entry member).2 (by omega)⟩ }
  have certFills := fills_certificate 0x178 timestamp title
  refine ⟨kt, thunk, ?_, rfl, rfl, rfl⟩
  exact emitted_of_pieces laid small addressed rfl rfl (laid.cert ▸ certFills) (fills_libraryVersion l.libverOff)

end Emitted

section Title

/-- The units of a title fit its field. -/
theorem titleUnits_length {steps units : ℕ} {text out : List Byte} (through : titleUnits steps text units = .ok out)
    (room : units ≤ 40) : units * 2 + out.length ≤ 80 := by
  induction steps generalizing text units out with
  | zero =>
    cases through
    rw [List.length_nil]
    omega
  | succ steps ih =>
    cases text with
    | nil =>
      cases through
      rw [List.length_nil]
      omega
    | cons byte text =>
      obtain ⟨⟨codepoint, taken⟩, -, through⟩ := bind_eq_ok.mp through
      dsimp only at through
      split_ifs at through
      · obtain ⟨⟨⟩, one, through⟩ := bind_eq_ok.mp through
        obtain ⟨rest, tail, through⟩ := bind_eq_ok.mp through
        cases pure_eq_ok.mp through
        have free : units < 40 := of_decide_eq_true (orDie_eq_ok one)
        have others := ih tail free
        rw [List.length_append, length_le16]
        omega
      · obtain ⟨⟨⟩, two, through⟩ := bind_eq_ok.mp through
        obtain ⟨rest, tail, through⟩ := bind_eq_ok.mp through
        cases pure_eq_ok.mp through
        have free : units ≤ 38 := of_decide_eq_true (orDie_eq_ok two)
        have others := ih tail (by omega)
        rw [List.length_append, List.length_append, length_le16, length_le16]
        omega

theorem writeTitleUtf16le_length {title out : List Byte} (through : writeTitleUtf16le title = .ok out) :
    out.length = 80 := by
  obtain ⟨units, written, through⟩ := bind_eq_ok.mp through
  cases pure_eq_ok.mp through
  have fits := titleUnits_length written (Nat.zero_le _)
  rw [List.length_append, List.length_replicate]
  omega

end Title

section Whole

variable {e : Buffer} {elen : ℕ} {S : List Seg} {l : Layout} {base kt : ℕ} {bytes : Buffer} {entry : Word}

theorem entries_fst (S : List Seg) (l : Layout) : (entries S l).map Prod.fst = S.zip (l.nameOff.zip l.rawAddr) :=
  List.zipIdx_map_fst ..

theorem entries_segs (laid : Laid S l) : (entries S l).map (fun entry => entry.1.1) = S := by
  have pairs : (l.nameOff.zip l.rawAddr).length = S.length := by
    rw [List.length_zip, laid.nameLength, laid.rawLength, Nat.min_self]
  have twice : (entries S l).map (fun entry => entry.1.1) = ((entries S l).map Prod.fst).map Prod.fst :=
    List.map_map.symm
  rw [twice, entries_fst, List.map_fst_zip pairs.ge]

theorem entries_names (laid : Laid S l) : (entries S l).map (fun entry => (entry.1.1, entry.1.2.1)) = S.zip l.nameOff := by
  have same : l.nameOff.length ≤ l.rawAddr.length := (laid.nameLength.trans laid.rawLength.symm).le
  have twice : (entries S l).map (fun entry => (entry.1.1, entry.1.2.1)) =
      ((entries S l).map Prod.fst).map (Prod.map id Prod.fst) := by
    rw [List.map_map]
    rfl
  rw [twice, entries_fst, ← List.zip_map_right, List.map_fst_zip same]

theorem entries_raws (laid : Laid S l) : (entries S l).map (fun entry => (entry.1.1, entry.1.2.2)) = S.zip l.rawAddr := by
  have same : l.rawAddr.length ≤ l.nameOff.length := (laid.rawLength.trans laid.nameLength.symm).le
  have twice : (entries S l).map (fun entry => (entry.1.1, entry.1.2.2)) =
      ((entries S l).map Prod.fst).map (Prod.map id Prod.snd) := by
    rw [List.map_map]
    rfl
  rw [twice, entries_fst, ← List.zip_map_right, List.map_snd_zip same]

/-- The memory of a segment. -/
def loadSeg (e : Buffer) (memory : Buffer) (s : Seg) : Buffer :=
  storeAt memory s.vaddr (slice e s.roff s.rsize ++ List.replicate (s.vsize - s.rsize) 0)

/-- The loader makes of the file what its segments are. -/
theorem mapXbe_eq (emitted : Emitted e entry S base kt l bytes) (laid : Laid S l) (memory : Buffer) :
    mapXbe bytes memory = S.foldl (loadSeg e) memory := by
  have each (memory : Buffer) (entry : (Seg × ℕ × ℕ) × ℕ) (member : entry ∈ entries S l) :
      mapSection bytes memory (sectionRead base l entry) = loadSeg e memory entry.1.1 := by
    have pair : (entry.1.1, entry.1.2.2) ∈ S.zip l.rawAddr := entries_raws laid ▸ List.mem_map_of_mem member
    rw [mapSection, sectionRead, emitted.raws _ _ pair, loadSeg]
  rw [mapXbe, emitted.header]
  dsimp only
  rw [List.foldl_map, List.foldl_ext _ _ _ each]
  conv_rhs => rw [← entries_segs laid, List.foldl_map]

/-- A program header without memory leaves the memory as it is. -/
theorem foldl_mapped (e : Buffer) (phs : List ℕ) (memory : Buffer) :
    (phs.filter fun ph => u32 e ph == 1).foldl (loadSegment e) memory =
      (phs.filter (mapped e)).foldl (loadSegment e) memory := by
  induction phs generalizing memory with
  | nil => rfl
  | cons ph rest ih =>
    cases loaded : u32 e ph == 1 with
    | false =>
      have other : mapped e ph = false := by rw [mapped, loaded, Bool.false_and]
      rw [List.filter_cons_of_neg (by simp [loaded]), List.filter_cons_of_neg (by simp [other])]
      exact ih memory
    | true =>
      rcases eq_or_ne (u32 e (ph + 0x14)) 0 with none | some
      · have other : mapped e ph = false := by simp [mapped, none]
        have same : loadSegment e memory ph = memory := by
          rw [loadSegment, none, List.take_zero]
          funext i
          exact storeAt_outside memory (Nat.lt_or_ge _ _)
        rw [List.filter_cons_of_pos (by simp [loaded]), List.filter_cons_of_neg (by simp [other]), List.foldl_cons, same]
        exact ih memory
      · have own : mapped e ph = true := by simp [mapped, loaded, some]
        rw [List.filter_cons_of_pos (by simp [loaded]), List.filter_cons_of_pos own, List.foldl_cons, List.foldl_cons]
        exact ih _

/-- The segments with names are still those of the program headers. -/
theorem of_spots {phs : List ℕ} {S S' : List Seg} (related : List.Forall₂ (Seg.Of e) phs S)
    (same : S'.map Seg.spot = S.map Seg.spot) : List.Forall₂ (Seg.Of e) phs S' := by
  have spots : List.Forall₂ (fun ph (spot : ℕ × ℕ × ℕ × ℕ × Word) => spot = (readSeg e ph 0).spot ∧ spot.2.2.1 ≤ spot.2.1)
      phs (S.map Seg.spot) := List.forall₂_map_right_iff.mpr related
  rw [← same] at spots
  exact (List.forall₂_map_right_iff (f := Seg.spot)).mp spots

/-- The segments make of the memory what their program headers do. -/
theorem foldl_loadSeg {phs : List ℕ} (related : List.Forall₂ (Seg.Of e) phs S) (memory : Buffer) :
    phs.foldl (loadSegment e) memory = S.foldl (loadSeg e) memory := by
  induction related generalizing memory with
  | nil => rfl
  | @cons ph s phs S own rest ih =>
    obtain ⟨same, sizes⟩ := own
    have here : loadSegment e memory ph = loadSeg e memory s := by
      rw [Seg.spot, Seg.spot, Prod.mk.injEq, Prod.mk.injEq, Prod.mk.injEq, Prod.mk.injEq] at same
      obtain ⟨vaddr, vsize, rsize, roff, -⟩ := same
      change s.vaddr = u32 e (ph + 0x08) at vaddr
      change s.vsize = u32 e (ph + 0x14) at vsize
      change s.rsize = u32 e (ph + 0x10) at rsize
      change s.roff = u32 e (ph + 0x04) at roff
      rw [loadSegment, ← vaddr, ← vsize, ← rsize, ← roff, loadSeg, List.take_of_length_le]
      rw [List.length_append, length_slice, List.length_replicate]
      omega
    rw [List.foldl_cons, List.foldl_cons, here]
    exact ih _

/-- The parts of the headers, by the addresses that they have in them. -/
def Xbe.structures (xbe : Xbe) : List Extent :=
  let header := readXbe xbe.bytes
  [⟨0, xbeHdrSize⟩, ⟨header.certAddr - header.base, xbeCertSize⟩,
    ⟨header.secAddr - header.base, header.sections.length * xbeSechdrSize⟩,
    ⟨header.libverAddr - header.base, xbeLibverSize⟩] ++
  ((header.sections.zip xbe.segs).map fun (section', s) => ⟨section'.nameAddr - header.base, s.name.length + 1⟩) ++
  [⟨xbe.layout.refOff, (header.sections.length + 1) * 2⟩, ⟨xbe.layout.thunkOff, 4⟩]

/-- The raw ranges of the sections that have one, by their headers. -/
def Xbe.raws (xbe : Xbe) : List Extent :=
  ((readXbe xbe.bytes).sections.filter fun s => s.rsize ≠ 0).map fun s => ⟨s.raw, s.rsize⟩

theorem sections_zip (laid : Laid S l) : ((entries S l).map (sectionRead base l)).zip S =
    (entries S l).map fun entry => (sectionRead base l entry, entry.1.1) := by
  have zipped := List.zip_map' (f := sectionRead base l) (g := fun entry => entry.1.1) (l := entries S l)
  rwa [entries_segs laid] at zipped

theorem structures_fill {xbe : Xbe} (emitted : Emitted e entry S base kt l xbe.bytes) (laid : Laid S l)
    (layout : xbe.layout = l) (segs : xbe.segs = S) :
    Fills 0 (readXbe xbe.bytes).headersSize xbe.structures := by
  have names : (((entries S l).map (sectionRead base l)).zip S).map
      (fun (section', s) => (⟨section'.nameAddr - base, s.name.length + 1⟩ : Extent)) = nameExtents S l.nameOff := by
    rw [sections_zip laid, List.map_map, nameExtents, ← entries_names laid, List.map_map]
    refine List.map_congr_left fun entry _ => ?_
    simp only [Function.comp_apply, sectionRead, Nat.add_sub_cancel_left]
  rw [Xbe.structures, emitted.header, layout, segs]
  dsimp only
  rw [List.length_map, length_entries laid, names]
  have front : Fills 0 (l.libverOff + 0x10) [⟨0, xbeHdrSize⟩, ⟨base + l.certOff - base, xbeCertSize⟩,
      ⟨base + l.secOff - base, S.length * xbeSechdrSize⟩, ⟨base + l.libverOff - base, xbeLibverSize⟩] := by
    apply fills_of_fits
    rw [Nat.add_sub_cancel_left, Nat.add_sub_cancel_left, Nat.add_sub_cancel_left, laid.cert, laid.sec, laid.libver]
    simp only [Fits, stop, xbeHdrSize, xbeCertSize, xbeSechdrSize, xbeLibverSize]
    omega
  have back : Fits l.refOff l.headersSize [⟨l.refOff, (S.length + 1) * 2⟩, ⟨l.thunkOff, 4⟩] :=
    ⟨le_rfl, laid.refs, laid.headers.ge⟩
  exact (front.append le_rfl laid.names).append le_rfl (fills_of_fits back)

theorem raws_eq {xbe : Xbe} (emitted : Emitted e entry S base kt l xbe.bytes) (laid : Laid S l) :
    xbe.raws = rawExtents S l.rawAddr := by
  rw [Xbe.raws, emitted.header, rawExtents, ← entries_raws laid]
  dsimp only
  rw [List.filter_map, List.filter_map, List.map_map, List.map_map]
  rfl

/-- What the file makes of the ELF. -/
structure Xbe.Loads (xbe : Xbe) (e : Buffer) (elen : ℕ) : Prop where
  memory : ∀ memory, mapXbe xbe.bytes memory = loadElf e memory
  entry : (readXbe xbe.bytes).entry ^^^ xorEpRetail = (readHeader e).entry
  thunk : (∃ i < (readHeader e).shnum, ∃ sec, IsThunk e elen i sec ∧
      (readXbe xbe.bytes).thunk ^^^ xorKtRetail = BitVec.ofNat 32 sec.addr) ∨
    (∀ i < (readHeader e).shnum, ∀ sec, sectionOf e elen i = .ok sec → sec.name ≠ thunkSection) ∧
      (readXbe xbe.bytes).thunk ^^^ xorKtRetail = BitVec.ofNat 32 ((readXbe xbe.bytes).base + xbe.layout.thunkOff) ∧
      rd32 xbe.bytes xbe.layout.thunkOff = 0
  count : (readXbe xbe.bytes).sections.length = xbe.segs.length
  structures : Fills 0 (readXbe xbe.bytes).headersSize xbe.structures
  reserve : (readXbe xbe.bytes).headersSize ≤ 0x1000
  names : ∀ section' s, (section', s) ∈ (readXbe xbe.bytes).sections.zip xbe.segs →
    slice xbe.bytes (section'.nameAddr - (readXbe xbe.bytes).base) (s.name.length + 1) = s.name ++ [0]
  references : ∀ i s, (readXbe xbe.bytes).sections[i]? = some s →
    s.headRef = (readXbe xbe.bytes).base + (xbe.layout.refOff + i * 2) ∧ s.tailRef = s.headRef + 2
  raws : Fills (readXbe xbe.bytes).headersSize xbe.length xbe.raws

/-- The list of the loader, or the empty one in the headers. -/
theorem thunk_decoded {naming : Naming} {xbe : Xbe} (known : ThunkKnown e elen S (List.range (readHeader e).shnum) naming)
    (above : ∀ vaddr ∈ S.map Seg.vaddr, base + 0x1000 ≤ vaddr) (through : thunkAddress naming base l = .ok kt)
    (emitted : Emitted e entry naming.segs base kt l xbe.bytes) (laid : Laid naming.segs l) (layout : xbe.layout = l) :
    (∃ i < (readHeader e).shnum, ∃ sec, IsThunk e elen i sec ∧
      (readXbe xbe.bytes).thunk ^^^ xorKtRetail = BitVec.ofNat 32 sec.addr) ∨
    (∀ i < (readHeader e).shnum, ∀ sec, sectionOf e elen i = .ok sec → sec.name ≠ thunkSection) ∧
      (readXbe xbe.bytes).thunk ^^^ xorKtRetail = BitVec.ofNat 32 ((readXbe xbe.bytes).base + xbe.layout.thunkOff) ∧
      rd32 xbe.bytes xbe.layout.thunkOff = 0 := by
  have decoded : (readXbe xbe.bytes).thunk ^^^ xorKtRetail = BitVec.ofNat 32 kt := by
    rw [emitted.header]
    dsimp only
    rw [BitVec.xor_assoc, BitVec.xor_self, BitVec.xor_zero]
  rw [thunkAddress] at through
  rcases known with ⟨zero, absent⟩ | ⟨i, member, sec, thunk, same, vaddr, at_vaddr, low⟩
  · rw [if_neg (not_not_intro zero)] at through
    cases checkedAddU32_eq_ok through
    refine .inr ⟨fun i below => absent i (List.mem_range.mpr below), ?_, ?_⟩
    · rw [decoded, emitted.header, layout]
    · have refs := laid.refs
      have headers := laid.headers
      rw [layout]
      have zeros (j : ℕ) (inside : j < 4) : xbe.bytes (l.thunkOff + j) = 0 := emitted.zeros _ (by omega) (by omega)
      have zeroth := zeros 0 (by decide)
      rw [Nat.add_zero] at zeroth
      rw [rd32, zeroth, zeros 1 (by decide), zeros 2 (by decide), zeros 3 (by decide)]
      rfl
  · have some : naming.thunkVaddr ≠ 0 := by
      have bound := above vaddr at_vaddr
      omega
    rw [if_pos some] at through
    cases through
    exact .inl ⟨i, List.mem_range.mp member, sec, thunk, decoded.trans (congrArg _ same)⟩

/-- An accepted ELF is loaded by its file. -/
theorem xbe_loads {asked : Option Word} {title : List Byte} {timestamp : Word} {xbe : Xbe}
    (accepted : elf2xbe e elen asked title timestamp = .ok xbe) : xbe.Loads e elen := by
  obtain ⟨titleUtf16, written, through⟩ := bind_eq_ok.mp accepted
  obtain ⟨⟨⟩, -, through⟩ := bind_eq_ok.mp through
  obtain ⟨S, collected, through⟩ := bind_eq_ok.mp through
  obtain ⟨naming, named, through⟩ := bind_eq_ok.mp through
  obtain ⟨⟨base, size⟩, range, through⟩ := bind_eq_ok.mp through
  obtain ⟨l, laidOut, through⟩ := bind_eq_ok.mp through
  obtain ⟨S', folded, collected⟩ := bind_eq_ok.mp collected
  obtain ⟨⟨⟩, some, collected⟩ := bind_eq_ok.mp collected
  obtain ⟨⟨⟩, -, collected⟩ := bind_eq_ok.mp collected
  cases pure_eq_ok.mp collected
  obtain ⟨-, related⟩ := collect_foldlM folded
  obtain ⟨spots, known⟩ := nameSegs_eq_ok named
  have named := of_spots related spots
  have laid := layout_eq_ok laidOut
  have above := imageRange_eq_ok range
  have small (s : Seg) (member : s ∈ naming.segs) : s.Small := by
    obtain ⟨k, at_k⟩ := List.mem_iff_getElem?.mp member
    obtain ⟨ph, -, own⟩ := getElem?_of_forall₂ named at_k
    exact Seg.small_of_spot own.1
  have base_lt : base < 2 ^ 32 := by
    obtain ⟨s, first⟩ := List.exists_mem_of_ne_nil naming.segs fun empty => by
      rw [empty] at spots
      have none : S = [] := List.map_eq_nil_iff.mp spots.symm
      rw [none] at some
      cases orDie_eq_ok some
    have bound := above s.vaddr (List.mem_map_of_mem first)
    have word := (small s first).vaddr
    omega
  obtain ⟨kt, thunk, emitted, length, layout, segs⟩ :=
    emit_eq_ok through (writeTitleUtf16le_length written) laid small base_lt
  have structures := structures_fill emitted laid layout segs
  constructor
  · intro memory
    rw [mapXbe_eq emitted laid, loadElf, foldl_mapped, foldl_loadSeg named]
  · rw [emitted.header]
    dsimp only
    rw [BitVec.xor_assoc, BitVec.xor_self, BitVec.xor_zero]
  · rw [vaddr_of_spot spots] at above
    exact thunk_decoded known above thunk emitted laid layout
  · rw [emitted.header, segs]
    dsimp only
    rw [List.length_map, length_entries laid]
  · exact structures
  · rw [emitted.header]
    exact laid.reserve
  · intro section' s member
    rw [emitted.header, segs] at member
    rw [emitted.header]
    dsimp only at member ⊢
    rw [sections_zip laid] at member
    obtain ⟨entry, inside, same⟩ := List.mem_map.mp member
    cases same
    rw [sectionRead, Nat.add_sub_cancel_left]
    exact emitted.names entry inside
  · intro i s at_i
    rw [emitted.header] at at_i ⊢
    dsimp only at at_i ⊢
    rw [List.getElem?_map, entries, List.getElem?_zipIdx, Option.map_map] at at_i
    obtain ⟨entry, -, rfl⟩ := Option.map_eq_some_iff.mp at_i
    rw [Function.comp_apply, sectionRead, layout, Nat.zero_add]
    exact ⟨rfl, (Nat.add_assoc ..).symm⟩
  · rw [raws_eq emitted laid, emitted.header, length]
    exact laid.raws

/-- An ELF with a kernel-thunk list in front of its code, and a segment of zeros. -/
def thunkElf : List Byte :=
  [0x7F, 0x45, 0x4C, 0x46, 1, 1, 1] ++ List.replicate 9 0 ++ le16 2 ++ le16 3 ++ leNat 1 ++ leNat 0x11004 ++ leNat 52 ++
    leNat 140 ++ leNat 0 ++ le16 52 ++ le16 32 ++ le16 2 ++ le16 40 ++ le16 3 ++ le16 2 ++
  leNat 1 ++ leNat 116 ++ leNat 0x11000 ++ leNat 0 ++ leNat 5 ++ leNat 8 ++ leNat 5 ++ leNat 1 ++
  leNat 1 ++ leNat 124 ++ leNat 0x12000 ++ leNat 0 ++ leNat 0 ++ leNat 16 ++ leNat 6 ++ leNat 4 ++
  leNat 0 ++ [0xC3, 0, 0, 0] ++ (0 :: thunkSection ++ [0]) ++ List.replicate 6 0 ++
  List.replicate 40 0 ++
  (leNat 1 ++ leNat 1 ++ leNat 2 ++ leNat 0x11000 ++ leNat 116 ++ leNat 4 ++ leNat 0 ++ leNat 0 ++ leNat 4 ++ leNat 0) ++
  (leNat 0 ++ leNat 3 ++ leNat 0 ++ leNat 0 ++ leNat 124 ++ leNat 10 ++ leNat 0 ++ leNat 0 ++ leNat 1 ++ leNat 0)

def thunkInput : Buffer := overlay thunkElf fun _ => 0

theorem xbe_loads_thunk : ∃ xbe, elf2xbe thunkInput 260 none (ascii "Hi") 7 = .ok xbe ∧ xbe.Loads thunkInput 260 ∧
    (readXbe xbe.bytes).base = 0x10000 ∧ (readXbe xbe.bytes).thunk ^^^ xorKtRetail = 0x11000#32 ∧
    xbe.raws = [⟨0x400, 5⟩] := by
  have made : (elf2xbe thunkInput 260 none (ascii "Hi") 7).toOption.map (fun xbe =>
      ((readXbe xbe.bytes).base, (readXbe xbe.bytes).thunk ^^^ xorKtRetail, xbe.raws)) =
      some (0x10000, 0x11000#32, [⟨0x400, 5⟩]) := by decide +kernel
  obtain ⟨xbe, run, same⟩ := Option.map_eq_some_iff.mp made
  have accepted := eq_ok_of_toOption run
  obtain ⟨base, rest⟩ := Prod.mk.inj same
  obtain ⟨thunk, raws⟩ := Prod.mk.inj rest
  exact ⟨xbe, accepted, xbe_loads accepted, base, thunk, raws⟩

end Whole

end KosTool.Elf2xbe
