import KosTool.Model.Binary.Xbe
import KosTool.Soundness.CheckedSums

/-! # The parts of an XBE share no place

The cursor over the headers and that over the raw data only move on, so that every piece which is written to the file
has its places for itself.
-/

namespace KosTool.Elf2xbe

open ByteWord WordPatch Placement Fallible Extent
open Elf2irx (orDie orDie_eq_ok le_rounded)
open Elf2prx (le16 leNat length_le16 length_leNat)

section Checked

variable {a b result : ℕ} {what : String}

theorem checkedAddU32_eq_ok (through : checkedAddU32 a b what = .ok result) : result = a + b := by
  rw [checkedAddU32] at through
  split_ifs at through
  exact (Except.ok.inj through).symm

/-- A checked sum is a word. -/
theorem checkedAddU32_lt (through : checkedAddU32 a b what = .ok result) (small : b < 2 ^ 32) : a + b < 2 ^ 32 := by
  rw [checkedAddU32] at through
  split_ifs at through with overrun
  omega

theorem checkedMulU32_eq_ok (through : checkedMulU32 a b what = .ok result) : result = a * b := by
  rw [checkedMulU32] at through
  split_ifs at through
  exact (Except.ok.inj through).symm

theorem le_of_alignUp {alignment : Word} (through : alignUp a alignment what = .ok result) : a ≤ result := by
  obtain ⟨⟨⟩, valid, through⟩ := bind_eq_ok.mp through
  obtain ⟨sum, added, through⟩ := bind_eq_ok.mp through
  cases pure_eq_ok.mp through
  cases checkedAddU32_eq_ok added
  exact le_rounded (orDie_eq_ok valid) a

end Checked

section Layout

variable {S : List Seg} {offs : List ℕ} {start stop : ℕ}

/-- The places of the names, each with its terminator. -/
def nameExtents (S : List Seg) (offs : List ℕ) : List Extent :=
  (S.zip offs).map fun (s, off) => ⟨off, s.name.length + 1⟩

/-- The places of the raw data of the segments that have some. -/
def rawExtents (S : List Seg) (raws : List ℕ) : List Extent :=
  ((S.zip raws).filter fun (s, _) => s.rsize ≠ 0).map fun (s, raw) => ⟨raw, s.rsize⟩

theorem layNames_eq_ok (through : layNames S start = .ok (offs, stop)) :
    offs.length = S.length ∧ Fills start stop (nameExtents S offs) := by
  induction S generalizing start offs with
  | nil =>
    cases through
    exact ⟨rfl, .nil le_rfl⟩
  | cons s rest ih =>
    obtain ⟨next, added, through⟩ := bind_eq_ok.mp through
    obtain ⟨⟨others, last⟩, tail, through⟩ := bind_eq_ok.mp through
    cases pure_eq_ok.mp through
    cases checkedAddU32_eq_ok added
    obtain ⟨same, fills⟩ := ih tail
    exact ⟨congrArg (· + 1) same, .cons le_rfl fills⟩

/-- The raw data of a segment has its places, if there is any. -/
theorem layRaw_eq_ok {s : Seg} {raw next : ℕ} (through : layRaw s start = .ok (raw, next)) :
    s.rsize = 0 ∧ raw = 0 ∧ next = start ∨ s.rsize ≠ 0 ∧ raw = start ∧ start + s.rsize ≤ next := by
  rw [layRaw] at through
  split_ifs at through with none
  · cases through
    exact .inl ⟨none, rfl, rfl⟩
  · obtain ⟨sum, added, through⟩ := bind_eq_ok.mp through
    obtain ⟨aligned, up, through⟩ := bind_eq_ok.mp through
    cases pure_eq_ok.mp through
    cases checkedAddU32_eq_ok added
    exact .inr ⟨none, rfl, le_of_alignUp up⟩

theorem layRaws_eq_ok (through : layRaws S start = .ok (offs, stop)) :
    offs.length = S.length ∧ Fills start stop (rawExtents S offs) := by
  induction S generalizing start offs with
  | nil =>
    cases through
    exact ⟨rfl, .nil le_rfl⟩
  | cons s rest ih =>
    obtain ⟨⟨raw, next⟩, own, through⟩ := bind_eq_ok.mp through
    obtain ⟨⟨others, last⟩, tail, through⟩ := bind_eq_ok.mp through
    cases pure_eq_ok.mp through
    obtain ⟨same, fills⟩ := ih tail
    refine ⟨congrArg (· + 1) same, ?_⟩
    rcases layRaw_eq_ok own with ⟨none, rfl, rfl⟩ | ⟨some, rfl, room⟩
    · have skip : rawExtents (s :: rest) (0 :: others) = rawExtents rest others := by
        simp [rawExtents, none]
      rwa [skip]
    · have more : rawExtents (s :: rest) (raw :: others) = ⟨raw, s.rsize⟩ :: rawExtents rest others := by
        simp [rawExtents, some]
      rw [more]
      exact .cons le_rfl (fills.mono room le_rfl)

/-- The raw offsets are words. -/
theorem layRaws_lt (through : layRaws S start = .ok (offs, stop)) (sizes : ∀ s ∈ S, s.rsize < 2 ^ 32) :
    ∀ off ∈ offs, off < 2 ^ 32 := by
  induction S generalizing start offs with
  | nil =>
    cases through
    exact nofun
  | cons s rest ih =>
    obtain ⟨⟨raw, next⟩, own, through⟩ := bind_eq_ok.mp through
    obtain ⟨⟨others, last⟩, tail, through⟩ := bind_eq_ok.mp through
    cases pure_eq_ok.mp through
    intro off member
    rcases List.mem_cons.mp member with rfl | later
    · rw [layRaw] at own
      split_ifs at own
      · cases own
        decide
      · obtain ⟨sum, added, own⟩ := bind_eq_ok.mp own
        obtain ⟨aligned, -, own⟩ := bind_eq_ok.mp own
        cases pure_eq_ok.mp own
        exact (Nat.le_add_right _ _).trans_lt (checkedAddU32_lt added (sizes s List.mem_cons_self))
    · exact ih tail (fun s member => sizes s (List.mem_cons_of_mem _ member)) off later

/-- What the cursors leave. -/
structure Laid (S : List Seg) (l : Layout) : Prop where
  cert : l.certOff = 0x178
  sec : l.secOff = 0x348
  libver : l.libverOff = 0x348 + S.length * 0x38
  nameLength : l.nameOff.length = S.length
  names : Fills (l.libverOff + 0x10) l.refOff (nameExtents S l.nameOff)
  refs : l.refOff + (S.length + 1) * 2 ≤ l.thunkOff
  headers : l.headersSize = l.thunkOff + 4
  reserve : l.headersSize ≤ 0x1000
  rawLength : l.rawAddr.length = S.length
  raws : Fills l.headersSize l.xbeLen (rawExtents S l.rawAddr)
  raws_lt : (∀ s ∈ S, s.rsize < 2 ^ 32) → ∀ raw ∈ l.rawAddr, raw < 2 ^ 32

theorem layout_eq_ok {l : Layout} (through : layout S = .ok l) : Laid S l := by
  obtain ⟨certOff, cert, through⟩ := bind_eq_ok.mp through
  obtain ⟨secOff, sec, through⟩ := bind_eq_ok.mp through
  obtain ⟨secSize, size, through⟩ := bind_eq_ok.mp through
  obtain ⟨libverOff, libver, through⟩ := bind_eq_ok.mp through
  obtain ⟨namesOff, names, through⟩ := bind_eq_ok.mp through
  obtain ⟨⟨nameOff, namesEnd⟩, laidNames, through⟩ := bind_eq_ok.mp through
  obtain ⟨refOff, alignedRefs, through⟩ := bind_eq_ok.mp through
  obtain ⟨refSize, refs, through⟩ := bind_eq_ok.mp through
  obtain ⟨refEnd, refsEnd, through⟩ := bind_eq_ok.mp through
  obtain ⟨thunkOff, alignedThunk, through⟩ := bind_eq_ok.mp through
  obtain ⟨headersSize, headers, through⟩ := bind_eq_ok.mp through
  obtain ⟨⟨⟩, fits, through⟩ := bind_eq_ok.mp through
  obtain ⟨fileOff, alignedRaws, through⟩ := bind_eq_ok.mp through
  obtain ⟨⟨rawAddr, xbeLen⟩, laidRaws, through⟩ := bind_eq_ok.mp through
  cases pure_eq_ok.mp through
  cases checkedAddU32_eq_ok cert
  cases checkedAddU32_eq_ok sec
  cases checkedMulU32_eq_ok size
  cases checkedAddU32_eq_ok libver
  cases checkedAddU32_eq_ok names
  cases checkedMulU32_eq_ok refs
  cases checkedAddU32_eq_ok refsEnd
  cases checkedAddU32_eq_ok headers
  obtain ⟨nameLength, nameFills⟩ := layNames_eq_ok laidNames
  obtain ⟨rawLength, rawFills⟩ := layRaws_eq_ok laidRaws
  exact {
    cert := rfl
    sec := rfl
    libver := rfl
    nameLength
    names := nameFills.mono le_rfl (le_of_alignUp alignedRefs)
    refs := le_of_alignUp alignedThunk
    headers := rfl
    reserve := of_decide_eq_true (orDie_eq_ok fits)
    rawLength
    raws := rawFills.mono (le_of_alignUp alignedRaws) le_rfl
    raws_lt := layRaws_lt laidRaws }

end Layout

section Pieces

variable {base : ℕ} {l : Layout} {s : Seg}

/-- The words of a section header. -/
def headerPieces (base : ℕ) (l : Layout) (entry : (Seg × ℕ × ℕ) × ℕ) : List Piece :=
  sectionHeader (l.secOff + entry.2 * xbeSechdrSize) entry.1.1 entry.1.2.2 (base + entry.1.2.1)
    (base + (l.refOff + entry.2 * 2)) (base + (l.refOff + entry.2 * 2 + 2))

/-- The name of a section. -/
def namePiece (entry : (Seg × ℕ × ℕ) × ℕ) : Piece := ⟨entry.1.2.1, entry.1.1.name ++ [0]⟩

theorem emitSections_eq_ok {entries : List (Seg × ℕ × ℕ)} {i : ℕ} {pieces : List Piece}
    (through : emitSections base l i entries = .ok pieces) :
    pieces = ((entries.zipIdx i).flatMap fun entry => headerPieces base l entry ++ [namePiece entry]) ∧
      ∀ entry ∈ entries.zipIdx i, (entry.1.2.1 < 2 ^ 32 → base + entry.1.2.1 < 2 ^ 32) ∧
        (l.refOff + entry.2 * 2 + 2 < 2 ^ 32 → base + (l.refOff + entry.2 * 2 + 2) < 2 ^ 32) := by
  induction entries generalizing i pieces with
  | nil =>
    cases through
    exact ⟨rfl, nofun⟩
  | cons entry rest ih =>
    obtain ⟨s, nameOff, raw⟩ := entry
    obtain ⟨nameAddr, name, through⟩ := bind_eq_ok.mp through
    obtain ⟨twice, double, through⟩ := bind_eq_ok.mp through
    obtain ⟨headRef, head, through⟩ := bind_eq_ok.mp through
    obtain ⟨tailRef, tail, through⟩ := bind_eq_ok.mp through
    obtain ⟨headAddr, headAt, through⟩ := bind_eq_ok.mp through
    obtain ⟨tailAddr, tailAt, through⟩ := bind_eq_ok.mp through
    obtain ⟨others, later, through⟩ := bind_eq_ok.mp through
    cases pure_eq_ok.mp through
    cases checkedAddU32_eq_ok name
    cases checkedMulU32_eq_ok double
    cases checkedAddU32_eq_ok head
    cases checkedAddU32_eq_ok tail
    cases checkedAddU32_eq_ok headAt
    cases checkedAddU32_eq_ok tailAt
    obtain ⟨rfl, small⟩ := ih later
    refine ⟨?_, fun entry member => ?_⟩
    · rw [List.zipIdx_cons, List.flatMap_cons]
      rfl
    · rcases List.mem_cons.mp member with rfl | member
      · exact ⟨checkedAddU32_lt name, checkedAddU32_lt tailAt⟩
      · exact small entry member

/-- The places of pieces. -/
def extents (pieces : List Piece) : List Extent := pieces.map Piece.extent

@[simp] theorem extents_append (first second : List Piece) : extents (first ++ second) = extents first ++ extents second :=
  List.map_append

theorem fills_imageHeader (entry kt : Word) (base size certAddr secAddr libverAddr count headersSize : ℕ)
    (timestamp : Word) :
    Fills 0 0x178 (extents (imageHeader entry kt base size certAddr secAddr libverAddr count headersSize timestamp)) := by
  apply fills_of_fits
  have magic : (ascii "XBEH").length = 4 := rfl
  simp only [extents, imageHeader, List.map_cons, List.map_nil, Piece.extent, Fits, stop, length_le32, length_leNat, magic]
  decide

theorem fills_certificate (c : ℕ) (timestamp : Word) {titleUtf16 : List Byte} (title : titleUtf16.length = 80) :
    Fills c (c + 0x1D0) (extents (certificate c timestamp titleUtf16)) := by
  apply fills_of_fits
  simp only [extents, certificate, List.map_cons, List.map_nil, Piece.extent, Fits, stop, length_le32, length_leNat, title]
  omega

theorem fills_sectionHeader (sh raw nameAddr headRef tailRef : ℕ) :
    Fills sh (sh + 0x38) (extents (sectionHeader sh s raw nameAddr headRef tailRef)) := by
  apply fills_of_fits
  simp only [extents, sectionHeader, List.map_cons, List.map_nil, Piece.extent, Fits, stop, length_le32, length_leNat]
  omega

theorem fills_libraryVersion (v : ℕ) : Fills v (v + 0x10) (extents (libraryVersion v)) := by
  apply fills_of_fits
  have name : (ascii "XBOXKRNL").length = 8 := rfl
  simp only [extents, libraryVersion, List.map_cons, List.map_nil, Piece.extent, Fits, stop, length_le16, name]
  omega

/-- The section headers stand in their order. -/
theorem fills_headerPieces (base : ℕ) (l : Layout) (entries : List (Seg × ℕ × ℕ)) (i : ℕ) :
    Fills (l.secOff + i * 0x38) (l.secOff + (i + entries.length) * 0x38)
      (extents ((entries.zipIdx i).flatMap (headerPieces base l))) := by
  induction entries generalizing i with
  | nil => exact .nil le_rfl
  | cons entry rest ih =>
    have tail := ih (i + 1)
    rw [List.zipIdx_cons, List.flatMap_cons, extents_append]
    have next : l.secOff + (i + 1) * 0x38 = l.secOff + i * 0x38 + 0x38 := by omega
    have last : i + 1 + rest.length = i + (entry :: rest).length := by
      rw [List.length_cons]
      omega
    rw [next, last] at tail
    exact (fills_sectionHeader ..).append le_rfl tail

/-- The pieces of the names have their places. -/
theorem extents_namePieces {S : List Seg} {nameOff rawAddr : List ℕ} (same : nameOff.length = rawAddr.length) (i : ℕ) :
    extents (((S.zip (nameOff.zip rawAddr)).zipIdx i).map namePiece) = nameExtents S nameOff := by
  induction S generalizing nameOff rawAddr i with
  | nil => rfl
  | cons s rest ih =>
    cases nameOff with
    | nil => rfl
    | cons off offs =>
      cases rawAddr with
      | nil => nomatch same
      | cons raw raws =>
        have tail := ih (Nat.succ.inj same) (i + 1)
        have head : (namePiece ((s, off, raw), i)).extent = ⟨off, s.name.length + 1⟩ := by
          rw [namePiece, Piece.extent, List.length_append, List.length_singleton]
        rw [List.zip_cons_cons, List.zip_cons_cons, List.zipIdx_cons, List.map_cons, extents, List.map_cons, head,
          nameExtents, List.zip_cons_cons, List.map_cons]
        exact congrArg _ tail

/-- The pieces of the raw data have their places. -/
theorem extents_rawData (e : Buffer) (S : List Seg) (raws : List ℕ) :
    extents (rawData e (S.zip raws)) = rawExtents S raws := by
  rw [extents, rawData, List.map_map, rawExtents]
  refine List.map_congr_left fun pair _ => ?_
  rw [Function.comp_apply, Piece.extent, length_slice]

/-- The pieces of the file in the order of their places. -/
def sortedPieces (base : ℕ) (l : Layout) (entries : List ((Seg × ℕ × ℕ) × ℕ)) (image cert version raw : List Piece) :
    List Piece :=
  image ++ cert ++ entries.flatMap (headerPieces base l) ++ version ++ entries.map namePiece ++ raw

/-- The pieces as they are written. -/
def writtenPieces (base : ℕ) (l : Layout) (entries : List ((Seg × ℕ × ℕ) × ℕ)) (image cert version raw : List Piece) :
    List Piece :=
  image ++ cert ++ (entries.flatMap fun entry => headerPieces base l entry ++ [namePiece entry]) ++ version ++ raw

theorem written_perm (entries : List ((Seg × ℕ × ℕ) × ℕ)) (image cert version raw : List Piece) :
    (writtenPieces base l entries image cert version raw).Perm (sortedPieces base l entries image cert version raw) := by
  have split := (List.flatMap_append_perm entries (headerPieces base l) fun entry => [namePiece entry]).symm
  rw [← List.map_eq_flatMap] at split
  have swap : (entries.map namePiece ++ version).Perm (version ++ entries.map namePiece) := List.perm_append_comm
  have inner : ((entries.flatMap fun entry => headerPieces base l entry ++ [namePiece entry]) ++ version).Perm
      (entries.flatMap (headerPieces base l) ++ version ++ entries.map namePiece) := by
    refine (split.append_right version).trans ?_
    rw [List.append_assoc, List.append_assoc]
    exact swap.append_left _
  have whole := (inner.append_left (image ++ cert)).append_right raw
  simp only [← List.append_assoc] at whole
  exact whole

/-- The pieces between the start and the end of the file, if each group keeps to its part. -/
theorem fills_sortedPieces {S : List Seg} (laid : Laid S l) {image cert version raw : List Piece}
    (imageFills : Fills 0 0x178 (extents image)) (certFills : Fills 0x178 (0x178 + 0x1D0) (extents cert))
    (versionFills : Fills l.libverOff (l.libverOff + 0x10) (extents version))
    (rawFills : extents raw = rawExtents S l.rawAddr) :
    Fills 0 l.refOff (extents (image ++ cert ++ ((S.zip (l.nameOff.zip l.rawAddr)).zipIdx).flatMap (headerPieces base l) ++
        version ++ ((S.zip (l.nameOff.zip l.rawAddr)).zipIdx).map namePiece)) ∧
      Fills l.headersSize l.xbeLen (extents raw) := by
  have same : l.nameOff.length = l.rawAddr.length := laid.nameLength.trans laid.rawLength.symm
  have count : (S.zip (l.nameOff.zip l.rawAddr)).length = S.length := by
    rw [List.length_zip, List.length_zip, ← same, laid.nameLength, Nat.min_self, Nat.min_self]
  have headers := fills_headerPieces base l (S.zip (l.nameOff.zip l.rawAddr)) 0
  rw [count, laid.sec, Nat.zero_mul, Nat.zero_add, ← laid.libver] at headers
  refine ⟨?_, rawFills ▸ laid.raws⟩
  simp only [extents_append, extents_namePieces same]
  exact (((imageFills.append le_rfl certFills).append le_rfl headers).append le_rfl versionFills).append le_rfl laid.names

/-- No two pieces that are written share a place. -/
theorem written_clear {entries : List ((Seg × ℕ × ℕ) × ℕ)} {image cert version raw : List Piece} {low middle middle' high : ℕ}
    (front : Fills low middle (extents (image ++ cert ++ entries.flatMap (headerPieces base l) ++ version ++
      entries.map namePiece)))
    (gap : middle ≤ middle') (behind : Fills middle' high (extents raw)) :
    (writtenPieces base l entries image cert version raw).Pairwise fun first second =>
      first.extent.Clear second.extent := by
  have fills := front.append gap behind
  rw [← extents_append] at fills
  have sorted : (sortedPieces base l entries image cert version raw).Pairwise fun first second =>
      first.extent.Clear second.extent := clear_of_fills fills
  exact ((written_perm entries image cert version raw).pairwise_iff fun clear => clear.symm).mpr sorted

end Pieces

end KosTool.Elf2xbe
