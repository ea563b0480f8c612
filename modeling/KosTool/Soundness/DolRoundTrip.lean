import KosTool.Model.Binary.Dol

/-! # What the DOL loader makes of a converted ELF file

The sections of a DOL are laid out one behind the other, each aligned. As long as the file stays below four
gigabytes the header's rows say where they are, and the loader reads them back. The BSS range of the header is the
hull of all BSS tails, whatever lies between them.
-/

namespace KosTool.Binary

open ByteWord

section Layout

/-- An offset in the file, aligned. -/
def aligned (offset : ℕ) : ℕ := (offset + 63) / 64 * 64

theorem le_aligned (offset : ℕ) : offset ≤ aligned offset := by
  unfold aligned
  omega

/-- Where the sections of segments end that are laid out from an offset on. -/
def layoutEnd : ℕ → List Phdr → ℕ
  | offset, [] => offset
  | offset, phdr :: rest => layoutEnd (aligned offset + phdr.filesz.toNat) rest

theorem le_layoutEnd (offset : ℕ) (phdrs : List Phdr) : offset ≤ layoutEnd offset phdrs := by
  induction phdrs generalizing offset with
  | nil => exact Nat.le_refl offset
  | cons phdr rest ih => exact Nat.le_trans (le_aligned offset) (Nat.le_trans (Nat.le_add_right _ _) (ih _))

/-- `align_up` clears the low bits. -/
theorem alignUp_eq (val : Word) : alignUp val dolAlign = ((val + 63) >>> 6) <<< 6 := by
  have added : val + dolAlign - 1 = val + 63 := add_sub_assoc val dolAlign 1
  rw [alignUp, added]
  generalize val + 63 = sum
  apply BitVec.eq_of_getLsbD_eq
  intro i inside
  have mask : (~~~ (dolAlign - 1)).getLsbD i = decide (6 ≤ i) := by
    revert i
    decide
  rw [BitVec.getLsbD_and, mask, BitVec.getLsbD_shiftLeft, BitVec.getLsbD_ushiftRight]
  by_cases high : 6 ≤ i
  · simp [high, inside]
  · simp [high]

theorem toNat_alignUp {val : Word} (inRange : val.toNat + 63 < 2 ^ 32) :
    (alignUp val dolAlign).toNat = aligned val.toNat := by
  have sum : (val + 63).toNat = val.toNat + 63 := by
    rw [BitVec.toNat_add]
    exact Nat.mod_eq_of_lt inRange
  rw [alignUp_eq, BitVec.toNat_shiftLeft, BitVec.toNat_ushiftRight, sum, Nat.shiftLeft_eq, Nat.shiftRight_eq_div_pow,
    aligned]
  omega

end Layout

/-- A table whose columns are apart, in the header in front of its last words. -/
structure SectionTable.WellPlaced (table : SectionTable) : Prop where
  addresses : table.offset + 4 * table.max ≤ table.address
  sizes : table.address + 4 * table.max ≤ table.size
  inside : table.size + 4 * table.max ≤ 0xD8

theorem textTable_wellPlaced : textTable.WellPlaced := ⟨by decide, by decide, by decide⟩
theorem dataTable_wellPlaced : dataTable.WellPlaced := ⟨by decide, by decide, by decide⟩

/-- A word of the header that belongs to no row of a table from one on, below another. -/
def SectionTable.Apart (table : SectionTable) (first last start : ℕ) : Prop :=
  ∀ row, first ≤ row → row < last → ∀ column ∈ [table.offset, table.address, table.size],
    start + 4 ≤ column + 4 * row ∨ column + 4 * row + 4 ≤ start

/-- What is behind the tables is apart from them. -/
theorem SectionTable.WellPlaced.apart {table : SectionTable} (wellPlaced : table.WellPlaced) {rows : ℕ}
    (some : rows ≤ table.max) {start : ℕ} (behind : 0xD8 ≤ start) : table.Apart 0 rows start := by
  intro row _ below column member
  have addresses := wellPlaced.addresses
  have sizes := wellPlaced.sizes
  have inside := wellPlaced.inside
  simp only [List.mem_cons, List.not_mem_nil, or_false] at member
  omega

/-- A row of a table is about a segment whose bytes are in the file. -/
structure RowHolds (table : SectionTable) (elfData header : Buffer) (file : List Byte) (row : ℕ) (phdr : Phdr) :
    Prop where
  address : readBe32 header (table.address + 4 * row) = phdr.vaddr
  size : readBe32 header (table.size + 4 * row) = phdr.filesz
  behind : dolHeaderSize ≤ (readBe32 header (table.offset + 4 * row)).toNat
  bytes : (file.drop (readBe32 header (table.offset + 4 * row)).toNat).take phdr.filesz.toNat =
    slice elfData phdr.offset.toNat phdr.filesz.toNat
  within : (readBe32 header (table.offset + 4 * row)).toNat + phdr.filesz.toNat ≤ file.length

/-- A writer that knows where it is in the file. -/
structure DolWriter.Placed (writer : DolWriter) : Prop where
  offset : writer.fileOffset.toNat = writer.file.length
  header : dolHeaderSize ≤ writer.file.length

variable {table : SectionTable} (elfData : Buffer)

/-- What one section adds to the file and the header. -/
theorem writeSection_spec (wellPlaced : table.WellPlaced) {writer : DolWriter} (placed : writer.Placed) {phdr : Phdr}
    (nonempty : phdr.filesz ≠ 0) (free : writer.num < table.max)
    (fits : aligned writer.file.length + phdr.filesz.toNat < 2 ^ 32) :
    (writer.writeSection table elfData phdr).Placed ∧
      (writer.writeSection table elfData phdr).file.length = aligned writer.file.length + phdr.filesz.toNat ∧
      writer.file <+: (writer.writeSection table elfData phdr).file ∧
      RowHolds table elfData (writer.writeSection table elfData phdr).header
        (writer.writeSection table elfData phdr).file writer.num phdr ∧
      ∀ start, table.Apart writer.num (writer.num + 1) start →
        readBe32 (writer.writeSection table elfData phdr).header start = readBe32 writer.header start := by
  have some : 0 < phdr.filesz.toNat := Nat.pos_of_ne_zero fun zero => nonempty (BitVec.eq_of_toNat_eq zero)
  have forward := le_aligned writer.file.length
  have known := placed.offset
  have behind := placed.header
  have start : (alignUp writer.fileOffset dolAlign).toNat = aligned writer.file.length := by
    rw [toNat_alignUp (by rw [known]; unfold aligned at fits; omega), known]
  have padded : (writer.file ++ List.replicate ((alignUp writer.fileOffset dolAlign).toNat -
      writer.file.length % 2 ^ 32) (0 : Byte)).length = aligned writer.file.length := by
    rw [List.length_append, List.length_replicate, start, Nat.mod_eq_of_lt (by omega)]
    omega
  have length : (writer.writeSection table elfData phdr).file.length =
      aligned writer.file.length + phdr.filesz.toNat := by
    rw [DolWriter.writeSection, List.length_append, padded, length_slice]
  have row : readBe32 (writer.writeSection table elfData phdr).header (table.offset + 4 * writer.num) =
      alignUp writer.fileOffset dolAlign := by
    have addresses := wellPlaced.addresses
    have sizes := wellPlaced.sizes
    rw [DolWriter.writeSection, write32be, write32be, write32be,
      readBe32_storeAt_apart _ (by rw [length_be32]; omega), readBe32_storeAt_apart _ (by rw [length_be32]; omega),
      readBe32_storeAt_self]
  refine ⟨⟨?_, ?_⟩, length, ?_, ⟨?_, ?_, ?_, ?_, ?_⟩, ?_⟩
  · rw [length, DolWriter.writeSection, BitVec.toNat_add, start, Nat.mod_eq_of_lt fits]
  · rw [length]
    omega
  · rw [DolWriter.writeSection, List.append_assoc]
    exact List.prefix_append _ _
  · have sizes := wellPlaced.sizes
    rw [DolWriter.writeSection, write32be, write32be, write32be,
      readBe32_storeAt_apart _ (by rw [length_be32]; omega), readBe32_storeAt_self]
  · rw [DolWriter.writeSection, write32be, readBe32_storeAt_self]
  · rw [row, start]
    omega
  · rw [row, start, DolWriter.writeSection, List.drop_left' padded, List.take_of_length_le (by rw [length_slice])]
  · rw [row, start, length]
  · intro start apart
    have columns := apart writer.num (Nat.le_refl _) (Nat.lt_succ_self _)
    have offsets := columns table.offset (by simp)
    have addresses := columns table.address (by simp)
    have sizes := columns table.size (by simp)
    rw [DolWriter.writeSection, write32be, write32be, write32be,
      readBe32_storeAt_apart _ (by rw [length_be32]; omega), readBe32_storeAt_apart _ (by rw [length_be32]; omega),
      readBe32_storeAt_apart _ (by rw [length_be32]; omega)]

/-- A row keeps what it holds while the file grows and its own words are left alone. -/
theorem RowHolds.keep {elfData header next : Buffer} {file more : List Byte} {row : ℕ} {phdr : Phdr}
    (holds : RowHolds table elfData header file row phdr) (grows : file <+: more)
    (same : ∀ column ∈ [table.offset, table.address, table.size],
      readBe32 next (column + 4 * row) = readBe32 header (column + 4 * row)) :
    RowHolds table elfData next more row phdr := by
  obtain ⟨rest, rfl⟩ := grows
  have offsets := same table.offset (by simp)
  have addresses := same table.address (by simp)
  have sizes := same table.size (by simp)
  have within := holds.within
  refine ⟨addresses.trans holds.address, sizes.trans holds.size, ?_, ?_, ?_⟩
  · rw [offsets]
    exact holds.behind
  · rw [offsets, List.drop_append_of_le_length (by omega), List.take_append_of_le_length (by
      rw [List.length_drop]
      omega)]
    exact holds.bytes
  · rw [offsets, List.length_append]
    omega

/-- What the sections of a table add. -/
theorem foldl_writeSection_spec (wellPlaced : table.WellPlaced) {phdrs : List Phdr}
    (nonempty : ∀ phdr ∈ phdrs, phdr.filesz ≠ 0) {writer : DolWriter} (placed : writer.Placed)
    (free : writer.num + phdrs.length ≤ table.max) (fits : layoutEnd writer.file.length phdrs < 2 ^ 32) :
    (phdrs.foldl (DolWriter.writeSection table elfData) writer).Placed ∧
      (phdrs.foldl (DolWriter.writeSection table elfData) writer).file.length = layoutEnd writer.file.length phdrs ∧
      (phdrs.foldl (DolWriter.writeSection table elfData) writer).num = writer.num + phdrs.length ∧
      writer.file <+: (phdrs.foldl (DolWriter.writeSection table elfData) writer).file ∧
      (∀ i phdr, phdrs[i]? = some phdr →
        RowHolds table elfData (phdrs.foldl (DolWriter.writeSection table elfData) writer).header
          (phdrs.foldl (DolWriter.writeSection table elfData) writer).file (writer.num + i) phdr) ∧
      ∀ start, table.Apart writer.num (writer.num + phdrs.length) start →
        readBe32 (phdrs.foldl (DolWriter.writeSection table elfData) writer).header start =
          readBe32 writer.header start := by
  induction phdrs generalizing writer with
  | nil =>
    exact ⟨placed, rfl, rfl, List.prefix_rfl, fun i phdr none => absurd none (by simp), fun _ _ => rfl⟩
  | cons phdr rest ih =>
    rw [List.length_cons] at free
    have below : aligned writer.file.length + phdr.filesz.toNat < 2 ^ 32 :=
      Nat.lt_of_le_of_lt (le_layoutEnd _ rest) fits
    obtain ⟨nextPlaced, length, grows, first, frame⟩ := writeSection_spec elfData wellPlaced placed
      (nonempty phdr List.mem_cons_self) (by omega) below
    have restFits : layoutEnd (writer.writeSection table elfData phdr).file.length rest < 2 ^ 32 := by
      rw [length]
      exact fits
    have restNonempty : ∀ other ∈ rest, other.filesz ≠ 0 := fun other member =>
      nonempty other (List.mem_cons_of_mem phdr member)
    have next : (writer.writeSection table elfData phdr).num = writer.num + 1 := rfl
    have restFree : (writer.writeSection table elfData phdr).num + rest.length ≤ table.max := by
      rw [next]
      omega
    obtain ⟨lastPlaced, lastLength, num, lastGrows, holds, lastFrame⟩ := ih restNonempty nextPlaced restFree restFits
    rw [next] at num holds lastFrame
    refine ⟨lastPlaced, ?_, ?_, grows.trans lastGrows, ?_, ?_⟩
    · rw [List.foldl_cons, lastLength, length]
      rfl
    · rw [List.foldl_cons, num, List.length_cons]
      omega
    · intro i other isThere
      cases i with
      | zero =>
        obtain rfl := Option.some.inj isThere
        refine first.keep lastGrows fun column member => ?_
        apply lastFrame
        intro row after before other otherMember
        have addresses := wellPlaced.addresses
        have sizes := wellPlaced.sizes
        simp only [List.mem_cons, List.not_mem_nil, or_false] at member otherMember
        rcases member with rfl | rfl | rfl <;> rcases otherMember with rfl | rfl | rfl <;> omega
      | succ i =>
        have row := holds i other isThere
        rw [Nat.add_right_comm, Nat.add_assoc] at row
        exact row
    · intro start apart
      rw [List.foldl_cons, lastFrame, frame]
      · intro row after before column member
        exact apart row after (by rw [List.length_cons]; omega) column member
      · intro row after before column member
        exact apart row (by omega) (by rw [List.length_cons]; omega) column member

/-- The section the loader makes of a segment. -/
def segmentSection (phdr : Phdr) : BinarySection := ⟨phdr.vaddr, slice elfData phdr.offset.toNat phdr.filesz.toNat⟩

/-- A row of a parsed table that is read as a segment. -/
structure RowRead (file : List Byte) (sections : DolSections) (i : ℕ) (phdr : Phdr) : Prop where
  address : sections.address i = phdr.vaddr
  size : sections.size i = phdr.filesz
  bytes : (file.drop (sections.offset i).toNat).take phdr.filesz.toNat =
    slice elfData phdr.offset.toNat phdr.filesz.toNat
  within : (sections.offset i).toNat + phdr.filesz.toNat ≤ file.length

/-- The loop of the loader over a table yields its segments. -/
theorem loadSections_eq {file : List Byte} (small : file.length < 2 ^ 32) {sections : DolSections} {phdrs : List Phdr}
    (nonempty : ∀ phdr ∈ phdrs, phdr.filesz ≠ 0)
    (holds : ∀ i phdr, phdrs[i]? = some phdr → RowRead elfData file sections i phdr)
    {max : ℕ} (empty : ∀ i, phdrs.length ≤ i → i < max → sections.size i = 0) {rows i : ℕ} (total : i + rows = max) :
    loadSections file sections rows i =
      some ((phdrs.drop i).take rows |>.map (segmentSection elfData)) := by
  induction rows generalizing i with
  | zero => rw [loadSections, List.take_zero, List.map_nil]
  | succ rows ih =>
    rw [loadSections, ih (by omega)]
    by_cases inside : i < phdrs.length
    · have row := holds i phdrs[i] (List.getElem?_eq_getElem inside)
      have some := nonempty phdrs[i] (List.getElem_mem inside)
      have end_le : BitVec.ofNat 32 file.length ≥ sections.offset i + sections.size i := by
        have within := row.within
        rw [ge_iff_le, BitVec.le_def, BitVec.toNat_add, row.size, BitVec.toNat_ofNat, Nat.mod_eq_of_lt small,
          Nat.mod_eq_of_lt (by omega)]
        exact within
      rw [if_neg (row.size ▸ some), if_neg (BitVec.not_lt.mpr end_le), row.size, row.bytes, length_slice,
        if_neg (not_not.mpr rfl), row.address, List.drop_eq_getElem_cons inside, List.take_succ_cons, List.map_cons]
      rfl
    · have none := Nat.not_lt.mp inside
      rw [if_pos (empty i none (by omega)), List.drop_eq_nil_of_le (by omega), List.drop_eq_nil_of_le none,
        List.take_nil, List.take_nil]

/-- The placeholder of an empty table is in the first row of its offsets. -/
theorem readBe32_fillEmpty {num start : ℕ} (header : Buffer)
    (apart : num = 0 → start + 4 ≤ table.offset ∨ table.offset + 4 ≤ start) :
    readBe32 (fillEmpty table num header) start = readBe32 header start := by
  rw [fillEmpty]
  split
  · rename_i zero
    exact readBe32_storeAt_apart header (by rw [length_be32]; exact apart zero)
  · rfl

/-- The BSS range and the entry point are behind the tables. -/
theorem readBe32_fillBss_before (pass : FirstPass) (entry : Word) (header : Buffer) {start : ℕ} (before : start + 4 ≤ 0xD8) :
    readBe32 (fillBss pass entry header) start = readBe32 header start := by
  rw [fillBss, write32be, readBe32_storeAt_apart _ (by omega)]
  split
  · rw [write32be, write32be, readBe32_storeAt_apart _ (by omega), readBe32_storeAt_apart _ (by omega)]
  · rfl

theorem readBe32_fillBss_entry (pass : FirstPass) (entry : Word) (header : Buffer) :
    readBe32 (fillBss pass entry header) 0xE0 = entry := readBe32_storeAt_self _ 0xE0 entry

theorem readBe32_fillBss_address (pass : FirstPass) (entry : Word) {header : Buffer} (blank : readBe32 header 0xD8 = 0) :
    readBe32 (fillBss pass entry header) 0xD8 = if pass.bssAddr < pass.bssEnd then pass.bssAddr else 0 := by
  rw [fillBss, write32be, readBe32_storeAt_apart _ (.inl (by decide))]
  split
  · rw [write32be, write32be, readBe32_storeAt_apart _ (.inl (by decide)), readBe32_storeAt_self]
  · exact blank

theorem readBe32_fillBss_size (pass : FirstPass) (entry : Word) {header : Buffer} (blank : readBe32 header 0xDC = 0) :
    readBe32 (fillBss pass entry header) 0xDC =
      if pass.bssAddr < pass.bssEnd then pass.bssEnd - pass.bssAddr else 0 := by
  rw [fillBss, write32be, readBe32_storeAt_apart _ (.inl (by decide))]
  split
  · rw [write32be, readBe32_storeAt_self]
  · exact blank

/-- A header word is read from the file it has been written to. -/
theorem readBe32_header (header : Buffer) (body : List Byte) {start : ℕ} (inside : start + 4 ≤ dolHeaderSize) :
    readBe32 (overlay ((slice header 0 dolHeaderSize ++ body).take dolHeaderSize) fun _ => 0) start =
      readBe32 header start := by
  rw [List.take_left' (length_slice header 0 dolHeaderSize)]
  apply readBe32_congr
  intro i bound
  rw [overlay_of_lt (by rw [length_slice]; omega), getElem_slice, Nat.zero_add]

/-- The size of the DOL of program headers. -/
def dolSize (phdrs : List Phdr) : ℕ :=
  layoutEnd (layoutEnd dolHeaderSize (phdrs.filter (·.IsText))) (phdrs.filter (·.IsData))

section Written

variable (phdrs : List Phdr)

/-- The writer behind the text sections, and behind the data sections. -/
private def textWriter : DolWriter :=
  DolWriter.writeSections textTable elfData
    ⟨fun _ => 0, List.replicate dolHeaderSize 0, BitVec.ofNat 32 dolHeaderSize, 0⟩ (phdrs.filter (·.IsText))

private def dataWriter : DolWriter :=
  DolWriter.writeSections dataTable elfData (textWriter elfData phdrs) (phdrs.filter (·.IsData))

private def dolHeader (pass : FirstPass) (entry : Word) : Buffer :=
  fillBss pass entry (fillEmpty dataTable (dataWriter elfData phdrs).num
    (fillEmpty textTable (textWriter elfData phdrs).num (dataWriter elfData phdrs).header))

private theorem writeDol_eq (pass : FirstPass) (entry : Word) : writeDol elfData phdrs pass entry =
    slice (dolHeader elfData phdrs pass entry) 0 dolHeaderSize ++ (dataWriter elfData phdrs).file.drop dolHeaderSize := rfl

variable {phdrs}

private theorem text_nonempty : ∀ phdr ∈ phdrs.filter (·.IsText), phdr.filesz ≠ 0 := by
  intro phdr member
  have isText := of_decide_eq_true (List.mem_filter.mp member).2
  exact isText.2.1

private theorem data_nonempty : ∀ phdr ∈ phdrs.filter (·.IsData), phdr.filesz ≠ 0 := by
  intro phdr member
  have isData := of_decide_eq_true (List.mem_filter.mp member).2
  exact isData.2.1

private theorem textWriter_spec (fewText : (phdrs.filter (·.IsText)).length ≤ textTable.max)
    (fits : dolSize phdrs < 2 ^ 32) : (textWriter elfData phdrs).Placed ∧
      (textWriter elfData phdrs).file.length = layoutEnd dolHeaderSize (phdrs.filter (·.IsText)) ∧
      (textWriter elfData phdrs).num = (phdrs.filter (·.IsText)).length ∧
      (∀ i phdr, (phdrs.filter (·.IsText))[i]? = some phdr →
        RowHolds textTable elfData (textWriter elfData phdrs).header (textWriter elfData phdrs).file i phdr) ∧
      ∀ start, textTable.Apart 0 (phdrs.filter (·.IsText)).length start →
        readBe32 (textWriter elfData phdrs).header start = 0 := by
  have length : (List.replicate dolHeaderSize (0 : Byte)).length = dolHeaderSize := List.length_replicate
  have placed : DolWriter.Placed ⟨fun _ => 0, List.replicate dolHeaderSize 0, BitVec.ofNat 32 dolHeaderSize, 0⟩ :=
    ⟨by rw [length]; rfl, length.ge⟩
  obtain ⟨lastPlaced, end_eq, num, -, holds, frame⟩ := foldl_writeSection_spec elfData textTable_wellPlaced text_nonempty
    placed (by rw [Nat.zero_add]; exact fewText) (by rw [length]; exact Nat.lt_of_le_of_lt (le_layoutEnd _ _) fits)
  rw [length] at end_eq
  simp only [Nat.zero_add] at num holds frame
  have zero : ofBe32 0 0 0 0 = 0 := by decide
  exact ⟨lastPlaced, end_eq, num, holds, fun start apart => (frame start apart).trans zero⟩

/-- Words of the one table are apart from the rows of the other. -/
private theorem tables_apart {row rows : ℕ} (textRow : row < textTable.max) (dataRows : rows ≤ dataTable.max) {column : ℕ}
    (isColumn : column ∈ [textTable.offset, textTable.address, textTable.size]) :
    dataTable.Apart 0 rows (column + 4 * row) := by
  intro other _ below otherColumn otherIsColumn
  simp only [textTable, dataTable, List.mem_cons, List.not_mem_nil, or_false] at *
  omega

private theorem dataWriter_spec (fewText : (phdrs.filter (·.IsText)).length ≤ textTable.max)
    (fewData : (phdrs.filter (·.IsData)).length ≤ dataTable.max) (fits : dolSize phdrs < 2 ^ 32) :
    (dataWriter elfData phdrs).file.length = dolSize phdrs ∧ dolHeaderSize ≤ (dataWriter elfData phdrs).file.length ∧
      (dataWriter elfData phdrs).num = (phdrs.filter (·.IsData)).length ∧
      (∀ i phdr, (phdrs.filter (·.IsText))[i]? = some phdr →
        RowHolds textTable elfData (dataWriter elfData phdrs).header (dataWriter elfData phdrs).file i phdr) ∧
      (∀ i phdr, (phdrs.filter (·.IsData))[i]? = some phdr →
        RowHolds dataTable elfData (dataWriter elfData phdrs).header (dataWriter elfData phdrs).file i phdr) ∧
      ∀ start, textTable.Apart 0 (phdrs.filter (·.IsText)).length start →
        dataTable.Apart 0 (phdrs.filter (·.IsData)).length start →
          readBe32 (dataWriter elfData phdrs).header start = 0 := by
  obtain ⟨textPlaced, textEnd, -, textHolds, textFrame⟩ := textWriter_spec elfData fewText fits
  have placed : DolWriter.Placed { textWriter elfData phdrs with num := 0 } := ⟨textPlaced.offset, textPlaced.header⟩
  have behind : layoutEnd (textWriter elfData phdrs).file.length (phdrs.filter (·.IsData)) < 2 ^ 32 := by
    rw [textEnd]
    exact fits
  obtain ⟨lastPlaced, end_eq, num, grows, holds, frame⟩ := foldl_writeSection_spec elfData dataTable_wellPlaced
    data_nonempty placed (by rw [Nat.zero_add]; exact fewData) behind
  simp only [Nat.zero_add] at num holds frame
  refine ⟨?_, lastPlaced.header, num, fun i phdr isThere => ?_, holds, fun start textApart dataApart => ?_⟩
  · rw [dolSize, ← textEnd]
    exact end_eq
  · have inside : i < (phdrs.filter (·.IsText)).length := (List.getElem?_eq_some_iff.mp isThere).1
    exact (textHolds i phdr isThere).keep grows fun column member =>
      frame _ (tables_apart (by omega) fewData member)
  · exact (frame start dataApart).trans (textFrame start textApart)

/-- The rows of a table as the loader reads them from the file. -/
private theorem rowRead {file : List Byte} {written header : Buffer} {body : List Byte} {i : ℕ} {phdr : Phdr}
    (holds : RowHolds table elfData written file i phdr) (whole : dolHeaderSize ≤ file.length)
    (wellPlaced : table.WellPlaced) (inside : i < table.max) (rest : body = file.drop dolHeaderSize)
    (same : ∀ column ∈ [table.offset, table.address, table.size],
      readBe32 header (column + 4 * i) = readBe32 written (column + 4 * i)) :
    RowRead elfData (slice header 0 dolHeaderSize ++ body)
      (parseSections table (overlay ((slice header 0 dolHeaderSize ++ body).take dolHeaderSize) fun _ => 0)) i phdr := by
  have addresses := wellPlaced.addresses
  have sizes := wellPlaced.sizes
  have last := wellPlaced.inside
  have word (column : ℕ) (member : column ∈ [table.offset, table.address, table.size]) :
      readBe32 (overlay ((slice header 0 dolHeaderSize ++ body).take dolHeaderSize) fun _ => 0) (column + i * 4) =
        readBe32 written (column + 4 * i) := by
    rw [Nat.mul_comm, readBe32_header header body, same column member]
    simp only [List.mem_cons, List.not_mem_nil, or_false] at member
    rw [dolHeaderSize]
    omega
  have offset : (parseSections table (overlay ((slice header 0 dolHeaderSize ++ body).take dolHeaderSize)
      fun _ => 0)).offset i = readBe32 written (table.offset + 4 * i) := word table.offset (by simp)
  have behind := holds.behind
  have moved (start : ℕ) (past : dolHeaderSize ≤ start) :
      (slice header 0 dolHeaderSize ++ body).drop start = file.drop start := by
    rw [rest, List.drop_append, length_slice, List.drop_eq_nil_of_le (by rw [length_slice]; exact past), List.nil_append,
      List.drop_drop, Nat.add_sub_cancel' past]
  refine ⟨?_, ?_, ?_, ?_⟩
  · exact (word table.address (by simp)).trans holds.address
  · exact (word table.size (by simp)).trans holds.size
  · rw [offset, moved _ behind]
    exact holds.bytes
  · rw [offset, List.length_append, length_slice, rest, List.length_drop]
    have within := holds.within
    omega

theorem parseSections_size (raw : Buffer) (i : ℕ) :
    (parseSections table raw).size i = readBe32 raw (table.size + 4 * i) := by
  simp only [parseSections, Nat.mul_comm]

/-- A word of the header, read from the file. -/
private theorem readBe32_writeDol (pass : FirstPass) (entry : Word) {start : ℕ} (inside : start + 4 ≤ dolHeaderSize) :
    readBe32 (overlay ((writeDol elfData phdrs pass entry).take dolHeaderSize) fun _ => 0) start =
      readBe32 (dolHeader elfData phdrs pass entry) start := by
  rw [writeDol_eq, readBe32_header _ _ inside]

/-- A row behind the last section of its table is blank. -/
private theorem parseSections_blank (wellPlaced : table.WellPlaced) {row : ℕ} (inside : row < table.max)
    (pass : FirstPass) (entry : Word) (blank : readBe32 (dolHeader elfData phdrs pass entry) (table.size + 4 * row) = 0) :
    (parseSections table (overlay ((writeDol elfData phdrs pass entry).take dolHeaderSize) fun _ => 0)).size row = 0 := by
  have last := wellPlaced.inside
  rw [parseSections_size, readBe32_writeDol _ _ _ (by rw [dolHeaderSize]; omega)]
  exact blank

/-- The loader reads back what has been written. -/
theorem dolLoad_writeDol (fewText : (phdrs.filter (·.IsText)).length ≤ textTable.max)
    (fewData : (phdrs.filter (·.IsData)).length ≤ dataTable.max) (fits : dolSize phdrs < 2 ^ 32) (pass : FirstPass)
    (entry : Word) : ∃ image, dolLoad (writeDol elfData phdrs pass entry) = some image ∧ image.entryAddr = entry ∧
      image.sections = (phdrs.filter (·.IsText) ++ phdrs.filter (·.IsData)).map (segmentSection elfData) ∧
      image.header.bssAddress = (if pass.bssAddr < pass.bssEnd then pass.bssAddr else 0) ∧
      image.header.bssSize = if pass.bssAddr < pass.bssEnd then pass.bssEnd - pass.bssAddr else 0 := by
  obtain ⟨length, whole, dataNum, textHolds, dataHolds, blank⟩ := dataWriter_spec elfData fewText fewData fits
  obtain ⟨-, -, textNum, -, -⟩ := textWriter_spec elfData fewText fits
  -- the tables keep what the writer has entered: only empty ones get a placeholder
  have kept (start : ℕ) (before : start + 4 ≤ 0xD8)
      (noText : (phdrs.filter (·.IsText)).length = 0 → start + 4 ≤ textTable.offset ∨ textTable.offset + 4 ≤ start)
      (noData : (phdrs.filter (·.IsData)).length = 0 → start + 4 ≤ dataTable.offset ∨ dataTable.offset + 4 ≤ start) :
      readBe32 (dolHeader elfData phdrs pass entry) start = readBe32 (dataWriter elfData phdrs).header start := by
    rw [dolHeader, readBe32_fillBss_before _ _ _ before, readBe32_fillEmpty _ (by rw [dataNum]; exact noData),
      readBe32_fillEmpty _ (by rw [textNum]; exact noText)]
  have textRows (i : ℕ) (phdr : Phdr) (isThere : (phdrs.filter (·.IsText))[i]? = some phdr) :
      RowRead elfData (writeDol elfData phdrs pass entry) (parseSections textTable
        (overlay ((writeDol elfData phdrs pass entry).take dolHeaderSize) fun _ => 0)) i phdr := by
    have inside := (List.getElem?_eq_some_iff.mp isThere).1
    refine rowRead elfData (textHolds i phdr isThere) whole textTable_wellPlaced (by omega) rfl fun column member => ?_
    simp only [textTable, List.mem_cons, List.not_mem_nil, or_false] at member fewText
    refine kept _ (by omega) (fun none => ?_) fun _ => ?_
    · omega
    · simp only [dataTable]
      omega
  have dataRows (i : ℕ) (phdr : Phdr) (isThere : (phdrs.filter (·.IsData))[i]? = some phdr) :
      RowRead elfData (writeDol elfData phdrs pass entry) (parseSections dataTable
        (overlay ((writeDol elfData phdrs pass entry).take dolHeaderSize) fun _ => 0)) i phdr := by
    have inside := (List.getElem?_eq_some_iff.mp isThere).1
    refine rowRead elfData (dataHolds i phdr isThere) whole dataTable_wellPlaced (by omega) rfl fun column member => ?_
    simp only [dataTable, List.mem_cons, List.not_mem_nil, or_false] at member fewData
    refine kept _ (by omega) (fun _ => ?_) fun none => ?_
    · simp only [textTable]
      omega
    · omega
  -- behind the tables nothing has been written yet
  have unused {start : ℕ} (behind : 0xD8 ≤ start) : readBe32 (fillEmpty dataTable (dataWriter elfData phdrs).num
      (fillEmpty textTable (textWriter elfData phdrs).num (dataWriter elfData phdrs).header)) start = 0 := by
    rw [readBe32_fillEmpty _ fun _ => .inr ?_, readBe32_fillEmpty _ fun _ => .inr ?_]
    · exact blank start (textTable_wellPlaced.apart fewText behind) (dataTable_wellPlaced.apart fewData behind)
    · simp only [textTable]
      omega
    · simp only [dataTable]
      omega
  -- rows behind the last section are blank
  have textBlank (i : ℕ) (past : (phdrs.filter (·.IsText)).length ≤ i) (inside : i < textTable.max) :
      (parseSections textTable (overlay ((writeDol elfData phdrs pass entry).take dolHeaderSize) fun _ => 0)).size i = 0 := by
    apply parseSections_blank elfData textTable_wellPlaced inside
    refine (kept _ ?_ (fun _ => ?_) fun _ => ?_).trans (blank _ (fun row _ below column member => ?_)
      (tables_apart inside fewData (by simp)))
    all_goals simp only [textTable, dataTable, List.mem_cons, List.not_mem_nil, or_false] at *
    all_goals omega
  have dataBlank (i : ℕ) (past : (phdrs.filter (·.IsData)).length ≤ i) (inside : i < dataTable.max) :
      (parseSections dataTable (overlay ((writeDol elfData phdrs pass entry).take dolHeaderSize) fun _ => 0)).size i = 0 := by
    apply parseSections_blank elfData dataTable_wellPlaced inside
    refine (kept _ ?_ (fun _ => ?_) fun _ => ?_).trans (blank _ (fun row _ below column member => ?_)
      fun row _ below column member => ?_)
    all_goals simp only [textTable, dataTable, List.mem_cons, List.not_mem_nil, or_false] at *
    all_goals omega
  have fileLength : (writeDol elfData phdrs pass entry).length = dolSize phdrs := by
    rw [writeDol_eq, List.length_append, length_slice, List.length_drop, length]
    rw [length] at whole
    omega
  have small : (writeDol elfData phdrs pass entry).length < 2 ^ 32 := by rw [fileLength]; exact fits
  have text := loadSections_eq elfData small text_nonempty textRows textBlank (Nat.zero_add textTable.max)
  have data := loadSections_eq elfData small data_nonempty dataRows dataBlank (Nat.zero_add dataTable.max)
  rw [List.drop_zero, List.take_of_length_le fewText] at text
  rw [List.drop_zero, List.take_of_length_le fewData] at data
  refine ⟨⟨parseHeader (overlay ((writeDol elfData phdrs pass entry).take dolHeaderSize) fun _ => 0), entry,
    (phdrs.filter (·.IsText)).map (segmentSection elfData) ++ (phdrs.filter (·.IsData)).map (segmentSection elfData)⟩,
    ?_, rfl, List.map_append.symm, ?_, ?_⟩
  · have long : ¬ (writeDol elfData phdrs pass entry).length < dolHeaderSize := by
      rw [fileLength, ← length]
      exact Nat.not_lt.mpr whole
    have entryRead : (parseHeader (overlay ((writeDol elfData phdrs pass entry).take dolHeaderSize) fun _ => 0)).entryPoint =
        entry :=
      (readBe32_writeDol elfData pass entry (by decide)).trans (readBe32_fillBss_entry pass entry _)
    rw [dolLoad, if_neg long]
    simp only [entryRead]
    have textLoaded : loadSections (writeDol elfData phdrs pass entry) (parseHeader
        (overlay ((writeDol elfData phdrs pass entry).take dolHeaderSize) fun _ => 0)).text textTable.max 0 = _ := text
    have dataLoaded : loadSections (writeDol elfData phdrs pass entry) (parseHeader
        (overlay ((writeDol elfData phdrs pass entry).take dolHeaderSize) fun _ => 0)).data dataTable.max 0 = _ := data
    rw [textLoaded, dataLoaded]
  · exact (readBe32_writeDol elfData pass entry (by decide)).trans
      (readBe32_fillBss_address pass entry (unused (Nat.le_refl _)))
  · exact (readBe32_writeDol elfData pass entry (by decide)).trans
      (readBe32_fillBss_size pass entry (unused (by decide)))

end Written

section Bss

/-- A segment with a part behind its bytes in the file that is to be zero. -/
def Phdr.HasTail (phdr : Phdr) : Prop := phdr.IsLoad ∧ phdr.filesz < phdr.memsz

instance (phdr : Phdr) : Decidable phdr.HasTail := inferInstanceAs (Decidable (_ ∧ _))

/-- The range of BSS and one more tail. -/
def trackTail (range : Word × Word) (phdr : Phdr) : Word × Word :=
  (if range.1 = 0 ∨ phdr.vaddr + phdr.filesz < range.1 then phdr.vaddr + phdr.filesz else range.1,
    if range.2 < phdr.vaddr + phdr.memsz then phdr.vaddr + phdr.memsz else range.2)

/-- A first pass that ends has counted the sections and tracked the tails. -/
theorem firstPass_spec {phdrs : List Phdr} {start pass : FirstPass} (ends : firstPass phdrs start = some pass) :
    pass.numText = start.numText + (phdrs.filter (·.IsText)).length ∧
      pass.numData = start.numData + (phdrs.filter (·.IsData)).length ∧
      (start.numText ≤ textTable.max → pass.numText ≤ textTable.max) ∧
      (start.numData ≤ dataTable.max → pass.numData ≤ dataTable.max) ∧
      (pass.bssAddr, pass.bssEnd) = (phdrs.filter (·.HasTail)).foldl trackTail (start.bssAddr, start.bssEnd) := by
  induction phdrs generalizing start with
  | nil =>
    obtain rfl := Option.some.inj ends
    exact ⟨rfl, rfl, id, id, rfl⟩
  | cons phdr rest ih =>
    have tracked (counted : FirstPass) (load : phdr.IsLoad) :
        (counted.trackBss phdr).numText = counted.numText ∧ (counted.trackBss phdr).numData = counted.numData ∧
          ((phdr :: rest).filter (·.HasTail)).foldl trackTail (counted.bssAddr, counted.bssEnd) =
            (rest.filter (·.HasTail)).foldl trackTail
              ((counted.trackBss phdr).bssAddr, (counted.trackBss phdr).bssEnd) := by
      unfold FirstPass.trackBss
      by_cases tail : phdr.filesz < phdr.memsz
      · have kept : (phdr :: rest).filter (·.HasTail) = phdr :: rest.filter (·.HasTail) :=
          List.filter_cons_of_pos (decide_eq_true ⟨load, tail⟩)
        rw [if_pos tail, kept]
        exact ⟨rfl, rfl, rfl⟩
      · have left : (phdr :: rest).filter (·.HasTail) = rest.filter (·.HasTail) :=
          List.filter_cons_of_neg fun has => tail (of_decide_eq_true has).2
        rw [if_neg tail, left]
        exact ⟨rfl, rfl, rfl⟩
    rw [firstPass] at ends
    have pick (P : Phdr → Prop) [DecidablePred P] (holds : P phdr) :
        (phdr :: rest).filter (fun phdr => P phdr) = phdr :: rest.filter (fun phdr => P phdr) :=
      List.filter_cons_of_pos (decide_eq_true holds)
    have skip (P : Phdr → Prop) [DecidablePred P] (fails : ¬ P phdr) :
        (phdr :: rest).filter (fun phdr => P phdr) = rest.filter (fun phdr => P phdr) :=
      List.filter_cons_of_neg fun holds => fails (of_decide_eq_true holds)
    by_cases load : phdr.IsLoad
    · rw [if_pos load] at ends
      by_cases text : phdr.IsText
      · have notData : ¬ phdr.IsData := fun data => text.2.2 data.2.2
        rw [if_pos text] at ends
        split at ends
        · cases ends
        · rename_i free
          obtain ⟨numText, numData, textMax, dataMax, bss⟩ := ih ends
          obtain ⟨sameText, sameData, sameBss⟩ := tracked { start with numText := start.numText + 1 } load
          dsimp only at sameText sameData
          rw [pick Phdr.IsText text, skip Phdr.IsData notData, List.length_cons]
          exact ⟨by omega, by omega, by omega, by omega, bss.trans sameBss.symm⟩
      · rw [if_neg text] at ends
        by_cases data : phdr.IsData
        · rw [if_pos data] at ends
          split at ends
          · cases ends
          · rename_i free
            obtain ⟨numText, numData, textMax, dataMax, bss⟩ := ih ends
            obtain ⟨sameText, sameData, sameBss⟩ := tracked { start with numData := start.numData + 1 } load
            dsimp only at sameText sameData
            rw [skip Phdr.IsText text, pick Phdr.IsData data, List.length_cons]
            exact ⟨by omega, by omega, by omega, by omega, bss.trans sameBss.symm⟩
        · rw [if_neg data] at ends
          obtain ⟨numText, numData, textMax, dataMax, bss⟩ := ih ends
          obtain ⟨sameText, sameData, sameBss⟩ := tracked start load
          rw [skip Phdr.IsText text, skip Phdr.IsData data]
          exact ⟨by omega, by omega, by omega, by omega, bss.trans sameBss.symm⟩
    · rw [if_neg load] at ends
      rw [skip Phdr.IsText fun text => load text.1, skip Phdr.IsData fun data => load data.1,
        skip Phdr.HasTail fun tail => load tail.1]
      exact ih ends

variable {tails : List Phdr} {range : Word × Word}

theorem trackTail_end (range : Word × Word) (tail : Phdr) : range.2 ≤ (trackTail range tail).2 ∧
    tail.vaddr + tail.memsz ≤ (trackTail range tail).2 ∧
    ((trackTail range tail).2 = range.2 ∨ (trackTail range tail).2 = tail.vaddr + tail.memsz) := by
  have reached : (trackTail range tail).2 =
      if range.2 < tail.vaddr + tail.memsz then tail.vaddr + tail.memsz else range.2 := rfl
  rw [reached]
  split
  · rename_i below
    exact ⟨BitVec.le_of_lt below, BitVec.le_refl _, .inr rfl⟩
  · rename_i above
    exact ⟨BitVec.le_refl _, BitVec.not_lt.mp above, .inl rfl⟩

/-- The end of the range reaches as far as any tail, and no farther than one. -/
theorem foldl_trackTail_end : range.2 ≤ (tails.foldl trackTail range).2 ∧
    (∀ tail ∈ tails, tail.vaddr + tail.memsz ≤ (tails.foldl trackTail range).2) ∧
    ((tails.foldl trackTail range).2 = range.2 ∨
      ∃ tail ∈ tails, (tails.foldl trackTail range).2 = tail.vaddr + tail.memsz) := by
  induction tails generalizing range with
  | nil => exact ⟨BitVec.le_refl _, fun _ none => absurd none List.not_mem_nil, .inl rfl⟩
  | cons first rest ih =>
    obtain ⟨grown, reached, one⟩ := trackTail_end range first
    obtain ⟨restGrown, restReached, restOne⟩ := @ih (trackTail range first)
    refine ⟨BitVec.le_trans grown restGrown, ?_, ?_⟩
    · intro tail member
      rcases List.mem_cons.mp member with rfl | later
      · exact BitVec.le_trans reached restGrown
      · exact restReached tail later
    · rcases restOne with same | ⟨tail, member, reaches⟩
      · rcases one with unchanged | reaches
        · exact .inl (same.trans unchanged)
        · exact .inr ⟨first, List.mem_cons_self, same.trans reaches⟩
      · exact .inr ⟨tail, List.mem_cons_of_mem first member, reaches⟩

/-- The range starts with a tail. -/
theorem foldl_trackTail_start : ((tails.foldl trackTail range).1 = range.1 ∧ (tails = [] ∨ range.1 ≠ 0)) ∨
    ∃ tail ∈ tails, (tails.foldl trackTail range).1 = tail.vaddr + tail.filesz := by
  induction tails generalizing range with
  | nil => exact .inl ⟨rfl, .inl rfl⟩
  | cons first rest ih =>
    rcases @ih (trackTail range first) with ⟨same, -⟩ | ⟨tail, member, starts⟩
    · rw [List.foldl_cons, same]
      unfold trackTail
      split
      · exact .inr ⟨first, List.mem_cons_self, rfl⟩
      · rename_i later
        exact .inl ⟨rfl, .inr fun zero => later (.inl zero)⟩
    · exact .inr ⟨tail, List.mem_cons_of_mem first member, starts⟩

/-- Zero is only the start of the range if it is that of the last tail. -/
theorem foldl_trackTail_eq_zero (earlier : List Phdr) (last : Phdr) :
    ((earlier ++ [last]).foldl trackTail range).1 = 0 ↔ last.vaddr + last.filesz = 0 := by
  rw [List.foldl_append, List.foldl_cons, List.foldl_nil]
  generalize earlier.foldl trackTail range = before
  unfold trackTail
  split
  · rfl
  · rename_i later
    have nonzero : before.1 ≠ 0 := fun zero => later (.inl zero)
    have notBelow : ¬ last.vaddr + last.filesz < before.1 := fun below => later (.inr below)
    refine iff_of_false nonzero fun zero => notBelow ?_
    rw [zero, BitVec.lt_def]
    exact Nat.pos_of_ne_zero fun none => nonzero (BitVec.eq_of_toNat_eq none)

/-- A range that does not start at zero starts before every tail. -/
theorem foldl_trackTail_le (nonzero : ∀ tail ∈ tails, tail.vaddr + tail.filesz ≠ 0) :
    (range.1 ≠ 0 → (tails.foldl trackTail range).1 ≤ range.1) ∧
      ∀ tail ∈ tails, (tails.foldl trackTail range).1 ≤ tail.vaddr + tail.filesz := by
  induction tails generalizing range with
  | nil => exact ⟨fun _ => BitVec.le_refl _, fun _ none => absurd none List.not_mem_nil⟩
  | cons first rest ih =>
    have started : (trackTail range first).1 ≠ 0 ∧ (trackTail range first).1 ≤ first.vaddr + first.filesz ∧
        (range.1 ≠ 0 → (trackTail range first).1 ≤ range.1) := by
      unfold trackTail
      split
      · rename_i earlier
        refine ⟨nonzero first List.mem_cons_self, BitVec.le_refl _, fun some => ?_⟩
        exact BitVec.le_of_lt (earlier.resolve_left some)
      · rename_i later
        exact ⟨fun zero => later (.inl zero), BitVec.not_lt.mp fun below => later (.inr below), fun _ => BitVec.le_refl _⟩
    obtain ⟨kept, below⟩ := @ih (trackTail range first) fun tail member =>
      nonzero tail (List.mem_cons_of_mem first member)
    refine ⟨fun some => BitVec.le_trans (kept started.1) (started.2.2 some), fun tail member => ?_⟩
    rcases List.mem_cons.mp member with rfl | later
    · exact BitVec.le_trans (kept started.1) started.2.1
    · exact below tail later

end Bss

/-- A segment's bytes in an ELF file. -/
def fileSection (elf : List Byte) (phdr : Phdr) : BinarySection :=
  ⟨phdr.vaddr, (elf.drop phdr.offset.toNat).take phdr.filesz.toNat⟩

/-- The program headers of an ELF file, in front of whatever memory holds behind it. -/
def elfPhdrs (elf : List Byte) (memory : Buffer) : List Phdr := readPhdrs (overlay elf memory)

/-- The DOL is loaded as the ELF file says: its entry point, the bytes of each segment at its address, and a range
of BSS with all tails and none of the bytes in it. -/
structure Preserves (elf : List Byte) (memory : Buffer) (image : DolImage) : Prop where
  entry : image.entryAddr = readBe32 (overlay elf memory) 24
  sections : image.sections =
    ((elfPhdrs elf memory).filter (·.IsText) ++ (elfPhdrs elf memory).filter (·.IsData)).map (fileSection elf)
  covers : ∀ phdr ∈ elfPhdrs elf memory, phdr.HasTail → ∀ address, phdr.vaddr.toNat + phdr.filesz.toNat ≤ address →
    address < phdr.vaddr.toNat + phdr.memsz.toNat → image.header.bssAddress.toNat ≤ address ∧
      address < image.header.bssAddress.toNat + image.header.bssSize.toNat
  spares : ∀ phdr ∈ elfPhdrs elf memory, phdr.IsLoad → ∀ address, phdr.vaddr.toNat ≤ address →
    address < phdr.vaddr.toNat + phdr.filesz.toNat → ¬ (image.header.bssAddress.toNat ≤ address ∧
      address < image.header.bssAddress.toNat + image.header.bssSize.toNat)

/-- What an ELF file has to be like: its segments are in it, the tails end below the end of the address space, a
tail at address zero is followed by no other, and no segment has a byte between the start of a tail and the end
of one. -/
structure Convertible (elf : List Byte) (memory : Buffer) : Prop where
  inside : ∀ phdr ∈ elfPhdrs elf memory, phdr.IsLoad → phdr.filesz ≠ 0 →
    phdr.offset.toNat + phdr.filesz.toNat ≤ elf.length
  below : ∀ tail ∈ elfPhdrs elf memory, tail.HasTail → tail.vaddr.toNat + tail.memsz.toNat < 2 ^ 32
  zero : ∀ tail ∈ elfPhdrs elf memory, tail.HasTail → tail.vaddr = 0 → tail.filesz = 0 →
    ∀ last ∈ ((elfPhdrs elf memory).filter (·.HasTail)).getLast?, last.vaddr = 0 ∧ last.filesz = 0
  between : ∀ first ∈ elfPhdrs elf memory, first.HasTail → ∀ second ∈ elfPhdrs elf memory, second.HasTail →
    ∀ phdr ∈ elfPhdrs elf memory, phdr.IsLoad → ∀ address, phdr.vaddr.toNat ≤ address →
      address < phdr.vaddr.toNat + phdr.filesz.toNat → first.vaddr.toNat + first.filesz.toNat ≤ address →
        second.vaddr.toNat + second.memsz.toNat ≤ address

/-- A conversion that succeeds, as it is loaded. -/
theorem dolLoad_elf2dol {elf : List Byte} {memory : Buffer} {dol : List Byte} (accepted : elf2dol elf memory = some dol)
    (small : dolSize (elfPhdrs elf memory) < 2 ^ 32) : ∃ image, dolLoad dol = some image ∧
      image.entryAddr = readBe32 (overlay elf memory) 24 ∧
      image.sections = ((elfPhdrs elf memory).filter (·.IsText) ++ (elfPhdrs elf memory).filter (·.IsData)).map
        (segmentSection (overlay elf memory)) ∧
      ∃ range, range = ((elfPhdrs elf memory).filter (·.HasTail)).foldl trackTail (0, 0) ∧
        image.header.bssAddress.toNat = (if range.1 < range.2 then range.1.toNat else 0) ∧
        image.header.bssAddress.toNat + image.header.bssSize.toNat = if range.1 < range.2 then range.2.toNat else 0 := by
  rw [elf2dol] at accepted
  split at accepted
  · cases accepted
  · split at accepted
    · cases accepted
    · obtain ⟨pass, ends, rfl⟩ := Option.map_eq_some_iff.mp accepted
      obtain ⟨numText, numData, textMax, dataMax, bss⟩ := firstPass_spec ends
      dsimp only at numText numData textMax dataMax bss
      have textFew := textMax (Nat.zero_le _)
      have dataFew := dataMax (Nat.zero_le _)
      rw [numText, Nat.zero_add] at textFew
      rw [numData, Nat.zero_add] at dataFew
      obtain ⟨image, loads, entry, sections, address, size⟩ := dolLoad_writeDol (overlay elf memory) textFew dataFew
        small pass (readBe32 (overlay elf memory) 24)
      refine ⟨image, loads, entry, sections, (pass.bssAddr, pass.bssEnd), bss, ?_, ?_⟩
      · rw [address]
        split <;> rfl
      · rw [address, size]
        split
        · rename_i some
          have le := BitVec.le_of_lt some
          rw [BitVec.toNat_sub_of_le le]
          exact Nat.add_sub_cancel' le
        · rfl

/-- The end of a tail that ends below the end of the address space. -/
theorem toNat_tail {phdr : Phdr} (tail : phdr.HasTail) (below : phdr.vaddr.toNat + phdr.memsz.toNat < 2 ^ 32) :
    (phdr.vaddr + phdr.filesz).toNat = phdr.vaddr.toNat + phdr.filesz.toNat ∧
      (phdr.vaddr + phdr.memsz).toNat = phdr.vaddr.toNat + phdr.memsz.toNat ∧
      phdr.filesz.toNat < phdr.memsz.toNat := by
  have shorter : phdr.filesz.toNat < phdr.memsz.toNat := tail.2
  rw [BitVec.toNat_add, BitVec.toNat_add, Nat.mod_eq_of_lt (by omega), Nat.mod_eq_of_lt below]
  exact ⟨rfl, rfl, shorter⟩

section Range

variable {phdrs : List Phdr} {range : Word × Word} {start stop : ℕ}

/-- A range that covers all tails and spares all bytes leaves no byte between the tails. -/
theorem convertible_of_range (tracked : range = (phdrs.filter (·.HasTail)).foldl trackTail (0, 0))
    (start_eq : start = if range.1 < range.2 then range.1.toNat else 0)
    (stop_eq : stop = if range.1 < range.2 then range.2.toNat else 0)
    (covers : ∀ phdr ∈ phdrs, phdr.HasTail → ∀ address, phdr.vaddr.toNat + phdr.filesz.toNat ≤ address →
      address < phdr.vaddr.toNat + phdr.memsz.toNat → start ≤ address ∧ address < stop) :
    (∀ tail ∈ phdrs, tail.HasTail → tail.vaddr.toNat + tail.memsz.toNat < 2 ^ 32) ∧
      (∀ tail ∈ phdrs, tail.HasTail → tail.vaddr = 0 → tail.filesz = 0 →
        ∀ last ∈ (phdrs.filter (·.HasTail)).getLast?, last.vaddr = 0 ∧ last.filesz = 0) ∧
      ∀ first ∈ phdrs, first.HasTail → ∀ second ∈ phdrs, second.HasTail → ∀ address,
        first.vaddr.toNat + first.filesz.toNat ≤ address → address < second.vaddr.toNat + second.memsz.toNat →
          start ≤ address ∧ address < stop := by
  have stopInRange : stop < 2 ^ 32 := by
    rw [stop_eq]
    split
    · exact range.2.isLt
    · decide
  have below : ∀ tail ∈ phdrs, tail.HasTail → tail.vaddr.toNat + tail.memsz.toNat < 2 ^ 32 := by
    intro tail member has
    have shorter : tail.filesz.toNat < tail.memsz.toNat := has.2
    have last := covers tail member has (tail.vaddr.toNat + tail.memsz.toNat - 1) (by omega) (by omega)
    omega
  refine ⟨below, ?_, ?_⟩
  · intro tail member has atZero noBytes last isLast
    have shorter : tail.filesz.toNat < tail.memsz.toNat := has.2
    have first := covers tail member has 0 (by rw [atZero, noBytes]; exact Nat.le_refl 0) (by omega)
    have startZero : range.1 = 0 := by
      apply BitVec.eq_of_toNat_eq
      rw [start_eq, stop_eq] at first
      split at first
      · exact Nat.le_zero.mp first.1
      · exact absurd first.2 (Nat.lt_irrefl 0)
    obtain ⟨earlier, split⟩ := List.getLast?_eq_some_iff.mp isLast
    have lastMember : last ∈ phdrs.filter (·.HasTail) := split ▸ List.mem_append_right earlier List.mem_cons_self
    obtain ⟨inPhdrs, lastHas⟩ := List.mem_filter.mp lastMember
    have lastStart : last.vaddr + last.filesz = 0 := by
      rw [tracked, split] at startZero
      exact (foldl_trackTail_eq_zero earlier last).mp startZero
    have values := toNat_tail (of_decide_eq_true lastHas) (below last inPhdrs (of_decide_eq_true lastHas))
    have sum := values.1
    have zeroth : (0 : Word).toNat = 0 := rfl
    rw [lastStart, zeroth] at sum
    exact ⟨BitVec.eq_of_toNat_eq (by rw [zeroth]; omega), BitVec.eq_of_toNat_eq (by rw [zeroth]; omega)⟩
  · intro first firstMember firstHas second secondMember secondHas address above before
    have firstShorter : first.filesz.toNat < first.memsz.toNat := firstHas.2
    have secondShorter : second.filesz.toNat < second.memsz.toNat := secondHas.2
    have lower := covers first firstMember firstHas (first.vaddr.toNat + first.filesz.toNat) (Nat.le_refl _) (by omega)
    have upper := covers second secondMember secondHas (second.vaddr.toNat + second.memsz.toNat - 1) (by omega) (by omega)
    omega

/-- The range is the hull of the tails. -/
theorem range_of_convertible (tracked : range = (phdrs.filter (·.HasTail)).foldl trackTail (0, 0))
    (start_eq : start = if range.1 < range.2 then range.1.toNat else 0)
    (stop_eq : stop = if range.1 < range.2 then range.2.toNat else 0)
    (below : ∀ tail ∈ phdrs, tail.HasTail → tail.vaddr.toNat + tail.memsz.toNat < 2 ^ 32)
    (zero : ∀ tail ∈ phdrs, tail.HasTail → tail.vaddr = 0 → tail.filesz = 0 →
      ∀ last ∈ (phdrs.filter (·.HasTail)).getLast?, last.vaddr = 0 ∧ last.filesz = 0) :
    (∀ tail ∈ phdrs, tail.HasTail →
      start ≤ tail.vaddr.toNat + tail.filesz.toNat ∧ tail.vaddr.toNat + tail.memsz.toNat ≤ stop) ∧
      (start < stop → ∃ first ∈ phdrs, first.HasTail ∧ ∃ second ∈ phdrs, second.HasTail ∧
        start = first.vaddr.toNat + first.filesz.toNat ∧ stop = second.vaddr.toNat + second.memsz.toNat) := by
  have tailOf {tail : Phdr} (member : tail ∈ phdrs.filter (·.HasTail)) : tail ∈ phdrs ∧ tail.HasTail :=
    ⟨(List.mem_filter.mp member).1, of_decide_eq_true (List.mem_filter.mp member).2⟩
  have values {tail : Phdr} (member : tail ∈ phdrs.filter (·.HasTail)) :=
    toNat_tail (tailOf member).2 (below tail (tailOf member).1 (tailOf member).2)
  obtain ⟨-, reached, one⟩ := @foldl_trackTail_end (phdrs.filter (·.HasTail)) (0, 0)
  rw [← tracked] at reached one
  -- every tail starts behind the start of the range
  have started : ∀ tail ∈ phdrs.filter (·.HasTail), range.1 ≤ tail.vaddr + tail.filesz := by
    by_cases nonzero : ∀ tail ∈ phdrs.filter (·.HasTail), tail.vaddr + tail.filesz ≠ 0
    · have least := (@foldl_trackTail_le (phdrs.filter (·.HasTail)) (0, 0) nonzero).2
      rwa [← tracked] at least
    · push Not at nonzero
      obtain ⟨tail, member, atZero⟩ := nonzero
      have sum := (values member).1
      have zeroth : (0 : Word).toNat = 0 := rfl
      rw [atZero, zeroth] at sum
      obtain ⟨earlier, last, split⟩ : ∃ earlier last, phdrs.filter (·.HasTail) = earlier ++ [last] :=
        ⟨_, _, (List.dropLast_append_getLast (List.ne_nil_of_mem member)).symm⟩
      have lastZero := zero tail (tailOf member).1 (tailOf member).2
        (BitVec.eq_of_toNat_eq (by rw [zeroth]; omega)) (BitVec.eq_of_toNat_eq (by rw [zeroth]; omega)) last
        (by rw [split, List.getLast?_concat]; rfl)
      have startZero : range.1 = 0 := by
        rw [tracked, split]
        refine (foldl_trackTail_eq_zero earlier last).mpr ?_
        rw [lastZero.1, lastZero.2]
        rfl
      intro other _
      rw [startZero, BitVec.le_def, zeroth]
      exact Nat.zero_le _
  constructor
  · intro tail inPhdrs has
    have member : tail ∈ phdrs.filter (·.HasTail) := List.mem_filter.mpr ⟨inPhdrs, decide_eq_true has⟩
    obtain ⟨startValue, endValue, shorter⟩ := values member
    have lower : range.1.toNat ≤ (tail.vaddr + tail.filesz).toNat := started tail member
    have upper : (tail.vaddr + tail.memsz).toNat ≤ range.2.toNat := reached tail member
    have some : range.1 < range.2 := by
      rw [BitVec.lt_def]
      omega
    rw [start_eq, stop_eq, if_pos some, if_pos some]
    omega
  · intro nonempty
    by_cases some : range.1 < range.2
    · rw [if_pos some] at start_eq stop_eq
      have positive : range.2 ≠ 0 := by
        intro zero
        rw [zero] at some
        exact absurd some BitVec.not_lt_zero
      obtain ⟨second, secondMember, ends⟩ := one.resolve_left positive
      have tails : phdrs.filter (·.HasTail) ≠ [] := List.ne_nil_of_mem secondMember
      obtain ⟨first, firstMember, starts⟩ : ∃ tail ∈ phdrs.filter (·.HasTail), range.1 = tail.vaddr + tail.filesz := by
        rcases @foldl_trackTail_start (phdrs.filter (·.HasTail)) (0, 0) with ⟨-, none | zero⟩ | found
        · exact absurd none tails
        · exact absurd rfl zero
        · rwa [← tracked] at found
      refine ⟨first, (tailOf firstMember).1, (tailOf firstMember).2, second, (tailOf secondMember).1,
        (tailOf secondMember).2, ?_, ?_⟩
      · rw [start_eq, starts, (values firstMember).1]
      · rw [stop_eq, ends, (values secondMember).2.1]
    · rw [start_eq, stop_eq, if_neg some, if_neg some] at nonempty
      exact absurd nonempty (Nat.lt_irrefl 0)

end Range

/-- The section of a segment is what the ELF file has of it exactly if it is in the file. -/
theorem segmentSection_eq_iff (elf : List Byte) (memory : Buffer) {phdr : Phdr} (some : phdr.filesz ≠ 0) :
    segmentSection (overlay elf memory) phdr = fileSection elf phdr ↔
      phdr.offset.toNat + phdr.filesz.toNat ≤ elf.length := by
  have positive : 0 < phdr.filesz.toNat := Nat.pos_of_ne_zero fun zero => some (BitVec.eq_of_toNat_eq zero)
  rw [segmentSection, fileSection, BinarySection.mk.injEq, and_iff_right rfl]
  constructor
  · intro same
    have lengths := congrArg List.length same
    rw [length_slice, List.length_take, List.length_drop] at lengths
    omega
  · intro inside
    apply List.ext_getElem
    · rw [length_slice, List.length_take, List.length_drop]
      omega
    · intro i left right
      rw [length_slice] at left
      rw [getElem_slice, List.getElem_take, List.getElem_drop, overlay_of_lt (by omega)]

/-- The DOL of an ELF file that stays below four gigabytes is loaded as the ELF file says exactly if the segments
are in the file and there is nothing between its tails. -/
theorem elf2dol_preserves_iff {elf : List Byte} {memory : Buffer} {dol : List Byte}
    (accepted : elf2dol elf memory = some dol) (small : dolSize (elfPhdrs elf memory) < 2 ^ 32) :
    (∃ image, dolLoad dol = some image ∧ Preserves elf memory image) ↔ Convertible elf memory := by
  obtain ⟨loaded, loads, entry, sections, range, tracked, start, stop⟩ := dolLoad_elf2dol accepted small
  constructor
  · rintro ⟨image, again, preserves⟩
    obtain rfl : loaded = image := Option.some.inj (loads.symm.trans again)
    have covers := preserves.covers
    obtain ⟨below, zero, hull⟩ := convertible_of_range tracked start stop covers
    refine ⟨?_, below, zero, ?_⟩
    · intro phdr member load some
      have same := sections.symm.trans preserves.sections
      have listed : phdr ∈ (elfPhdrs elf memory).filter (·.IsText) ++ (elfPhdrs elf memory).filter (·.IsData) := by
        rw [List.mem_append, List.mem_filter, List.mem_filter, decide_eq_true_eq, decide_eq_true_eq]
        by_cases executable : phdr.flags &&& pfX = 0
        · exact .inr ⟨member, load, some, executable⟩
        · exact .inl ⟨member, load, some, executable⟩
      exact (segmentSection_eq_iff elf memory some).mp (List.map_inj_left.mp same phdr listed)
    · intro first firstMember firstHas second secondMember secondHas phdr member load address atLeast beneath above
      by_contra before
      have inRange := hull first firstMember firstHas second secondMember secondHas address above (Nat.not_le.mp before)
      exact preserves.spares phdr member load address atLeast beneath inRange
  · intro convertible
    obtain ⟨reached, hull⟩ := range_of_convertible tracked start stop convertible.below convertible.zero
    refine ⟨loaded, loads, entry, ?_, ?_, ?_⟩
    · rw [sections]
      apply List.map_inj_left.mpr
      intro phdr member
      rw [List.mem_append, List.mem_filter, List.mem_filter, decide_eq_true_eq, decide_eq_true_eq] at member
      have facts : phdr ∈ elfPhdrs elf memory ∧ phdr.IsLoad ∧ phdr.filesz ≠ 0 := by
        rcases member with ⟨inPhdrs, text⟩ | ⟨inPhdrs, data⟩
        · exact ⟨inPhdrs, text.1, text.2.1⟩
        · exact ⟨inPhdrs, data.1, data.2.1⟩
      exact (segmentSection_eq_iff elf memory facts.2.2).mpr (convertible.inside phdr facts.1 facts.2.1 facts.2.2)
    · intro phdr member has address above before
      have bounds := reached phdr member has
      omega
    · rintro phdr member load address atLeast beneath ⟨above, before⟩
      obtain ⟨first, firstMember, firstHas, second, secondMember, secondHas, starts, ends⟩ := hull (by omega)
      have past := convertible.between first firstMember firstHas second secondMember secondHas phdr member load address
        atLeast beneath (by omega)
      omega

/-- A program header of a segment that is loaded. -/
def programHeader (offset vaddr filesz memsz flags : Word) : List Byte :=
  be32 ptLoad ++ be32 offset ++ be32 vaddr ++ be32 vaddr ++ be32 filesz ++ be32 memsz ++ be32 flags ++ be32 0

/-- An ELF file of program headers and the data behind them. -/
def elfFile (phnum : Byte) (programHeaders data : List Byte) : List Byte :=
  [0x7f, 0x45, 0x4c, 0x46, 1, 2, 1] ++ List.replicate 9 0 ++ [0, 2, 0, 20] ++ be32 1 ++ be32 0x80003100 ++ be32 52 ++
    List.replicate 8 0 ++ [0, 52, 0, 32, 0, phnum] ++ List.replicate 6 0 ++ programHeaders ++ data

/-- A program with its BSS at the end. -/
def plainElf : List Byte :=
  elfFile 2 (programHeader 116 0x80003100 4 4 5 ++ programHeader 120 0x80004000 4 16 6) [1, 2, 3, 4, 5, 6, 7, 8]

theorem plainElf_phdrs : elfPhdrs plainElf (fun _ => 0) =
    [⟨1, 116, 0x80003100, 4, 4, 5⟩, ⟨1, 120, 0x80004000, 4, 16, 6⟩] := by decide +kernel

theorem plainElf_accepted : (elf2dol plainElf fun _ => 0).isSome := by decide +kernel

/-- It is loaded as it was. -/
theorem elf2dol_preserves_plain :
    ∃ image, dolLoad ((elf2dol plainElf fun _ => 0).get plainElf_accepted) = some image ∧
      Preserves plainElf (fun _ => 0) image := by
  have small : dolSize (elfPhdrs plainElf fun _ => 0) < 2 ^ 32 := by
    rw [plainElf_phdrs]
    decide +kernel
  refine (elf2dol_preserves_iff (Option.some_get plainElf_accepted).symm small).mpr ⟨?_, ?_, ?_, ?_⟩
  · rw [plainElf_phdrs]
    decide +kernel
  · rw [plainElf_phdrs]
    decide +kernel
  · rw [plainElf_phdrs]
    decide +kernel
  · rw [plainElf_phdrs]
    simp only [List.mem_cons, List.not_mem_nil, or_false]
    rintro first (rfl | rfl) firstHas second (rfl | rfl) secondHas phdr (rfl | rfl) load address atLeast beneath above
    all_goals first
      | exact absurd firstHas (by decide +kernel)
      | exact absurd secondHas (by decide +kernel)
      | (simp only [BitVec.ofNat_eq_ofNat, BitVec.toNat_ofNat] at *
         omega)

/-- A program with BSS in front of its code and behind it. -/
def spreadElf : List Byte :=
  elfFile 3 (programHeader 148 0x80003000 4 8 6 ++ programHeader 152 0x80003100 4 4 5 ++
    programHeader 156 0x80003200 4 8 6) [1, 2, 3, 4, 5, 6, 7, 8, 9, 10, 11, 12]

theorem spreadElf_phdrs : elfPhdrs spreadElf (fun _ => 0) =
    [⟨1, 148, 0x80003000, 4, 8, 6⟩, ⟨1, 152, 0x80003100, 4, 4, 5⟩, ⟨1, 156, 0x80003200, 4, 8, 6⟩] := by decide +kernel

theorem spreadElf_accepted : (elf2dol spreadElf fun _ => 0).isSome := by decide +kernel

/-- Its code is in the range that is to be cleared. -/
theorem elf2dol_clears_code : ¬ ∀ (elf : List Byte) (memory : Buffer) (dol : List Byte), elf2dol elf memory = some dol →
    ∃ image, dolLoad dol = some image ∧ Preserves elf memory image := by
  intro preserves
  obtain ⟨image, -, loaded⟩ := preserves spreadElf (fun _ => 0) _ (Option.some_get spreadElf_accepted).symm
  have front := loaded.covers ⟨1, 148, 0x80003000, 4, 8, 6⟩ (by rw [spreadElf_phdrs]; decide +kernel) (by decide +kernel)
    0x80003004 (by decide +kernel) (by decide +kernel)
  have back := loaded.covers ⟨1, 156, 0x80003200, 4, 8, 6⟩ (by rw [spreadElf_phdrs]; decide +kernel) (by decide +kernel)
    0x80003207 (by decide +kernel) (by decide +kernel)
  have code := loaded.spares ⟨1, 152, 0x80003100, 4, 4, 5⟩ (by rw [spreadElf_phdrs]; decide +kernel) (by decide +kernel)
    0x80003100 (by decide +kernel) (by decide +kernel)
  omega

end KosTool.Binary
