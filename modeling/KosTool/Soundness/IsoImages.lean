import KosTool.Soundness.CheckedSums
import KosTool.Soundness.IsoReading

/-! # An ISO 9660 image has its files

The sectors for a file are counted in 32 bits where they are laid out, but not where they are written. The two agree, and
the image has what its directory says, exactly if no count wraps, the names differ and fit, and the boot file is loaded by
a count of 16 bits.
-/

namespace KosTool.IsoLite

open ByteWord WordPatch Placement Fallible Extent
open Elf2irx (orDie orDie_eq_ok)

section Counts

/-- The sectors that a file takes. -/
def sectorCount (size : ℕ) : ℕ := (size + 2047) / 2048

/-- The sectors that files take. -/
def sectorSum (files : List File) : ℕ := (files.map fun file => sectorCount file.data.length).sum

/-- The sectors that are laid out for files. -/
def laidSum (files : List File) : ℕ := (files.map fun file => sectorsFor file.data.length).sum

/-- The count in 32 bits is the true one, or it has lost all of a file close to the limit. -/
theorem sectorsFor_eq {size : ℕ} (small : size ≤ 2 ^ 32 - 1) :
    size + 2047 < 2 ^ 32 ∧ sectorCount size = sectorsFor size ∨
      2 ^ 32 ≤ size + 2047 ∧ sectorCount size = sectorsFor size + 2 ^ 21 := by
  rw [sectorsFor, sectorCount, sectorSize, Nat.add_sub_assoc (by decide)]
  rcases Nat.lt_or_ge (size + 2047) (2 ^ 32) with below | above
  · exact .inl ⟨below, by rw [Nat.mod_eq_of_lt below]⟩
  · refine .inr ⟨above, ?_⟩
    have wrapped : (size + 2047) % 2 ^ 32 = size + 2047 - 2 ^ 32 := by omega
    change (size + 2047) / 2048 = (size + 2047) % 2 ^ 32 / 2048 + 2 ^ 21
    omega

/-- The true counts are those in 32 bits and 2 ^ 21 sectors for each size close to the limit. -/
theorem counts_eq {sizes : List ℕ} (small : ∀ size ∈ sizes, size ≤ 2 ^ 32 - 1) :
    ∃ k, (sizes.map sectorCount).sum = (sizes.map sectorsFor).sum + 2 ^ 21 * k ∧ (k = 0 ↔ ∀ size ∈ sizes, size + 2047 < 2 ^ 32) := by
  induction sizes with
  | nil => exact ⟨0, rfl, fun _ => nofun, fun _ => rfl⟩
  | cons size rest ih =>
    obtain ⟨k, sum, none⟩ := ih fun other member => small other (List.mem_cons_of_mem _ member)
    rw [List.map_cons, List.map_cons, List.sum_cons, List.sum_cons]
    rcases sectorsFor_eq (small size List.mem_cons_self) with ⟨below, same⟩ | ⟨above, more⟩
    · refine ⟨k, by omega, ?_⟩
      rw [none, List.forall_mem_cons]
      exact ⟨fun others => ⟨below, others⟩, And.right⟩
    · refine ⟨k + 1, by omega, nofun, fun all => ?_⟩
      exact absurd (all size List.mem_cons_self) (Nat.not_lt.mpr above)

/-- What is written is what is laid out and 2 ^ 21 sectors for each file close to the limit. -/
theorem sectorSum_eq {files : List File} (small : ∀ file ∈ files, file.data.length ≤ 2 ^ 32 - 1) :
    ∃ k, sectorSum files = laidSum files + 2 ^ 21 * k ∧ (k = 0 ↔ ∀ file ∈ files, file.data.length + 2047 < 2 ^ 32) := by
  have counts := counts_eq (List.forall_mem_map.mpr small)
  rwa [List.map_map, List.map_map, List.forall_mem_map] at counts

end Counts

section Layout

variable {files : List File} {lba : ℕ}

/-- The layout has the files with their names cut. -/
theorem layFiles_map (files : List File) (lba : ℕ) : ((layFiles files lba).1.map fun file => (file.name, file.data)) =
    files.map fun file => (layoutName file.name, file.data) := by
  induction files generalizing lba with
  | nil => rfl
  | cons file rest ih => exact congrArg _ (ih _)

theorem layFiles_length (files : List File) (lba : ℕ) : (layFiles files lba).1.length = files.length := by
  have same := congrArg List.length (layFiles_map files lba)
  rwa [List.length_map, List.length_map] at same

/-- The sector behind the last file, in 32 bits. -/
theorem layFiles_snd (below : lba < 2 ^ 32) : (layFiles files lba).2 = (lba + laidSum files) % 2 ^ 32 := by
  induction files generalizing lba with
  | nil => exact (Nat.mod_eq_of_lt below).symm
  | cons file rest ih =>
    have laid : laidSum (file :: rest) = sectorsFor file.data.length + laidSum rest := List.sum_cons
    refine (ih (Nat.mod_lt _ (by decide))).trans ?_
    rw [laid, Nat.mod_add_mod, Nat.add_assoc]

/-- The bytes of a file fill its sectors. -/
theorem length_padded (data : List Byte) : (padded data).length = 2048 * sectorCount data.length := by
  have round : data.length ≤ (data.length + sectorSize - 1) / sectorSize * sectorSize := by
    rw [sectorSize]
    omega
  rw [padded, List.length_append, length_zeros, Nat.add_sub_cancel' round, sectorCount, sectorSize,
    Nat.add_sub_assoc (by decide), Nat.mul_comm]

theorem length_flatMap_padded (files : List File) :
    (files.flatMap fun file => padded file.data).length = 2048 * sectorSum files := by
  induction files with
  | nil => rfl
  | cons file rest ih =>
    have total : sectorSum (file :: rest) = sectorCount file.data.length + sectorSum rest := List.sum_cons
    rw [List.flatMap_cons, List.length_append, ih, length_padded, total, Nat.mul_add]

theorem flatMap_layout (files : List File) (lba : ℕ) : ((layFiles files lba).1.flatMap fun file => padded file.data) =
    files.flatMap fun file => padded file.data := by
  induction files generalizing lba with
  | nil => rfl
  | cons file rest ih => exact congrArg _ (ih _)

/-- The extents of the files, in sectors. -/
def fileExtents (layout : List LayoutFile) : List Extent :=
  layout.map fun file => ⟨file.extentLba, sectorCount file.data.length⟩

/-- Without a wrap, each file stands behind the one before it, with its bytes. -/
theorem layFiles_places (small : ∀ file ∈ files, file.data.length + 2047 < 2 ^ 32) (below : lba + sectorSum files < 2 ^ 32) :
    Fills lba (lba + sectorSum files) (fileExtents (layFiles files lba).1) ∧
      ∀ (front behind : List Byte), front.length = 2048 * lba → ∀ file ∈ (layFiles files lba).1,
        cut (front ++ (files.flatMap fun file => padded file.data) ++ behind) ⟨2048 * file.extentLba, file.data.length⟩ =
          file.data := by
  induction files generalizing lba with
  | nil => exact ⟨.nil le_rfl, fun _ _ _ => nofun⟩
  | cons file rest ih =>
    have total : sectorSum (file :: rest) = sectorCount file.data.length + sectorSum rest := List.sum_cons
    have own := small file List.mem_cons_self
    have same : sectorCount file.data.length = sectorsFor file.data.length := by
      rcases sectorsFor_eq (by omega : file.data.length ≤ 2 ^ 32 - 1) with ⟨-, same⟩ | ⟨above, -⟩
      · exact same
      · omega
    have next : (lba + sectorsFor file.data.length) % 2 ^ 32 = lba + sectorCount file.data.length := by
      rw [← same]
      exact Nat.mod_eq_of_lt (by omega)
    have first : (layFiles (file :: rest) lba).1 = ⟨layoutName file.name, file.data, lba⟩ ::
        (layFiles rest (lba + sectorCount file.data.length)).1 := by rw [layFiles, next]
    obtain ⟨fills, found⟩ := ih (fun other member => small other (List.mem_cons_of_mem _ member))
      (by omega : lba + sectorCount file.data.length + sectorSum rest < 2 ^ 32)
    rw [first, total, ← Nat.add_assoc]
    refine ⟨.cons le_rfl fills, fun front behind start other member => ?_⟩
    rcases List.mem_cons.mp member with rfl | later
    · have middle := cut_middle front file.data
        (zeros ((file.data.length + sectorSize - 1) / sectorSize * sectorSize - file.data.length) ++
          (rest.flatMap fun file => padded file.data) ++ behind)
      rw [start] at middle
      dsimp only
      rw [List.flatMap_cons, padded]
      simp only [List.append_assoc] at middle ⊢
      exact middle
    · have grown : (front ++ padded file.data).length = 2048 * (lba + sectorCount file.data.length) := by
        rw [List.length_append, start, length_padded, Nat.mul_add]
      have there := found (front ++ padded file.data) behind grown other later
      rw [List.flatMap_cons]
      simp only [List.append_assoc] at there ⊢
      exact there

end Layout

section Stream

variable {config : Config} {files : List File} {clock : Clock} {image : List Byte} {total bootLba bootLoad : ℕ}

/-- The layout of the files. -/
def layoutOf (config : Config) (files : List File) : List LayoutFile :=
  (layFiles files (places config.useEltorito).firstFile).1

theorem length_flatMap_dirRecord (time : ℕ → Fin 7 → Byte) (records : List Record) (i : ℕ) :
    ((records.zipIdx i).flatMap fun (r, i) => dirRecord (time i) r).length =
      (records.map fun r => dirRecordLength r.name.length).sum := by
  induction records generalizing i with
  | nil => rfl
  | cons r rest ih =>
    rw [List.zipIdx_cons, List.flatMap_cons, List.length_append, length_dirRecord, ih, List.map_cons, List.sum_cons]

/-- The bytes of the records are those that are counted. -/
theorem rootBytes_eq (config : Config) (layout : List LayoutFile) :
    ((records config layout).map fun r => dirRecordLength r.name.length).sum = rootBytes config layout := by
  have own (name : Byte) : dirRecordLength (dirSelf config name).name.length = dirRecordLength 1 := rfl
  have catalog : bootCatName.length = 10 := rfl
  rw [records, rootBytes, List.map_append, List.map_append, List.map_map, List.sum_append, List.sum_append, List.map_cons,
    List.map_singleton, List.sum_pair, own, own]
  cases config.useEltorito with
  | false => rfl
  | true =>
    rw [if_pos rfl, if_pos rfl, List.map_singleton, List.sum_singleton, catalog]
    rfl

/-- The root directory is a sector. -/
theorem length_rootDir (clock : Clock) {layout : List LayoutFile} (fits : rootBytes config layout ≤ 2048) :
    (rootDir clock (records config layout)).length = 2048 := by
  have bytes := length_flatMap_dirRecord (fun i => clock.dir (i + 1)) (records config layout) 0
  rw [rootBytes_eq] at bytes
  rw [rootDir, List.length_append, length_zeros, bytes, sectorSize]
  omega

/-- What is known of a stream that has been written. -/
structure Written (config : Config) (files : List File) (clock : Clock) (image : List Byte) (total bootLba bootLoad : ℕ) :
    Prop where
  some : files ≠ []
  sizes : ∀ file ∈ files, file.data.length ≤ 2 ^ 32 - 1
  root : rootBytes config (layoutOf config files) ≤ 2048
  boot : bootImage config (layoutOf config files) = .ok (bootLba, bootLoad)
  area : config.systemAreaSize ≤ 16 * 2048
  count : total = ((places config.useEltorito).firstFile + laidSum files + (places config.useEltorito).trailingPad) % 2 ^ 32
  image : image = systemArea config ++ zeros (16 * 2048 - config.systemAreaSize) ++
    (middle config clock (layoutOf config files) total bootLba bootLoad).flatten ++
    (files.flatMap fun file => padded file.data) ++ zeros ((places config.useEltorito).trailingPad * 2048)

theorem writeStream_eq_ok (through : writeStream config files clock = .ok (image, total)) :
    ∃ bootLba bootLoad, Written config files clock image total bootLba bootLoad := by
  obtain ⟨⟨⟩, some, through⟩ := bind_eq_ok.mp through
  obtain ⟨⟨⟩, checked, through⟩ := bind_eq_ok.mp through
  obtain ⟨⟨⟩, root, through⟩ := bind_eq_ok.mp through
  obtain ⟨⟨bootLba, bootLoad⟩, boot, through⟩ := bind_eq_ok.mp through
  obtain ⟨⟨⟩, area, through⟩ := bind_eq_ok.mp through
  obtain ⟨imageEq, totalEq⟩ := Prod.mk.inj (pure_eq_ok.mp through)
  rw [totalEq] at imageEq
  have below : (places config.useEltorito).firstFile < 2 ^ 32 := by
    cases config.useEltorito with
    | false => decide
    | true => decide
  have nonempty : files ≠ [] := by
    rintro rfl
    cases orDie_eq_ok some
  refine ⟨bootLba, bootLoad, nonempty, fun file member => ?_, of_decide_eq_true (orDie_eq_ok root), boot,
    of_decide_eq_true (orDie_eq_ok area), ?_, ?_⟩
  · obtain ⟨k, at_k⟩ := List.mem_iff_getElem?.mp member
    obtain ⟨⟨⟩, -, size⟩ := bind_eq_ok.mp (forall_of_forM checked (file, k) (List.mem_zipIdx_iff_getElem?.mpr at_k))
    exact of_decide_eq_true (orDie_eq_ok size)
  · rw [← totalEq, layFiles_snd below, Nat.mod_add_mod]
  · have first : ((layoutOf config files)[0]?.map (·.extentLba)).getD 0 = (places config.useEltorito).firstFile := by
      cases files with
      | nil => exact absurd rfl nonempty
      | cons file rest => rfl
    have none : padTo (places config.useEltorito).firstFile (((layoutOf config files)[0]?.map (·.extentLba)).getD 0) = [] := by
      rw [first, padTo, Nat.sub_self, Nat.zero_mul]
      rfl
    rw [layoutOf] at none
    rw [none, List.append_nil, flatMap_layout] at imageEq
    exact imageEq.symm

/-- The bytes of the system area that are counted but not there. -/
def missing (config : Config) : ℕ :=
  match config.systemArea with
  | some _ => 0
  | none => config.systemAreaSize

/-- The system area takes its sectors, less what is missing. -/
theorem length_systemArea (small : config.systemAreaSize ≤ 16 * 2048) :
    (systemArea config ++ zeros (16 * 2048 - config.systemAreaSize)).length + missing config = 16 * 2048 := by
  rw [List.length_append, length_zeros, missing, systemArea]
  cases config.systemArea with
  | none =>
    rw [List.length_nil, Nat.zero_add]
    exact Nat.sub_add_cancel small
  | some area =>
    dsimp only
    split_ifs with none
    · rw [none]
      rfl
    · rw [length_slice]
      omega

/-- The sectors between the system area and the files. -/
theorem length_middle {layout : List LayoutFile} (fits : rootBytes config layout ≤ 2048) :
    (middle config clock layout total bootLba bootLoad).flatten.length =
      ((places config.useEltorito).firstFile - 16) * 2048 := by
  have root := length_rootDir clock fits
  rw [middle]
  cases config.useEltorito with
  | false => simp [places, padTo, sectorSize, root]
  | true => simp [places, padTo, sectorSize, root]

/-- The sectors of the whole image. -/
def imageSectors (config : Config) (files : List File) : ℕ :=
  (places config.useEltorito).firstFile + sectorSum files + (places config.useEltorito).trailingPad

theorem firstFile_ge (useEltorito : Bool) : 16 ≤ (places useEltorito).firstFile := by
  cases useEltorito with
  | false => decide
  | true => decide

theorem length_image (written : Written config files clock image total bootLba bootLoad) :
    image.length + missing config = 2048 * imageSectors config files := by
  have area := length_systemArea written.area
  have first := firstFile_ge config.useEltorito
  rw [written.image, List.length_append, List.length_append, List.length_append, length_middle written.root,
    length_flatMap_padded, length_zeros, imageSectors]
  omega

/-- The image has its declared length exactly if no count wraps and the system area is there. -/
theorem length_iff (written : Written config files clock image total bootLba bootLoad) :
    image.length = total * 2048 ↔ (∀ file ∈ files, file.data.length + 2047 < 2 ^ 32) ∧
      imageSectors config files < 2 ^ 32 ∧ missing config = 0 := by
  obtain ⟨k, sum, none⟩ := sectorSum_eq written.sizes
  have length := length_image written
  have count := written.count
  have area : missing config ≤ 16 * 2048 := by
    have counted := length_systemArea written.area
    omega
  rw [imageSectors] at length ⊢
  rw [← none]
  constructor
  · intro same
    omega
  · rintro ⟨rfl, below, zero⟩
    omega

/-- A sector among the parts of an image. -/
theorem sectorAt_part {front behind part : List Byte} (before after : List (List Byte)) {lba : ℕ} (whole : part.length = 2048)
    (start : front.length + before.flatten.length = 2048 * lba) :
    sectorAt (front ++ (before ++ part :: after).flatten ++ behind) lba = part := by
  have middle := cut_middle (front ++ before.flatten) part (after.flatten ++ behind)
  rw [List.length_append, start, whole] at middle
  rw [sectorAt, List.flatten_append, List.flatten_cons]
  simp only [List.append_assoc] at middle ⊢
  exact middle

/-- The sectors that a reader goes to. -/
structure Sectors (config : Config) (clock : Clock) (layout : List LayoutFile) (image : List Byte)
    (total bootLba bootLoad : ℕ) : Prop where
  volume : sectorAt image 16 = sector (pvd config clock total)
  root : sectorAt image (places config.useEltorito).rootDir = rootDir clock (records config layout)
  record : config.useEltorito → sectorAt image 17 = sector (bootRecord config)
  catalog : config.useEltorito → sectorAt image (places config.useEltorito).bootCatalog =
    sector (bootCatalog bootLba bootLoad)

/-- The parts stand in their sectors, if the system area is there. -/
theorem sectors_read (written : Written config files clock image total bootLba bootLoad) (there : missing config = 0) :
    Sectors config clock (layoutOf config files) image total bootLba bootLoad := by
  have front := length_systemArea written.area
  rw [there, Nat.add_zero] at front
  have root := length_rootDir clock written.root
  rw [written.image, List.append_assoc _ _ (zeros _)]
  cases kind : config.useEltorito with
  | false =>
    rw [middle, kind]
    constructor
    · exact sectorAt_part [] _ (length_sector _) (by rw [front]; rfl)
    · rw [kind]
      refine sectorAt_part [_, _, _, _, _, _, _] [] root ?_
      simp [front, places, padTo, sectorSize]
    · rw [kind]
      exact nofun
    · rw [kind]
      exact nofun
  | true =>
    rw [middle, kind]
    constructor
    · exact sectorAt_part [] _ (length_sector _) (by rw [front]; rfl)
    · rw [kind]
      refine sectorAt_part [_, _, _, _, _, _, _, _] [_, _] root ?_
      simp [front, places, padTo, sectorSize]
    · intro
      refine sectorAt_part [_] _ (length_sector _) ?_
      simp [front]
    · intro
      rw [kind]
      refine sectorAt_part [_, _, _, _, _, _, _, _, _, _] [] (length_sector _) ?_
      simp [front, places, padTo, sectorSize, root]

end Stream

section Contents

variable {config : Config} {files : List File} {clock : Clock} {image : List Byte} {total bootLba bootLoad : ℕ}

theorem length_dirSelf (config : Config) (name : Byte) : dirRecordLength (dirSelf config name).name.length = 34 :=
  (by decide : dirRecordLength 1 = 34)

theorem fills_pvd : Fills 0 2048 ((pvd config clock total).map Piece.extent) := by
  apply fills_of_fits
  have magic : (ascii "CD001").length = 5 := rfl
  simp only [pvd, List.map_cons, List.map_nil, Piece.extent, Fits, stop, length_paddedField, length_both32, length_both16,
    length_leNat, length_beNat, length_dirRecord, List.length_ofFn, List.length_replicate, List.length_singleton, magic, length_dirSelf]
  decide

theorem fills_bootRecord : Fills 0 2048 ((bootRecord config).map Piece.extent) := by
  apply fills_of_fits
  have magic : (ascii "CD001").length = 5 := rfl
  have system : (ascii "EL TORITO SPECIFICATION").length = 23 := rfl
  simp only [bootRecord, List.map_cons, List.map_nil, Piece.extent, Fits, stop, length_leNat, List.length_singleton, magic,
    system]
  decide

/-- The pieces of the catalog in the order of their places. -/
theorem clear_bootCatalog : (bootCatalog bootLba bootLoad).Pairwise fun first second =>
    first.extent.Clear second.extent := by
  rw [← List.pairwise_map (R := Clear)]
  have extents : (bootCatalog bootLba bootLoad).map Piece.extent = [⟨0, 1⟩, ⟨1, 1⟩, ⟨0x1E, 1⟩, ⟨0x1F, 1⟩, ⟨0x1C, 2⟩, ⟨0x20, 2⟩,
    ⟨0x22, 2⟩, ⟨0x24, 2⟩, ⟨0x26, 2⟩, ⟨0x28, 4⟩] := rfl
  rw [extents]
  decide

/-- An address is that of the sector that it was made from. -/
theorem imageSector_add {lba : ℕ} (below : lba < 2 ^ 32) : imageSector config (BitVec.ofNat 32 lba + config.startLba) = lba := by
  rw [imageSector, BitVec.add_sub_cancel, BitVec.toNat_ofNat, Nat.mod_eq_of_lt below]

theorem imageSector_ofNat {lba : ℕ} (below : lba < 2 ^ 32) :
    imageSector config (BitVec.ofNat 32 (lba + config.startLba.toNat)) = lba := by
  rw [BitVec.ofNat_add, BitVec.ofNat_toNat, BitVec.setWidth_eq]
  exact imageSector_add below

/-- The names of the directory are short. -/
theorem short_of_records (config : Config) {layout : List LayoutFile} (short : ∀ file ∈ layout, file.name.length ≤ 15) :
    ∀ r ∈ records config layout, r.name.length ≤ 15 := by
  intro r member
  have catalog : bootCatName.length = 10 := rfl
  rw [records, List.mem_append, List.mem_append] at member
  rcases member with (own | boot) | of_file
  · rcases List.mem_pair.mp own with rfl | rfl
    · exact Nat.le_of_ble_eq_true rfl
    · exact Nat.le_of_ble_eq_true rfl
  · split at boot
    · rw [List.mem_singleton.mp boot]
      exact catalog.trans_le (by decide)
    · nomatch boot
  · obtain ⟨file, inside, rfl⟩ := List.mem_map.mp of_file
    exact short file inside

theorem layout_short (config : Config) (files : List File) : ∀ file ∈ layoutOf config files, file.name.length ≤ 15 := by
  intro file member
  have pair : (file.name, file.data) ∈ files.map fun file => (layoutName file.name, file.data) :=
    layFiles_map files _ ▸ List.mem_map_of_mem member
  obtain ⟨input, -, same⟩ := List.mem_map.mp pair
  rw [← (Prod.mk.inj same).1, layoutName, List.length_take]
  exact Nat.min_le_left _ _

/-- A record takes at least 33 bytes. -/
theorem length_le_bytes (records : List Record) :
    33 * records.length ≤ (records.map fun r => dirRecordLength r.name.length).sum := by
  induction records with
  | nil => exact le_rfl
  | cons r rest ih =>
    have own := (dirRecordLength_le r.name.length).1
    rw [List.length_cons, List.map_cons, List.sum_cons]
    omega

/-- The record of the root directory is that of the descriptor. -/
theorem rootRecord_eq (written : Written config files clock image total bootLba bootLoad) (there : missing config = 0) :
    rootRecord image = dirSelf config 0 := by
  have member : ⟨156, dirRecord (clock.dir 0) (dirSelf config 0)⟩ ∈ pvd config clock total := by simp [pvd]
  have placed : slice (place (pvd config clock total) fun _ => 0) 156 34 = dirRecord (clock.dir 0) (dirSelf config 0) := by
    have found := slice_place (clear_of_fills fills_pvd) member fun _ => 0
    rw [length_dirRecord, length_dirSelf] at found
    exact found
  rw [rootRecord, (sectors_read written there).volume, cut_sector (by decide)]
  have own : (dirSelf config 0).name.length < 256 := (by decide : 1 < 256)
  have read := readRecord_dirRecord (clock.dir 0) own []
  rw [List.append_nil, ← placed] at read
  exact read

/-- The root directory is read as its records. -/
theorem directory_eq (written : Written config files clock image total bootLba bootLoad) (there : missing config = 0) :
    directory config image = records config (layoutOf config files) := by
  have sectors := sectors_read written there
  have self := rootRecord_eq written there
  have below : (places config.useEltorito).rootDir < 2 ^ 32 := by
    cases config.useEltorito with
    | false => decide
    | true => decide
  have size : (dirSelf config 0).size.toNat = 2048 := rfl
  have short := short_of_records config (layout_short config files)
  have few : (records config (layoutOf config files)).length < 2048 := by
    have bytes := rootBytes_eq config (layoutOf config files)
    have fits := written.root
    have each := length_le_bytes (records config (layoutOf config files))
    omega
  rw [directory, self]
  have sectorEq : imageSector config (dirSelf config 0).extent = (places config.useEltorito).rootDir := imageSector_add below
  have root : cut image ⟨2048 * (places config.useEltorito).rootDir, 2048⟩ = rootDir clock (records config (layoutOf config files)) :=
    sectors.root
  rw [size, sectorEq, root, rootDir]
  exact readRecords_dirRecords (fun r member => (short r member).trans_lt (by decide)) (fun i => clock.dir (i + 1)) few _

/-- The sectors that are not those of files, by the addresses that are found in them. -/
def fixedExtents (config : Config) (image : List Byte) : List Extent :=
  let volume := words (sectorAt image 16)
  [⟨0, 16⟩, ⟨16, 1⟩] ++ (if config.useEltorito then [⟨17, 1⟩, ⟨18, 1⟩] else [⟨17, 1⟩]) ++
    [⟨imageSector config (rd32 volume 140), 1⟩, ⟨imageSector config (readBe32 volume 148), 1⟩,
      ⟨imageSector config (rootRecord image).extent, 1⟩] ++
    if config.useEltorito then [⟨catalogSector config image, 1⟩] else []

/-- The extents of the files, by their records. -/
def recordExtents (config : Config) (image : List Byte) : List Extent :=
  ((directory config image).drop (if config.useEltorito then 3 else 2)).map fun r =>
    ⟨imageSector config r.extent, sectorCount r.size.toNat⟩

/-- The image has the files. -/
structure Contains (config : Config) (files : List File) (image : List Byte) (total : ℕ) : Prop where
  length : image.length = total * 2048
  declared : (rd32 (words (sectorAt image 16)) 80).toNat = total
  distinct : ((directory config image).map Record.name).Nodup
  found : ∀ file ∈ files, ∃ r ∈ directory config image, r.name = file.name ∧ r.size.toNat = file.data.length ∧
    cut image ⟨2048 * imageSector config r.extent, r.size.toNat⟩ = file.data
  apart : Fills 0 total (fixedExtents config image ++ recordExtents config image)
  boot : config.useEltorito → ∃ r ∈ directory config image, r.name = config.bootName ∧
    (bootEntry config image).address = r.extent ∧ r.size.toNat ≤ 512 * (bootEntry config image).load

/-- The names that the writer gives to records of its own. -/
def ownNames (config : Config) : List (List Byte) := [[0], [1]] ++ if config.useEltorito then [bootCatName] else []

/-- The inputs that an image can have. -/
structure Fits (config : Config) (files : List File) : Prop where
  names : (ownNames config ++ files.map File.name).Nodup
  short : ∀ file ∈ files, file.name.length ≤ 15
  sizes : ∀ file ∈ files, file.data.length + 2047 < 2 ^ 32
  sectors : imageSectors config files < 2 ^ 32
  boot : config.useEltorito → ∀ file ∈ files, file.name = config.bootName → file.data.length ≤ 16383 * 2048
  area : config.systemArea = none → config.systemAreaSize = 0

/-- The system area is there, or it has no size. -/
theorem missing_eq_zero : missing config = 0 ↔ (config.systemArea = none → config.systemAreaSize = 0) := by
  rw [missing]
  cases config.systemArea with
  | none => exact ⟨fun zero _ => zero, fun zero => zero rfl⟩
  | some area => exact ⟨fun _ => nofun, fun _ => rfl⟩

theorem layout_names (config : Config) (files : List File) : (layoutOf config files).map LayoutFile.name =
    files.map fun file => layoutName file.name := by
  have same := congrArg (List.map Prod.fst) (layFiles_map files (places config.useEltorito).firstFile)
  rwa [List.map_map, List.map_map] at same

/-- The names of the directory are those of the files, cut to their field. -/
theorem records_names (config : Config) (files : List File) : (records config (layoutOf config files)).map Record.name =
    ownNames config ++ files.map fun file => layoutName file.name := by
  rw [records, List.map_append, List.map_append, List.map_map, ← layout_names, ownNames]
  cases config.useEltorito with
  | false => rfl
  | true => rfl

/-- A file of the layout is one of the files. -/
theorem mem_layout {file : LayoutFile} (member : file ∈ layoutOf config files) :
    ∃ input ∈ files, file.name = layoutName input.name ∧ file.data = input.data := by
  have pair : (file.name, file.data) ∈ files.map fun file => (layoutName file.name, file.data) :=
    layFiles_map files _ ▸ List.mem_map_of_mem member
  obtain ⟨input, inside, same⟩ := List.mem_map.mp pair
  exact ⟨input, inside, (Prod.mk.inj same).1.symm, (Prod.mk.inj same).2.symm⟩

theorem layout_of_mem (config : Config) {input : File} (member : input ∈ files) :
    ∃ file ∈ layoutOf config files, file.name = layoutName input.name ∧ file.data = input.data := by
  have pair : (layoutName input.name, input.data) ∈ (layoutOf config files).map fun file => (file.name, file.data) := by
    rw [layoutOf, layFiles_map]
    exact List.mem_map_of_mem member
  obtain ⟨file, inside, same⟩ := List.mem_map.mp pair
  exact ⟨file, inside, (Prod.mk.inj same).1, (Prod.mk.inj same).2⟩

/-- The record of a file of the layout. -/
def recordOf (config : Config) (file : LayoutFile) : Record :=
  ⟨BitVec.ofNat 32 file.extentLba + config.startLba, BitVec.ofNat 32 file.data.length, 0, file.name⟩

theorem recordOf_mem {layout : List LayoutFile} {file : LayoutFile} (member : file ∈ layout) :
    recordOf config file ∈ records config layout := List.mem_append_right _ (List.mem_map_of_mem member)

/-- The boot image is a file of the layout with the boot name. -/
theorem bootImage_eq_ok {layout : List LayoutFile} (through : bootImage config layout = .ok (bootLba, bootLoad))
    (boot : config.useEltorito) : ∃ file ∈ layout, file.name = config.bootName ∧
      bootLba = (file.extentLba + config.startLba.toNat) % 2 ^ 32 ∧
      bootLoad = sectorsFor file.data.length * 4 % 2 ^ 16 := by
  rw [bootImage, if_pos boot] at through
  split at through
  · cases through
  · rename_i file found
    obtain ⟨⟨⟩, -, through⟩ := bind_eq_ok.mp through
    obtain ⟨lba, load⟩ := Prod.mk.inj (pure_eq_ok.mp through)
    have test := List.find?_some found
    exact ⟨file, List.mem_of_find?_eq_some found, beq_iff_eq.mp test, lba.symm, load.symm⟩

/-- What the catalog says is what was found for the boot name. -/
theorem bootEntry_eq (written : Written config files clock image total bootLba bootLoad) (there : missing config = 0)
    (boot : config.useEltorito) : catalogSector config image = 25 ∧
      bootEntry config image = ⟨bootLoad % 2 ^ 16, BitVec.ofNat 32 bootLba⟩ := by
  have sectors := sectors_read written there
  have catalog : catalogSector config image = 25 := by
    have member : ⟨71, leNat ((places config.useEltorito).bootCatalog + config.startLba.toNat)⟩ ∈ bootRecord config := by
      simp [bootRecord]
    have address : rd32 (words (sectorAt image 17)) 71 = BitVec.ofNat 32 25 + config.startLba := by
      rw [sectors.record boot]
      refine (rd32_of_slice (slice_sector_piece (clear_of_fills fills_bootRecord) (Nat.le_of_ble_eq_true rfl) member)).trans ?_
      rw [boot, BitVec.ofNat_add, BitVec.ofNat_toNat, BitVec.setWidth_eq]
      rfl
    rw [catalogSector, address]
    exact imageSector_add (by decide)
  have whole := sectors.catalog boot
  rw [boot] at whole
  have address : rd32 (words (sector (bootCatalog bootLba bootLoad))) 0x28 = BitVec.ofNat 32 bootLba := by
    have member : ⟨0x28, leNat bootLba⟩ ∈ bootCatalog bootLba bootLoad := by simp [bootCatalog]
    exact rd32_of_slice (slice_sector_piece clear_bootCatalog (Nat.le_of_ble_eq_true rfl) member)
  have load : slice (words (sector (bootCatalog bootLba bootLoad))) 0x26 2 = le16 bootLoad := by
    have member : ⟨0x26, le16 bootLoad⟩ ∈ bootCatalog bootLba bootLoad := by simp [bootCatalog]
    exact slice_sector_piece clear_bootCatalog (Nat.le_of_ble_eq_true rfl) member
  rw [slice_succ, slice_succ] at load
  obtain ⟨low, rest⟩ := List.cons.inj load
  obtain ⟨high, -⟩ := List.cons.inj rest
  refine ⟨catalog, ?_⟩
  rw [bootEntry, catalog]
  have at_ : sectorAt image 25 = sector (bootCatalog bootLba bootLoad) := whole
  rw [at_, address, low, high, BitVec.toNat_ofNat, BitVec.toNat_ofNat]
  have half : bootLoad % 2 ^ 8 + 256 * (bootLoad / 256 % 2 ^ 8) = bootLoad % 2 ^ 16 := by omega
  rw [half]

/-- Two records of a directory with one name are one. -/
theorem record_unique {records : List Record} (distinct : (records.map Record.name).Nodup) {first second : Record}
    (member : first ∈ records) (member' : second ∈ records) (same : first.name = second.name) : first = second :=
  List.inj_on_of_nodup_map distinct member member' same

theorem layoutName_eq {name : List Byte} (short : name.length ≤ 15) : layoutName name = name := List.take_of_length_le short

/-- An image that has its files is one that can have them. -/
theorem fits_of_contains (written : Written config files clock image total bootLba bootLoad)
    (contains : Contains config files image total) : Fits config files := by
  obtain ⟨sizes, sectors, area⟩ := (length_iff written).mp contains.length
  have names := contains.distinct
  have found := contains.found
  have boots := contains.boot
  rw [directory_eq written area] at names found boots
  have short (file : File) (member : file ∈ files) : file.name.length ≤ 15 := by
    obtain ⟨r, inside, same, -⟩ := found file member
    rw [← same]
    exact short_of_records config (layout_short config files) r inside
  refine ⟨?_, short, sizes, sectors, fun boot file member named => ?_, missing_eq_zero.mp area⟩
  · have same : (files.map fun file => layoutName file.name) = files.map File.name :=
      List.map_congr_left fun file member => layoutName_eq (short file member)
    rwa [records_names, same] at names
  · obtain ⟨r, inside, rName, -, loaded⟩ := boots boot
    obtain ⟨file', member', name', -, load⟩ := bootImage_eq_ok written.boot boot
    obtain ⟨r', inside', same', size', -⟩ := found file member
    have one : r = recordOf config file' := record_unique names inside (recordOf_mem member') (rName.trans name'.symm)
    have other : r' = r := record_unique names inside' inside (same'.trans (named.trans rName.symm))
    obtain ⟨input, ofInput, -, data⟩ := mem_layout member'
    have small := sizes input ofInput
    have size : r.size.toNat = file'.data.length := by
      rw [one, recordOf, BitVec.toNat_ofNat, data]
      exact Nat.mod_eq_of_lt (by omega)
    rw [(bootEntry_eq written area boot).2, load, sectorsFor, sectorSize] at loaded
    rw [other, size] at size'
    rw [size, size'] at loaded
    rw [data] at size'
    dsimp only at loaded
    omega

theorem declared_eq (written : Written config files clock image total bootLba bootLoad) (there : missing config = 0) :
    (rd32 (words (sectorAt image 16)) 80).toNat = total := by
  have member : ⟨80, both32 total⟩ ∈ pvd config clock total := by simp [pvd]
  have whole := slice_sector_piece (clear_of_fills fills_pvd) (Nat.le_of_ble_eq_true rfl) member
  rw [length_both32, show 8 = 4 + 4 from rfl, slice_add] at whole
  have first := (List.append_inj whole (by rw [length_slice, length_leNat])).1
  rw [(sectors_read written there).volume, rd32_of_slice first, BitVec.toNat_ofNat, written.count, Nat.mod_mod]

/-- The front of the image ends where the files start. -/
theorem length_front (written : Written config files clock image total bootLba bootLoad) (there : missing config = 0) :
    (systemArea config ++ zeros (16 * 2048 - config.systemAreaSize) ++
      (middle config clock (layoutOf config files) total bootLba bootLoad).flatten).length =
      2048 * (places config.useEltorito).firstFile := by
  have area := length_systemArea written.area
  have first := firstFile_ge config.useEltorito
  rw [List.length_append, length_middle written.root]
  omega

/-- The sectors that are not those of files stand in front of them. -/
theorem fixed_fills (written : Written config files clock image total bootLba bootLoad) (there : missing config = 0) :
    Fills 0 (places config.useEltorito).firstFile (fixedExtents config image) := by
  have volume := (sectors_read written there).volume
  have pathL : imageSector config (rd32 (words (sectorAt image 16)) 140) = (places config.useEltorito).pathTableL := by
    have member : ⟨140, leNat ((places config.useEltorito).pathTableL + config.startLba.toNat)⟩ ∈ pvd config clock total := by
      simp [pvd]
    have piece := slice_sector_piece (clear_of_fills fills_pvd) (Nat.le_of_ble_eq_true rfl) member
    rw [volume, rd32_of_slice piece]
    exact imageSector_ofNat (by cases config.useEltorito <;> decide)
  have pathM : imageSector config (readBe32 (words (sectorAt image 16)) 148) = (places config.useEltorito).pathTableM := by
    have member : ⟨148, beNat ((places config.useEltorito).pathTableM + config.startLba.toNat)⟩ ∈ pvd config clock total := by
      simp [pvd]
    have piece := slice_sector_piece (clear_of_fills fills_pvd) (Nat.le_of_ble_eq_true rfl) member
    rw [volume, readBe32_of_slice piece]
    exact imageSector_ofNat (by cases config.useEltorito <;> decide)
  have root : imageSector config (rootRecord image).extent = (places config.useEltorito).rootDir := by
    rw [rootRecord_eq written there]
    exact imageSector_add (by cases config.useEltorito <;> decide)
  rw [fixedExtents, pathL, pathM, root]
  apply fills_of_fits
  cases kind : config.useEltorito with
  | false => simp [Extent.Fits, stop, places]
  | true => simp [Extent.Fits, stop, places, (bootEntry_eq written there kind).1]

/-- The records behind those of the writer are those of the files. -/
theorem recordExtents_eq (written : Written config files clock image total bootLba bootLoad) (there : missing config = 0)
    (extents : ∀ file ∈ layoutOf config files, file.extentLba < 2 ^ 32) :
    recordExtents config image = fileExtents (layoutOf config files) := by
  have behind : (records config (layoutOf config files)).drop (if config.useEltorito then 3 else 2) =
      (layoutOf config files).map (recordOf config) := by
    rw [records]
    cases config.useEltorito with
    | false => rfl
    | true => rfl
  rw [recordExtents, directory_eq written there, behind, List.map_map, fileExtents]
  refine List.map_congr_left fun file member => ?_
  obtain ⟨input, inside, -, data⟩ := mem_layout member
  have size := written.sizes input inside
  rw [← data] at size
  rw [Function.comp_apply, recordOf, imageSector_add (extents file member), BitVec.toNat_ofNat,
    Nat.mod_eq_of_lt (by omega)]

/-- An image of inputs that it can have has them. -/
theorem contains_of_fits (written : Written config files clock image total bootLba bootLoad) (fits : Fits config files) :
    Contains config files image total := by
  have area := missing_eq_zero.mpr fits.area
  have length := (length_iff written).mpr ⟨fits.sizes, fits.sectors, area⟩
  have sectors := fits.sectors
  rw [imageSectors] at sectors
  obtain ⟨fills, places⟩ := layFiles_places fits.sizes
    (by omega : (places config.useEltorito).firstFile + sectorSum files < 2 ^ 32)
  have count : total = imageSectors config files := by
    have whole := length_image written
    rw [area] at whole
    omega
  have extents (file : LayoutFile) (member : file ∈ layoutOf config files) : file.extentLba < 2 ^ 32 := by
    have start := fills.below _ (List.mem_map_of_mem member)
    rw [stop] at start
    dsimp only at start
    omega
  have read := directory_eq written area
  have names : ((records config (layoutOf config files)).map Record.name).Nodup := by
    have same : (files.map fun file => layoutName file.name) = files.map File.name :=
      List.map_congr_left fun file member => layoutName_eq (fits.short file member)
    rw [records_names, same]
    exact fits.names
  have size (file : LayoutFile) (member : file ∈ layoutOf config files) :
      (recordOf config file).size.toNat = file.data.length := by
    obtain ⟨input, inside, -, data⟩ := mem_layout member
    have small := fits.sizes input inside
    rw [recordOf, BitVec.toNat_ofNat, data]
    exact Nat.mod_eq_of_lt (by omega)
  constructor
  · exact length
  · exact declared_eq written area
  · rwa [read]
  · intro input inside
    obtain ⟨file, member, name, data⟩ := layout_of_mem config inside
    refine ⟨recordOf config file, read ▸ recordOf_mem member, ?_, ?_, ?_⟩
    · exact name.trans (layoutName_eq (fits.short input inside))
    · rw [size file member, data]
    · have there := places _ (zeros ((IsoLite.places config.useEltorito).trailingPad * 2048)) (length_front written area)
        file member
      rw [size file member, recordOf, imageSector_add (extents file member), written.image, ← data]
      exact there
  · rw [recordExtents_eq written area extents, count, imageSectors]
    refine (fixed_fills written area).append le_rfl (fills.mono le_rfl ?_)
    exact Nat.le_add_right _ _
  · intro boot
    obtain ⟨file, member, name, lba, load⟩ := bootImage_eq_ok written.boot boot
    obtain ⟨input, inside, name', data⟩ := mem_layout member
    have small := fits.sizes input inside
    have bounded := fits.boot boot input inside ((layoutName_eq (fits.short input inside)).symm.trans (name'.symm.trans name))
    refine ⟨recordOf config file, read ▸ recordOf_mem member, name, ?_, ?_⟩
    · rw [(bootEntry_eq written area boot).2, lba, recordOf]
      apply BitVec.eq_of_toNat_eq
      simp
    · rw [(bootEntry_eq written area boot).2, size file member, load, data, sectorsFor, sectorSize]
      dsimp only
      omega

end Contents

section Runs

variable {config : Config} {files files' : List File} {clock : Clock} {image : List Byte} {total : ℕ}

/-- The ways to an image: the stream of some files, or the tool with a directory, whose files are sorted. -/
inductive Produces : Config → List File → List Byte → ℕ → Prop where
  | stream {config : Config} {files : List File} {clock : Clock} {image : List Byte} {total : ℕ}
    (accepted : writeStream config files clock = .ok (image, total)) : Produces config files image total
  | tool {config : Config} {bootPath : Option (List Byte)} {entries : List Entry} {sort : List File → List File}
    {clock : Clock} {image : List Byte} {total : ℕ} (permutes : ∀ files, (sort files).Perm files)
    (accepted : mkiso config bootPath entries sort clock = .ok (image, total)) :
    Produces (toolConfig config bootPath) (collectFiles entries) image total

theorem Contains.of_perm (contains : Contains config files image total) (perm : files.Perm files') :
    Contains config files' image total where
  length := contains.length
  declared := contains.declared
  distinct := contains.distinct
  found file member := contains.found file (perm.mem_iff.mpr member)
  apart := contains.apart
  boot := contains.boot

theorem Fits.of_perm (fits : Fits config files) (perm : files.Perm files') : Fits config files' where
  names := ((perm.map File.name).append_left (ownNames config)).nodup_iff.mp fits.names
  short file member := fits.short file (perm.mem_iff.mpr member)
  sizes file member := fits.sizes file (perm.mem_iff.mpr member)
  sectors := by
    have same : sectorSum files = sectorSum files' := (perm.map _).sum_nat
    rw [imageSectors, ← same]
    exact fits.sectors
  boot kind file member := fits.boot kind file (perm.mem_iff.mpr member)
  area := fits.area

/-- A configuration without a system area. -/
def plainConfig (bootName : List Byte) : Config := ⟨[], none, none, 0, 0, bootName⟩

def stoppedClock : Clock := ⟨fun _ _ => 0, fun _ _ => 0⟩

end Runs

end KosTool.IsoLite
