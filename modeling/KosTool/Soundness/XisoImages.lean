import KosTool.Soundness.XisoSectors
import Mathlib.Algebra.Order.BigOperators.Group.List
import Mathlib.Algebra.Order.Ring.Nat
import Mathlib.Data.List.Zip

/-! # An XISO image can be searched

Tables and files share no sector, so each is in the image as it was written, and each table is a search tree whose offsets
have 16 bits. This holds exactly if no table is too large for its offsets, no file is close to 4 GiB, and the sectors can be
counted.
-/

namespace KosTool.Xiso

open ByteWord WordPatch Placement Fallible Extent
open Elf2irx (orDie)
open IsoLite (ascii le16 leNat sectorCount sectorsFor_eq)

section Entries

theorem length_entryOf (kid : PlacedKid) : (entryOf kid).length = 14 + kid.node.name.length := by
  simp only [entryOf, List.length_append, List.length_cons, List.length_nil, IsoLite.length_le16, IsoLite.length_leNat]

theorem byte_of_slice {img : Buffer} {place : ℕ} {bytes : List Byte} {count i : ℕ} {byte : Byte}
    (same : slice img place count = bytes) (there : bytes[i]? = some byte) : img (place + i) = byte := by
  obtain ⟨inside, rfl⟩ := List.getElem?_eq_some_iff.mp (same ▸ there)
  exact (getElem_slice img place count i inside).symm

/-- The two bytes of a number of 16 bits. -/
theorem le16_value {value : ℕ} (small : value < 2 ^ 16) :
    (BitVec.ofNat 8 value).toNat + 256 * (BitVec.ofNat 8 (value / 256)).toNat = value := by
  rw [BitVec.toNat_ofNat, BitVec.toNat_ofNat]
  omega

/-- The fields of an entry fit. -/
structure Fields (kid : PlacedKid) : Prop where
  left : kid.slot.left < 2 ^ 16
  right : kid.slot.right < 2 ^ 16
  start : kid.start < 2 ^ 32
  size : kid.node.size < 2 ^ 32
  name : kid.node.name.length < 256

/-- An entry is read as it was written. -/
theorem entryAt_of_slice {img : Buffer} {place : ℕ} {kid : PlacedKid} (fields : Fields kid)
    (same : slice img place (14 + kid.node.name.length) = entryOf kid) :
    entryAt img place = ⟨kid.slot.left, kid.slot.right, kid.start, kid.node.size, kid.node.attr, kid.node.name⟩ := by
  have head {i : ℕ} {byte : Byte} (there : (entryOf kid)[i]? = some byte) : img (place + i) = byte := byte_of_slice same there
  have start : slice img (place + 4) 4 = leNat kid.start := by
    rw [slice_slice img place (by omega : 4 + 4 ≤ 14 + kid.node.name.length), same]
    rfl
  have size : slice img (place + 8) 4 = leNat kid.node.size := by
    rw [slice_slice img place (by omega : 8 + 4 ≤ 14 + kid.node.name.length), same]
    rfl
  have count : (BitVec.ofNat 8 kid.node.name.length).toNat = kid.node.name.length := by
    rw [BitVec.toNat_ofNat]
    exact Nat.mod_eq_of_lt fields.name
  have name : slice img (place + 14) kid.node.name.length = kid.node.name := by
    rw [slice_slice img place (le_refl (14 + kid.node.name.length)), same]
    exact List.take_length
  have zeroth : img place = BitVec.ofNat 8 kid.slot.left := head (i := 0) rfl
  rw [entryAt, rd32_of_slice start, rd32_of_slice size, head (i := 13) rfl, head (i := 12) rfl, zeroth,
    head (i := 1) rfl, head (i := 2) rfl, head (i := 3) rfl, le16_value fields.left, le16_value fields.right, count, name,
    BitVec.toNat_ofNat, BitVec.toNat_ofNat, Nat.mod_eq_of_lt fields.start, Nat.mod_eq_of_lt fields.size]

end Entries

section Emission

/-- The pieces of the table of a directory. -/
def entryPieces (dir : PlacedDir) : List Piece :=
  dir.byName.map fun kid => ⟨dir.start * sectorSize + kid.slot.entOff, entryOf kid⟩

/-- The bytes of the table of a directory, over nothing. -/
def tableBytes (dir : PlacedDir) : List Byte :=
  slice (emitDirTable dir fun _ => 0) (dir.start * sectorSize) (tableOf dir.nodes).cursor

/-- The entries of a table are inside it and share no place. -/
structure Tidy (dir : PlacedDir) : Prop where
  inside : ∀ kid ∈ dir.kids, kid.slot.entOff + (14 + kid.node.name.length) ≤ (tableOf dir.nodes).cursor
  apart : dir.kids.Pairwise fun kid kid' =>
    Extent.Clear ⟨kid.slot.entOff, 14 + kid.node.name.length⟩ ⟨kid'.slot.entOff, 14 + kid'.node.name.length⟩

variable {dirs : List PlacedDir} {dir : PlacedDir}

theorem byName_perm (dir : PlacedDir) : dir.byName.Perm dir.kids := List.perm_insertionSort _ _

/-- The whole table of a directory is written at once. -/
theorem emitDirTable_eq (tidy : Tidy dir) (img : Buffer) :
    emitDirTable dir img = storeAt img (dir.start * sectorSize) (tableBytes dir) := by
  have overrun (blank : Buffer) : emitDirTable dir blank = place (entryPieces dir) (storeAt blank (dir.start * sectorSize)
      (List.replicate (tableOf dir.nodes).cursor 0xFF)) := rfl
  have length : (List.replicate (tableOf dir.nodes).cursor (0xFF : Byte)).length = (tableOf dir.nodes).cursor :=
    List.length_replicate
  funext i
  rw [tableBytes, storeAt_slice, overrun, overrun]
  split_ifs with inside
  · rw [Nat.add_sub_cancel' inside.1]
    refine place_congr ?_
    obtain ⟨j, rfl⟩ := Nat.exists_eq_add_of_le inside.1
    have short : j < (List.replicate (tableOf dir.nodes).cursor (0xFF : Byte)).length := by
      rw [length]
      omega
    rw [storeAt_add, storeAt_add, overlay_of_lt short, overlay_of_lt short]
  · rw [place_outside, storeAt_outside _ (by rw [length]; omega)]
    intro piece member holds
    obtain ⟨kid, among, rfl⟩ := List.mem_map.mp member
    have bound := tidy.inside kid ((byName_perm dir).mem_iff.mp among)
    obtain ⟨above, under⟩ := holds
    rw [Piece.extent, stop, length_entryOf] at under
    rw [Piece.extent] at above
    dsimp only at above under
    omega

/-- An entry is found in the bytes of its table. -/
theorem entry_of_table (tidy : Tidy dir) {kid : PlacedKid} (member : kid ∈ dir.kids) {img : Buffer}
    (there : slice img (dir.start * sectorSize) (tableOf dir.nodes).cursor = tableBytes dir) :
    slice img (dir.start * sectorSize + kid.slot.entOff) (14 + kid.node.name.length) = entryOf kid := by
  have apart : (entryPieces dir).Pairwise fun first second => first.extent.Clear second.extent := by
    refine List.pairwise_map.mpr (((byName_perm dir).symm.pairwise_iff fun clear => Clear.symm clear).mp ?_)
    refine tidy.apart.imp fun {kid kid'} clear => ?_
    rw [Piece.extent, Piece.extent, length_entryOf, length_entryOf]
    simp only [Clear, Before, stop] at clear ⊢
    omega
  have found := slice_place apart (List.mem_map_of_mem ((byName_perm dir).mem_iff.mpr member))
    (storeAt (fun _ => 0) (dir.start * sectorSize) (List.replicate (tableOf dir.nodes).cursor 0xFF))
  rw [length_entryOf] at found
  refine Eq.trans ?_ found
  have inside := tidy.inside kid member
  rw [slice_slice img (dir.start * sectorSize) inside, there, tableBytes, ← slice_slice _ _ inside]
  rfl

/-- The piece of a table. -/
def tablePiece (dir : PlacedDir) : Piece := ⟨dir.start * sectorSize, tableBytes dir⟩

/-- The piece of a file. A directory has none in its place. -/
def kidPiece (kid : PlacedKid) : Piece :=
  match kid.node with
  | .file _ data => ⟨kid.start * sectorSize, data⟩
  | .dir _ _ => ⟨kid.start * sectorSize, []⟩

/-- The tables and the files. -/
def pieces (dirs : List PlacedDir) : List Piece :=
  dirs.map tablePiece ++ dirs.flatMap fun dir => (dir.kids.filter fun kid => !kid.node.isDir).map kidPiece

/-- What is written from a directory on, in its order. -/
def emitted (dirs : List PlacedDir) : ℕ → ℕ → List Piece
  | 0, _ => []
  | steps + 1, i =>
    match dirs[i]? with
    | none => []
    | some dir => tablePiece dir :: dir.byName.flatMap fun kid =>
        match kid.node with
        | .file _ data => [⟨kid.start * sectorSize, data⟩]
        | .dir _ _ => emitted dirs steps kid.child

theorem emitted_succ {i : ℕ} (there : dirs[i]? = some dir) (steps : ℕ) :
    emitted dirs (steps + 1) i = tablePiece dir :: dir.byName.flatMap fun kid =>
      match kid.node with
      | .file _ data => [⟨kid.start * sectorSize, data⟩]
      | .dir _ _ => emitted dirs steps kid.child := by
  rw [emitted, there]

/-- The image is what was there with the pieces over it. -/
theorem emitAll_eq (tidy : ∀ dir ∈ dirs, Tidy dir) (steps i : ℕ) (img : Buffer) :
    emitAll dirs steps i img = place (emitted dirs steps i) img := by
  induction steps generalizing i img with
  | zero => rfl
  | succ steps ih =>
    rw [emitAll, emitted]
    cases there : dirs[i]? with
    | none => rfl
    | some dir =>
      dsimp only
      rw [emitDirTable_eq (tidy dir (List.mem_of_getElem? there)), ← List.singleton_append, place_append, place_flatMap]
      refine List.foldl_ext _ _ _ fun written kid _ => ?_
      cases kid.node with
      | file name data => rfl
      | dir name nodes => exact ih kid.child written

/-- Only the tables and the files are written. -/
theorem mem_pieces_of_emitted {steps i : ℕ} {piece : Piece} (member : piece ∈ emitted dirs steps i) : piece ∈ pieces dirs := by
  induction steps generalizing i with
  | zero => nomatch member
  | succ steps ih =>
    cases there : dirs[i]? with
    | none =>
      rw [emitted, there] at member
      nomatch member
    | some dir =>
      have inside := List.mem_of_getElem? there
      rw [emitted_succ there] at member
      rcases List.mem_cons.mp member with rfl | member
      · exact List.mem_append_left _ (List.mem_map_of_mem inside)
      · obtain ⟨kid, among, own⟩ := List.mem_flatMap.mp member
        have listed := (byName_perm dir).mem_iff.mp among
        cases node : kid.node with
        | file name data =>
          rw [node] at own
          cases List.mem_singleton.mp own
          refine List.mem_append_right _ (List.mem_flatMap.mpr ⟨dir, inside, List.mem_map.mpr ⟨kid, ?_, ?_⟩⟩)
          · exact List.mem_filter.mpr ⟨listed, by rw [node]; rfl⟩
          · rw [kidPiece, node]
        | dir name nodes =>
          rw [node] at own
          exact ih own

/-- The pieces with the bytes that are given out for them. -/
theorem pieces_items (dirs : List PlacedDir) : (pieces dirs).map Piece.extent =
    (dirs.map PlacedDir.item ++ dirs.flatMap PlacedDir.fileItems).map fun item => ⟨item.1 * sectorSize, item.2⟩ := by
  rw [pieces, List.map_append, List.map_append, List.map_map, List.map_map, List.map_flatMap, List.map_flatMap]
  congr 1
  · refine List.map_congr_left fun dir _ => ?_
    rw [Function.comp_apply, Function.comp_apply, tablePiece, Piece.extent, PlacedDir.item, tableBytes, length_slice]
  · congr 1
    funext dir
    rw [PlacedDir.fileItems, List.map_map, List.map_map]
    refine List.map_congr_left fun kid member => ?_
    have isFile := (List.mem_filter.mp member).2
    obtain ⟨node, index, slot, start, child⟩ := kid
    cases node with
    | file name data => rfl
    | dir name nodes => exact absurd isFile Bool.false_ne_true

theorem size_le_sectorCount (size : ℕ) : size ≤ sectorCount size * sectorSize := by
  rw [sectorCount, sectorSize]
  omega

/-- Pieces at sectors that are not shared share no place. -/
theorem pieces_apart {items : List (ℕ × ℕ)} (apart : ((taken items).map sectorExtent).Pairwise Clear)
    (same : (pieces dirs).map Piece.extent = items.map fun item => ⟨item.1 * sectorSize, item.2⟩) :
    ∀ piece ∈ pieces dirs, ∀ other ∈ pieces dirs, other = piece ∨ ∀ i, piece.extent.Holds i → ¬other.extent.Holds i := by
  have items_clear := List.pairwise_filter.mp (List.pairwise_map.mp apart)
  have extents_apart : (items.map fun item => (⟨item.1 * sectorSize, item.2⟩ : Extent)).Pairwise fun first second =>
      ∀ i, first.Holds i → ¬second.Holds i := by
    refine List.pairwise_map.mpr (items_clear.imp fun {first second} clear i holds holds' => ?_)
    have some : first.2 ≠ 0 := by
      rintro zero
      rw [Extent.Holds, stop, zero] at holds
      dsimp only at holds
      omega
    have some' : second.2 ≠ 0 := by
      rintro zero
      rw [Extent.Holds, stop, zero] at holds'
      dsimp only at holds'
      omega
    have bound := size_le_sectorCount first.2
    have bound' := size_le_sectorCount second.2
    have order := clear (decide_eq_true some) (decide_eq_true some')
    simp only [Extent.Holds, stop] at holds holds'
    simp only [Clear, Before, stop, sectorExtent, sectorSize] at order bound bound' holds holds'
    omega
  rw [← same] at extents_apart
  intro piece member other member'
  rw [or_iff_not_imp_left]
  intro differ
  have symm : Std.Symm fun first second : Piece => ∀ i, first.extent.Holds i → ¬second.extent.Holds i :=
    ⟨fun _ _ apart i holds holds' => apart i holds' holds⟩
  exact (List.pairwise_map.mp extents_apart).forall member member' (Ne.symm differ)

variable {nodes : List Node}

/-- Each directory is reached, the later the more steps it takes. -/
theorem emitted_reaches {m : ℕ} (there : (imageOf nodes).dirs[m]? = some dir) {extra steps : ℕ} (enough : m + 1 + extra ≤ steps) :
    ∃ rest, 1 + extra ≤ rest ∧ emitted (imageOf nodes).dirs rest m ⊆ emitted (imageOf nodes).dirs steps 0 := by
  induction m using Nat.strong_induction_on generalizing dir extra with
  | _ m ih =>
    rcases Nat.eq_zero_or_pos m with rfl | later
    · exact ⟨steps, by omega, List.Subset.refl _⟩
    · obtain ⟨k, less, parent, at_k, kid, member, name, node, -, child⟩ := image_parent there later
      obtain ⟨rest, bound, inside⟩ := ih k less at_k (by omega : k + 1 + (m - k + extra) ≤ steps)
      obtain ⟨rest, rfl⟩ : ∃ rest', rest = rest' + 1 := ⟨rest - 1, by omega⟩
      refine ⟨rest, by omega, fun piece found => inside ?_⟩
      rw [emitted_succ at_k]
      refine List.mem_cons_of_mem _ (List.mem_flatMap.mpr ⟨kid, (byName_perm parent).mem_iff.mpr member, ?_⟩)
      rw [node, child]
      exact found

/-- All tables and files are written. -/
theorem pieces_subset (nodes : List Node) :
    pieces (imageOf nodes).dirs ⊆ emitted (imageOf nodes).dirs (imageOf nodes).dirs.length 0 := by
  have own {dir : PlacedDir} (member : dir ∈ (imageOf nodes).dirs) {piece : Piece}
      (found : ∀ steps m, (imageOf nodes).dirs[m]? = some dir → piece ∈ emitted (imageOf nodes).dirs (steps + 1) m) :
      piece ∈ emitted (imageOf nodes).dirs (imageOf nodes).dirs.length 0 := by
    obtain ⟨m, there⟩ := List.mem_iff_getElem?.mp member
    have inside := (List.getElem?_eq_some_iff.mp there).1
    obtain ⟨rest, bound, subset⟩ := emitted_reaches there (by omega : m + 1 + 0 ≤ (imageOf nodes).dirs.length)
    obtain ⟨rest, rfl⟩ : ∃ rest', rest = rest' + 1 := ⟨rest - 1, by omega⟩
    exact subset (found rest m there)
  intro piece member
  rcases List.mem_append.mp member with table | file
  · obtain ⟨dir, inside, rfl⟩ := List.mem_map.mp table
    refine own inside fun steps m there => ?_
    rw [emitted_succ there]
    exact List.mem_cons_self
  · obtain ⟨dir, inside, member⟩ := List.mem_flatMap.mp file
    obtain ⟨kid, listed, rfl⟩ := List.mem_map.mp member
    obtain ⟨among, isFile⟩ := List.mem_filter.mp listed
    refine own inside fun steps m there => ?_
    rw [emitted_succ there]
    refine List.mem_cons_of_mem _ (List.mem_flatMap.mpr ⟨kid, (byName_perm dir).mem_iff.mpr among, ?_⟩)
    rw [kidPiece]
    cases node : kid.node with
    | file name data => exact List.mem_singleton_self _
    | dir name nodes =>
      rw [node] at isFile
      nomatch isFile

end Emission

section Statement

/-- The place of the volume descriptor. -/
def volumeStart : ℕ := reservedSec * sectorSize

/-- A child is found by its name in the table of its directory, and what is found leads to it. -/
structure Holds (image : Image) (dir : PlacedDir) (kid : PlacedKid) : Prop where
  finds : Finds image.bytes (dir.start * sectorSize) kid.node.name 0 kid.slot.entOff
  name : (entryAt image.bytes (dir.start * sectorSize + kid.slot.entOff)).name = kid.node.name
  attr : (entryAt image.bytes (dir.start * sectorSize + kid.slot.entOff)).attr = kid.node.attr
  size : (entryAt image.bytes (dir.start * sectorSize + kid.slot.entOff)).size = kid.node.bytes
  start : (entryAt image.bytes (dir.start * sectorSize + kid.slot.entOff)).start = kid.start
  data : ∀ name data, kid.node = .file name data → slice image.bytes (kid.start * sectorSize) data.length = data
  table : ∀ name kids, kid.node = .dir name kids → ∃ sub ∈ image.dirs, sub.start = kid.start ∧ sub.nodes = kids

/-- The volume descriptor leads to the table of the root, every file and every directory is found in the table of its
directory, and no two tables or files share a sector. -/
structure Searchable (nodes : List Node) (image : Image) : Prop where
  volume : slice image.bytes volumeStart 20 = xdvdfsMagic ∧ ∃ root ∈ image.dirs, root.nodes = nodes ∧
    (rd32 image.bytes (volumeStart + 0x14)).toNat = root.start ∧
    (rd32 image.bytes (volumeStart + 0x18)).toNat = (nodes.map entryBytes).sum
  found : ∀ dir ∈ image.dirs, ∀ node ∈ dir.nodes, ∃ kid ∈ dir.kids, kid.node = node ∧ Holds image dir kid
  apart : Scattered 0 image.sectors ((taken (image.dirs.map PlacedDir.item ++
    image.dirs.flatMap PlacedDir.fileItems)).map sectorExtent)

/-- The names of siblings differ for the format. -/
def Distinct (nodes : List Node) : Prop := nodes.Pairwise fun a b => xdvdfsCmp a.name b.name ≠ 0

/-- The last entry of a table starts where an offset of 16 bits in words can point. -/
def Near (nodes : List Node) : Prop := (nodes.dropLast.map entryBytes).sum < 2 ^ 18

instance (nodes : List Node) : Decidable (Near nodes) := inferInstanceAs (Decidable (_ < _))

/-- No table is too large for its offsets, no file is close to 4 GiB, and the sectors can be counted. -/
structure Fits (nodes : List Node) : Prop where
  tables : Everywhere Near nodes
  files : ∀ name data, .file name data ∈ below nodes → data.length + 2047 < 2 ^ 32
  sectors : 33 + sectorCount (nodes.map entryBytes).sum + ((below nodes).map fun node => sectorCount node.bytes).sum + 31 <
    2 ^ 32

end Statement

section Tables

variable {nodes : List Node}

/-- What an accepted scan has made sure of, with names that differ. -/
structure Known (nodes : List Node) : Prop where
  scanned : ∀ node ∈ below nodes, Scanned node
  sorted : Everywhere Sorted nodes
  distinct : Everywhere Distinct nodes

/-- What is known of the nodes of one directory. -/
structure Siblings (nodes : List Node) : Prop where
  rightful : ∀ node ∈ nodes, ∀ c ∈ node.name, c ≠ 0
  short : ∀ node ∈ nodes, node.name.length ≤ 255
  strict : (nodes.map fun node => key node.name).Pairwise (· < ·)
  differ : (nodes.map Node.name).Nodup

theorem xdvdfsCmp_self (name : List Byte) : xdvdfsCmp name name = 0 := by
  induction name with
  | nil => rfl
  | cons c rest ih => simp [xdvdfsCmp, ih]

/-- A directory's nodes are those of its children. -/
theorem node_mem {dir : PlacedDir} (member : dir ∈ (imageOf nodes).dirs) {node : Node} (inside : node ∈ dir.nodes) :
    ∃ kid ∈ dir.kids, kid.node = node := by
  obtain ⟨cursor, -, tail, kids⟩ := image_placed dir member
  have perm := placeKids_nodes dir.nodes cursor tail
  rw [← kids] at perm
  exact List.mem_map.mp (perm.mem_iff.mpr inside)

theorem siblings_of_known (known : Known nodes) {dir : PlacedDir} (member : dir ∈ (imageOf nodes).dirs) :
    Siblings dir.nodes := by
  have scanned (node : Node) (inside : node ∈ dir.nodes) : Scanned node := by
    obtain ⟨kid, listed, same⟩ := node_mem member inside
    exact known.scanned node (mem_below_iff.mpr ⟨dir, member, kid, listed, same⟩)
  have sorted := everywhere_iff.mp known.sorted dir member
  have distinct := everywhere_iff.mp known.distinct dir member
  refine ⟨fun node inside => (scanned node inside).rightful, fun node inside => (scanned node inside).short, ?_, ?_⟩
  · refine List.pairwise_map.mpr (((List.pairwise_map.mp sorted).and distinct).imp_of_mem ?_)
    intro a b inside inside' order
    refine lt_of_le_of_ne order.1 fun same => order.2 ?_
    exact (xdvdfsCmp_eq_zero (scanned a inside).rightful (scanned b inside').rightful).mpr same
  · refine List.pairwise_map.mpr (distinct.imp fun differ same => differ ?_)
    rw [same]
    exact xdvdfsCmp_self _

theorem slotExtents_zip (slots : List Slot) (nodes : List Node) : slotExtents slots (nodes.map entryBytes) =
    (nodes.zip slots).map fun place => ⟨place.2.entOff, entryBytes place.1⟩ := by
  rw [slotExtents, List.zip_map_right, ← List.zip_swap, List.map_map, List.map_map]
  rfl

/-- A table whose last entry is near is small. -/
theorem sum_of_near {nodes : List Node} (short : ∀ node ∈ nodes, node.name.length ≤ 255) (near : Near nodes) :
    (nodes.map entryBytes).sum < 2 ^ 18 + 272 := by
  rcases List.eq_nil_or_concat nodes with rfl | ⟨init, last, rfl⟩
  · decide
  · rw [List.concat_eq_append] at short near ⊢
    rw [Near, List.dropLast_concat] at near
    have bound := short last (List.mem_append_right _ (List.mem_singleton_self _))
    rw [List.map_append, List.sum_append, List.map_singleton, List.sum_singleton, entryBytes]
    omega

/-- All entries are near if the last one is. -/
theorem slots_near {nodes : List Node} (small : (nodes.map entryBytes).sum < 2 ^ 32) (near : Near nodes) :
    ∀ slot ∈ (tableOf nodes).slots, slot.entOff < 2 ^ 18 := by
  rcases List.eq_nil_or_concat nodes with rfl | ⟨init, last, rfl⟩
  · exact nofun
  · rw [List.concat_eq_append] at small near ⊢
    rw [Near, List.dropLast_concat] at near
    rw [List.map_append, List.map_singleton] at small
    have enough : ((init ++ [last]).map entryBytes).length ≤ (init ++ [last]).length := by rw [List.length_map]
    rw [tableOf]
    rw [List.map_append, List.map_singleton] at enough ⊢
    obtain ⟨others, slot, slots, off, before⟩ := layout_last (by rwa [Nat.zero_add]) enough
    rw [Nat.zero_add] at off before
    rw [slots]
    intro other member
    rcases List.mem_append.mp member with early | own
    · exact (before other early).trans_lt near
    · rw [List.mem_singleton.mp own, off]
      exact near

theorem cursor_eq_sum {nodes : List Node} (small : (nodes.map entryBytes).sum < 2 ^ 32) :
    (tableOf nodes).cursor = (nodes.map entryBytes).sum := by
  rw [tableOf_cursor]
  exact Nat.mod_eq_of_lt small

/-- The entries of a directory's children share no place of its table. -/
theorem kids_scattered {dir : PlacedDir} (member : dir ∈ (imageOf nodes).dirs)
    (small : (dir.nodes.map entryBytes).sum < 2 ^ 32) : Scattered 0 (dir.nodes.map entryBytes).sum
      (dir.kids.map fun kid => ⟨kid.slot.entOff, entryBytes kid.node⟩) := by
  have scattered := layout_scattered (by rwa [Nat.zero_add] : 0 + (dir.nodes.map entryBytes).sum < 2 ^ 32)
    (by rw [List.length_map] : (dir.nodes.map entryBytes).length ≤ dir.nodes.length)
  rw [slotExtents_zip, Nat.zero_add] at scattered
  have perm := (image_places member).map fun place => (⟨place.2.entOff, entryBytes place.1⟩ : Extent)
  rw [List.map_map] at perm
  exact scattered.perm perm.symm

theorem tidy_of_small {dir : PlacedDir} (member : dir ∈ (imageOf nodes).dirs)
    (small : (dir.nodes.map entryBytes).sum < 2 ^ 32) : Tidy dir := by
  have scattered := kids_scattered member small
  constructor
  · intro kid inside
    have below := scattered.below _ (List.mem_map_of_mem inside)
    have bound := (entryBytes_bounds kid.node).1
    rw [stop] at below
    dsimp only at below
    rw [cursor_eq_sum small]
    omega
  · refine (List.pairwise_map.mp scattered.apart).imp fun {kid kid'} clear => ?_
    have bound := (entryBytes_bounds kid.node).1
    have bound' := (entryBytes_bounds kid'.node).1
    simp only [Clear, Before, stop] at clear ⊢
    omega

/-- The size of a node is that of its bytes, unless a table wraps. -/
theorem size_eq_bytes {node : Node} (small : ∀ name kids, node = .dir name kids → (kids.map entryBytes).sum < 2 ^ 32) :
    node.size = node.bytes := by
  cases node with
  | file name data => rfl
  | dir name kids => exact cursor_eq_sum (small name kids rfl)

theorem size_lt {node : Node} (scanned : Scanned node) : node.size ≤ 2 ^ 32 - 1 := by
  cases node with
  | file name data => exact scanned.small name data rfl
  | dir name kids =>
    have bound := Nat.mod_lt (kids.map entryBytes).sum (Nat.two_pow_pos 32)
    change (tableOf kids).cursor ≤ _
    rw [tableOf_cursor]
    omega

end Tables

section Sufficient

variable {nodes : List Node}

/-- All tables are small if they fit. -/
theorem small_of_near (known : Known nodes) (near : Everywhere Near nodes) {dir : PlacedDir}
    (member : dir ∈ (imageOf nodes).dirs) : (dir.nodes.map entryBytes).sum < 2 ^ 18 + 272 :=
  sum_of_near (siblings_of_known known member).short (everywhere_iff.mp near dir member)

theorem small_everywhere (known : Known nodes) (near : Everywhere Near nodes) :
    Everywhere (fun nodes => (nodes.map entryBytes).sum < 2 ^ 18 + 272) nodes :=
  everywhere_iff.mpr fun _ member => small_of_near known near member

theorem size_eq_of_near (known : Known nodes) (near : Everywhere Near nodes) {node : Node} (member : node ∈ below nodes) :
    node.size = node.bytes := by
  refine size_eq_bytes fun name kids same => ?_
  rw [same] at member
  exact ((small_everywhere known near).dirs name kids member).trans (by decide)

/-- The sectors that are given out are those that there are. -/
theorem image_fills (known : Known nodes) (fits : Fits nodes) :
    Fills 33 (imageOf nodes).sectors ((taken ((33, (tableOf nodes).cursor) :: kidItems (imageOf nodes).dirs)).map sectorExtent) := by
  have small := (small_everywhere known fits.tables).root
  have root := cursor_eq_sum (small.trans (by decide))
  have counted : Countable (tableOf nodes).cursor := by
    rw [root, Countable]
    omega
  have sums : ((allNodes (imageOf nodes).dirs).map fun node => sectorCount node.size).sum =
      ((below nodes).map fun node => sectorCount node.bytes).sum := by
    refine ((image_nodes nodes).map _).sum_eq.trans (congrArg List.sum (List.map_congr_left fun node member => ?_))
    rw [size_eq_of_near known fits.tables member]
  have countable : ∀ node ∈ allNodes (imageOf nodes).dirs, Countable node.size := by
    intro node member
    have inside := (image_nodes nodes).mem_iff.mp member
    rw [size_eq_of_near known fits.tables inside]
    cases node with
    | file name data => exact fits.files name data inside
    | dir name kids =>
      have bound := (small_everywhere known fits.tables).dirs name kids inside
      change (kids.map entryBytes).sum + 2047 < 2 ^ 32
      omega
  have sectors := fits.sectors
  rw [← root, ← sums] at sectors
  have start : (reservedSec + 1 + secCount (tableOf nodes).cursor) % 2 ^ 32 = 33 + sectorCount (tableOf nodes).cursor := by
    rw [secCount_eq counted, reservedSec]
    exact Nat.mod_eq_of_lt (by omega)
  have assigns := assignSectors_assigns nodes
  rw [start] at assigns
  obtain ⟨last, fills⟩ := assigns.fills countable (by omega)
  have top : (assignSectors nodes).2 ≤ (imageOf nodes).sectors := by
    rw [image_sectors, alignUp, alignSectors]
    omega
  have own : Fills 33 (33 + sectorCount (tableOf nodes).cursor) ((taken [(33, (tableOf nodes).cursor)]).map sectorExtent) := by
    rcases Nat.eq_zero_or_pos (tableOf nodes).cursor with zero | positive
    · have none : taken [(33, (tableOf nodes).cursor)] = [] := List.filter_cons_of_neg (by simp [zero])
      rw [none]
      exact .nil (Nat.le_add_right _ _)
    · have one : taken [(33, (tableOf nodes).cursor)] = [(33, (tableOf nodes).cursor)] :=
        List.filter_cons_of_pos (by simp [positive.ne'])
      rw [one]
      exact .single le_rfl le_rfl
  rw [taken_cons, List.map_append]
  exact own.append le_rfl (fills.mono le_rfl top)

/-- The tables and the files are all that is given out. -/
theorem image_items (nodes : List Node) : ((33, (tableOf nodes).cursor) :: kidItems (imageOf nodes).dirs).Perm
    ((imageOf nodes).dirs.map PlacedDir.item ++ (imageOf nodes).dirs.flatMap PlacedDir.fileItems) :=
  (assignSectors_assigns nodes).items

theorem taken_perm {items others : List (ℕ × ℕ)} (perm : items.Perm others) : (taken items).Perm (taken others) :=
  perm.filter _

/-- A piece is in the image as it was written. -/
theorem image_piece (known : Known nodes) (fits : Fits nodes) {piece : Piece} (member : piece ∈ pieces (imageOf nodes).dirs) :
    slice (imageOf nodes).bytes piece.off piece.bytes.length = piece.bytes := by
  have tidy (dir : PlacedDir) (inside : dir ∈ (imageOf nodes).dirs) : Tidy dir :=
    tidy_of_small inside ((small_of_near known fits.tables inside).trans (by decide))
  have bytes : (imageOf nodes).bytes = emitAll (imageOf nodes).dirs (imageOf nodes).dirs.length 0
      (place (volume (reservedSec + 1) (tableOf nodes).cursor) fun _ => 0) := rfl
  have apart := ((image_fills known fits).scattered.perm ((taken_perm (image_items nodes)).map _)).apart
  rw [bytes, emitAll_eq tidy]
  refine slice_place_of_same (pieces_subset nodes member) (fun other written => ?_) _
  exact pieces_apart apart (pieces_items _) piece member other (mem_pieces_of_emitted written)

/-- Nothing is written over the volume descriptor. -/
theorem image_volume (known : Known nodes) (fits : Fits nodes) {i : ℕ} (inside : i < 33 * sectorSize) :
    (imageOf nodes).bytes i = place (volume (reservedSec + 1) (tableOf nodes).cursor) (fun _ => 0) i := by
  have tidy (dir : PlacedDir) (inside : dir ∈ (imageOf nodes).dirs) : Tidy dir :=
    tidy_of_small inside ((small_of_near known fits.tables inside).trans (by decide))
  have bytes : (imageOf nodes).bytes = emitAll (imageOf nodes).dirs (imageOf nodes).dirs.length 0
      (place (volume (reservedSec + 1) (tableOf nodes).cursor) fun _ => 0) := rfl
  rw [bytes, emitAll_eq tidy]
  refine place_outside (fun piece written holds => ?_) _
  have extent := List.mem_map_of_mem (f := Piece.extent) (mem_pieces_of_emitted written)
  rw [pieces_items] at extent
  obtain ⟨item, listed, same⟩ := List.mem_map.mp extent
  rw [← same] at holds
  obtain ⟨above, under⟩ := holds
  rw [stop] at under
  dsimp only at above under
  have some : item ∈ taken ((33, (tableOf nodes).cursor) :: kidItems (imageOf nodes).dirs) :=
    List.mem_filter.mpr ⟨(image_items nodes).mem_iff.mpr listed, decide_eq_true (by omega)⟩
  have bound := (image_fills known fits).above _ (List.mem_map_of_mem some)
  rw [sectorExtent] at bound
  dsimp only at bound
  have start := Nat.mul_le_mul_right sectorSize bound
  omega

/-- The entry of a child is read from the image. -/
theorem image_entry (known : Known nodes) (fits : Fits nodes) {dir : PlacedDir} (member : dir ∈ (imageOf nodes).dirs)
    {kid : PlacedKid} (listed : kid ∈ dir.kids) :
    entryAt (imageOf nodes).bytes (dir.start * sectorSize + kid.slot.entOff) =
      ⟨kid.slot.left, kid.slot.right, kid.start, kid.node.size, kid.node.attr, kid.node.name⟩ := by
  have inside : kid.node ∈ below nodes := mem_below_iff.mpr ⟨dir, member, kid, listed, rfl⟩
  have scanned := known.scanned kid.node inside
  have place := (image_places member).mem_iff.mp (List.mem_map_of_mem listed)
  obtain ⟨left, right⟩ := slots_lt (List.of_mem_zip place).2
  have size := size_lt scanned
  have table := image_piece known fits (List.mem_append_left _ (List.mem_map_of_mem (f := tablePiece) member))
  rw [tablePiece, tableBytes, length_slice] at table
  refine entryAt_of_slice ⟨left, right, image_start member kid listed, by omega, Nat.lt_succ_of_le scanned.short⟩ ?_
  exact entry_of_table (tidy_of_small member ((small_of_near known fits.tables member).trans (by decide))) listed table

theorem volume_clear (start size : ℕ) : (volume start size).Pairwise fun first second => first.extent.Clear second.extent := by
  have extents : (volume start size).map Piece.extent = [⟨65536, 20⟩, ⟨65556, 4⟩, ⟨65560, 4⟩, ⟨67564, 20⟩] := rfl
  have fits : Extent.Fits 65536 67584 [⟨65536, 20⟩, ⟨65556, 4⟩, ⟨65560, 4⟩, ⟨67564, 20⟩] := by simp [Extent.Fits, stop]
  exact clear_of_fills (extents ▸ fills_of_fits fits)

/-- The image of nodes that fit can be searched. -/
theorem searchable_of_fits (known : Known nodes) (fits : Fits nodes) : Searchable nodes (imageOf nodes) := by
  have small {dir : PlacedDir} (member : dir ∈ (imageOf nodes).dirs) : (dir.nodes.map entryBytes).sum < 2 ^ 32 :=
    (small_of_near known fits.tables member).trans (by decide)
  constructor
  · have same (i count : ℕ) (inside : i + count ≤ 33 * sectorSize) : slice (imageOf nodes).bytes i count =
        slice (place (volume (reservedSec + 1) (tableOf nodes).cursor) fun _ => 0) i count :=
      slice_congr fun j less => image_volume known fits (by omega)
    have apart := volume_clear (reservedSec + 1) (tableOf nodes).cursor
    obtain ⟨root, there, start, own⟩ := image_root nodes
    refine ⟨?_, root, List.mem_of_getElem? there, own, ?_, ?_⟩
    · rw [same _ _ (by decide)]
      exact slice_place apart List.mem_cons_self _
    · have word : rd32 (imageOf nodes).bytes (volumeStart + 0x14) = BitVec.ofNat 32 33 := by
        refine rd32_of_slice ((same _ 4 (by decide)).trans ?_)
        exact slice_place apart (List.mem_cons_of_mem _ List.mem_cons_self) _
      rw [word, start]
      rfl
    · have word : rd32 (imageOf nodes).bytes (volumeStart + 0x18) = BitVec.ofNat 32 (tableOf nodes).cursor := by
        refine rd32_of_slice ((same _ 4 (by decide)).trans ?_)
        exact slice_place apart (List.mem_cons_of_mem _ (List.mem_cons_of_mem _ List.mem_cons_self)) _
      have bound := small (List.mem_of_getElem? there)
      rw [own] at bound
      rw [word, cursor_eq_sum bound, BitVec.toNat_ofNat]
      exact Nat.mod_eq_of_lt bound
  · intro dir member node inside
    have siblings := siblings_of_known known member
    obtain ⟨kid, listed, rfl⟩ := node_mem member inside
    have entry := image_entry known fits member listed
    have deep : kid.node ∈ below nodes := mem_below_iff.mpr ⟨dir, member, kid, listed, rfl⟩
    refine ⟨kid, listed, rfl, ?_, ?_, ?_, ?_, ?_, ?_, ?_⟩
    · have room : 0 + (dir.nodes.map entryBytes).sum < 2 ^ 32 := by
        rw [Nat.zero_add]
        exact small member
      refine finds_layout siblings.rightful siblings.strict room (le_refl dir.nodes.length) (Nat.dvd_zero 4)
        (slots_near (small member) (everywhere_iff.mp fits.tables dir member)) (fun place among => ?_) (kid.node, kid.slot)
        ((image_places member).mem_iff.mp (List.mem_map_of_mem listed))
      obtain ⟨other, listed', rfl⟩ := List.mem_map.mp ((image_places member).mem_iff.mpr among)
      have entry' := image_entry known fits member listed'
      exact ⟨by rw [entry'], by rw [entry'], by rw [entry']⟩
    · rw [entry]
    · rw [entry]
    · rw [entry]
      exact size_eq_of_near known fits.tables deep
    · rw [entry]
    · intro name data same
      have piece : kidPiece kid ∈ pieces (imageOf nodes).dirs :=
        List.mem_append_right _ (List.mem_flatMap.mpr ⟨dir, member, List.mem_map_of_mem
          (List.mem_filter.mpr ⟨listed, by rw [same]; rfl⟩)⟩)
      have found := image_piece known fits piece
      rw [kidPiece, same] at found
      exact found
    · intro name kids same
      obtain ⟨k, there⟩ := List.mem_iff_getElem?.mp member
      obtain ⟨sub, at_child, start, own⟩ := image_child there listed same
      exact ⟨sub, List.mem_of_getElem? at_child, start, own⟩
  · have fills := (image_fills known fits).mono (Nat.zero_le _) le_rfl
    exact fills.scattered.perm ((taken_perm (image_items nodes)).map _)

end Sufficient

section Necessary

variable {nodes : List Node}

/-- No more than 2 ^ 16 entries can be found, and the last of them starts before 2 ^ 18. -/
theorem near_of_searchable (known : Known nodes) (searchable : Searchable nodes (imageOf nodes)) {dir : PlacedDir}
    (member : dir ∈ (imageOf nodes).dirs) : Near dir.nodes := by
  have siblings := siblings_of_known known member
  have length := length_tableOf dir.nodes
  have named : ((dir.nodes.zip (tableOf dir.nodes).slots).map fun place => place.1.name).Nodup := by
    have names := siblings.differ
    rw [← List.map_fst_zip length.ge, List.map_map] at names
    exact names
  have found (place : Node × Slot) (inside : place ∈ dir.nodes.zip (tableOf dir.nodes).slots) :
      (entryAt (imageOf nodes).bytes (dir.start * sectorSize + place.2.entOff)).name = place.1.name ∧
        place.2.entOff < 2 ^ 18 ∧ 4 ∣ place.2.entOff := by
    obtain ⟨kid, listed, same, holds⟩ := searchable.found dir member place.1 (List.of_mem_zip inside).1
    have own := (image_places member).mem_iff.mp (List.mem_map_of_mem listed)
    obtain rfl := List.inj_on_of_nodup_map named own inside (congrArg Node.name same)
    refine ⟨holds.name, ?_⟩
    rcases holds.finds.reach with zero | near
    · rw [zero]
      exact ⟨Nat.two_pow_pos 18, Nat.dvd_zero 4⟩
    · exact near
  have distinct : ((dir.nodes.zip (tableOf dir.nodes).slots).map fun place => place.2.entOff).Nodup := by
    refine List.Nodup.map_on (fun place inside other inside' same => ?_) named.of_map
    refine List.inj_on_of_nodup_map named inside inside' ?_
    rw [← (found place inside).1, ← (found other inside').1, same]
  have few : dir.nodes.length ≤ 2 ^ 16 := by
    have subset : ((dir.nodes.zip (tableOf dir.nodes).slots).map fun place => place.2.entOff) ⊆
        (List.range (2 ^ 16)).map (4 * ·) := by
      intro off inside
      obtain ⟨place, among, rfl⟩ := List.mem_map.mp inside
      obtain ⟨-, near, word, same⟩ := found place among
      exact List.mem_map.mpr ⟨word, List.mem_range.mpr (by omega), same.symm⟩
    have count := (List.subperm_of_subset distinct subset).length_le
    rwa [List.length_map, List.length_map, List.length_range, List.length_zip, length, Nat.min_self] at count
  have small : (dir.nodes.map entryBytes).sum < 2 ^ 32 := by
    have bound := List.sum_le_card_nsmul (dir.nodes.map entryBytes) 272 fun b inside => by
      obtain ⟨node, listed, rfl⟩ := List.mem_map.mp inside
      have short := siblings.short node listed
      rw [entryBytes]
      omega
    rw [List.length_map, Nat.nsmul_eq_mul] at bound
    omega
  rcases List.eq_nil_or_concat dir.nodes with none | ⟨init, last, split⟩
  · rw [none, Near]
    exact Nat.two_pow_pos 18
  · rw [List.concat_eq_append] at split
    have enough : (init.map entryBytes ++ [entryBytes last]).length ≤ dir.nodes.length := by
      rw [split, List.length_append, List.length_append, List.length_map]
      rfl
    rw [split, List.map_append, List.map_singleton] at small
    obtain ⟨others, slot, slots, off, -⟩ := layout_last (by rwa [Nat.zero_add]) enough
    have table : (tableOf dir.nodes).slots = others ++ [slot] := by
      rw [tableOf, split, List.map_append, List.map_singleton, ← slots, split]
    have inside : slot ∈ (tableOf dir.nodes).slots := by
      rw [table]
      exact List.mem_append_right _ (List.mem_singleton_self _)
    rw [← List.map_snd_zip length.le] at inside
    obtain ⟨place, among, rfl⟩ := List.mem_map.mp inside
    have near := (found place among).2.1
    rw [split, Near, List.dropLast_concat]
    omega

/-- What takes no sectors adds none. -/
theorem sum_taken (items : List (ℕ × ℕ)) : ((taken items).map (Extent.size ∘ sectorExtent)).sum =
    (items.map fun item => sectorCount item.2).sum := by
  induction items with
  | nil => rfl
  | cons item rest ih =>
    rw [taken_cons, List.map_append, List.sum_append, ih, List.map_cons, List.sum_cons]
    congr 1
    rcases Nat.eq_zero_or_pos item.2 with zero | positive
    · have none : taken [item] = [] := List.filter_cons_of_neg (by simp [zero])
      rw [none, zero]
      rfl
    · have one : taken [item] = [item] := List.filter_cons_of_pos (by simp [positive.ne'])
      rw [one, List.map_singleton, List.sum_singleton]
      rfl

theorem sum_items (nodes : List Node) :
    (((33, (tableOf nodes).cursor) :: kidItems (imageOf nodes).dirs).map fun item => sectorCount item.2).sum =
      (((tableOf nodes).cursor :: (below nodes).map Node.size).map sectorCount).sum := by
  have sizes : (kidItems (imageOf nodes).dirs).map (fun item => sectorCount item.2) =
      (allNodes (imageOf nodes).dirs).map fun node => sectorCount node.size := by
    simp only [kidItems, allNodes, List.map_flatMap, List.map_map]
    rfl
  rw [List.map_cons, List.map_cons, List.sum_cons, List.sum_cons, sizes, ((image_nodes nodes).map _).sum_eq, List.map_map]
  rfl

/-- An image that can be searched is one of nodes that fit. -/
theorem fits_of_searchable (known : Known nodes) (searchable : Searchable nodes (imageOf nodes)) : Fits nodes := by
  have near : Everywhere Near nodes := everywhere_iff.mpr fun _ member => near_of_searchable known searchable member
  have small := (small_everywhere known near).root
  have root := cursor_eq_sum (small.trans (by decide))
  have bytes (f : ℕ → ℕ) : (((nodes.map entryBytes).sum :: (below nodes).map Node.bytes).map f).sum =
      (((tableOf nodes).cursor :: (below nodes).map Node.size).map f).sum := by
    rw [root]
    have same : (below nodes).map Node.bytes = (below nodes).map Node.size :=
      List.map_congr_left fun node member => (size_eq_of_near known near member).symm
    rw [same]
  have limits : ∀ size ∈ (tableOf nodes).cursor :: (below nodes).map Node.size, size ≤ 2 ^ 32 - 1 := by
    refine List.forall_mem_cons.mpr ⟨by omega, List.forall_mem_map.mpr fun node member => ?_⟩
    exact size_lt (known.scanned node member)
  obtain ⟨k, counts, none⟩ := IsoLite.counts_eq limits
  have room : (((tableOf nodes).cursor :: (below nodes).map Node.size).map sectorCount).sum ≤ (imageOf nodes).sectors := by
    have scattered := searchable.apart.perm ((taken_perm (image_items nodes).symm).map _)
    have sizes := scattered.sum_le
    rw [List.map_map, Nat.sub_zero] at sizes
    refine Eq.trans_le ?_ sizes
    rw [← sum_items, sum_taken]
  have last : (imageOf nodes).sectors =
      ((33 + (((tableOf nodes).cursor :: (below nodes).map Node.size).map IsoLite.sectorsFor).sum) % 2 ^ 32 + 31) % 2 ^ 32 / 32 * 32 := by
    have perm := ((image_nodes nodes).map fun node => secCount node.size).sum_eq
    rw [image_sectors, (assignSectors_assigns nodes).cursor_eq (Nat.mod_lt _ (by decide)), List.map_cons, List.sum_cons,
      List.map_map, alignUp, alignSectors, Nat.mod_add_mod]
    change ((33 + secCount (tableOf nodes).cursor + ((allNodes (imageOf nodes).dirs).map fun node => secCount node.size).sum) %
      2 ^ 32 + 31) % 2 ^ 32 / 32 * 32 = _
    rw [perm, Nat.add_assoc]
    rfl
  have zero : k = 0 := by omega
  have countable := none.mp zero
  have total := bytes sectorCount
  rw [List.map_cons, List.sum_cons, List.map_map] at total
  constructor
  · exact near
  · intro name data member
    exact countable data.length (List.mem_cons_of_mem _ (List.mem_map.mpr ⟨_, member, rfl⟩))
  · have sum : ((below nodes).map fun node => sectorCount node.bytes).sum = ((below nodes).map (sectorCount ∘ Node.bytes)).sum := rfl
    omega

end Necessary

section Runs

variable {source : Node} {nodes : List Node} {image : Image}

/-- What is known once the tool reports success. -/
theorem mkxiso_eq_ok (accepted : mkxiso source = .ok (nodes, image)) : image = imageOf nodes ∧
    (∀ node ∈ below nodes, Scanned node) ∧ Everywhere Sorted nodes := by
  obtain ⟨root, through, accepted⟩ := bind_eq_ok.mp accepted
  have scanned := scan_scanned through
  cases root with
  | file name data => nomatch accepted
  | dir name kids =>
    obtain ⟨rfl, rfl⟩ := Prod.mk.inj (pure_eq_ok.mp accepted)
    have deep (node : Node) (member : node ∈ below kids) : Scanned node := scanned node (List.mem_cons_of_mem _ member)
    refine ⟨rfl, deep, ?_, fun name' kids' member => (deep _ member).sorted name' kids' rfl⟩
    exact (scanned _ List.mem_cons_self).sorted name kids rfl

/-- A file and a directory with a file, in the order of their names. -/
def smallNodes : List Node := [.dir [0x41] [.file [0x63] [4]], .file [0x62] [1, 2, 3]]

end Runs

end KosTool.Xiso
