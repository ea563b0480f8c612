import KosTool.Machine.Fallible
import KosTool.Model.Wii.Wad
import KosTool.Soundness.AesRoundTrip

/-! # A WAD unpacks to what was packed

The parts of the file are found by the sizes of its header, the key of the title in the ticket, and the contents by the
records of the TMD. All of it is as it was packed exactly if the header can hold the size of the content data.
-/

namespace KosTool.Wad

open ByteWord BigEndian Placement Extent
open Aes

section Reading

/-- Bytes of a file. -/
def field (bytes : List Byte) (off count : ℕ) : List Byte := (bytes.drop off).take count

/-- The content record at an offset of the TMD. -/
def readRecord (tmd : List Byte) (r : ℕ) : ContentRec :=
  ⟨readBe (field tmd r 4), readBe (field tmd (r + 0x04) 2), readBe (field tmd (r + 0x06) 2), readBe (field tmd (r + 0x08) 8),
    field tmd (r + 0x10) 20⟩

/-- The parts of a file by the sizes of its header. -/
structure Parts where
  tik : List Byte
  tmd : List Byte
  data : List Byte

def partsOf (wad : List Byte) : Parts :=
  let size (off : ℕ) : ℕ := readBe (field wad off 4)
  let off := offsets (size 0x00) (size 0x08) (size 0x10) (size 0x14)
  ⟨field wad off.tik (size 0x10), field wad off.tmd (size 0x14), field wad off.data (size 0x18)⟩

/-- The key of the title, which the ticket has under the common key and the title id. -/
def unwrapKey (commonKey : Block) (tik : List Byte) : Block :=
  blockOf (aes128CbcDecrypt commonKey (blockOf (field tik 0x1dc 8)) (field tik 0x1bf 16))

/-- The content records of a TMD. -/
def recordsOf (tmd : List Byte) : List ContentRec :=
  (List.range (readBe (field tmd 0x1de 2))).map fun i => readRecord tmd (tmdHeader + i * crSize)

/-- The contents from an offset of the content data on, decrypted. -/
def unpackContents (titleKey : Block) (data : List Byte) : List ContentRec → ℕ → List (ContentRec × List Byte)
  | [], _ => []
  | rec :: rest, cur =>
    let encLen := alignUp rec.size 16
    (rec, aes128CbcDecrypt titleKey (blockOf (bytesBe 2 rec.index)) (field data (alignUp cur 0x40) encLen)) ::
      unpackContents titleKey data rest (alignUp cur 0x40 + encLen)

/-- The contents of a file with their records. -/
def unpack (commonKey : Block) (wad : List Byte) : List (ContentRec × List Byte) :=
  let parts := partsOf wad
  unpackContents (unwrapKey commonKey parts.tik) parts.data (recordsOf parts.tmd) 0

/-- A file unpacks to the banner and the DOL, each followed by zeros, with their sizes and digests. -/
structure Unpacks (sha1 : Sha1) (commonKey : Block) (wad banner dol : List Byte) : Prop where
  sizes : (unpack commonKey wad).map (fun content => content.1.size) = [banner.length, dol.length]
  digests : (unpack commonKey wad).map (fun content => content.1.sha1) = [(sha1 banner).toList, (sha1 dol).toList]
  contents : (unpack commonKey wad).map (fun content => content.2.take content.1.size) = [banner, dol]
  padding : ∀ content ∈ unpack commonKey wad, ∀ byte ∈ content.2.drop content.1.size, byte = 0

theorem field_slice {buffer : Buffer} {off count total : ℕ} (inside : off + count ≤ total) :
    field (slice buffer 0 total) off count = slice buffer off count := by
  rw [field, ← slice_slice buffer 0 inside, Nat.zero_add]

end Reading

section Alignment

theorem le_alignUp {x a : ℕ} (positive : 0 < a) : x ≤ alignUp x a ∧ alignUp x a < x + a := by
  have split := Nat.div_add_mod (x + (a - 1)) a
  have rest := Nat.mod_lt (x + (a - 1)) positive
  rw [alignUp, Nat.mul_comm]
  omega

theorem dvd_alignUp (x a : ℕ) : a ∣ alignUp x a := Nat.dvd_mul_left _ _

/-- Behind an aligned offset everything is aligned alike. -/
theorem alignUp_add {base x a : ℕ} (positive : 0 < a) (aligned : a ∣ base) : alignUp (base + x) a = base + alignUp x a := by
  obtain ⟨count, rfl⟩ := aligned
  rw [alignUp, alignUp, Nat.add_assoc, Nat.mul_add_div positive, Nat.add_mul, Nat.mul_comm a]

end Alignment

section Parts

variable {sha1 : Sha1} {blob signed : Buffer} {blobLen scratchOff : ℕ}

/-- The search changes nothing but the number that it looks for. -/
theorem fakesignLoop_outside {turns i : ℕ} {n : Word} (found : fakesignLoop sha1 blobLen scratchOff turns n blob = some signed)
    (outside : i < scratchOff ∨ scratchOff + 4 ≤ i) : signed i = blob i := by
  induction turns generalizing n blob with
  | zero => nomatch found
  | succ turns ih =>
    have kept : storeAt blob scratchOff (be32 n) i = blob i := storeAt_outside blob (by rwa [length_be32])
    rw [fakesignLoop] at found
    split_ifs at found with zero
    · rw [← Option.some.inj found]
      exact kept
    · exact (ih found).trans kept

/-- The signature and a number are all that is changed. -/
theorem fakesign_slice {off count : ℕ} (found : fakesign sha1 blob blobLen scratchOff = some signed) (behind : 0x104 ≤ off)
    (outside : off + count ≤ scratchOff ∨ scratchOff + 4 ≤ off) : slice signed off count = slice blob off count := by
  refine slice_congr fun i inside => (fakesignLoop_outside found (by omega)).trans (storeAt_outside blob ?_)
  rw [zeros, List.length_replicate]
  omega

variable {titleId : ℕ} {enc : List Byte}

theorem ticket_clear (titleId : ℕ) (length : enc.length = 16) :
    (ticketPieces titleId enc).Pairwise fun first second => first.extent.Clear second.extent := by
  have issuer : (ascii "Root-CA00000001-XS00000003").length = 26 := rfl
  have fits : Extent.Fits 0 ticketSize ((ticketPieces titleId enc).map Piece.extent) := by
    simp [ticketPieces, Piece.extent, Extent.Fits, stop, putBe32, putBe64, putBe16, issuer, length, ticketSize]
  exact clear_of_fills (fills_of_fits fits)

/-- The ticket has the key and the title id. -/
theorem buildTicket_fields {tik : Buffer} (built : buildTicket sha1 titleId enc = some tik) (length : enc.length = 16) :
    slice tik 0x1bf 16 = enc ∧ slice tik 0x1dc 8 = bytesBe 8 titleId := by
  have clear := ticket_clear titleId length
  rw [fakesign_slice built (by decide) (by decide), fakesign_slice built (by decide) (by decide)]
  constructor
  · have found := slice_place clear (by simp [ticketPieces] : ⟨0x1bf, enc⟩ ∈ ticketPieces titleId enc) fun _ => 0
    rwa [length] at found
  · have found := slice_place clear (by simp [ticketPieces, putBe64] : ⟨0x1dc, bytesBe 8 titleId⟩ ∈ ticketPieces titleId enc)
      fun _ => 0
    rwa [length_bytesBe] at found

/-- The TMD of two contents. -/
theorem tmd_clear (title : Title) {first second : ContentRec} (firstDigest : first.sha1.length = 20)
    (secondDigest : second.sha1.length = 20) :
    (tmdPieces title [first, second]).Pairwise fun first second => first.extent.Clear second.extent := by
  have issuer : (ascii "Root-CA00000001-CP00000004").length = 26 := rfl
  have homebrew : (ascii "HB").length = 2 := rfl
  have fits : Extent.Fits 0 (tmdLen [first, second]) ((tmdPieces title [first, second]).map Piece.extent) := by
    simp [tmdPieces, recordPieces, Piece.extent, Extent.Fits, stop, putBe32, putBe64, putBe16, issuer, homebrew, firstDigest,
      secondDigest, tmdLen, tmdHeader, crSize]
  exact clear_of_fills (fills_of_fits fits)

/-- What a record can hold. -/
structure ContentRec.Fits (rec : ContentRec) : Prop where
  cid : rec.cid < 2 ^ 32
  index : rec.index < 2 ^ 16
  type : rec.type < 2 ^ 16
  size : rec.size < 2 ^ 64
  digest : rec.sha1.length = 20

/-- A record stays within its size. -/
theorem recordPieces_within {r : ℕ} {rec : ContentRec} (digest : rec.sha1.length = 20) {piece : Piece}
    (member : piece ∈ recordPieces r rec) : r ≤ piece.off ∧ piece.off + piece.bytes.length ≤ r + crSize := by
  simp only [recordPieces, putBe32, putBe16, putBe64, List.mem_cons, List.not_mem_nil, or_false] at member
  rcases member with rfl | rfl | rfl | rfl | rfl
  all_goals
    simp only [length_bytesBe, digest, crSize]
    omega

/-- A record is read back where its fields were put. -/
theorem readRecord_of_fields {tmd : List Byte} {r : ℕ} {rec : ContentRec} (fits : rec.Fits)
    (fields : ∀ piece ∈ recordPieces r rec, field tmd piece.off piece.bytes.length = piece.bytes) : readRecord tmd r = rec := by
  have cid := fields (putBe32 r rec.cid) (by simp [recordPieces])
  have index := fields (putBe16 (r + 0x04) rec.index) (by simp [recordPieces])
  have type := fields (putBe16 (r + 0x06) rec.type) (by simp [recordPieces])
  have size := fields (putBe64 (r + 0x08) rec.size) (by simp [recordPieces])
  have digest := fields ⟨r + 0x10, rec.sha1⟩ (by simp [recordPieces])
  dsimp only [putBe32, putBe16, putBe64] at cid index type size digest
  rw [length_bytesBe] at cid index type size
  rw [fits.digest] at digest
  rw [readRecord, cid, index, type, size, digest, readBe_of_lt fits.cid, readBe_of_lt fits.index, readBe_of_lt fits.type,
    readBe_of_lt fits.size]

variable {title : Title} {first second : ContentRec} {tmd : Buffer}

/-- What was put into the TMD before its records and away from the number that was looked for. -/
theorem buildTmd_field (built : buildTmd sha1 title [first, second] = some tmd) (firstDigest : first.sha1.length = 20)
    (secondDigest : second.sha1.length = 20) {piece : Piece} (member : piece ∈ tmdPieces title [first, second])
    (behind : 0x1ca ≤ piece.off) (inside : piece.off + piece.bytes.length ≤ tmdLen [first, second]) :
    field (slice tmd 0 (tmdLen [first, second])) piece.off piece.bytes.length = piece.bytes := by
  rw [field_slice inside, fakesign_slice built (by omega) (.inr behind)]
  exact slice_place (tmd_clear title firstDigest secondDigest) member fun _ => 0

theorem tmdLen_two (first second : ContentRec) : tmdLen [first, second] = 556 := rfl

/-- The TMD has as many records as it says. -/
theorem buildTmd_count (built : buildTmd sha1 title [first, second] = some tmd) (firstDigest : first.sha1.length = 20)
    (secondDigest : second.sha1.length = 20) :
    recordsOf (slice tmd 0 (tmdLen [first, second])) = [readRecord (slice tmd 0 (tmdLen [first, second])) tmdHeader,
      readRecord (slice tmd 0 (tmdLen [first, second])) (tmdHeader + crSize)] := by
  have member : putBe16 0x1de 2 ∈ tmdPieces title [first, second] := by simp [tmdPieces]
  have count := buildTmd_field built firstDigest secondDigest member (by decide) (by rw [tmdLen_two]; decide)
  dsimp only [putBe16] at count
  rw [length_bytesBe] at count
  rw [recordsOf, count, readBe_of_lt (by decide)]
  rfl

/-- The records are read back if their sizes fit. -/
theorem buildTmd_records (built : buildTmd sha1 title [first, second] = some tmd) (firstFits : first.Fits)
    (secondFits : second.Fits) : recordsOf (slice tmd 0 (tmdLen [first, second])) = [first, second] := by
  have early : readRecord (slice tmd 0 (tmdLen [first, second])) tmdHeader = first := by
    refine readRecord_of_fields firstFits fun piece member => ?_
    have placed : piece ∈ tmdPieces title [first, second] :=
      List.mem_append_right _ (List.mem_append_left _ member)
    obtain ⟨above, below⟩ := recordPieces_within firstFits.digest member
    exact buildTmd_field built firstFits.digest secondFits.digest placed (le_trans (by decide) above)
      (below.trans (by decide : tmdHeader + crSize ≤ 556))
  have late : readRecord (slice tmd 0 (tmdLen [first, second])) (tmdHeader + crSize) = second := by
    refine readRecord_of_fields secondFits fun piece member => ?_
    have placed : piece ∈ tmdPieces title [first, second] :=
      List.mem_append_right _ (List.mem_append_right _ (List.mem_append_left _ member))
    obtain ⟨above, below⟩ := recordPieces_within secondFits.digest member
    exact buildTmd_field built firstFits.digest secondFits.digest placed (le_trans (by decide) above)
      (below.trans (by decide : tmdHeader + crSize + crSize ≤ 556))
  rw [buildTmd_count built firstFits.digest secondFits.digest, early, late]

end Parts

section Contents

/-- Where the last content ends. -/
def contentEnd (enc : List (List Byte)) (cur : ℕ) : ℕ := enc.foldl (fun sz content => alignUp sz 0x40 + content.length) cur

theorem contentPieces_fills (enc : List (List Byte)) (cur : ℕ) :
    Fills cur (contentEnd enc cur) ((contentPieces enc cur).map Piece.extent) := by
  induction enc generalizing cur with
  | nil => exact .nil le_rfl
  | cons content rest ih => exact .cons (le_alignUp (by decide)).1 (ih (alignUp cur 0x40 + content.length))

/-- Behind an aligned offset the contents stand as they would at the beginning. -/
theorem contentPieces_add {base : ℕ} (aligned : 0x40 ∣ base) (enc : List (List Byte)) (cur : ℕ) :
    contentPieces enc (base + cur) = (contentPieces enc cur).map fun piece => ⟨base + piece.off, piece.bytes⟩ := by
  induction enc generalizing cur with
  | nil => rfl
  | cons content rest ih =>
    rw [contentPieces, contentPieces, List.map_cons, alignUp_add (by decide) aligned, Nat.add_assoc, ih]

/-- A content as it is encrypted. -/
def padded (plain : List Byte) : List Byte := plain ++ zeros (alignUp plain.length 16 - plain.length)

theorem length_padded (plain : List Byte) : (padded plain).length = alignUp plain.length 16 := by
  have reach := (le_alignUp (by decide) : plain.length ≤ alignUp plain.length 16 ∧ _).1
  rw [padded, zeros, List.length_append, List.length_replicate]
  omega

/-- The contents with their records as `encrypt_content` encrypts them. -/
def encrypted (titleKey : Block) (contents : List (ContentRec × List Byte)) : List (List Byte) :=
  contents.map fun content => aes128CbcEncrypt titleKey (blockOf (bytesBe 2 content.1.index)) (padded content.2)

/-- Contents whose pieces are found are decrypted. -/
theorem unpackContents_of_pieces (titleKey : Block) {data : List Byte} {contents : List (ContentRec × List Byte)} {cur : ℕ}
    (sizes : ∀ content ∈ contents, content.1.size = content.2.length)
    (found : ∀ piece ∈ contentPieces (encrypted titleKey contents) cur,
      field data piece.off piece.bytes.length = piece.bytes) :
    unpackContents titleKey data (contents.map Prod.fst) cur = contents.map fun content => (content.1, padded content.2) := by
  induction contents generalizing cur with
  | nil => rfl
  | cons content rest ih =>
    have size := sizes content List.mem_cons_self
    have own := found ⟨alignUp cur 0x40, aes128CbcEncrypt titleKey (blockOf (bytesBe 2 content.1.index)) (padded content.2)⟩
      List.mem_cons_self
    dsimp only at own
    have later := fun piece member => found piece (List.mem_cons_of_mem _ member)
    rw [length_encrypt, length_padded] at own later
    rw [List.map_cons, List.map_cons, unpackContents, size, own, decrypt_encrypt]
    exact congrArg _ (ih (fun other member => sizes other (List.mem_cons_of_mem _ member)) later)

end Contents

section Assembled

variable {certs tik tmd : List Byte}

/-- The pieces that `write_wad` puts together. -/
def wadPieces (certs tik tmd : List Byte) (dataSz : ℕ) (enc : List (List Byte)) : List Piece :=
  [putBe32 0x00 0x20, ⟨0x04, ascii "Is"⟩, putBe16 0x06 0, putBe32 0x08 2560, putBe32 0x0c 0, putBe32 0x10 ticketSize,
    putBe32 0x14 556, putBe32 0x18 dataSz, putBe32 0x1c 0, ⟨0x40, certs⟩, ⟨2624, tik⟩, ⟨3328, tmd⟩] ++
    contentPieces enc 3904

theorem writeWad_eq (certsLength : certs.length = 2560) (tmdLength : tmd.length = 556) (enc : List (List Byte)) :
    writeWad certs tik tmd enc = slice (place (wadPieces certs tik tmd (dataSize (enc.map List.length)) enc) fun _ => 0) 0
      (alignUp (3904 + dataSize (enc.map List.length)) 0x40) := by
  rw [writeWad, certsLength, tmdLength]
  rfl

theorem dataSize_eq (enc : List (List Byte)) : dataSize (enc.map List.length) = alignUp (contentEnd enc 0) 0x40 := by
  rw [dataSize, List.foldl_map]
  rfl

theorem wad_clear (certsLength : certs.length = 2560) (tikLength : tik.length = ticketSize) (tmdLength : tmd.length = 556)
    (dataSz : ℕ) (enc : List (List Byte)) :
    (wadPieces certs tik tmd dataSz enc).Pairwise fun first second => first.extent.Clear second.extent := by
  have kind : (ascii "Is").length = 2 := rfl
  have front : Extent.Fits 0 3904 (([putBe32 0x00 0x20, ⟨0x04, ascii "Is"⟩, putBe16 0x06 0, putBe32 0x08 2560,
      putBe32 0x0c 0, putBe32 0x10 ticketSize, putBe32 0x14 556, putBe32 0x18 dataSz, putBe32 0x1c 0, ⟨0x40, certs⟩,
      ⟨2624, tik⟩, ⟨3328, tmd⟩] : List Piece).map Piece.extent) := by
    simp [Piece.extent, Extent.Fits, stop, putBe32, putBe16, kind, certsLength, tikLength, tmdLength, ticketSize]
  have fills := (fills_of_fits front).append le_rfl (contentPieces_fills enc 3904)
  rw [← List.map_append] at fills
  exact clear_of_fills fills

/-- What stands before the contents is found in the file. -/
theorem wad_field (certsLength : certs.length = 2560) (tikLength : tik.length = ticketSize) (tmdLength : tmd.length = 556)
    (enc : List (List Byte)) {piece : Piece} (member : piece ∈ wadPieces certs tik tmd (dataSize (enc.map List.length)) enc)
    (inside : piece.off + piece.bytes.length ≤ 3904) :
    field (writeWad certs tik tmd enc) piece.off piece.bytes.length = piece.bytes := by
  have reach := (le_alignUp (by decide) : 3904 + dataSize (enc.map List.length) ≤
    alignUp (3904 + dataSize (enc.map List.length)) 0x40 ∧ _).1
  rw [writeWad_eq certsLength tmdLength, field_slice (by omega)]
  exact slice_place (wad_clear certsLength tikLength tmdLength _ enc) member fun _ => 0

/-- The sizes of the header give the ticket and the TMD back, and as much of the contents as the header can say. -/
theorem partsOf_writeWad (certsLength : certs.length = 2560) (tikLength : tik.length = ticketSize) (tmdLength : tmd.length = 556)
    (enc : List (List Byte)) : partsOf (writeWad certs tik tmd enc) =
      ⟨tik, tmd, field (writeWad certs tik tmd enc) 3904 (dataSize (enc.map List.length) % 2 ^ 32)⟩ := by
  have found (piece : Piece) (member : piece ∈ wadPieces certs tik tmd (dataSize (enc.map List.length)) enc)
      (inside : piece.off + piece.bytes.length ≤ 3904) :=
    wad_field certsLength tikLength tmdLength enc member inside
  have header := found (putBe32 0x00 0x20) (by simp [wadPieces]) (by decide)
  have certsField := found (putBe32 0x08 2560) (by simp [wadPieces]) (by decide)
  have tikField := found (putBe32 0x10 ticketSize) (by simp [wadPieces]) (by decide)
  have tmdField := found (putBe32 0x14 556) (by simp [wadPieces]) (by decide)
  have dataField := found (putBe32 0x18 (dataSize (enc.map List.length))) (by simp [wadPieces])
    (by rw [putBe32, length_bytesBe]; simp)
  have tikFound := found ⟨2624, tik⟩ (by simp [wadPieces]) (by simp only [tikLength]; decide)
  have tmdFound := found ⟨3328, tmd⟩ (by simp [wadPieces]) (by simp only [tmdLength]; decide)
  dsimp only [putBe32] at header certsField tikField tmdField dataField tikFound tmdFound
  rw [length_bytesBe] at header certsField tikField tmdField dataField
  rw [tikLength] at tikFound
  rw [tmdLength] at tmdFound
  have places : offsets 0x20 2560 ticketSize 556 = ⟨0x40, 2624, 3328, 3904⟩ := rfl
  rw [partsOf]
  dsimp only
  rw [header, certsField, tikField, tmdField, dataField, readBe_of_lt (by decide : 0x20 < 256 ^ 4),
    readBe_of_lt (by decide : 2560 < 256 ^ 4), readBe_of_lt (by decide : ticketSize < 256 ^ 4),
    readBe_of_lt (by decide : 556 < 256 ^ 4), readBe_bytesBe, places, tikFound, tmdFound]
  rfl

/-- The contents are found in the content data if the header holds its size. -/
theorem contents_found (certsLength : certs.length = 2560) (tikLength : tik.length = ticketSize) (tmdLength : tmd.length = 556)
    {enc : List (List Byte)} (fits : dataSize (enc.map List.length) < 2 ^ 32) {piece : Piece}
    (member : piece ∈ contentPieces enc 0) :
    field (partsOf (writeWad certs tik tmd enc)).data piece.off piece.bytes.length = piece.bytes := by
  have below := (contentPieces_fills enc 0).below piece.extent (List.mem_map_of_mem member)
  have whole := (le_alignUp (by decide) : contentEnd enc 0 ≤ alignUp (contentEnd enc 0) 0x40 ∧ _).1
  rw [← dataSize_eq] at whole
  have reach := (le_alignUp (by decide) : 3904 + dataSize (enc.map List.length) ≤
    alignUp (3904 + dataSize (enc.map List.length)) 0x40 ∧ _).1
  have moved : (⟨3904 + piece.off, piece.bytes⟩ : Piece) ∈ contentPieces enc 3904 := by
    rw [show 3904 = 3904 + 0 from rfl, contentPieces_add (by decide)]
    exact List.mem_map_of_mem member
  have placed : (⟨3904 + piece.off, piece.bytes⟩ : Piece) ∈ wadPieces certs tik tmd (dataSize (enc.map List.length)) enc :=
    List.mem_append_right _ moved
  have inside : piece.off + piece.bytes.length ≤ dataSize (enc.map List.length) := below.trans whole
  rw [partsOf_writeWad certsLength tikLength tmdLength, Nat.mod_eq_of_lt fits, writeWad_eq certsLength tmdLength,
    field_slice (by omega), field, ← slice_slice _ _ inside]
  exact slice_place (wad_clear certsLength tikLength tmdLength _ enc) placed fun _ => 0

end Assembled

section Whole

variable {sha1 : Sha1} {certs : Vector Byte 2560} {titleKey commonKey : Block} {title : Title} {banner dol wad : List Byte}

/-- The contents of a title with their records. -/
def packed (sha1 : Sha1) (banner dol : List Byte) : List (ContentRec × List Byte) :=
  [(⟨0, 0, 1, banner.length, (sha1 banner).toList⟩, banner), (⟨1, 1, 1, dol.length, (sha1 dol).toList⟩, dol)]

/-- The places of two contents, and the size of both. -/
theorem data_bounds (first second : ℕ) : first ≤ alignUp first 16 ∧ alignUp first 16 < first + 16 ∧
    second ≤ alignUp second 16 ∧ alignUp second 16 < second + 16 ∧ 16 ∣ alignUp second 16 ∧ alignUp first 16 ≤ alignUp (alignUp first 16) 0x40 ∧
    alignUp (alignUp first 16) 0x40 < alignUp first 16 + 0x40 ∧
    alignUp (alignUp first 16) 0x40 + alignUp second 16 ≤ dataSize [alignUp first 16, alignUp second 16] ∧
    dataSize [alignUp first 16, alignUp second 16] < alignUp (alignUp first 16) 0x40 + alignUp second 16 + 0x40 := by
  have firstPadded : first ≤ alignUp first 16 ∧ alignUp first 16 < first + 16 := le_alignUp (by decide)
  have secondPadded : second ≤ alignUp second 16 ∧ alignUp second 16 < second + 16 := le_alignUp (by decide)
  have next : alignUp first 16 ≤ alignUp (alignUp first 16) 0x40 ∧ alignUp (alignUp first 16) 0x40 < alignUp first 16 + 0x40 :=
    le_alignUp (by decide)
  have whole : alignUp (alignUp first 16) 0x40 + alignUp second 16 ≤
        alignUp (alignUp (alignUp first 16) 0x40 + alignUp second 16) 0x40 ∧
      alignUp (alignUp (alignUp first 16) 0x40 + alignUp second 16) 0x40 <
        alignUp (alignUp first 16) 0x40 + alignUp second 16 + 0x40 := le_alignUp (by decide)
  have size : dataSize [alignUp first 16, alignUp second 16] =
      alignUp (alignUp (alignUp first 16) 0x40 + alignUp second 16) 0x40 := by
    rw [dataSize, List.foldl_cons, List.foldl_cons, List.foldl_nil, show alignUp 0 0x40 = 0 from rfl, Nat.zero_add]
  rw [size]
  exact ⟨firstPadded.1, firstPadded.2, secondPadded.1, secondPadded.2, dvd_alignUp _ _, next.1, next.2, whole.1, whole.2⟩

/-- What the tool has put together. -/
structure Built (sha1 : Sha1) (certs : Vector Byte 2560) (titleKey commonKey : Block) (title : Title)
    (banner dol wad : List Byte) (tik tmd : Buffer) : Prop where
  ticket : buildTicket sha1 title.titleId
    (aes128CbcEncrypt commonKey (blockOf (bytesBe 8 title.titleId)) titleKey.toList) = some tik
  records : buildTmd sha1 title ((packed sha1 banner dol).map Prod.fst) = some tmd
  file : wad = writeWad certs.toList (slice tik 0 ticketSize) (slice tmd 0 556) (encrypted titleKey (packed sha1 banner dol))

theorem built_of_mkwad (made : mkwad sha1 certs titleKey commonKey title banner dol = some wad) :
    ∃ tik tmd, Built sha1 certs titleKey commonKey title banner dol wad tik tmd := by
  simp only [mkwad, Option.bind_eq_bind, Option.bind_eq_some_iff] at made
  obtain ⟨tik, ticket, tmd, records, file⟩ := made
  exact ⟨tik, tmd, ticket, records, (Option.some.inj file).symm⟩

variable {tik tmd : Buffer} (built : Built sha1 certs titleKey commonKey title banner dol wad tik tmd)

include built

/-- The parts of the file. -/
theorem Built.parts : partsOf wad = ⟨slice tik 0 ticketSize, slice tmd 0 556,
    field wad 3904 (dataSize ((encrypted titleKey (packed sha1 banner dol)).map List.length) % 2 ^ 32)⟩ := by
  rw [built.file]
  exact partsOf_writeWad Vector.length_toList (length_slice tik 0 ticketSize) (length_slice tmd 0 556) _

/-- The key of the title is unwrapped. -/
theorem Built.key : unwrapKey commonKey (partsOf wad).tik = titleKey := by
  have wrapped : (aes128CbcEncrypt commonKey (blockOf (bytesBe 8 title.titleId)) titleKey.toList).length = 16 := by
    rw [length_encrypt, length_toList]
  obtain ⟨key, id⟩ := buildTicket_fields built.ticket wrapped
  have unwrapped := blockOf_append titleKey []
  rw [List.append_nil] at unwrapped
  rw [built.parts, unwrapKey]
  dsimp only
  rw [field_slice (by decide), field_slice (by decide), key, id, decrypt_encrypt, unwrapped]

theorem Built.unpack_eq : unpack commonKey wad =
    unpackContents titleKey (partsOf wad).data (recordsOf (slice tmd 0 556)) 0 := by
  have records : (partsOf wad).tmd = slice tmd 0 556 := by rw [built.parts]
  rw [unpack, built.key, records]

omit built in
theorem length_encrypted (titleKey : Block) : (encrypted titleKey (packed sha1 banner dol)).map List.length =
    [alignUp banner.length 16, alignUp dol.length 16] := by
  simp only [encrypted, packed, List.map_cons, List.map_nil, length_encrypt, length_padded]

/-- As much of the content data is read as the header says. -/
theorem Built.length_data : (partsOf wad).data.length ≤ dataSize [alignUp banner.length 16, alignUp dol.length 16] % 2 ^ 32 := by
  rw [built.parts, length_encrypted]
  exact List.length_take_le _ _

/-- A size that the header holds gives every content back. -/
theorem Built.unpacks (fits : dataSize [alignUp banner.length 16, alignUp dol.length 16] < 2 ^ 32) :
    unpack commonKey wad = (packed sha1 banner dol).map fun content => (content.1, padded content.2) := by
  have bounds := data_bounds banner.length dol.length
  have records : recordsOf (slice tmd 0 556) = (packed sha1 banner dol).map Prod.fst :=
    buildTmd_records built.records ⟨by simp, by simp, by simp, by dsimp only; omega, Vector.length_toList⟩
      ⟨by simp, by simp, by simp, by dsimp only; omega, Vector.length_toList⟩
  rw [built.unpack_eq, records]
  refine unpackContents_of_pieces titleKey (fun content member => ?_) fun piece member => ?_
  · rcases List.mem_pair.mp member with rfl | rfl <;> rfl
  · rw [built.file]
    exact contents_found Vector.length_toList (length_slice tik 0 ticketSize) (length_slice tmd 0 556)
      (by rwa [length_encrypted]) member

/-- What comes out with the sizes that went in has been read from the content data. -/
theorem Built.fits_of_unpacks (unpacked : Unpacks sha1 commonKey wad banner dol) :
    dataSize [alignUp banner.length 16, alignUp dol.length 16] < 2 ^ 32 := by
  obtain ⟨sizes, -, contents, -⟩ := unpacked
  have count : recordsOf (slice tmd 0 556) = [readRecord (slice tmd 0 556) tmdHeader,
      readRecord (slice tmd 0 556) (tmdHeader + crSize)] :=
    buildTmd_count built.records Vector.length_toList Vector.length_toList
  rw [built.unpack_eq, count] at sizes contents
  generalize readRecord (slice tmd 0 556) tmdHeader = first at sizes contents
  generalize readRecord (slice tmd 0 556) (tmdHeader + crSize) = second at sizes contents
  simp only [unpackContents, List.map_cons, List.map_nil, List.cons.injEq, and_true] at sizes contents
  obtain ⟨firstSize, secondSize⟩ := sizes
  obtain ⟨firstContent, secondContent⟩ := contents
  have firstLength := congrArg List.length firstContent
  have secondLength := congrArg List.length secondContent
  have start : alignUp 0 0x40 = 0 := rfl
  rw [start, Nat.zero_add, firstSize] at secondLength
  rw [start, firstSize] at firstLength
  rw [secondSize] at secondLength
  simp only [field, List.length_take, List.length_drop, length_decrypt] at firstLength secondLength
  have short := built.length_data
  have bounds := data_bounds banner.length dol.length
  omega

end Whole

/-- Encryption can be undone, and a file unpacks to what was packed exactly if the 32 bits of its header hold the size of the
content data. -/
theorem wad_unpacks_iff {sha1 : Sha1} {certs : Vector Byte 2560} {titleKey commonKey : Block} {title : Title}
    {banner dol wad : List Byte} (made : mkwad sha1 certs titleKey commonKey title banner dol = some wad) :
    (∀ (key iv : Block) (buf : List Byte), 16 ∣ buf.length → aes128CbcDecrypt key iv (aes128CbcEncrypt key iv buf) = buf) ∧
      (Unpacks sha1 commonKey wad banner dol ↔ dataSize [alignUp banner.length 16, alignUp dol.length 16] < 2 ^ 32) := by
  obtain ⟨tik, tmd, built⟩ := built_of_mkwad made
  refine ⟨fun key iv buf _ => decrypt_encrypt key iv buf, built.fits_of_unpacks, fun fits => ?_⟩
  have found := built.unpacks fits
  have bannerBack : (padded banner).take banner.length = banner := List.take_left
  have dolBack : (padded dol).take dol.length = dol := List.take_left
  constructor
  · rw [found]
    rfl
  · rw [found]
    rfl
  · rw [found]
    simp only [packed, List.map_cons, List.map_nil, bannerBack, dolBack]
  · intro content member byte behind
    rw [found] at member
    have rest : content.2.drop content.1.size = zeros (alignUp content.1.size 16 - content.1.size) := by
      simp only [packed, List.map_cons, List.map_nil, List.mem_cons, List.not_mem_nil, or_false] at member
      rcases member with rfl | rfl <;> exact List.drop_left
    rw [rest] at behind
    exact List.eq_of_mem_replicate behind

section Runs

/-- A digest that ends both searches at once. -/
def noDigest : Sha1 := fun _ => Vector.replicate 20 0

def someTitle : Title := ⟨0x000100014b4f534c, 58, 3, 1, 1⟩

theorem fakesign_noDigest (blob : Buffer) (blobLen scratchOff : ℕ) :
    ∃ signed, fakesign noDigest blob blobLen scratchOff = some signed := by
  have digest (bytes : List Byte) : (noDigest bytes)[0] = 0 := rfl
  rw [fakesign, show 2 ^ 32 = 4294967295 + 1 from rfl, fakesignLoop, if_pos (digest _)]
  exact ⟨_, rfl⟩

theorem mkwad_noDigest (banner dol : List Byte) :
    ∃ wad, mkwad noDigest (Vector.replicate 2560 0) kosTitleKey kosTitleKey someTitle banner dol = some wad := by
  obtain ⟨tik, ticket⟩ := fakesign_noDigest (place (ticketPieces someTitle.titleId (aes128CbcEncrypt kosTitleKey
    (blockOf (bytesBe 8 someTitle.titleId)) kosTitleKey.toList)) fun _ => 0) ticketSize 0x1f4
  obtain ⟨tmd, records⟩ := fakesign_noDigest (place (tmdPieces someTitle ((packed noDigest banner dol).map Prod.fst)) fun _ => 0)
    (tmdLen ((packed noDigest banner dol).map Prod.fst)) 0x1c6
  simp only [mkwad, Option.bind_eq_bind, Option.bind_eq_some_iff]
  exact ⟨_, tik, ticket, tmd, records, rfl⟩

theorem wad_unpacks_small : ∃ wad,
    mkwad noDigest (Vector.replicate 2560 0) kosTitleKey kosTitleKey someTitle [1] [2, 3] = some wad ∧
    Unpacks noDigest kosTitleKey wad [1] [2, 3] := by
  obtain ⟨wad, made⟩ := mkwad_noDigest [1] [2, 3]
  exact ⟨wad, made, (wad_unpacks_iff made).2.mpr (by decide)⟩

theorem not_unpacks_of_length {dol : List Byte} (length : dol.length = 2 ^ 32) : ∃ wad,
    mkwad noDigest (Vector.replicate 2560 0) kosTitleKey kosTitleKey someTitle [] dol = some wad ∧ ¬Unpacks noDigest kosTitleKey wad [] dol := by
  obtain ⟨wad, made⟩ := mkwad_noDigest [] dol
  obtain ⟨tik, tmd, built⟩ := built_of_mkwad made
  refine ⟨wad, made, fun unpacked => ?_⟩
  have fits := built.fits_of_unpacks unpacked
  rw [length] at fits
  exact absurd fits (by decide)

/-- Of a DOL of four gigabytes the header says that there is nothing. -/
theorem wad_loses_large_dol : ∃ wad, mkwad noDigest (Vector.replicate 2560 0) kosTitleKey kosTitleKey someTitle []
    (List.replicate (2 ^ 32) 1) = some wad ∧ ¬Unpacks noDigest kosTitleKey wad [] (List.replicate (2 ^ 32) 1) :=
  not_unpacks_of_length List.length_replicate

end Runs

end KosTool.Wad
