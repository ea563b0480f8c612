import KosTool.Model.Ps2.SifDma

/-! # The chain the channel walks

What the DMA controller does with a source chain of `REF` tags ended by a `REFE` tag, and what the other processor
makes of each block it carries. A chain that `ee_sif_build_dma_job` has built keeps to the 1024 bytes of its
stream and carries the descriptors it was built from.
-/

namespace KosTool.Ps2

open ByteWord

/-- The quadword of an address: the controller does not look at the low four bits. -/
def quadword (address : Word) : Word := BitVec.ofNat 32 (address.toNat / 16 * 16)

/-- The word at a physical address. -/
def physWord (phys : Memory) (address : Word) : Word :=
  ByteOrder.little.load32 (fun offset => phys (address + BitVec.ofNat 32 offset)) 0

/-- The blocks the channel sends, `QWC` quadwords from `ADDR` for each tag; the tags are at most so many. -/
def sourceChain (phys : Memory) : ℕ → Word → Option (List (List Byte))
  | 0, _ => none
  | tags + 1, tadr =>
    let tag := physWord phys (quadword tadr)
    let block := phys.copyOut (quadword (physWord phys (quadword tadr + 4#32))) (16 * (tag &&& 0xffff#32).toNat)
    if (tag >>> 28) &&& 7#32 = dmaTagRefe then some [block]
    else if (tag >>> 28) &&& 7#32 = dmaTagRef then (sourceChain phys tags (tadr + 16#32)).map (block :: ·)
    else none

/-- What the other processor reads in a block: the header quadword, and the data behind it. -/
structure SifPacket where
  dest : Word
  intO : Bool
  ert : Bool
  words : Word
  data : List Byte
deriving DecidableEq

/-- The packet of a block. -/
def decodeBlock (block : List Byte) : SifPacket where
  dest := ByteOrder.little.load32 (overlay block fun _ => 0) 0 &&& physMask
  intO := decide (ByteOrder.little.load32 (overlay block fun _ => 0) 0 &&& flagIntO ≠ 0)
  ert := decide (ByteOrder.little.load32 (overlay block fun _ => 0) 0 &&& flagErt ≠ 0)
  words := ByteOrder.little.load32 (overlay block fun _ => 0) 4
  data := block.drop 16

/-- The packet a descriptor asks for: its bytes, with zeros up to the quadwords it takes. -/
def DmaTransfer.packet (subaddr : Word) (ram : Memory) (desc : DmaTransfer) : SifPacket where
  dest := desc.target
  intO := decide (desc.attr &&& attrIntO ≠ 0)
  ert := decide (desc.attr &&& attrErt ≠ 0)
  words := BitVec.ofNat 32 (desc.qbytes subaddr / 4)
  data := ram.copyOut desc.src desc.size.toNat ++ List.replicate (desc.qbytes subaddr - desc.size.toNat) 0

variable {subaddr stream : Word} {ram : Memory} {desc : DmaTransfer} {descs : List DmaTransfer}
variable {buffer final : Buffer} {i scratchOff size : ℕ} {last : Bool}

/-- The block of a descriptor in the stream. -/
def DmaTransfer.block (subaddr : Word) (ram : Memory) (desc : DmaTransfer) : List Byte :=
  desc.header subaddr ++ (List.replicate 8 0 ++ (desc.packet subaddr ram).data)

@[simp] theorem length_header : (desc.header subaddr).length = 8 := rfl

@[simp] theorem length_tag : (desc.tag subaddr stream last scratchOff).length = 16 := rfl

/-- A descriptor that fits has no more bytes than its quadwords. -/
theorem DmaTransfer.Fits.size_le (fits : desc.Fits subaddr scratchOff) : desc.size.toNat ≤ desc.qbytes subaddr := by
  have bounded := fits.2.2.1
  rw [qbytes]
  omega

/-- The end of what a descriptor takes is inside the stream. -/
theorem DmaTransfer.Fits.inside (fits : desc.Fits subaddr scratchOff) :
    scratchOff + 16 + desc.qbytes subaddr ≤ sifDmaJobStreamSize := fits.2.2.2

theorem length_block (bounded : desc.size.toNat ≤ desc.qbytes subaddr) :
    (desc.block subaddr ram).length = 16 + desc.qbytes subaddr := by
  simp only [DmaTransfer.block, DmaTransfer.packet, List.length_append, length_header, List.length_replicate,
    Memory.length_copyOut]
  omega

/-- A pass writes its tag and its block, and nothing else. -/
theorem place_outside (bounded : desc.size.toNat ≤ desc.qbytes subaddr) {offset : ℕ}
    (tag : offset < i * 16 ∨ i * 16 + 16 ≤ offset)
    (block : offset < scratchOff ∨ scratchOff + 16 + desc.qbytes subaddr ≤ offset) :
    desc.place subaddr ram stream last i scratchOff buffer offset = buffer offset := by
  rw [DmaTransfer.place, storeAt_outside _ tag, storeAt_outside, storeAt_outside]
  · rw [Memory.length_copyOut]
    omega
  · rw [length_header]
    omega

/-- A block that was stored is read back. -/
theorem slice_storeAt_self (buffer : Buffer) (offset : ℕ) (bytes : List Byte) :
    slice (storeAt buffer offset bytes) offset bytes.length = bytes := by
  have whole := slice_overlay [] bytes [] fun k => buffer (offset + k)
  rw [List.nil_append, List.append_nil, List.length_nil] at whole
  refine (slice_congr fun k _ => ?_).trans whole
  rw [storeAt_add, Nat.zero_add]

/-- The tag of a pass. -/
theorem place_tag : slice (desc.place subaddr ram stream last i scratchOff buffer) (i * 16) 16 =
    desc.tag subaddr stream last scratchOff :=
  slice_storeAt_self _ (i * 16) (desc.tag subaddr stream last scratchOff)

/-- The block of a pass, in a stream that is clear there. -/
theorem place_block (bounded : desc.size.toNat ≤ desc.qbytes subaddr) (behind : i * 16 + 16 ≤ scratchOff)
    (clear : ∀ offset, scratchOff ≤ offset → offset < scratchOff + 16 + desc.qbytes subaddr → buffer offset = 0) :
    slice (desc.place subaddr ram stream last i scratchOff buffer) scratchOff (16 + desc.qbytes subaddr) =
      desc.block subaddr ram := by
  apply List.ext_getElem
  · rw [length_slice, length_block bounded]
  · intro k left right
    rw [length_slice] at left
    rw [getElem_slice, DmaTransfer.place, storeAt_outside _ (by rw [length_tag]; omega)]
    rcases Nat.lt_or_ge k 8 with header | header
    · rw [storeAt_add, overlay_of_lt (by rw [length_header]; exact header)]
      simp only [DmaTransfer.block]
      rw [List.getElem_append_left]
    · rw [storeAt_outside _ (by rw [length_header]; omega)]
      simp only [DmaTransfer.block, DmaTransfer.packet]
      rw [List.getElem_append_right (by rw [length_header]; exact header)]
      simp only [length_header]
      rcases Nat.lt_or_ge k 16 with padding | padding
      · rw [List.getElem_append_left (by rw [List.length_replicate]; omega), List.getElem_replicate,
          storeAt_outside _ (by omega)]
        exact clear _ (by omega) (by omega)
      · rw [List.getElem_append_right (by rw [List.length_replicate]; omega)]
        simp only [List.length_replicate]
        have place : scratchOff + k = scratchOff + 16 + (k - 8 - 8) := by omega
        rw [place, storeAt_add]
        rcases Nat.lt_or_ge (k - 8 - 8) desc.size.toNat with data | data
        · rw [overlay_of_lt (by rw [Memory.length_copyOut]; exact data), List.getElem_append_left]
        · rw [overlay_of_le (by rw [Memory.length_copyOut]; exact data),
            List.getElem_append_right (by rw [Memory.length_copyOut]; exact data), List.getElem_replicate]
          exact clear _ (by omega) (by omega)

/-- The descriptors stand in a stream: their tags from tag `i` on, their blocks from one offset to another. -/
inductive Laid (subaddr stream : Word) (ram : Memory) (buffer : Buffer) : List DmaTransfer → ℕ → ℕ → ℕ → Prop
  | nil (i scratchOff : ℕ) : Laid subaddr stream ram buffer [] i scratchOff scratchOff
  | cons {desc : DmaTransfer} {rest : List DmaTransfer} {i scratchOff size : ℕ}
    (fits : desc.Fits subaddr scratchOff)
    (tag : slice buffer (i * 16) 16 = desc.tag subaddr stream rest.isEmpty scratchOff)
    (block : slice buffer scratchOff (16 + desc.qbytes subaddr) = desc.block subaddr ram)
    (others : Laid subaddr stream ram buffer rest (i + 1) (scratchOff + 16 + desc.qbytes subaddr) size) :
    Laid subaddr stream ram buffer (desc :: rest) i scratchOff size

/-- The blocks end behind where they begin. -/
theorem Laid.size_ge (laid : Laid subaddr stream ram buffer descs i scratchOff size) : scratchOff ≤ size := by
  induction laid with
  | nil => exact Nat.le_refl _
  | cons fits tag block others ih => omega

theorem buildLoop_cons_of_fits {rest : List DmaTransfer} (fits : desc.Fits subaddr scratchOff) :
    buildLoop subaddr ram stream (desc :: rest) i scratchOff buffer =
      buildLoop subaddr ram stream rest (i + 1) (scratchOff + 16 + desc.qbytes subaddr)
        (desc.place subaddr ram stream rest.isEmpty i scratchOff buffer) := if_pos fits

theorem buildLoop_cons_of_not_fits {rest : List DmaTransfer} (refused : ¬ desc.Fits subaddr scratchOff) :
    buildLoop subaddr ram stream (desc :: rest) i scratchOff buffer = (buffer, none) := if_neg refused

/-- The loop writes nothing behind the stream, whether or not it ends well. -/
theorem buildLoop_behind (tags : (i + descs.length) * 16 ≤ sifDmaJobStreamSize) {offset : ℕ}
    (behind : sifDmaJobStreamSize ≤ offset) :
    (buildLoop subaddr ram stream descs i scratchOff buffer).1 offset = buffer offset := by
  induction descs generalizing i scratchOff buffer with
  | nil => rfl
  | cons desc rest ih =>
    rw [List.length_cons] at tags
    rcases em (desc.Fits subaddr scratchOff) with fits | refused
    · rw [buildLoop_cons_of_fits fits, ih (by omega)]
      have inside := fits.inside
      apply place_outside fits.size_le
      · omega
      · omega
    · rw [buildLoop_cons_of_not_fits refused]

/-- The loop leaves alone what lies between the tags and the blocks it writes, and before them. -/
theorem buildLoop_outside (built : buildLoop subaddr ram stream descs i scratchOff buffer = (final, some size))
    {offset : ℕ} (tags : offset < i * 16 ∨ (i + descs.length) * 16 ≤ offset) (blocks : offset < scratchOff) :
    final offset = buffer offset := by
  induction descs generalizing i scratchOff buffer with
  | nil =>
    cases built
    rfl
  | cons desc rest ih =>
    rw [List.length_cons] at tags
    rcases em (desc.Fits subaddr scratchOff) with fits | refused
    · rw [buildLoop_cons_of_fits fits] at built
      rw [ih built (by omega) (by omega)]
      apply place_outside fits.size_le
      · omega
      · omega
    · rw [buildLoop_cons_of_not_fits refused] at built
      cases built

/-- The scratch only grows, and ends inside the stream. -/
theorem buildLoop_size (built : buildLoop subaddr ram stream descs i scratchOff buffer = (final, some size))
    (inside : scratchOff ≤ sifDmaJobStreamSize) : scratchOff ≤ size ∧ size ≤ sifDmaJobStreamSize := by
  induction descs generalizing i scratchOff buffer with
  | nil =>
    cases built
    exact ⟨Nat.le_refl _, inside⟩
  | cons desc rest ih =>
    rcases em (desc.Fits subaddr scratchOff) with fits | refused
    · rw [buildLoop_cons_of_fits fits] at built
      obtain ⟨grown, ends⟩ := ih built fits.inside
      exact ⟨by omega, ends⟩
    · rw [buildLoop_cons_of_not_fits refused] at built
      cases built

/-- A loop that ends well lays out its descriptors. -/
theorem buildLoop_laid (built : buildLoop subaddr ram stream descs i scratchOff buffer = (final, some size))
    (behind : (i + descs.length) * 16 ≤ scratchOff)
    (clear : ∀ offset, scratchOff ≤ offset → offset < sifDmaJobStreamSize → buffer offset = 0) :
    Laid subaddr stream ram final descs i scratchOff size := by
  induction descs generalizing i scratchOff buffer with
  | nil =>
    cases built
    exact .nil i _
  | cons desc rest ih =>
    rw [List.length_cons] at behind
    rcases em (desc.Fits subaddr scratchOff) with fits | refused
    · rw [buildLoop_cons_of_fits fits] at built
      have inside := fits.inside
      have bounded := fits.size_le
      refine .cons fits ?_ ?_ (ih built (by omega) ?_)
      · exact (slice_congr fun k below => buildLoop_outside built (by omega) (by omega)).trans place_tag
      · exact (slice_congr fun k below => buildLoop_outside built (by omega) (by omega)).trans
          (place_block bounded (by omega) fun offset above below => clear offset above (by omega))
      · intro offset above below
        rw [place_outside bounded (by omega) (by omega)]
        exact clear offset (by omega) below
    · rw [buildLoop_cons_of_not_fits refused] at built
      cases built

section Walk

variable {phys : Memory} {base : Word}

/-- The channel sees the stream at a physical address. -/
def Sees (phys : Memory) (base : Word) (buffer : Buffer) (size : ℕ) : Prop :=
  ∀ offset < size, phys (base + BitVec.ofNat 32 offset) = buffer offset

theorem add_ofNat_add (first second : ℕ) :
    base + BitVec.ofNat 32 first + BitVec.ofNat 32 second = base + BitVec.ofNat 32 (first + second) := by
  rw [BitVec.add_assoc, BitVec.ofNat_add]

/-- A word of the stream, as the channel reads it. -/
theorem Sees.physWord (sees : Sees phys base buffer size) {offset : ℕ} (inside : offset + 4 ≤ size) :
    physWord phys (base + BitVec.ofNat 32 offset) = ByteOrder.little.load32 buffer offset := by
  rw [Ps2.physWord, ByteOrder.load32, ByteOrder.load32]
  congr 1
  rw [readBe32, readBe32]
  simp only [add_ofNat_add, Nat.zero_add, Nat.add_zero]
  rw [sees _ (by omega), sees _ (by omega), sees _ (by omega), sees _ (by omega)]

/-- A block of the stream, as the channel reads it. -/
theorem Sees.copyOut (sees : Sees phys base buffer size) {offset count : ℕ} (inside : offset + count ≤ size) :
    phys.copyOut (base + BitVec.ofNat 32 offset) count = slice buffer offset count := by
  apply List.ext_getElem
  · rw [Memory.length_copyOut, length_slice]
  · intro k left right
    rw [Memory.length_copyOut] at left
    rw [Memory.getElem_copyOut, getElem_slice, add_ofNat_add]
    exact sees _ (by omega)

/-- An address in a stream that begins at a quadword. -/
theorem quadword_add (aligned : base.toNat % 16 = 0) {offset : ℕ} (whole : offset % 16 = 0)
    (short : base.toNat + offset < 2 ^ 32) : quadword (base + BitVec.ofNat 32 offset) = base + BitVec.ofNat 32 offset := by
  have sum : (base + BitVec.ofNat 32 offset).toNat = base.toNat + offset := by
    rw [BitVec.toNat_add, BitVec.toNat_ofNat]
    omega
  apply BitVec.eq_of_toNat_eq
  rw [quadword, BitVec.toNat_ofNat, sum]
  omega

theorem toNat_eePhys (address : Word) : (eePhys address).toNat = address.toNat % 2 ^ 29 := by
  rw [eePhys, BitVec.toNat_and]
  exact Nat.and_two_pow_sub_one_eq_mod address.toNat 29

/-- The physical address of a place in a stream. -/
theorem eePhys_add {offset : ℕ} (short : stream.toNat % 2 ^ 29 + offset < 2 ^ 29) :
    eePhys (stream + BitVec.ofNat 32 offset) = eePhys stream + BitVec.ofNat 32 offset := by
  apply BitVec.eq_of_toNat_eq
  rw [toNat_eePhys, BitVec.toNat_add, BitVec.toNat_add, toNat_eePhys, BitVec.toNat_ofNat]
  have bound := stream.isLt
  omega

/-- The count and the kind that a tag's first word holds. -/
theorem tagWord_fields (last : Bool) {quadwords : ℕ} (small : quadwords < 2 ^ 16) :
    (((if last then dmaTagRefe else dmaTagRef) <<< 28 ||| BitVec.ofNat 32 quadwords) &&& 0xffff#32).toNat = quadwords ∧
      (((if last then dmaTagRefe else dmaTagRef) <<< 28 ||| BitVec.ofNat 32 quadwords) >>> 28) &&& 7#32 =
        if last then dmaTagRefe else dmaTagRef := by
  have sum : ((if last then dmaTagRefe else dmaTagRef) <<< 28 ||| BitVec.ofNat 32 quadwords).toNat =
      2 ^ 28 * (if last then 0 else 3) + quadwords := by
    rw [BitVec.toNat_or, BitVec.toNat_ofNat, Nat.mod_eq_of_lt (by omega), Nat.two_pow_add_eq_or_of_lt (by omega)]
    cases last <;> rfl
  constructor
  · rw [BitVec.toNat_and, sum]
    refine (Nat.and_two_pow_sub_one_eq_mod _ 16).trans ?_
    omega
  · apply BitVec.eq_of_toNat_eq
    rw [BitVec.toNat_and, BitVec.toNat_ushiftRight, sum, Nat.shiftRight_eq_div_pow]
    refine (Nat.and_two_pow_sub_one_eq_mod _ 3).trans ?_
    have kind : (if last then dmaTagRefe else dmaTagRef).toNat = if last then 0 else 3 := by cases last <;> rfl
    have small : (if last then 0 else 3) < 8 := by cases last <;> decide
    omega

/-- The words of a tag that stands in a stream. -/
theorem load32_tag (stands : slice buffer (i * 16) 16 = desc.tag subaddr stream last scratchOff) :
    ByteOrder.little.load32 buffer (i * 16) =
        (if last then dmaTagRefe else dmaTagRef) <<< 28 ||| BitVec.ofNat 32 (desc.qbytes subaddr / 16 + 1) ∧
      ByteOrder.little.load32 buffer (i * 16 + 4) = eePhys (stream + BitVec.ofNat 32 scratchOff) := by
  have holds : Holds buffer (i * 16) (desc.tag subaddr stream last scratchOff) := stands
  simp only [DmaTransfer.tag, holds_append, ByteOrder.length_bytes32] at holds
  exact ⟨ByteOrder.load32_bytes32 _ _ holds.1.1.1, ByteOrder.load32_bytes32 _ _ holds.1.1.2⟩

/-- The walk over a chain that has been laid out, from tag `i` on. -/
theorem sourceChain_of_laid {tags : ℕ} (laid : Laid subaddr stream ram buffer descs i scratchOff size)
    (aligned : stream.toNat % 64 = 0) (inside : stream.toNat % 2 ^ 29 + sifDmaJobStreamSize ≤ 2 ^ 29)
    (sees : Sees phys (eePhys stream) buffer size) (whole : scratchOff % 16 = 0)
    (behind : (i + descs.length) * 16 ≤ scratchOff) (nonempty : descs ≠ []) (enough : descs.length ≤ tags) :
    sourceChain phys tags (eePhys stream + BitVec.ofNat 32 (i * 16)) =
      some (descs.map (DmaTransfer.block subaddr ram)) := by
  have base : (eePhys stream).toNat = stream.toNat % 2 ^ 29 := toNat_eePhys stream
  have room : sifDmaJobStreamSize = 1024 := rfl
  induction laid generalizing tags with
  | nil => exact absurd rfl nonempty
  | @cons desc rest i scratchOff size fits tag block others ih =>
    rw [List.length_cons] at behind enough
    have fitting := fits.inside
    have ending := others.size_ge
    obtain ⟨count, kind⟩ := tagWord_fields rest.isEmpty (show desc.qbytes subaddr / 16 + 1 < 2 ^ 16 by omega)
    obtain ⟨first, second⟩ := load32_tag tag
    have round : desc.qbytes subaddr % 16 = 0 := by
      rw [DmaTransfer.qbytes]
      omega
    have tadr : quadword (eePhys stream + BitVec.ofNat 32 (i * 16)) = eePhys stream + BitVec.ofNat 32 (i * 16) :=
      quadword_add (by omega) (by omega) (by omega)
    have address : quadword (eePhys (stream + BitVec.ofNat 32 scratchOff)) =
        eePhys stream + BitVec.ofNat 32 scratchOff := by
      rw [eePhys_add (by omega)]
      exact quadword_add (by omega) whole (by omega)
    have sent : phys.copyOut (eePhys stream + BitVec.ofNat 32 scratchOff) (16 * (desc.qbytes subaddr / 16 + 1)) =
        desc.block subaddr ram := by
      rw [show 16 * (desc.qbytes subaddr / 16 + 1) = 16 + desc.qbytes subaddr by omega, sees.copyOut (by omega), block]
    obtain ⟨more, rfl⟩ : ∃ more, tags = more + 1 := ⟨tags - 1, by omega⟩
    rw [sourceChain]
    simp only [tadr]
    rw [show (4#32) = BitVec.ofNat 32 4 from rfl, add_ofNat_add, sees.physWord (by omega), sees.physWord (by omega),
      first, second, count, kind, address, sent]
    cases rest with
    | nil => rfl
    | cons next rest =>
      simp only [List.isEmpty_cons, Bool.false_eq_true, if_false]
      rw [if_neg (by decide), if_pos trivial, show (16#32) = BitVec.ofNat 32 16 from rfl, add_ofNat_add,
        show i * 16 + 16 = (i + 1) * 16 by omega,
        ih sees (by omega) (by omega) (List.cons_ne_nil _ _) (by omega)]
      rfl

end Walk

theorem flags_apart : desc.flags &&& physMask = 0 ∧
    (desc.flags &&& flagIntO ≠ 0 ↔ desc.attr &&& attrIntO ≠ 0) ∧
    (desc.flags &&& flagErt ≠ 0 ↔ desc.attr &&& attrErt ≠ 0) := by
  rw [DmaTransfer.flags]
  split_ifs with interrupts ends ends
  · exact ⟨rfl, iff_of_true (by decide) interrupts, iff_of_true (by decide) ends⟩
  · exact ⟨rfl, iff_of_true (by decide) interrupts, iff_of_false (by decide) ends⟩
  · exact ⟨rfl, iff_of_false (by decide) interrupts, iff_of_true (by decide) ends⟩
  · exact ⟨rfl, iff_of_false (by decide) interrupts, iff_of_false (by decide) ends⟩

/-- The flags stand above the address in the first word of a header. -/
theorem headerWord_fields : (desc.target ||| desc.flags) &&& physMask = desc.target ∧
    (desc.target ||| desc.flags) &&& flagIntO = desc.flags &&& flagIntO ∧
    (desc.target ||| desc.flags) &&& flagErt = desc.flags &&& flagErt := by
  refine ⟨?_, ?_, ?_⟩
  · rw [BitVec.and_or_distrib_right, flags_apart.1, DmaTransfer.target, BitVec.and_assoc, BitVec.and_self]
    exact BitVec.or_zero
  · rw [BitVec.and_or_distrib_right, DmaTransfer.target, BitVec.and_assoc]
    rw [show physMask &&& flagIntO = 0#32 from rfl, BitVec.and_zero, BitVec.zero_or]
  · rw [BitVec.and_or_distrib_right, DmaTransfer.target, BitVec.and_assoc]
    rw [show physMask &&& flagErt = 0#32 from rfl, BitVec.and_zero, BitVec.zero_or]

/-- What the other processor reads in the block of a descriptor. -/
theorem decodeBlock_block : decodeBlock (desc.block subaddr ram) = desc.packet subaddr ram := by
  have first : ByteOrder.little.load32 (overlay (desc.block subaddr ram) fun _ => 0) 0 =
      desc.target ||| desc.flags := by
    apply ByteOrder.load32_bytes32
    rw [DmaTransfer.block, DmaTransfer.header, List.append_assoc]
    exact slice_overlay [] _ _ _
  have second : ByteOrder.little.load32 (overlay (desc.block subaddr ram) fun _ => 0) 4 =
      BitVec.ofNat 32 (desc.qbytes subaddr / 4) := by
    apply ByteOrder.load32_bytes32
    exact slice_overlay (ByteOrder.little.bytes32 (desc.target ||| desc.flags)) _ _ _
  obtain ⟨address, interrupts, ends⟩ := @headerWord_fields desc
  rw [decodeBlock, first, second, address, interrupts, ends]
  simp only [flags_apart.2.1, flags_apart.2.2, DmaTransfer.packet]
  rfl

/-- What a chain in a stream is for: it keeps to the stream, and the channel carries the packets of the
descriptors. -/
structure ChainFor (subaddr stream : Word) (ram : Memory) (descs : List DmaTransfer) (buffer : Buffer) (size : ℕ) :
    Prop where
  short : size ≤ sifDmaJobStreamSize
  carried : ∀ phys, Sees phys (eePhys stream) buffer size →
    (sourceChain phys sifDmaMaxDescs (eePhys stream)).map (List.map decodeBlock) =
      some (descs.map (DmaTransfer.packet subaddr ram))

/-- A job that has been built carries its descriptors. -/
theorem eeSifBuildDmaJob_chain (aligned : stream.toNat % 64 = 0)
    (inside : stream.toNat % 2 ^ 29 + sifDmaJobStreamSize ≤ 2 ^ 29) (nonempty : descs ≠ [])
    (few : descs.length ≤ sifDmaMaxDescs)
    (built : eeSifBuildDmaJob subaddr ram stream descs buffer = (final, some size)) :
    ChainFor subaddr stream ram descs final size := by
  have tags : sifDmaMaxDescs = 8 := rfl
  have room : sifDmaJobStreamSize = 1024 := rfl
  have laid : Laid subaddr stream ram final descs 0 (16 * descs.length) size :=
    buildLoop_laid built (by omega) fun offset _ below => if_pos below
  refine ⟨(buildLoop_size built (by omega)).2, fun phys sees => ?_⟩
  have walk := sourceChain_of_laid laid aligned inside sees (by omega) (by omega) nonempty few
  rw [Nat.zero_mul, BitVec.add_zero] at walk
  rw [walk, Option.map_some, List.map_map]
  congr 1
  exact List.map_congr_left fun desc _ => decodeBlock_block

/-- Building a job touches nothing behind its stream. -/
theorem eeSifBuildDmaJob_behind (few : descs.length ≤ sifDmaMaxDescs) {offset : ℕ}
    (behind : sifDmaJobStreamSize ≤ offset) :
    (eeSifBuildDmaJob subaddr ram stream descs buffer).1 offset = buffer offset := by
  have tags : sifDmaMaxDescs = 8 := rfl
  have room : sifDmaJobStreamSize = 1024 := rfl
  rw [eeSifBuildDmaJob, buildLoop_behind (by omega) behind, clearStream, if_neg (Nat.not_lt.mpr behind)]

end KosTool.Ps2
