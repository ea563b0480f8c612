import KosTool.Model.Host.Upload
import KosTool.Soundness.ChunkMap

/-! # What an upload keeps invariant

Once the console has accepted the upload, a set bit stands for a stored chunk, and every answer it gives
to `DBIN` names a chunk of the image or was given when the whole image was stored. The datagrams of the
upload itself keep this; a datagram left over from before has to be harmless.
-/

namespace KosTool.Host

open ByteWord Client Client.Loader Protocol

namespace Upload

variable (upload : Upload)

/-- The chunk size as a number. -/
def chunk : ℕ := Client.chunkSize upload.legacyMode

/-- The number of chunks. -/
def chunks : ℕ := chunksOf upload.legacyMode upload.size

/-- The byte of the image at the offset is in guest memory. -/
def Stored (loader : Loader) (offset : ℕ) : Prop :=
  loader.memory (upload.destAddr + BitVec.ofNat 32 offset) = upload.data offset

instance (loader : Loader) (offset : ℕ) : Decidable (upload.Stored loader offset) :=
  inferInstanceAs (Decidable (_ = _))

/-- Every byte of the chunk is in guest memory. -/
def ChunkStored (loader : Loader) (k : ℕ) : Prop :=
  ∀ offset < upload.size.toNat, k * upload.chunk ≤ offset → offset < (k + 1) * upload.chunk →
    upload.Stored loader offset

instance (loader : Loader) (k : ℕ) : Decidable (upload.ChunkStored loader k) :=
  inferInstanceAs (Decidable (∀ _ < _, _))

/-- The whole image is in guest memory. -/
def ImageStored (loader : Loader) : Prop := ∀ offset < upload.size.toNat, upload.Stored loader offset

/-- The datagram is one this upload sends: a `LBIN`, a `DBIN`, or a `PBIN` of one chunk. -/
def Sends (payload : List Byte) : Prop :=
  (∃ stage, payload = upload.stageDatagram stage) ∨
    ∃ k < upload.chunks, payload = upload.partbinDatagram
      (upload.destAddr + BitVec.ofNat 32 (k * upload.chunk)) (BitVec.ofNat 32 (k * upload.chunk))
      (BitVec.ofNat 32 (lengthOf upload.legacyMode upload.size k))

/-- What the console keeps from its acceptance of the upload on. -/
structure Announced (loader : Loader) : Prop where
  loadAddress : loader.binInfo.loadAddress = upload.destAddr
  loadSize : loader.binInfo.loadSize = upload.size
  payload1024 : loader.payload1024 = upload.legacyMode
  marked : ∀ k < upload.chunks, loader.binInfo.map k = true → upload.ChunkStored loader k

/-- Processing a datagram does the upload no harm: the announced range stays, no byte of the image is
replaced, and no bit is set for a chunk that is not stored. -/
structure Harmless (before after : Loader) : Prop where
  loadAddress : after.binInfo.loadAddress = before.binInfo.loadAddress
  loadSize : after.binInfo.loadSize = before.binInfo.loadSize
  payload1024 : after.payload1024 = before.payload1024
  image : ∀ offset < upload.size.toNat, upload.Stored before offset → upload.Stored after offset
  marks : ∀ k < upload.chunks, after.binInfo.map k = true →
    before.binInfo.map k = true ∨ upload.ChunkStored after k

/-- The `PBIN` writes the byte of the image at the offset. -/
def Writes (loader : Loader) (udp : Udp) (offset : ℕ) : Prop :=
  (upload.destAddr + BitVec.ofNat 32 offset - commandAddress loader.rx udp.data).toNat <
    (commandSize loader.rx udp.data).toNat

instance (loader : Loader) (udp : Udp) (offset : ℕ) : Decidable (upload.Writes loader udp offset) :=
  inferInstanceAs (Decidable (_ < _))

/-- What the `PBIN` writes into the image are bytes of the image. -/
def WritesImage (loader : Loader) (udp : Udp) : Prop :=
  ∀ offset < upload.size.toNat, upload.Writes loader udp offset →
    loader.rx (commandData udp.data +
      (upload.destAddr + BitVec.ofNat 32 offset - commandAddress loader.rx udp.data).toNat) = upload.data offset

/-- The `PBIN` writes what is missing of the chunk. -/
def FillsChunk (loader : Loader) (udp : Udp) (k : ℕ) : Prop :=
  ∀ offset < upload.size.toNat, k * upload.chunk ≤ offset → offset < (k + 1) * upload.chunk →
    upload.Stored loader offset ∨ upload.Writes loader udp offset

/-- If the `PBIN` indexes a chunk, then the chunk is marked already, or the `PBIN` writes what is missing. -/
def CompletesChunk (loader : Loader) (udp : Udp) : Prop :=
  ∀ k < upload.chunks, partbinIndex loader.payload1024 (loader.partbinOffset udp) = k →
    loader.binInfo.map k = true ∨ upload.FillsChunk loader udp k

/-- If the datagram announces a range, it is the one of this upload; if it is a `PBIN`, it writes bytes of
the image and completes the chunk it indexes. -/
def Benign (loader : Loader) (udp : Udp) : Prop :=
  (loader.Takes udp netCmdLoadbin →
    commandAddress loader.rx udp.data = upload.destAddr ∧ commandSize loader.rx udp.data = upload.size) ∧
  (loader.Takes udp netCmdPartbin → upload.WritesImage loader udp ∧ upload.CompletesChunk loader udp)

instance (loader : Loader) (udp : Udp) : Decidable (upload.WritesImage loader udp) :=
  inferInstanceAs (Decidable (∀ _ < _, _ → _))

instance (loader : Loader) (udp : Udp) (k : ℕ) : Decidable (upload.FillsChunk loader udp k) :=
  inferInstanceAs (Decidable (∀ _ < _, _))

instance (loader : Loader) (udp : Udp) : Decidable (upload.CompletesChunk loader udp) :=
  inferInstanceAs (Decidable (∀ _ < _, _ → _ ∨ _))

instance (loader : Loader) (udp : Udp) : Decidable (upload.Benign loader udp) :=
  inferInstanceAs (Decidable ((_ → _) ∧ (_ → _)))

/-- The answer to `DBIN` is true: it names a chunk, or the image was stored and the host will see that the
size is zero or the range not inside the image. -/
def TrueAnswer (loader : Loader) (payload : List Byte) : Prop :=
  ∃ address size, payload = netCommand netCmdDonebin address size [] ∧
    ((∃ k < upload.chunks, address = upload.destAddr + BitVec.ofNat 32 (k * upload.chunk) ∧
        size = BitVec.ofNat 32 (lengthOf upload.legacyMode upload.size k)) ∨
      upload.ImageStored loader ∧ (size = 0#32 ∨ upload.size < address - upload.destAddr + size))

variable {upload} {loader before after : Loader}

theorem chunk_pos (upload : Upload) : 0 < upload.chunk := chunkSize_pos _

/-- Every offset lies in a chunk. -/
theorem imageStored_of_chunks (all : ∀ k < upload.chunks, upload.ChunkStored loader k) :
    upload.ImageStored loader := by
  intro offset inside
  have positive := upload.chunk_pos
  have split : upload.chunk * (offset / upload.chunk) + offset % upload.chunk = offset :=
    Nat.div_add_mod offset upload.chunk
  have rest := Nat.mod_lt offset positive
  have start : offset / upload.chunk * upload.chunk ≤ offset := Nat.div_mul_le_self _ _
  refine all (offset / upload.chunk) ((lt_chunksOf_iff _ _ _).mpr (Nat.lt_of_le_of_lt start inside)) offset
    inside start ?_
  rw [Nat.add_mul, Nat.one_mul, Nat.mul_comm]
  omega

theorem Harmless.chunkStored (harmless : upload.Harmless before after) {k : ℕ}
    (stored : upload.ChunkStored before k) : upload.ChunkStored after k :=
  fun offset inside lower upper => harmless.image offset inside (stored offset inside lower upper)

/-- A true answer stays true while no byte of the image is lost. -/
theorem TrueAnswer.mono (image : ∀ offset < upload.size.toNat, upload.Stored before offset → upload.Stored after offset)
    {payload : List Byte} (answer : upload.TrueAnswer before payload) : upload.TrueAnswer after payload := by
  obtain ⟨address, size, rfl, chunk | ⟨stored, empty⟩⟩ := answer
  · exact ⟨address, size, rfl, Or.inl chunk⟩
  · exact ⟨address, size, rfl, Or.inr ⟨fun offset inside => image offset inside (stored offset inside), empty⟩⟩

/-- Harmless processing keeps what was announced. -/
theorem Harmless.announced (harmless : upload.Harmless before after) (announced : upload.Announced before) :
    upload.Announced after := by
  refine ⟨harmless.loadAddress.trans announced.loadAddress, harmless.loadSize.trans announced.loadSize,
    harmless.payload1024.trans announced.payload1024, fun k inside marked => ?_⟩
  rcases harmless.marks k inside marked with earlier | stored
  · exact harmless.chunkStored (announced.marked k inside earlier)
  · exact stored

/-- The receive memory does not matter. -/
theorem Announced.receive (announced : upload.Announced loader) {frame : ℕ} {payload : List Byte} :
    upload.Announced (loader.receive frame payload) :=
  ⟨announced.loadAddress, announced.loadSize, announced.payload1024, announced.marked⟩

/-- The answer to a `DBIN` at an announced console is true. -/
theorem Announced.trueAnswer (announced : upload.Announced loader) (agreed : ChunkSizeAgreed upload.legacyMode loader)
    (small : upload.size.toNat + 2880 ≤ 2 ^ 32) :
    upload.TrueAnswer loader (netCommand netCmdDonebin (donebinAnswer loader.toolVersion loader.binInfo).1
      (donebinAnswer loader.toolVersion loader.binInfo).2 []) := by
  refine ⟨_, _, rfl, ?_⟩
  have cases := donebinAnswer_cases loader.binInfo agreed (by rw [announced.loadSize]; exact small)
  rw [announced.loadSize, announced.loadAddress] at cases
  rcases cases with ⟨k, inside, -, answer⟩ | ⟨set, empty⟩
  · exact Or.inl ⟨k, inside, by rw [answer]; rfl, by rw [answer]⟩
  · exact Or.inr ⟨imageStored_of_chunks fun k inside => announced.marked k inside (set k inside), empty⟩

/-- The size limit of the console for the chunk size of the upload. -/
def limit (target : Target) (upload : Upload) : ℕ :=
  if upload.legacyMode then target.platform.binInfoMapEntries * 1024
  else min target.platform.maxRamBytes target.detectRamSize.toNat

theorem loadLimit_eq (target : Target) (agreed : ChunkSizeAgreed upload.legacyMode loader) :
    loadLimit target loader.toolVersion = upload.limit target := by
  unfold loadLimit limit
  by_cases legacy : dctoolMajor loader.toolVersion < 2#32
  · rw [if_pos legacy, if_pos (agreed.mp legacy)]
  · rw [if_neg legacy, if_neg fun mode => legacy (agreed.mpr mode)]

variable {target : Target}

/-- An image that fits into the console's memory leaves room for two more chunks in the address space. -/
theorem size_small (fits : upload.size.toNat ≤ target.platform.maxRamBytes) :
    upload.size.toNat + 2880 ≤ 2 ^ 32 := by
  have ram : target.platform.maxRamBytes + 2880 ≤ 2 ^ 32 := by
    cases target.platform <;> decide
  omega

theorem chunks_le (fits : upload.size.toNat ≤ upload.limit target) :
    upload.chunks ≤ target.platform.binInfoMapEntries := by
  unfold limit at fits
  cases mode : upload.legacyMode with
  | true =>
    rw [if_pos mode] at fits
    rw [chunks, chunksOf, mode, chunkSize_true]
    omega
  | false =>
    rw [if_neg (by rw [mode]; decide)] at fits
    rw [chunks, chunksOf, mode, chunkSize_false, Platform.binInfoMapEntries]
    exact Nat.div_le_div_right (by omega)

theorem mul_chunk_lt {k : ℕ} (inside : k < upload.chunks) : k * upload.chunk < upload.size.toNat :=
  (lt_chunksOf_iff _ _ _).mp inside

section Console

variable {udp : Udp} {now : ℕ}

/-- A `PBIN` of image bytes takes no byte of the image away, and stores those it writes. -/
theorem stored_cmdPartbin (bytes : upload.WritesImage loader udp) {offset : ℕ} (inside : offset < upload.size.toNat)
    (held : upload.Stored loader offset ∨ upload.Writes loader udp offset) :
    upload.Stored (loader.cmdPartbin target udp now).1 offset := by
  unfold Stored
  rw [cmdPartbin_memory]
  by_cases written : upload.Writes loader udp offset
  · rw [Memory.copyIn_inside written]
    exact bytes offset inside written
  · rw [Memory.copyIn_outside (Nat.not_lt.mp written)]
    exact held.resolve_right written

/-- A `PBIN` of image bytes that completes its chunk does no harm. -/
theorem harmless_partbin (bytes : upload.WritesImage loader udp) (completes : upload.CompletesChunk loader udp) :
    upload.Harmless loader (loader.cmdPartbin target udp now).1 where
  loadAddress := cmdPartbin_loadAddress
  loadSize := cmdPartbin_loadSize
  payload1024 := cmdPartbin_payload1024
  image _ inside stored := stored_cmdPartbin bytes inside (Or.inl stored)
  marks k inside marked := by
    rw [cmdPartbin_map, Bool.or_eq_true, decide_eq_true_eq] at marked
    rcases marked with earlier | ⟨indexed, -⟩
    · exact Or.inl earlier
    · refine (completes k inside indexed.symm).imp_right fun fills offset image lower upper => ?_
      exact stored_cmdPartbin bytes image (fills offset image lower upper)

/-- The console that acknowledges the `LBIN` of the upload has announced it. -/
theorem announced_loadbin (agreed : ChunkSizeAgreed upload.legacyMode loader) (fits : upload.size.toNat ≤ upload.limit target)
    (address : commandAddress loader.rx udp.data = upload.destAddr)
    (size : commandSize loader.rx udp.data = upload.size) :
    upload.Announced (loader.cmdLoadbin target udp now).1 := by
  rw [cmdLoadbin_of_le (by rw [size, loadLimit_eq target agreed]; exact fits)]
  refine ⟨address, size, ?_, fun k inside marked => ?_⟩
  · exact Bool.eq_iff_iff.mpr ((decide_eq_true_iff).trans agreed)
  · have entries := chunks_le fits
    have room := target.platform.binInfoMapEntries_lt
    simp only [mapClearAll] at marked
    rw [if_pos (by omega)] at marked
    cases marked

/-- The `LBIN` of the upload does no harm when it comes again. -/
theorem harmless_loadbin (announced : upload.Announced loader) (agreed : ChunkSizeAgreed upload.legacyMode loader)
    (fits : upload.size.toNat ≤ upload.limit target)
    (address : commandAddress loader.rx udp.data = upload.destAddr)
    (size : commandSize loader.rx udp.data = upload.size) :
    upload.Harmless loader (loader.cmdLoadbin target udp now).1 := by
  have again : upload.Announced (loader.cmdLoadbin target udp now).1 := announced_loadbin agreed fits address size
  refine ⟨again.loadAddress.trans announced.loadAddress.symm, again.loadSize.trans announced.loadSize.symm,
    again.payload1024.trans announced.payload1024.symm, fun offset _ stored => ?_,
    fun k inside marked => Or.inr (again.marked k inside marked)⟩
  rw [cmdLoadbin_of_le (by rw [size, loadLimit_eq target agreed]; exact fits)]
  simpa only [Stored, netBumpSyscallDeadline_memory] using stored

/-- A benign datagram does no harm to an announced upload. -/
theorem Benign.harmless (benign : upload.Benign loader udp) (announced : upload.Announced loader)
    (agreed : ChunkSizeAgreed upload.legacyMode loader) (fits : upload.size.toNat ≤ upload.limit target) :
    upload.Harmless loader (loader.processUdp target udp now).1 := by
  by_cases loadbin : loader.Takes udp netCmdLoadbin
  · rw [processUdp_loadbin loadbin]
    exact harmless_loadbin announced agreed fits (benign.1 loadbin).1 (benign.1 loadbin).2
  by_cases partbin : loader.Takes udp netCmdPartbin
  · rw [processUdp_partbin partbin]
    exact harmless_partbin (benign.2 partbin).1 (benign.2 partbin).2
  have kept : (loader.processUdp target udp now).1.transfer = loader.transfer := processUdp_transfer loadbin partbin
  simp only [Loader.transfer, Prod.mk.injEq] at kept
  obtain ⟨binInfo, payload1024, memory⟩ := kept
  refine ⟨by rw [binInfo], by rw [binInfo], payload1024, fun offset _ stored => ?_, fun k _ marked => ?_⟩
  · rw [Stored, memory]
    exact stored
  · rw [binInfo] at marked
    exact Or.inl marked

end Console

end Upload

namespace Upload

variable {upload : Upload} {loader : Loader} {udp : Udp} {payload : List Byte}

/-- A byte that the `PBIN` of a chunk writes is the byte of the image there. -/
theorem chunk_offset {k offset : ℕ} (inside : offset < upload.size.toNat)
    (chunk : k * upload.chunk < upload.size.toNat)
    (written : (upload.destAddr + BitVec.ofNat 32 offset -
      (upload.destAddr + BitVec.ofNat 32 (k * upload.chunk))).toNat < lengthOf upload.legacyMode upload.size k) :
    k * upload.chunk + (upload.destAddr + BitVec.ofNat 32 offset -
      (upload.destAddr + BitVec.ofNat 32 (k * upload.chunk))).toNat = offset := by
  have small := upload.size.isLt
  have short : lengthOf upload.legacyMode upload.size k ≤ upload.size.toNat - k * upload.chunk := Nat.min_le_left _ _
  generalize lengthOf upload.legacyMode upload.size k = length at *
  generalize k * upload.chunk = start at *
  have distance : upload.destAddr + BitVec.ofNat 32 offset - (upload.destAddr + BitVec.ofNat 32 start) =
      BitVec.ofNat 32 offset - BitVec.ofNat 32 start := by
    rw [BitVec.sub_eq_add_neg, BitVec.neg_add]
    ring_nf
  bv_omega

/-- The `PBIN` of a chunk writes every byte of the chunk. -/
theorem chunk_written {k offset : ℕ} (inside : offset < upload.size.toNat) (lower : k * upload.chunk ≤ offset)
    (upper : offset < (k + 1) * upload.chunk) :
    (upload.destAddr + BitVec.ofNat 32 offset -
      (upload.destAddr + BitVec.ofNat 32 (k * upload.chunk))).toNat < lengthOf upload.legacyMode upload.size k := by
  have small := upload.size.isLt
  rw [Nat.add_mul, Nat.one_mul] at upper
  have short : offset - k * upload.chunk < lengthOf upload.legacyMode upload.size k :=
    Nat.lt_min.mpr ⟨Nat.sub_lt_sub_right lower inside, Nat.sub_lt_left_of_lt_add lower upper⟩
  generalize lengthOf upload.legacyMode upload.size k = length at *
  generalize k * upload.chunk = start at *
  have distance : upload.destAddr + BitVec.ofNat 32 offset - (upload.destAddr + BitVec.ofNat 32 start) =
      BitVec.ofNat 32 offset - BitVec.ofNat 32 start := by
    rw [BitVec.sub_eq_add_neg, BitVec.neg_add]
    ring_nf
  bv_omega

/-- The upload tells no version. -/
theorem Sends.keepsChunkSize (sends : upload.Sends payload) (frame : ℕ) :
    KeepsChunkSize upload.legacyMode (loader.receive frame payload) (wireUdp frame payload) := by
  intro version
  rcases sends with ⟨stage, rfl⟩ | ⟨k, inside, rfl⟩
  · have takes := takes_sendCmd upload.isWiiLoader (upload.stageCommand stage).1
      (upload.stageCommand stage).2.1 (upload.stageCommand stage).2.2 (fun _ => 0) 0 loader frame
    cases stage with
    | loadbin | loadbinRetry | recoverLoadbin =>
      exact absurd (takes.2.2.symm.trans version.2.2) (show netCmdLoadbin ≠ netCmdVersion by decide)
    | donebin | donebinRetry | recoverDonebin =>
      exact absurd (takes.2.2.symm.trans version.2.2) (show netCmdDonebin ≠ netCmdVersion by decide)
  · have takes := takes_sendCmd upload.isWiiLoader netCmdPartbin
      (upload.destAddr + BitVec.ofNat 32 (k * upload.chunk))
      (BitVec.ofNat 32 (lengthOf upload.legacyMode upload.size k))
      (fun i => upload.data ((BitVec.ofNat 32 (k * upload.chunk)).toNat + i))
      (BitVec.ofNat 32 (lengthOf upload.legacyMode upload.size k)).toNat loader frame
    exact absurd (takes.2.2.symm.trans version.2.2) (by decide)

/-- The `LBIN` of the upload is benign. -/
theorem benign_loadbin {data : Buffer} {dsize : ℕ}
    (delivers : Delivers netCmdLoadbin upload.destAddr upload.size data dsize loader udp) :
    upload.Benign loader udp :=
  ⟨fun _ => ⟨delivers.address, delivers.size⟩,
    fun partbin => absurd (delivers.takes.2.2.symm.trans partbin.2.2) (by decide)⟩

/-- A `DBIN` is benign. -/
theorem benign_donebin {address size : Word} {data : Buffer} {dsize : ℕ}
    (delivers : Delivers netCmdDonebin address size data dsize loader udp) : upload.Benign loader udp :=
  ⟨fun loadbin => absurd (delivers.takes.2.2.symm.trans loadbin.2.2) (by decide),
    fun partbin => absurd (delivers.takes.2.2.symm.trans partbin.2.2) (by decide)⟩

/-- The `PBIN` of a chunk is benign. -/
theorem benign_partbin (announced : upload.Announced loader) {k : ℕ} (chunk : k * upload.chunk < upload.size.toNat)
    (delivers : Delivers netCmdPartbin (upload.destAddr + BitVec.ofNat 32 (k * upload.chunk))
      (BitVec.ofNat 32 (lengthOf upload.legacyMode upload.size k)) (fun i => upload.data (k * upload.chunk + i))
      (lengthOf upload.legacyMode upload.size k) loader udp) :
    upload.Benign loader udp := by
  have small := upload.size.isLt
  have length : (BitVec.ofNat 32 (lengthOf upload.legacyMode upload.size k)).toNat =
      lengthOf upload.legacyMode upload.size k := by
    have short : lengthOf upload.legacyMode upload.size k ≤ upload.size.toNat - k * upload.chunk :=
      Nat.min_le_left _ _
    rw [BitVec.toNat_ofNat]
    exact Nat.mod_eq_of_lt (by omega)
  have writes (offset : ℕ) : upload.Writes loader udp offset ↔ (upload.destAddr + BitVec.ofNat 32 offset -
      (upload.destAddr + BitVec.ofNat 32 (k * upload.chunk))).toNat < lengthOf upload.legacyMode upload.size k := by
    rw [Writes, delivers.address, delivers.size, length]
  refine ⟨fun loadbin => absurd (delivers.takes.2.2.symm.trans loadbin.2.2) (by decide), fun _ => ⟨?_, ?_⟩⟩
  · intro offset inside written
    rw [writes] at written
    rw [delivers.address, delivers.data _ written, chunk_offset inside chunk written]
  · intro index _ indexed
    refine Or.inr fun offset inside lower upper => Or.inr ?_
    have same : index = k := by
      have offsetIn : loader.partbinOffset udp = BitVec.ofNat 32 (k * upload.chunk) := by
        rw [Loader.partbinOffset, delivers.address, announced.loadAddress, BitVec.add_comm, BitVec.add_sub_cancel]
      rw [← indexed, offsetIn, announced.payload1024]
      exact partbinIndex_mul _ (Nat.lt_trans chunk small)
    subst same
    exact (writes offset).mpr (chunk_written inside lower upper)

/-- What the upload sends is benign. -/
theorem Sends.benign (sends : upload.Sends payload) (frame : ℕ) (announced : upload.Announced loader) :
    upload.Benign (loader.receive frame payload) (wireUdp frame payload) := by
  rcases sends with ⟨stage, rfl⟩ | ⟨k, inside, rfl⟩
  · have delivers := delivers_sendCmd upload.isWiiLoader (upload.stageCommand stage).1
      (upload.stageCommand stage).2.1 (upload.stageCommand stage).2.2 (fun _ => 0) 0 loader frame (Nat.zero_le _)
    cases stage with
    | loadbin | loadbinRetry | recoverLoadbin => exact benign_loadbin delivers
    | donebin | donebinRetry | recoverDonebin => exact benign_donebin delivers
  · have chunk := mul_chunk_lt inside
    have small := upload.size.isLt
    have short : lengthOf upload.legacyMode upload.size k ≤ upload.size.toNat - k * upload.chunk :=
      Nat.min_le_left _ _
    have start : (BitVec.ofNat 32 (k * upload.chunk)).toNat = k * upload.chunk :=
      (BitVec.toNat_ofNat _ _).trans (Nat.mod_eq_of_lt (by omega))
    have length : (BitVec.ofNat 32 (lengthOf upload.legacyMode upload.size k)).toNat =
        lengthOf upload.legacyMode upload.size k :=
      (BitVec.toNat_ofNat _ _).trans (Nat.mod_eq_of_lt (by omega))
    unfold partbinDatagram
    rw [start, length]
    exact benign_partbin announced.receive chunk (delivers_sendCmd _ _ _ _ _ _ _ _
      ((Nat.min_le_right _ _).trans (chunkSize_le upload.legacyMode)))

end Upload

end KosTool.Host
