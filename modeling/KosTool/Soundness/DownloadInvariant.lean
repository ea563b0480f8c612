import KosTool.Model.Host.Download
import KosTool.Soundness.ChunkMap

/-! # What a download keeps invariant

A byte is genuine if the console read it from guest memory while it serviced a request of this transfer.
A marked chunk holds genuine bytes only; the packets of the transfer itself keep this, since each of them
is a whole chunk or lies empty behind the range. A packet left over from before has to be faithful.
-/

namespace KosTool.Host

open ByteWord Client Client.Loader Protocol

namespace Download

variable (download : Download)

/-- The chunk size as a number. -/
def chunk : ℕ := Client.chunkSize download.legacyMode

/-- The number of chunks. -/
def chunks : ℕ := chunksOf download.legacyMode download.size

/-- The console read the byte at this offset of the range while it serviced the transfer. -/
def Genuine (served : List Served) (offset : ℕ) (byte : Byte) : Prop :=
  ∃ record ∈ served, (download.srcAddr + BitVec.ofNat 32 offset - record.address).toNat < record.size.toNat ∧
    record.memory (download.srcAddr + BitVec.ofNat 32 offset) = byte

instance (served : List Served) (offset : ℕ) (byte : Byte) : Decidable (download.Genuine served offset byte) :=
  inferInstanceAs (Decidable (∃ record ∈ served, _ ∧ _))

/-- Every marked chunk holds genuine bytes only. -/
def Marked (served : List Served) (receiver : Receiver) : Prop :=
  ∀ k < download.chunks, receiver.map k = true → ∀ offset < download.size.toNat, k * download.chunk ≤ offset →
    offset < (k + 1) * download.chunk → download.Genuine served offset (receiver.data offset)

/-- The packet in the buffer writes the byte at the offset. -/
def PacketWrites (buffer : Buffer) (offset : ℕ) : Prop :=
  (download.packetOffset buffer).toNat ≤ offset ∧
    offset < (download.packetOffset buffer).toNat + (commandSize buffer 0).toNat

instance (buffer : Buffer) (offset : ℕ) : Decidable (download.PacketWrites buffer offset) :=
  inferInstanceAs (Decidable (_ ∧ _))

/-- The packet in the buffer writes what is not genuine yet of the chunk. -/
def FillsChunk (served : List Served) (receiver : Receiver) (k : ℕ) : Prop :=
  ∀ offset < download.size.toNat, k * download.chunk ≤ offset → offset < (k + 1) * download.chunk →
    download.PacketWrites receiver.buffer offset ∨ download.Genuine served offset (receiver.data offset)

instance (served : List Served) (receiver : Receiver) (k : ℕ) : Decidable (download.FillsChunk served receiver k) :=
  inferInstanceAs (Decidable (∀ _ < _, _))

/-- The packet in the buffer writes genuine bytes only. -/
def WritesGenuine (served : List Served) (buffer : Buffer) : Prop :=
  ∀ offset < download.size.toNat, download.PacketWrites buffer offset →
    download.Genuine served offset (buffer (netCommandLen + (offset - (download.packetOffset buffer).toNat)))

instance (served : List Served) (buffer : Buffer) : Decidable (download.WritesGenuine served buffer) :=
  inferInstanceAs (Decidable (∀ _ < _, _ → _))

/-- If the buffer holds a `SBIN` inside the transfer, it writes genuine bytes and fills the chunk it marks. -/
def Faithful (served : List Served) (receiver : Receiver) : Prop :=
  commandId receiver.buffer 0 = netCmdSendbin → download.InTransfer receiver.buffer →
    download.WritesGenuine served receiver.buffer ∧
      (receiver.map (download.chunkIdx receiver.buffer).toNat = true ∨
        download.FillsChunk served receiver (download.chunkIdx receiver.buffer).toNat)

instance (served : List Served) (receiver : Receiver) : Decidable (download.Faithful served receiver) :=
  inferInstanceAs (Decidable (_ → _ → _ ∧ (_ ∨ _)))

/-- The datagram is a request of this transfer. -/
def Requests (payload : List Byte) : Prop :=
  payload = download.request ∨ ∃ c < download.chunks, payload = download.rerequest c

/-- The datagram answers the transfer: a whole chunk of genuine bytes, nothing behind the range, or the end
of the stream. -/
def Answers (served : List Served) (payload : List Byte) : Prop :=
  (∃ k < download.chunks, ∃ bytes : List Byte,
    payload = netCommand netCmdSendbin (download.srcAddr + BitVec.ofNat 32 (k * download.chunk))
      (BitVec.ofNat 32 (lengthOf download.legacyMode download.size k)) bytes ∧
    bytes.length = lengthOf download.legacyMode download.size k ∧
    ∀ i (inside : i < bytes.length), download.Genuine served (k * download.chunk + i) bytes[i]) ∨
  payload = netCommand netCmdSendbin (download.srcAddr + download.size) 0#32 [] ∨
  payload = netCommand netCmdDonebin 0#32 0#32 []

variable {download} {served more : List Served} {receiver : Receiver} {payload : List Byte}

theorem Genuine.mono {offset : ℕ} {byte : Byte} (genuine : download.Genuine served offset byte) :
    download.Genuine (served ++ more) offset byte := by
  obtain ⟨record, among, covers⟩ := genuine
  exact ⟨record, List.mem_append_left _ among, covers⟩

theorem Marked.mono (marked : download.Marked served receiver) : download.Marked (served ++ more) receiver :=
  fun k inside bit offset image lower upper => (marked k inside bit offset image lower upper).mono

theorem Answers.mono (answers : download.Answers served payload) : download.Answers (served ++ more) payload :=
  answers.imp_left fun ⟨k, inside, bytes, wire, length, genuine⟩ =>
    ⟨k, inside, bytes, wire, length, fun i bound => (genuine i bound).mono⟩

/-- Copying a faithful packet keeps the marked chunks genuine. -/
theorem marked_copyPacket (marked : download.Marked served receiver) (faithful : download.Faithful served receiver)
    (id : commandId receiver.buffer 0 = netCmdSendbin) (inTransfer : download.InTransfer receiver.buffer) :
    download.Marked served (download.copyPacket receiver) := by
  obtain ⟨bytes, fills⟩ := faithful id inTransfer
  intro k inside bit offset image lower upper
  have copied : (download.copyPacket receiver).data offset =
      if download.PacketWrites receiver.buffer offset then
        receiver.buffer (netCommandLen + (offset - (download.packetOffset receiver.buffer).toNat))
      else receiver.data offset := storeAt_slice _ _ _ _ _ _
  rw [copied]
  split
  · rename_i written
    exact bytes offset image written
  · rename_i untouched
    simp only [copyPacket, mapSet_apply, Bool.or_eq_true, decide_eq_true_eq] at bit
    rcases bit with earlier | rfl
    · exact marked k inside earlier offset image lower upper
    · rcases fills with earlier | fills
      · exact marked _ inside earlier offset image lower upper
      · exact (fills offset image lower upper).resolve_left untouched

theorem chunkSize_eq (download : Download) : download.chunkSize = BitVec.ofNat 32 download.chunk := by
  unfold chunkSize chunk Client.chunkSize
  split <;> rfl

theorem chunk_pos (download : Download) : 0 < download.chunk := chunkSize_pos _

theorem chunk_le (download : Download) : download.chunk ≤ 1440 := chunkSize_le _

theorem mul_chunk_lt {k : ℕ} (inside : k < download.chunks) : k * download.chunk < download.size.toNat :=
  (lt_chunksOf_iff _ _ _).mp inside

theorem toNat_mul_chunk {k : ℕ} (inside : k < download.chunks) :
    (BitVec.ofNat 32 (k * download.chunk)).toNat = k * download.chunk :=
  (BitVec.toNat_ofNat _ _).trans (Nat.mod_eq_of_lt (Nat.lt_trans (mul_chunk_lt inside) download.size.isLt))

/-- The count of the receiver is the number of chunks. -/
theorem toNat_numChunks (counts : download.size.toNat + download.chunk ≤ 2 ^ 32) :
    download.numChunks.toNat = download.chunks := by
  have full := download.chunk_le
  have positive := download.chunk_pos
  have size : (download.size + BitVec.ofNat 32 download.chunk - 1#32).toNat =
      download.size.toNat + download.chunk - 1 := by
    bv_omega
  have step : (BitVec.ofNat 32 download.chunk).toNat = download.chunk :=
    (BitVec.toNat_ofNat _ _).trans (Nat.mod_eq_of_lt (by omega))
  rw [numChunks, chunkSize_eq, BitVec.toNat_udiv, size, step]
  rfl

section Packet

variable (buffer : Buffer)

/-- What answers the transfer is faithful, whatever the buffer held. -/
theorem Answers.faithful (answers : download.Answers served payload)
    (received : receiver.buffer = storeAt buffer 0 (payload.take receiveBufferLen)) :
    download.Faithful served receiver := by
  intro id inTransfer
  rcases answers with ⟨k, inside, bytes, rfl, length, genuine⟩ | rfl | rfl
  · have start := toNat_mul_chunk inside
    have short : lengthOf download.legacyMode download.size k ≤ 1440 :=
      (Nat.min_le_right _ _).trans (chunkSize_le download.legacyMode)
    rw [List.take_of_length_le (by rw [length_netCommand, length]; simp only [receiveBufferLen, netCommandLen]; omega)]
      at received
    have offset : download.packetOffset receiver.buffer = BitVec.ofNat 32 (k * download.chunk) := by
      rw [packetOffset, received, commandAddress_storeAt, BitVec.add_comm, BitVec.add_sub_cancel]
    have size : (commandSize receiver.buffer 0).toNat = bytes.length := by
      rw [received, commandSize_storeAt, length, BitVec.toNat_ofNat]
      exact Nat.mod_eq_of_lt (by omega)
    have index : (download.chunkIdx receiver.buffer).toNat = k := by
      rw [chunkIdx, offset, chunkSize_eq, BitVec.toNat_udiv, start, BitVec.toNat_ofNat,
        Nat.mod_eq_of_lt (Nat.lt_of_le_of_lt download.chunk_le (by decide))]
      exact Nat.mul_div_cancel k download.chunk_pos
    have writes (i : ℕ) : download.PacketWrites receiver.buffer i ↔
        k * download.chunk ≤ i ∧ i < k * download.chunk + bytes.length := by
      rw [PacketWrites, offset, start, size]
    refine ⟨fun i image written => ?_, Or.inr fun i image lower upper => Or.inl ?_⟩
    · obtain ⟨lower, upper⟩ := (writes i).mp written
      have within : i - k * download.chunk < bytes.length := by omega
      have byte := commandData_storeAt buffer 0 netCmdSendbin (download.srcAddr + BitVec.ofNat 32 (k * download.chunk))
        (BitVec.ofNat 32 (lengthOf download.legacyMode download.size k)) bytes within
      rw [commandData, Nat.zero_add] at byte
      rw [offset, start, received, byte]
      have read := genuine _ within
      rwa [Nat.add_sub_cancel' lower] at read
    · rw [index] at lower upper
      rw [Nat.add_mul, Nat.one_mul] at upper
      refine (writes i).mpr ⟨lower, ?_⟩
      rw [length]
      have inChunk : i - k * download.chunk < lengthOf download.legacyMode download.size k :=
        Nat.lt_min.mpr ⟨Nat.sub_lt_sub_right lower image, Nat.sub_lt_left_of_lt_add lower upper⟩
      omega
  · rw [List.take_of_length_le (by rw [length_netCommand]; decide)] at received
    refine absurd ?_ inTransfer
    refine Or.inr (Or.inl ?_)
    rw [received, commandAddress_storeAt]
    exact BitVec.le_refl _
  · rw [List.take_of_length_le (by decide)] at received
    rw [received, commandId_storeAt] at id
    exact absurd id (by decide)

end Packet

section Service

variable {target : Target} {loader : Loader} {frame now : ℕ}

/-- The packet of a whole chunk, read for a request that covers the chunk. -/
theorem answers_chunk {address size : Word} {memory : Memory} {k ahead : ℕ} (inside : k < download.chunks)
    (start : address + BitVec.ofNat 32 ahead = download.srcAddr + BitVec.ofNat 32 (k * download.chunk))
    (covered : ahead + lengthOf download.legacyMode download.size k ≤ size.toNat) :
    download.Answers (served ++ [⟨address, size, memory⟩])
      (netCommand netCmdSendbin (address + BitVec.ofNat 32 ahead)
        (BitVec.ofNat 32 (lengthOf download.legacyMode download.size k))
        (memory.copyOut (address + BitVec.ofNat 32 ahead) (lengthOf download.legacyMode download.size k))) := by
  refine Or.inl ⟨k, inside, _, by rw [start], Memory.length_copyOut _ _ _, fun i bound => ?_⟩
  have within := bound
  rw [Memory.length_copyOut] at within
  have place : download.srcAddr + BitVec.ofNat 32 (k * download.chunk + i) =
      address + BitVec.ofNat 32 ahead + BitVec.ofNat 32 i := by
    rw [start, BitVec.ofNat_add, BitVec.add_assoc]
  refine ⟨_, List.mem_append_right _ (List.mem_singleton.mpr rfl), ?_, ?_⟩
  · rw [place]
    have distance : address + BitVec.ofNat 32 ahead + BitVec.ofNat 32 i - address = BitVec.ofNat 32 (ahead + i) := by
      rw [BitVec.add_assoc, ← BitVec.ofNat_add, BitVec.add_comm, BitVec.add_sub_cancel]
    have bounded := size.isLt
    rw [distance, BitVec.toNat_ofNat, Nat.mod_eq_of_lt (by omega)]
    exact Nat.lt_of_lt_of_le (Nat.add_lt_add_left within ahead) covered
  · rw [place, Memory.getElem_copyOut, start]

/-- What the console answers to the request for the whole range. -/
theorem answers_of_request {address size : Word} (agreed : ChunkSizeAgreed download.legacyMode loader)
    (start : address = download.srcAddr) (whole : size = download.size) {reply : List Byte}
    (among : reply ∈ sendbinqReply loader.toolVersion loader.memory address size) :
    download.Answers (served ++ [⟨address, size, loader.memory⟩]) reply := by
  subst start whole
  rcases List.mem_append.mp among with packet | last
  · obtain ⟨k, -, rfl⟩ := mem_sendbinPackets packet
    have step : (payloadSize loader.toolVersion).toNat = download.chunk := by
      rw [payloadSize_eq agreed, BitVec.toNat_ofNat]
      exact Nat.mod_eq_of_lt (Nat.lt_of_le_of_lt download.chunk_le (by decide))
    rw [step]
    by_cases inside : k < download.chunks
    · have lower := mul_chunk_lt inside
      rw [Nat.min_eq_left lower.le]
      have covered : k * download.chunk + lengthOf download.legacyMode download.size k ≤ download.size.toNat := by
        have short : lengthOf download.legacyMode download.size k ≤ download.size.toNat - k * download.chunk :=
          Nat.min_le_left _ _
        omega
      exact answers_chunk inside rfl covered
    · have behind : download.size.toNat ≤ k * download.chunk :=
        Nat.not_lt.mp fun less => inside ((lt_chunksOf_iff _ _ _).mpr less)
      rw [Nat.min_eq_right behind, Nat.sub_eq_zero_of_le behind, Nat.zero_min, BitVec.ofNat_toNat,
        BitVec.setWidth_eq]
      exact Or.inr (Or.inl rfl)
  · exact Or.inr (Or.inr (List.mem_singleton.mp last))

/-- What the console answers to the request for one chunk. -/
theorem answers_of_rerequest {address size : Word} {c : ℕ} (agreed : ChunkSizeAgreed download.legacyMode loader)
    (inside : c < download.chunks) (start : address = download.srcAddr + BitVec.ofNat 32 (c * download.chunk))
    (piece : size.toNat = lengthOf download.legacyMode download.size c) {reply : List Byte}
    (among : reply ∈ sendbinqReply loader.toolVersion loader.memory address size) :
    download.Answers (served ++ [⟨address, size, loader.memory⟩]) reply := by
  have short : lengthOf download.legacyMode download.size c ≤ download.chunk := Nat.min_le_right _ _
  have positive : 0 < lengthOf download.legacyMode download.size c := lengthOf_pos (mul_chunk_lt inside)
  rcases List.mem_append.mp among with packet | last
  · rw [mapIndexVerify_one agreed (by omega) (by rw [piece]; exact short)] at packet
    obtain ⟨k, first, rfl⟩ := mem_sendbinPackets packet
    obtain rfl : k = 0 := by omega
    have step : (payloadSize loader.toolVersion).toNat = download.chunk := by
      rw [payloadSize_eq agreed, BitVec.toNat_ofNat]
      exact Nat.mod_eq_of_lt (Nat.lt_of_le_of_lt download.chunk_le (by decide))
    rw [step, Nat.zero_mul, Nat.zero_min, Nat.sub_zero, piece, Nat.min_eq_left short]
    exact answers_chunk inside (by rw [start, BitVec.add_zero]) (by omega)
  · exact Or.inr (Or.inr (List.mem_singleton.mp last))

/-- The sizes in a re-request come out as those of the chunk. -/
theorem rerequest_eq {c : ℕ} (inside : c < download.chunks) :
    download.rerequest c = sendCmd download.isWiiLoader netCmdSendbinq
      (download.srcAddr + BitVec.ofNat 32 (c * download.chunk))
      (BitVec.ofNat 32 (lengthOf download.legacyMode download.size c)) (fun _ => 0) 0 := by
  have start := toNat_mul_chunk inside
  have lower := mul_chunk_lt inside
  have full := download.chunk_le
  have offset : BitVec.ofNat 32 c * download.chunkSize = BitVec.ofNat 32 (c * download.chunk) := by
    rw [chunkSize_eq, BitVec.ofNat_mul]
  have length : (if download.chunkSize ≤ download.size - BitVec.ofNat 32 (c * download.chunk) then download.chunkSize
      else download.size - BitVec.ofNat 32 (c * download.chunk)) =
        BitVec.ofNat 32 (lengthOf download.legacyMode download.size c) := by
    have same : lengthOf download.legacyMode download.size c =
      min (download.size.toNat - c * download.chunk) download.chunk := rfl
    rw [same, chunkSize_eq]
    generalize download.chunk = size at *
    generalize c * size = start at *
    split <;> bv_omega
  rw [rerequest, offset, length]

/-- What the console sends for a request. -/
theorem transmitted_service (takes : isCommand loader payload frame netCmdSendbinq = true ∨
      isCommand loader payload frame netCmdSendbin = true) :
    transmitted (processed target loader payload frame now).2 = sendbinqReply loader.toolVersion loader.memory
      (commandAddress (storeAt loader.rx frame payload) frame)
      (commandSize (storeAt loader.rx frame payload) frame) := by
  simp only [isCommand, decide_eq_true_eq] at takes
  have serviced : (loader.receive frame payload).processUdp target (wireUdp frame payload) now =
      (loader.receive frame payload).cmdSendbinq (wireUdp frame payload) now :=
    takes.elim processUdp_sendbinq processUdp_sendbin
  rw [processed, serviced, cmdSendbinq, netBumpSyscallDeadline_toolVersion, netBumpSyscallDeadline_memory,
    netBumpSyscallDeadline_rx, transmitted_map_tx]
  rfl

/-- The console recognises a request of the transfer. -/
theorem Requests.isCommand (requests : download.Requests payload) (loader : Loader) (frame : ℕ) :
    isCommand loader payload frame netCmdSendbinq = true ∨ isCommand loader payload frame netCmdSendbin = true := by
  simp only [Host.isCommand, decide_eq_true_eq]
  rcases requests with rfl | ⟨c, inside, rfl⟩
  · unfold request
    cases download.quiet with
    | true => exact Or.inl (takes_sendCmd _ _ _ _ _ _ _ _)
    | false => exact Or.inr (takes_sendCmd _ _ _ _ _ _ _ _)
  · exact Or.inl (takes_sendCmd _ _ _ _ _ _ _ _)

/-- A request of the transfer tells no version. -/
theorem Requests.keepsChunkSize (requests : download.Requests payload) (loader : Loader) (frame : ℕ) :
    KeepsChunkSize download.legacyMode (loader.receive frame payload) (wireUdp frame payload) := by
  intro version
  have command := requests.isCommand loader frame
  simp only [Host.isCommand, decide_eq_true_eq] at command
  rcases command with takes | takes <;> exact absurd (takes.2.2.symm.trans version.2.2) (by decide)

/-- Every reply to a request of the transfer answers it. -/
theorem Requests.answers (requests : download.Requests payload) (agreed : ChunkSizeAgreed download.legacyMode loader)
    {reply : List Byte} (among : reply ∈ transmitted (processed target loader payload frame now).2) :
    download.Answers (served ++ [⟨commandAddress (storeAt loader.rx frame payload) frame,
      commandSize (storeAt loader.rx frame payload) frame, loader.memory⟩]) reply := by
  rw [transmitted_service (requests.isCommand loader frame)] at among
  rcases requests with rfl | ⟨c, inside, rfl⟩
  · have delivers := delivers_sendCmd download.isWiiLoader
      (if download.quiet then netCmdSendbinq else netCmdSendbin) download.srcAddr download.size (fun _ => 0) 0
      loader frame (Nat.zero_le _)
    exact answers_of_request agreed delivers.address delivers.size among
  · rw [rerequest_eq inside] at among ⊢
    have delivers := delivers_sendCmd download.isWiiLoader netCmdSendbinq
      (download.srcAddr + BitVec.ofNat 32 (c * download.chunk))
      (BitVec.ofNat 32 (lengthOf download.legacyMode download.size c)) (fun _ => 0) 0 loader frame (Nat.zero_le _)
    refine answers_of_rerequest agreed inside delivers.address ?_ among
    have short : lengthOf download.legacyMode download.size c ≤ 1440 :=
      (Nat.min_le_right _ _).trans (chunkSize_le download.legacyMode)
    refine (congrArg BitVec.toNat delivers.size).trans ?_
    exact (BitVec.toNat_ofNat _ _).trans (Nat.mod_eq_of_lt (by omega))

end Service

end Download

end KosTool.Host
