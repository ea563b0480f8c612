import KosTool.Model.SyscallLink
import KosTool.Soundness.ChunkMap

/-! # What the transfer commands leave alone

While a syscall waits, the host moves data with the transfer commands. They change neither the sequence
ids nor the saved request nor whether the wait is over, they only push its deadline forward, and what the
console sends in reply is no syscall.
-/

namespace KosTool

open ByteWord Protocol Client Client.Loader Host

/-- The wait goes on as it was, with the same deadline or a new one. -/
structure KeepsWait (before after : Loader) (now : ℕ) : Prop where
  running : after.running = before.running
  toolVersion : after.toolVersion = before.toolVersion
  escapeLoop : after.escapeLoop = before.escapeLoop
  seq : after.kosSyscallSeq = before.kosSyscallSeq
  nextSeq : after.kosSyscallNextSeq = before.kosSyscallNextSeq
  savePkt : after.kosSyscallSavePkt = before.kosSyscallSavePkt
  timeout : after.kosSyscallTimeoutTicks = before.kosSyscallTimeoutTicks
  deadline : after.loopDeadlineTicks = before.loopDeadlineTicks ∨
    after.loopDeadlineTicks = now + before.kosSyscallTimeoutTicks

/-- What a console sends of its own: a command that is no syscall. -/
def IsReply (payload : List Byte) : Prop :=
  ∃ id address size data, payload = netCommand id address size data ∧ id ∉ syscallIds

variable {target : Target} {loader : Loader} {udp : Udp} {now : ℕ} {id : Word} {payload : List Byte}

theorem keepsWait_bump (loader : Loader) (now : ℕ) : KeepsWait loader (loader.netBumpSyscallDeadline now) now := by
  unfold netBumpSyscallDeadline
  split
  · exact ⟨rfl, rfl, rfl, rfl, rfl, rfl, rfl, Or.inl rfl⟩
  · exact ⟨rfl, rfl, rfl, rfl, rfl, rfl, rfl, Or.inr rfl⟩

theorem keepsWait_loadbin : KeepsWait loader (loader.cmdLoadbin target udp now).1 now := by
  have bump := keepsWait_bump loader now
  simp only [cmdLoadbin]
  split_ifs <;> exact ⟨bump.1, bump.2, bump.3, bump.4, bump.5, bump.6, bump.7, bump.8⟩

theorem keepsWait_partbin : KeepsWait loader (loader.cmdPartbin target udp now).1 now := by
  have bump := keepsWait_bump loader now
  exact ⟨bump.1, bump.2, bump.3, bump.4, bump.5, bump.6, bump.7, bump.8⟩

/-- A transfer command keeps the wait. -/
theorem keepsWait_processUdp (target : Target) (now : ℕ) (takes : loader.Takes udp id) (transfer : id ∈ transferIds) :
    KeepsWait loader (loader.processUdp target udp now).1 now := by
  simp only [transferIds, List.mem_cons, List.not_mem_nil, or_false] at transfer
  rcases transfer with rfl | rfl | rfl | rfl | rfl
  · rw [processUdp_loadbin takes]
    exact keepsWait_loadbin
  · rw [processUdp_partbin takes]
    exact keepsWait_partbin
  · rw [processUdp_donebin takes]
    exact keepsWait_bump loader now
  · rw [processUdp_sendbin takes]
    exact keepsWait_bump loader now
  · rw [processUdp_sendbinq takes]
    exact keepsWait_bump loader now

theorem isReply_slice {buffer : Buffer} {frame : ℕ} (command : commandId buffer frame ∉ syscallIds) :
    IsReply (slice buffer frame netCommandLen) := ⟨_, _, _, _, slice_header _ _, command⟩

theorem isReply_sendbinqReply {toolVersion address size : Word} {memory : Memory}
    (among : payload ∈ sendbinqReply toolVersion memory address size) : IsReply payload := by
  rcases List.mem_append.mp among with packet | last
  · obtain ⟨k, -, rfl⟩ := mem_sendbinPackets packet
    exact ⟨_, _, _, _, rfl, by decide⟩
  · exact ⟨_, _, _, _, List.mem_singleton.mp last, by decide⟩

/-- What the console sends for a transfer command is no syscall. -/
theorem isReply_processUdp (takes : loader.Takes udp id) (transfer : id ∈ transferIds)
    (among : payload ∈ transmitted (loader.processUdp target udp now).2) : IsReply payload := by
  simp only [transferIds, List.mem_cons, List.not_mem_nil, or_false] at transfer
  rcases transfer with rfl | rfl | rfl | rfl | rfl
  · rw [processUdp_loadbin takes] at among
    simp only [cmdLoadbin] at among
    split_ifs at among
    · cases among
    · cases among
    · rw [List.mem_singleton.mp among]
      refine isReply_slice ?_
      rw [netBumpSyscallDeadline_rx, takes.2.2]
      decide
  · rw [processUdp_partbin takes] at among
    simp only [cmdPartbin] at among
    split at among <;> cases among
  · rw [processUdp_donebin takes] at among
    rw [List.mem_singleton.mp among]
    refine ⟨_, _, _, _, rfl, ?_⟩
    rw [netBumpSyscallDeadline_rx, takes.2.2]
    decide
  · rw [processUdp_sendbin takes, cmdSendbinq, transmitted_map_tx] at among
    exact isReply_sendbinqReply among
  · rw [processUdp_sendbinq takes, cmdSendbinq, transmitted_map_tx] at among
    exact isReply_sendbinqReply among

end KosTool

/-! # The console takes a tagged answer

A `RETV` that ends in a trailer is dropped if its sequence id is not that of the syscall in flight, and
otherwise becomes its result, value and inline payload alike.
-/

namespace KosTool

open ByteWord Protocol Client Client.Loader Host

/-- A `RETV` as the host sends it while a capture is active. -/
def taggedRetval (value size : Word) (data : List Byte) (seq : Word) : List Byte :=
  netCommand netCmdRetval value size (data ++ seqTrailer seq)

section Wire

variable {value size seq : Word} {data : List Byte}

theorem length_taggedRetval : (taggedRetval value size data seq).length = data.length + 20 := by
  rw [taggedRetval, length_netCommand, List.length_append, length_seqTrailer]
  simp only [netCommandLen, netSeqTrailerLen]
  omega

/-- Magic and sequence id stand behind header and data. -/
theorem taggedRetval_eq : taggedRetval value size data seq =
    netCommand netCmdRetval value size data ++ be32 netSeqMagic ++ be32 seq := by
  simp only [taggedRetval, netCommand, seqTrailer, List.append_assoc]

variable (buffer : Buffer) (frame : ℕ)

theorem magic_taggedRetval :
    readBe32 (storeAt buffer frame (taggedRetval value size data seq)) (frame + (data.length + 12)) = netSeqMagic := by
  have read := readBe32_overlay (netCommand netCmdRetval value size data) (be32 seq) netSeqMagic
    fun j => buffer (frame + j)
  rw [readBe32_storeAt, taggedRetval_eq]
  simpa only [length_netCommand, netCommandLen, Nat.add_comm 12] using read

theorem seq_taggedRetval :
    readBe32 (storeAt buffer frame (taggedRetval value size data seq)) (frame + (data.length + 16)) = seq := by
  have read := readBe32_overlay (netCommand netCmdRetval value size data ++ be32 netSeqMagic) [] seq
    fun j => buffer (frame + j)
  rw [readBe32_storeAt, taggedRetval_eq]
  simpa only [List.append_nil, List.length_append, length_netCommand, length_be32, netCommandLen,
    Nat.add_comm 12, Nat.add_assoc, Nat.reduceAdd] using read

theorem slice_taggedRetval :
    slice (storeAt buffer frame (taggedRetval value size data seq)) (commandData frame) data.length = data := by
  apply List.ext_getElem (length_slice _ _ _)
  intro i inside bound
  rw [getElem_slice, taggedRetval, commandData_storeAt _ _ _ _ _ _ (by rw [List.length_append]; omega),
    List.getElem_append_left bound]

end Wire

section Console

variable (target : Target) (loader : Loader) (value size seq : Word) {data : List Byte} (frame now : ℕ)

theorem takes_taggedRetval (short : data.length ≤ maxInlineRet) :
    (loader.receive frame (taggedRetval value size data seq)).Takes
      (wireUdp frame (taggedRetval value size data seq)) netCmdRetval := by
  refine ⟨?_, rfl, commandId_storeAt _ _ _ _ _ _⟩
  simp only [wireUdp, length_taggedRetval, BitVec.toNat_ofNat, udpHeaderLen]
  simp only [maxInlineRet] at short
  omega

theorem udpLength_taggedRetval (short : data.length ≤ maxInlineRet) :
    (wireUdp frame (taggedRetval value size data seq)).length.toNat - udpHeaderLen = data.length + 20 := by
  simp only [wireUdp, length_taggedRetval, BitVec.toNat_ofNat, udpHeaderLen]
  simp only [maxInlineRet] at short
  omega

theorem trailered_taggedRetval (version : loader.HostSupportsDedup) (short : data.length ≤ maxInlineRet) :
    (loader.receive frame (taggedRetval value size data seq)).Trailered
      (wireUdp frame (taggedRetval value size data seq)) := by
  refine ⟨version, ?_, ?_⟩
  · rw [udpLength_taggedRetval value size seq frame short]
    simp only [netCommandLen, netSeqTrailerLen]
    omega
  · rw [udpLength_taggedRetval value size seq frame short]
    exact magic_taggedRetval loader.rx frame

theorem echoed_taggedRetval (short : data.length ≤ maxInlineRet) :
    (loader.receive frame (taggedRetval value size data seq)).echoed
      (wireUdp frame (taggedRetval value size data seq)) = seq := by
  rw [echoed, udpLength_taggedRetval value size seq frame short]
  exact seq_taggedRetval loader.rx frame

/-- The answer to another syscall is dropped. -/
theorem processed_otherRetval (running : loader.running = true) (version : loader.HostSupportsDedup)
    (short : data.length ≤ maxInlineRet) (other : seq ≠ loader.kosSyscallSeq) :
    processed target loader (taggedRetval value size data seq) frame now =
      (loader.receive frame (taggedRetval value size data seq), []) := by
  have takes := takes_taggedRetval loader value size seq frame short
  rw [processed, processUdp_retval takes, cmdRetval, if_neg, if_pos]
  · refine ⟨trailered_taggedRetval loader value size seq frame version short, ?_⟩
    rw [echoed_taggedRetval loader value size seq frame short]
    exact other
  · rintro (stopped | tooShort)
    · exact stopped running
    · exact absurd takes.1 (Nat.not_le.mpr tooShort)

/-- The answer to the syscall in flight ends its wait. -/
theorem processed_currentRetval (running : loader.running = true) (version : loader.HostSupportsDedup)
    (short : data.length ≤ maxInlineRet) (current : seq = loader.kosSyscallSeq) :
    processed target loader (taggedRetval value size data seq) frame now =
      ({ loader.receive frame (taggedRetval value size data seq) with
          syscallRetval := value
          syscallData := some (commandData frame)
          syscallDataLen := data.length
          escapeLoop := true },
        [.tx (slice (storeAt loader.rx frame (taggedRetval value size data seq)) frame netCommandLen)]) := by
  have takes := takes_taggedRetval loader value size seq frame short
  have trailered := trailered_taggedRetval loader value size seq frame version short
  have answering : ¬ (¬ (loader.receive frame (taggedRetval value size data seq)).running = true ∨
      (wireUdp frame (taggedRetval value size data seq)).length.toNat < udpHeaderLen) := by
    rintro (stopped | tooShort)
    · exact stopped running
    · exact absurd takes.1 (Nat.not_le.mpr tooShort)
  have fresh : ¬ ((loader.receive frame (taggedRetval value size data seq)).Trailered
      (wireUdp frame (taggedRetval value size data seq)) ∧
      (loader.receive frame (taggedRetval value size data seq)).echoed
        (wireUdp frame (taggedRetval value size data seq)) ≠
        (loader.receive frame (taggedRetval value size data seq)).kosSyscallSeq) := by
    rintro ⟨-, other⟩
    rw [echoed_taggedRetval loader value size seq frame short] at other
    exact other current
  have room : netSeqTrailerLen ≤ data.length + 20 - netCommandLen := by
    simp only [netCommandLen, netSeqTrailerLen]
    omega
  have rest : data.length + 20 - netCommandLen - netSeqTrailerLen = data.length := by
    simp only [netCommandLen, netSeqTrailerLen]
    omega
  have address : commandAddress (loader.receive frame (taggedRetval value size data seq)).rx
      (wireUdp frame (taggedRetval value size data seq)).data = value := commandAddress_storeAt _ _ _ _ _ _
  rw [processed, processUdp_retval takes, cmdRetval, if_neg answering, if_neg fresh]
  simp only [udpLength_taggedRetval value size seq frame short, trailered, room, rest, address, true_and, if_true]
  rfl

end Console

end KosTool
