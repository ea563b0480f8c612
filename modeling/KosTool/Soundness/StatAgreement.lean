import KosTool.Model.NetStat
import KosTool.Soundness.SerialLockstep
import KosTool.Soundness.RetvalAcceptance
import KosTool.Soundness.TaggedRetval
import Mathlib.Tactic.IntervalCases

/-! # The same file information on both lines

Over the network a structure is bytes the host wrote in the guest's order; over the serial line it is words the
console stores itself. Both give the guest the host's values, cut to the width of the field, except where a
half-word has gone through the conversion of a word, or a name is longer than its array.
-/

namespace KosTool

open ByteWord Protocol Client Client.Loader Host
open Host.Serial (HostOs IsDirHandle sentName serSyscallReaddir doSerialConsole)
open Serial (converse_syscall converse_path converse_stat_result PathFits serves)

section Orders

/-- `htonl` changes one exactly on a little-endian host. -/
theorem htonl_one_iff (host : ByteOrder) : host.htonl 1#32 = 1#32 ↔ host = .big := by
  cases host <;> decide

/-- The shifts of `target_order32` reverse the bytes. -/
theorem shifts_eq_bswap32 (x : Word) :
    x <<< 24 ||| (x <<< 8 &&& 0xff0000#32) ||| (x >>> 8 &&& 0xff00#32) ||| (x >>> 24 &&& 0xff#32) =
      ByteOrder.bswap32 x := by
  apply BitVec.eq_of_getLsbD_eq
  intro i inside
  simp only [ByteOrder.bswap32, ofBe32, BitVec.getLsbD_append, BitVec.getLsbD_extractLsb', BitVec.getLsbD_or,
    BitVec.getLsbD_and, BitVec.getLsbD_shiftLeft, BitVec.getLsbD_ushiftRight]
  interval_cases i <;> simp

/-- A word the host has converted is stored in the guest's order. -/
theorem bytes32_targetOrder32 (host : ByteOrder) (targetBigEndian : Bool) (x : Word) :
    host.bytes32 (targetOrder32 host targetBigEndian x) = (targetByteOrder targetBigEndian).bytes32 x := by
  unfold targetOrder32
  simp only [htonl_one_iff, shifts_eq_bswap32]
  cases targetBigEndian with
  | true => exact congrArg be32 (ByteOrder.htonl_htonl host x)
  | false => cases host <;> rfl

/-- The shifts of `target_order16` swap the bytes. -/
theorem shifts_eq_append (x : BitVec 16) : x <<< 8 ||| x >>> 8 = x.extractLsb' 0 8 ++ x.extractLsb' 8 8 := by
  apply BitVec.eq_of_getLsbD_eq
  intro i inside
  simp only [BitVec.getLsbD_append, BitVec.getLsbD_extractLsb', BitVec.getLsbD_or, BitVec.getLsbD_shiftLeft,
    BitVec.getLsbD_ushiftRight]
  interval_cases i <;> simp

theorem bytes16_swapped (x : BitVec 16) :
    ByteOrder.bytes16 .little (x.extractLsb' 0 8 ++ x.extractLsb' 8 8) = ByteOrder.bytes16 .big x ∧
      ByteOrder.bytes16 .big (x.extractLsb' 0 8 ++ x.extractLsb' 8 8) = ByteOrder.bytes16 .little x := by
  have low : (x.extractLsb' 0 8 ++ x.extractLsb' 8 8).extractLsb' 0 8 = x.extractLsb' 8 8 :=
    BitVec.extractLsb'_append_eq_right
  have high : (x.extractLsb' 0 8 ++ x.extractLsb' 8 8).extractLsb' 8 8 = x.extractLsb' 0 8 :=
    BitVec.extractLsb'_append_eq_left
  simp only [ByteOrder.bytes16, low, high, and_self]

/-- A half-word the host has converted is stored in the guest's order. -/
theorem bytes16_targetOrder16 (host : ByteOrder) (targetBigEndian : Bool) (x : BitVec 16) :
    host.bytes16 (targetOrder16 host targetBigEndian x) = (targetByteOrder targetBigEndian).bytes16 x := by
  unfold targetOrder16
  simp only [htonl_one_iff, shifts_eq_append]
  cases targetBigEndian with
  | true =>
    cases host with
    | little => exact (bytes16_swapped x).1
    | big => rfl
  | false =>
    cases host with
    | little => rfl
    | big => exact (bytes16_swapped x).2

/-- A half-word converted as a word survives only where there is nothing to convert. -/
theorem setWidth_targetOrder32 (host : ByteOrder) (targetBigEndian : Bool) (x : BitVec 16) :
    (targetOrder32 host targetBigEndian (x.setWidth 32)).setWidth 16 =
      if host = targetByteOrder targetBigEndian then x else 0 := by
  have narrow : (x.setWidth 32).setWidth 16 = x := by
    rw [BitVec.setWidth_setWidth_of_le x (by decide), BitVec.setWidth_eq]
  unfold targetOrder32
  simp only [htonl_one_iff, shifts_eq_bswap32]
  cases targetBigEndian with
  | true =>
    cases host with
    | little => exact ByteOrder.setWidth_bswap32_setWidth x
    | big => exact narrow
  | false =>
    cases host with
    | little => exact narrow
    | big => exact ByteOrder.setWidth_bswap32_setWidth x

/-- Zero is stored alike in both orders. -/
theorem bytes32_zero (order other : ByteOrder) : order.bytes32 0 = other.bytes32 0 := by
  cases order <;> cases other <;> rfl

theorem bytes16_zero (order other : ByteOrder) : order.bytes16 0 = other.bytes16 0 := by
  cases order <;> cases other <;> rfl

end Orders

section Structures

variable (ctx : NetContext) (os : HostOs)

/-- What the host sends of a `struct stat` is what the guest is meant to see, in the guest's order. -/
theorem bytes_netStat (st : HostStat) :
    (netStat ctx os st).bytes ctx.host = (st.kosload os.system).bytes ctx.guest := by
  have optional (x : BitVec 64) :
      ctx.host.bytes32 (if os.system = .windows then 0 else targetOrder32 ctx.host ctx.targetBigEndian (x.setWidth 32)) =
        ctx.guest.bytes32 ((if os.system = .windows then 0 else x).setWidth 32) := by
    split_ifs
    · exact bytes32_zero _ _
    · exact bytes32_targetOrder32 _ _ _
  simp only [KosloadStat.bytes, netStat, HostStat.kosload, HostStat.blksize, HostStat.blocks, NetContext.guest,
    bytes16_targetOrder16, bytes32_targetOrder32, bytes32_zero ctx.host (targetByteOrder ctx.targetBigEndian)]
  rw [optional, optional]
  rfl

/-- The record length the guest finds in the structure: none, where host and guest differ in their order. -/
def netReclen (de : HostDirent) : BitVec 16 := if ctx.host = ctx.guest then de.reclen os.system else 0

/-- The entry the guest finds in the structure the host sends. -/
def netKosload (de : HostDirent) : KosloadDirent :=
  { de.kosload os.system (compatStrCopy (List.replicate sizeofDName 0) de.dName.bytes) with
    dReclen := netReclen ctx os de }

theorem bytes_netDirent (de : HostDirent) :
    (netDirent ctx os de).bytes ctx.host = (netKosload ctx os de).bytes ctx.guest := by
  have off : ctx.host.bytes32 (netDirent ctx os de).dOff = ctx.guest.bytes32 ((de.off os.system).setWidth 32) := by
    simp only [netDirent, HostDirent.off]
    split_ifs
    · exact bytes32_targetOrder32 _ _ _
    · exact bytes32_zero _ _
  have reclen : ctx.host.bytes16 (netDirent ctx os de).dReclen = ctx.guest.bytes16 (netReclen ctx os de) := by
    simp only [netDirent, netReclen, HostDirent.reclen, setWidth_targetOrder32]
    rw [show targetByteOrder ctx.targetBigEndian = ctx.guest from rfl]
    by_cases same : ctx.host = ctx.guest
    · rw [if_pos same, if_pos same, same]
    · rw [if_neg same, if_neg same]
      split_ifs <;> exact bytes16_zero _ _
  have ino : ctx.host.bytes32 (netDirent ctx os de).dIno = ctx.guest.bytes32 (de.dIno.setWidth 32) :=
    bytes32_targetOrder32 _ _ _
  simp only [KosloadDirent.bytes, off, reclen, ino]
  rfl

theorem length_compatStrCopy (src : List Byte) : (compatStrCopy (List.replicate sizeofDName 0) src).length = sizeofDName := by
  simp only [compatStrCopy, List.length_append, List.length_take, List.length_cons, List.length_drop,
    List.length_replicate, sizeofDName]
  omega

/-- What `strlen` sees of an array that begins with a string and a terminator. -/
theorem cString_append_zero {name : List Byte} (noNul : 0 ∉ name) (rest : List Byte) :
    cString (name ++ 0 :: rest) = name := by
  rw [cString, List.takeWhile_append_of_pos]
  · simp
  · intro data inside
    simp only [ne_eq, decide_not, Bool.not_eq_eq_eq_not, Bool.not_true, decide_eq_false_iff_not]
    rintro rfl
    exact noNul inside

/-- What `strlen` sees of an array that begins without a terminator. -/
theorem length_le_cString {name : List Byte} (noNul : 0 ∉ name) (rest : List Byte) :
    name.length ≤ (cString (name ++ rest)).length := by
  rw [cString, List.takeWhile_append_of_pos]
  · rw [List.length_append]
    exact Nat.le_add_right _ _
  · intro data inside
    simp only [ne_eq, decide_not, Bool.not_eq_eq_eq_not, Bool.not_true, decide_eq_false_iff_not]
    rintro rfl
    exact noNul inside

/-- The name over the network: cut to leave room for the terminator. -/
theorem cString_compatStrCopy (name : CString) :
    cString (compatStrCopy (List.replicate sizeofDName 0) name.bytes) = name.bytes.take (sizeofDName - 1) := by
  rw [compatStrCopy, List.length_replicate]
  exact cString_append_zero (fun inside => name.no_nul (List.mem_of_mem_take inside)) _

/-- The name over the serial line, if it and its terminator fit. -/
theorem cString_sentName {name : CString} (short : name.bytes.length < sizeofDName) (rest : List Byte) :
    cString (sentName name ++ rest) = name.bytes := by
  have whole : sentName name = name.bytes ++ [0] := by
    rw [sentName, CString.terminated, Nat.min_eq_left short, List.take_of_length_le]
    rw [List.length_append, List.length_singleton]
  rw [whole, List.append_assoc]
  exact cString_append_zero name.no_nul rest

/-- The name over the serial line otherwise: the array has no terminator. -/
theorem length_cString_sentName {name : CString} (long : sizeofDName ≤ name.bytes.length) (rest : List Byte) :
    sizeofDName ≤ (cString (sentName name ++ rest)).length := by
  have cut : sentName name = name.bytes.take sizeofDName := by
    rw [sentName, CString.terminated, Nat.min_eq_right (Nat.le_succ_of_le long), List.take_append_of_le_length long]
  have length : (name.bytes.take sizeofDName).length = sizeofDName := by
    rw [List.length_take, Nat.min_eq_left long]
  rw [cut]
  exact length.ge.trans (length_le_cString (fun inside => name.no_nul (List.mem_of_mem_take inside)) rest)

end Structures

section Delivery

variable {target : Target} {loader : Loader} {frame now : ℕ}

/-- What `memcpy` has put into memory stands there. -/
theorem holds_copyIn (memory : Memory) (address : Word) {count : ℕ} (short : count ≤ 2 ^ 32) (source : Buffer) :
    slice (memoryAt (memory.copyIn address count source) address) 0 count = slice source 0 count := by
  refine slice_congr fun i inside => ?_
  have place : (address + BitVec.ofNat 32 (0 + i) - address).toNat = i := by
    rw [Nat.zero_add, BitVec.add_comm, BitVec.add_sub_cancel, BitVec.toNat_ofNat]
    exact Nat.mod_eq_of_lt (Nat.lt_of_lt_of_le inside short)
  rw [memoryAt, Memory.copyIn_inside (by rw [place]; exact inside), place, Nat.zero_add]

section Commands

variable {isWiiLoader : Bool} {cmd address size : Word} {data : Buffer} {dsize : ℕ}

/-- A transfer command on its way to the console keeps the wait. -/
theorem keepsWait_processed (transfer : cmd ∈ transferIds) :
    KeepsWait loader (processed target loader (sendCmd isWiiLoader cmd address size data dsize) frame now).1 now := by
  have kept := keepsWait_processUdp target now (takes_sendCmd isWiiLoader cmd address size data dsize loader frame)
    transfer
  exact ⟨kept.1, kept.2, kept.3, kept.4, kept.5, kept.6, kept.7, kept.8⟩

/-- So does what an upload sends in a stage, and a chunk of it. -/
theorem keepsWait_stageDatagram (target : Target) (loader : Loader) (frame now : ℕ) (upload : Upload)
    (stage : UploadStage) :
    KeepsWait loader (processed target loader (upload.stageDatagram stage) frame now).1 now :=
  keepsWait_processed (by cases stage <;> simp [Upload.stageCommand, transferIds])

theorem keepsWait_partbinDatagram (target : Target) (loader : Loader) (frame now : ℕ) (upload : Upload)
    (address offset size : Word) :
    KeepsWait loader (processed target loader (upload.partbinDatagram address offset size) frame now).1 now :=
  keepsWait_processed (by decide)

/-- An announcement leaves guest memory alone, accepted or not. -/
theorem memory_processed_loadbin :
    (processed target loader (sendCmd isWiiLoader netCmdLoadbin address size data dsize) frame now).1.memory =
      loader.memory := by
  rw [processed, processUdp_loadbin (takes_sendCmd isWiiLoader netCmdLoadbin address size data dsize loader frame)]
  simp only [cmdLoadbin]
  split_ifs <;> exact netBumpSyscallDeadline_memory

theorem memory_processed_donebin :
    (processed target loader (sendCmd isWiiLoader netCmdDonebin address size data dsize) frame now).1.memory =
      loader.memory := by
  rw [processed, processUdp_donebin (takes_sendCmd isWiiLoader netCmdDonebin address size data dsize loader frame)]
  exact netBumpSyscallDeadline_memory

/-- A chunk is stored where it is addressed to. -/
theorem memory_processed_partbin (short : size.toNat ≤ 1440) :
    slice (memoryAt (processed target loader (sendCmd isWiiLoader netCmdPartbin address size data size.toNat) frame
      now).1.memory address) 0 size.toNat = slice data 0 size.toNat := by
  have delivers := delivers_sendCmd isWiiLoader netCmdPartbin address size data size.toNat loader frame short
  rw [processed, processUdp_partbin delivers.takes, cmdPartbin_memory, delivers.address, delivers.size,
    holds_copyIn _ _ (by omega)]
  exact slice_congr fun i inside => by rw [Nat.zero_add]; exact delivers.data i inside

end Commands

section Retval

variable {value size seq : Word} {data : List Byte}

theorem memory_processed_retval (short : data.length ≤ maxInlineRet) :
    (processed target loader (taggedRetval value size data seq) frame now).1.memory = loader.memory := by
  have takes := takes_taggedRetval loader value size seq frame short
  have kept := @processUdp_transfer target _ _ now
    (fun other => absurd (takes.2.2.symm.trans other.2.2) (by decide))
    (fun other => absurd (takes.2.2.symm.trans other.2.2) (by decide))
  exact congrArg (fun transfer => transfer.2.2) kept

theorem toolVersion_processed_retval (short : data.length ≤ maxInlineRet) :
    (processed target loader (taggedRetval value size data seq) frame now).1.toolVersion = loader.toolVersion := by
  have takes := takes_taggedRetval loader value size seq frame short
  exact processUdp_toolVersion fun other => absurd (takes.2.2.symm.trans other.2.2) (by decide)

/-- The value of an answer is what the syscall returns, whether or not the console looks at trailers. -/
theorem syscallRetval_processed_retval (running : loader.running = true) (short : data.length ≤ maxInlineRet)
    (current : seq = loader.kosSyscallSeq) :
    (processed target loader (taggedRetval value size data seq) frame now).1.syscallRetval = value := by
  by_cases version : loader.HostSupportsDedup
  · rw [processed_currentRetval target loader value size seq frame now running version short current]
  · have takes := takes_taggedRetval loader value size seq frame short
    have stillRunning : (loader.receive frame (taggedRetval value size data seq)).running = true := running
    have accepted := cmdRetval_untrailered stillRunning takes.1 fun trailered => version trailered.1
    have address : commandAddress (loader.receive frame (taggedRetval value size data seq)).rx
        (wireUdp frame (taggedRetval value size data seq)).data = value := commandAddress_storeAt _ _ _ _ _ _
    rw [address] at accepted
    rw [processed, processUdp_retval takes]
    exact congrArg Prod.fst accepted

end Retval

variable {ctx : NetContext} {addr ret sz seq : Word} {data : List Byte}

/-- A transfer of one chunk leaves the data at their address and the wait as it was. -/
theorem deliverAll_upload (short : data.length ≤ 1440) {after : Loader}
    (delivered : deliverAll target frame now loader
      [(NetAnswer.upload ctx addr data).stageDatagram .loadbin,
        (NetAnswer.upload ctx addr data).partbinDatagram addr 0 (NetAnswer.upload ctx addr data).size,
        (NetAnswer.upload ctx addr data).stageDatagram .donebin] = after) :
    slice (memoryAt after.memory addr) 0 data.length = data ∧ after.running = loader.running ∧
      after.toolVersion = loader.toolVersion ∧ after.kosSyscallSeq = loader.kosSyscallSeq := by
  subst delivered
  have size : (NetAnswer.upload ctx addr data).size.toNat = data.length := by
    rw [NetAnswer.upload, BitVec.toNat_ofNat]
    exact Nat.mod_eq_of_lt (by omega)
  have whole : slice (overlay data fun _ => 0) 0 data.length = data := by
    have part := slice_overlay [] data [] fun _ => 0
    rwa [List.append_nil] at part
  have loadbin := keepsWait_stageDatagram target loader frame now (NetAnswer.upload ctx addr data) .loadbin
  have partbin := keepsWait_partbinDatagram target
    (processed target loader ((NetAnswer.upload ctx addr data).stageDatagram .loadbin) frame now).1 frame now
    (NetAnswer.upload ctx addr data) addr 0 (NetAnswer.upload ctx addr data).size
  have donebin := keepsWait_stageDatagram target
    (processed target (processed target loader ((NetAnswer.upload ctx addr data).stageDatagram .loadbin) frame now).1
      ((NetAnswer.upload ctx addr data).partbinDatagram addr 0 (NetAnswer.upload ctx addr data).size) frame now).1
    frame now (NetAnswer.upload ctx addr data) .donebin
  refine ⟨?_, ?_, ?_, ?_⟩
  · simp only [deliverAll, List.foldl_cons, List.foldl_nil]
    rw [Upload.stageDatagram, Upload.stageDatagram, Upload.partbinDatagram]
    have last := @memory_processed_donebin target
    have stored := @memory_processed_partbin target
    simp only [Upload.stageCommand, last]
    rw [← size]
    refine (stored (size.trans_le short)).trans ?_
    rw [size]
    refine Eq.trans (slice_congr fun i inside => ?_) whole
    have none : (0 : Word).toNat = 0 := rfl
    rw [none, Nat.zero_add]
    rfl
  · exact donebin.running.trans (partbin.running.trans loadbin.running)
  · exact donebin.toolVersion.trans (partbin.toolVersion.trans loadbin.toolVersion)
  · exact donebin.seq.trans (partbin.seq.trans loadbin.seq)

/-- A structure that comes in the answer is copied to where the console wants it. -/
theorem copyInlineRet_inline {ds : List Byte} (running : loader.running = true) (version : loader.HostSupportsDedup)
    (full : sz.toNat = ds.length) (short : ds.length ≤ netInlineRetMax) {after : Loader}
    (delivered : deliverAll target frame now loader
      ((netSendStructure true ret ds addr sz).datagrams ctx loader.kosSyscallSeq) = after) :
    after.syscallRetval = ret ∧ after.HostSupportsDedup ∧
      slice (memoryAt (copyInlineRet after addr ds.length).memory addr) 0 ds.length = ds := by
  have fits : sz.toNat ≤ ds.length ∧ sz.toNat ≤ netInlineRetMax := ⟨full.le, full.trans_le short⟩
  have inline : (be32 netInlineRetMagic ++ ds).length ≤ maxInlineRet := by
    rw [List.length_append, length_be32]
    simp only [netInlineRetMax, maxInlineRet] at short ⊢
    omega
  have answer := processed_currentRetval target loader ret (BitVec.ofNat 32 netInlineRetMagicLen + sz)
    loader.kosSyscallSeq frame now running version inline rfl
  have one : deliverAll target frame now loader
      ((netSendStructure true ret ds addr sz).datagrams ctx loader.kosSyscallSeq) =
      (processed target loader (taggedRetval ret (BitVec.ofNat 32 netInlineRetMagicLen + sz)
        (be32 netInlineRetMagic ++ ds) loader.kosSyscallSeq) frame now).1 := by
    rw [netSendStructure, if_pos ⟨rfl, fits⟩, full, List.take_length]
    rfl
  rw [one, answer] at delivered
  subst delivered
  refine ⟨rfl, version, ?_⟩
  have payload := @slice_taggedRetval ret (BitVec.ofNat 32 netInlineRetMagicLen + sz) loader.kosSyscallSeq
    (be32 netInlineRetMagic ++ ds) loader.rx frame
  rw [List.length_append, slice_add] at payload
  obtain ⟨magic, bytes⟩ := List.append_inj payload (length_slice _ _ _)
  have found : readBe32 (storeAt loader.rx frame (taggedRetval ret (BitVec.ofNat 32 netInlineRetMagicLen + sz)
      (be32 netInlineRetMagic ++ ds) loader.kosSyscallSeq)) (commandData frame) = netInlineRetMagic :=
    ByteOrder.load32_bytes32 .big netInlineRetMagic magic
  have length : (be32 netInlineRetMagic ++ ds).length = netInlineRetMagicLen + ds.length := by
    rw [List.length_append, length_be32]
    rfl
  simp only [copyInlineRet, length, ne_eq, not_true_eq_false, if_false, receive, found]
  rw [holds_copyIn _ _ (by simp only [netInlineRetMax] at short; omega)]
  refine Eq.trans (slice_congr fun i inside => ?_) bytes
  rw [Nat.zero_add]
  rfl

/-- A structure that comes on its own is there before the answer. -/
theorem memory_bulk {ds : List Byte} (running : loader.running = true) (full : sz.toNat = ds.length)
    (short : ds.length ≤ netInlineRetMax) {after : Loader}
    (delivered : deliverAll target frame now loader
      ((netSendStructure false ret ds addr sz).datagrams ctx loader.kosSyscallSeq) = after) :
    after.syscallRetval = ret ∧ after.toolVersion = loader.toolVersion ∧
      slice (memoryAt after.memory addr) 0 ds.length = ds := by
  obtain ⟨stored, stillRunning, version, seq⟩ := @deliverAll_upload target loader frame now ctx addr ds
    (short.trans (by decide)) _ rfl
  have two : deliverAll target frame now loader
      ((netSendStructure false ret ds addr sz).datagrams ctx loader.kosSyscallSeq) =
      (processed target (deliverAll target frame now loader
        [(NetAnswer.upload ctx addr ds).stageDatagram .loadbin,
          (NetAnswer.upload ctx addr ds).partbinDatagram addr 0 (NetAnswer.upload ctx addr ds).size,
          (NetAnswer.upload ctx addr ds).stageDatagram .donebin])
        (taggedRetval ret ret [] loader.kosSyscallSeq) frame now).1 := by
    rw [netSendStructure, if_neg fun inline => Bool.false_ne_true inline.1, full, List.take_length]
    rfl
  have none : ([] : List Byte).length ≤ maxInlineRet := Nat.zero_le _
  rw [two] at delivered
  subst delivered
  refine ⟨?_, ?_, ?_⟩
  · exact syscallRetval_processed_retval (stillRunning.trans running) none seq.symm
  · exact (toolVersion_processed_retval none).trans version
  · rw [memory_processed_retval none]
    exact stored

/-- Either way the structure of `fstat` or `stat` is at `buf` when the call returns. -/
theorem memory_statReturns {ds : List Byte} {buf : Word} (running : loader.running = true)
    (full : ds.length = sizeofKosloadStat) :
    slice (memoryAt (statReturns (deliverAll target frame now loader
      ((netSendStructure (decide loader.HostSupportsDedup && decide (0 ≤ ret.toInt)) ret ds buf
        (BitVec.ofNat 32 sizeofKosloadStat)).datagrams ctx loader.kosSyscallSeq)) buf).memory buf) 0 ds.length = ds := by
  have size : (BitVec.ofNat 32 sizeofKosloadStat).toNat = ds.length := by rw [full]; rfl
  have short : ds.length ≤ netInlineRetMax := by rw [full]; decide
  by_cases inline : loader.HostSupportsDedup ∧ 0 ≤ ret.toInt
  · obtain ⟨retval, version, copied⟩ := @copyInlineRet_inline target loader frame now ctx buf ret
      (BitVec.ofNat 32 sizeofKosloadStat) ds running inline.1 size short _ rfl
    rw [decide_eq_true inline.1, decide_eq_true inline.2, Bool.and_true, statReturns,
      if_pos ⟨by rw [retval]; exact inline.2, version⟩]
    rw [full] at copied ⊢
    exact copied
  · obtain ⟨retval, version, stored⟩ := @memory_bulk target loader frame now ctx buf ret
      (BitVec.ofNat 32 sizeofKosloadStat) ds running size short _ rfl
    rw [← Bool.decide_and, decide_eq_false inline, statReturns, if_neg]
    · exact stored
    · rintro ⟨success, dedup⟩
      rw [retval] at success
      rw [HostSupportsDedup, version] at dedup
      exact inline ⟨dedup, success⟩

/-- Either way the structure of `readdir` is in the console's buffer when the call returns. -/
theorem memory_readdirReturns {ds : List Byte} {ourDir : Word} (running : loader.running = true)
    (full : ds.length = sizeofKosloadDirent) {after : Loader × Bool}
    (returned : readdirReturns (deliverAll target frame now loader
      ((netSendStructure (decide loader.HostSupportsDedup) 1 ds ourDir
        (BitVec.ofNat 32 sizeofKosloadDirent)).datagrams ctx loader.kosSyscallSeq)) ourDir = after) :
    after.2 = true ∧ slice (memoryAt after.1.memory ourDir) 0 ds.length = ds := by
  subst returned
  have size : (BitVec.ofNat 32 sizeofKosloadDirent).toNat = ds.length := by rw [full]; rfl
  have short : ds.length ≤ netInlineRetMax := by rw [full]; decide
  by_cases inline : loader.HostSupportsDedup
  · obtain ⟨retval, version, copied⟩ := @copyInlineRet_inline target loader frame now ctx ourDir 1
      (BitVec.ofNat 32 sizeofKosloadDirent) ds running inline size short _ rfl
    rw [decide_eq_true inline, readdirReturns, if_pos (by rw [retval]; decide), if_pos version]
    rw [full] at copied ⊢
    exact ⟨rfl, copied⟩
  · obtain ⟨retval, version, stored⟩ := @memory_bulk target loader frame now ctx ourDir 1
      (BitVec.ofNat 32 sizeofKosloadDirent) ds running size short _ rfl
    have still : ¬ (deliverAll target frame now loader ((netSendStructure false 1 ds ourDir
        (BitVec.ofNat 32 sizeofKosloadDirent)).datagrams ctx loader.kosSyscallSeq)).HostSupportsDedup := by
      rw [HostSupportsDedup, version]
      exact inline
    rw [decide_eq_false inline, readdirReturns, if_pos (by rw [retval]; decide), if_neg still]
    exact ⟨rfl, stored⟩

end Delivery

section Requests

variable (loader : Loader)

/-- A word of a request is found where it was put. -/
theorem requestWord_append (before after : List Byte) (word : Word) :
    requestWord (before ++ be32 word ++ after) before.length = word := readBe32_overlay before after word _

/-- The words of a request. -/
theorem requestWord_words (id first second : Word) (rest : List Byte) :
    requestWord (be32 id ++ be32 first ++ be32 second ++ rest) 4 = first ∧
      requestWord (be32 id ++ be32 first ++ be32 second ++ rest) 8 = second := by
  have atFour := requestWord_append (be32 id) (be32 second ++ rest) first
  have atEight := requestWord_append (be32 id ++ be32 first) rest second
  rw [List.length_append, length_be32, length_be32] at atEight
  rw [length_be32, List.append_assoc, ← List.append_assoc (be32 first), ← List.append_assoc (be32 id),
    ← List.append_assoc (be32 id)] at atFour
  exact ⟨atFour, atEight⟩

theorem requestWord_third (id first second third : Word) (rest : List Byte) :
    requestWord (be32 id ++ be32 first ++ be32 second ++ be32 third ++ rest) 12 = third := by
  have atTwelve := requestWord_append (be32 id ++ be32 first ++ be32 second) rest third
  rwa [List.length_append, List.length_append, length_be32, length_be32, length_be32] at atTwelve

/-- The host finds the magic if and only if the console put it behind the rest of the request. -/
theorem netHasInlineRetRequest_append (request : List Byte) :
    netHasInlineRetRequest (request ++ inlineRetMagic loader) request.length = decide loader.HostSupportsDedup := by
  unfold netHasInlineRetRequest inlineRetMagic
  by_cases version : loader.HostSupportsDedup
  · rw [if_pos version, if_neg, List.drop_left, decide_eq_true version]
    · rfl
    · rw [List.length_append, length_be32]
      exact Nat.lt_irrefl _
  · rw [if_neg version, if_pos, decide_eq_false version]
    rw [List.append_nil]
    exact Nat.lt_add_of_pos_right (by decide)

/-- The string of a `stat` request is the path. -/
theorem requestString_statRequest (pathname : GuestString) (buf : Word) :
    requestString (statRequest loader pathname buf) = pathname.bytes := by
  have front : (be32 (fourCC 'D' 'C' '1' '3') ++ be32 buf ++ be32 (BitVec.ofNat 32 sizeofKosloadStat)).length = 12 := by
    rw [List.length_append, List.length_append, length_be32, length_be32, length_be32]
  rw [requestString, statRequest, ← front, List.append_assoc _ pathname.terminated, List.drop_left,
    CString.terminated, List.append_assoc]
  exact cString_append_zero pathname.no_nul _

end Requests

section Guest

variable (target : Target) (ctx : NetContext) (os : HostOs) (loader : Loader) (frame now : ℕ)

/-- What the guest reads at `buf` after `fstat` over the network. -/
def netFstatSeen (fd buf : Word) : KosloadStat :=
  KosloadStat.read ctx.guest (memoryAt (netFstat target ctx os loader frame now fd buf).memory buf) 0

/-- What the guest reads at `buf` after `stat` over the network. -/
def netStatSeen (pathname : GuestString) (buf : Word) : KosloadStat :=
  KosloadStat.read ctx.guest (memoryAt (netStatPath target ctx os loader frame now pathname buf).memory buf) 0

/-- The entry the guest sees after `readdir` over the network, if there is one. -/
def netReaddirSeen (dir ourDir : Word) : Option KosloadDirent :=
  if (netReaddir target ctx os loader frame now dir ourDir).2 = true then
    some (KosloadDirent.read ctx.guest
      (memoryAt (netReaddir target ctx os loader frame now dir ourDir).1.memory ourDir) 0).seen
  else none

/-- What the guest finds at `buf` after `fstat` over the serial line, if the call returns. -/
def serialFstatSeen (fd : Word) : Option KosloadStat :=
  (Machine.Party.converse (Client.Serial.fstat fd) (doSerialConsole os)).map fun done => done.1.1

/-- What the guest finds at `buf` after `stat` over the serial line, if the call returns. -/
def serialStatSeen (pathname : GuestString) : Option KosloadStat :=
  (Machine.Party.converse (Client.Serial.stat pathname) (doSerialConsole os)).map fun done => done.1.1

/-- The entry the guest sees after `readdir` over the serial line, if the call returns. -/
def serialReaddirSeen (serialOurDir : KosloadDirent) (dir : Word) : Option (Option KosloadDirent) :=
  (Machine.Party.converse (Client.Serial.readdir serialOurDir dir) (doSerialConsole os)).map fun done =>
    done.1.map KosloadDirent.seen

variable {target ctx os loader frame now}

theorem serialFstatSeen_eq (fd : Word) : serialFstatSeen os fd = some ((os.fstat fd).1.kosload os.system) := by
  unfold serialFstatSeen
  rw [Client.Serial.fstat, converse_syscall]
  simp only [serves, Host.Serial.serSyscallFstat, Serial.converse_word]
  rw [converse_stat_result]
  rfl

theorem serialStatSeen_eq {pathname : GuestString} (fits : PathFits os 0 pathname) :
    serialStatSeen os pathname = some ((os.stat (os.resolvePath pathname.bytes)).1.kosload os.system) := by
  unfold serialStatSeen
  rw [Client.Serial.stat, converse_syscall]
  simp only [serves, Host.Serial.serSyscallStat]
  rw [converse_path fits, converse_stat_result]
  rfl

/-- The answer to a request of `fstat`. -/
theorem netSyscallFstat_request (fd buf : Word) :
    netSyscallFstat ctx os (fstatRequest loader fd buf) =
      netSendStructure (decide loader.HostSupportsDedup && decide (0 ≤ (os.fstat fd).2.toInt)) (os.fstat fd).2
        (((os.fstat fd).1.kosload os.system).bytes ctx.guest) buf (BitVec.ofNat 32 sizeofKosloadStat) := by
  have words := requestWord_words (fourCC 'D' 'C' '0' '1') fd buf
    (be32 (BitVec.ofNat 32 sizeofKosloadStat) ++ inlineRetMagic loader)
  rw [← List.append_assoc] at words
  have third := requestWord_third (fourCC 'D' 'C' '0' '1') fd buf (BitVec.ofNat 32 sizeofKosloadStat)
    (inlineRetMagic loader)
  have magic := netHasInlineRetRequest_append loader
    (be32 (fourCC 'D' 'C' '0' '1') ++ be32 fd ++ be32 buf ++ be32 (BitVec.ofNat 32 sizeofKosloadStat))
  simp only [List.length_append, length_be32, Nat.reduceAdd] at magic
  simp only [netSyscallFstat, fstatRequest, words.1, words.2, third, magic, bytes_netStat]

/-- The answer to a request of `stat`. -/
theorem netSyscallStat_request (pathname : GuestString) (buf : Word) :
    netSyscallStat ctx os (statRequest loader pathname buf) =
      netSendStructure
        (decide loader.HostSupportsDedup && decide (0 ≤ (os.stat (os.resolvePath pathname.bytes)).2.toInt))
        (os.stat (os.resolvePath pathname.bytes)).2
        (((os.stat (os.resolvePath pathname.bytes)).1.kosload os.system).bytes ctx.guest) buf
        (BitVec.ofNat 32 sizeofKosloadStat) := by
  have words := requestWord_words (fourCC 'D' 'C' '1' '3') buf (BitVec.ofNat 32 sizeofKosloadStat)
    (pathname.terminated ++ inlineRetMagic loader)
  rw [← List.append_assoc] at words
  have magic := netHasInlineRetRequest_append loader
    (be32 (fourCC 'D' 'C' '1' '3') ++ be32 buf ++ be32 (BitVec.ofNat 32 sizeofKosloadStat) ++ pathname.terminated)
  have length : (be32 (fourCC 'D' 'C' '1' '3') ++ be32 buf ++ be32 (BitVec.ofNat 32 sizeofKosloadStat) ++
      pathname.terminated).length = 12 + pathname.bytes.length + 1 := by
    simp only [List.length_append, length_be32, CString.terminated, List.length_singleton]
    omega
  rw [length] at magic
  simp only [netSyscallStat, requestString_statRequest]
  simp only [statRequest, words.1, words.2, magic, bytes_netStat]

/-- The answer to a request of `readdir`. -/
theorem netSyscallReaddir_request (dir ourDir : Word) {de : HostDirent} (entry : nextEntry os dir = some de) :
    netSyscallReaddir ctx os (readdirRequest loader dir ourDir) =
      netSendStructure (decide loader.HostSupportsDedup) 1 ((netKosload ctx os de).bytes ctx.guest) ourDir
        (BitVec.ofNat 32 sizeofKosloadDirent) := by
  have words := requestWord_words (fourCC 'D' 'C' '1' '8') dir ourDir
    (be32 (BitVec.ofNat 32 sizeofKosloadDirent) ++ inlineRetMagic loader)
  rw [← List.append_assoc] at words
  have third := requestWord_third (fourCC 'D' 'C' '1' '8') dir ourDir (BitVec.ofNat 32 sizeofKosloadDirent)
    (inlineRetMagic loader)
  have magic := netHasInlineRetRequest_append loader
    (be32 (fourCC 'D' 'C' '1' '8') ++ be32 dir ++ be32 ourDir ++ be32 (BitVec.ofNat 32 sizeofKosloadDirent))
  simp only [List.length_append, length_be32, Nat.reduceAdd] at magic
  simp only [netSyscallReaddir, readdirRequest, words.1, words.2, third, magic, entry, bytes_netDirent]

/-- Over the network `fstat` gives the guest the host's values, cut to their widths. -/
theorem netFstatSeen_eq (running : loader.running = true) (fd buf : Word) :
    netFstatSeen target ctx os loader frame now fd buf = (os.fstat fd).1.kosload os.system := by
  apply KosloadStat.read_bytes
  rw [Holds, netFstat, exchange, netSyscallFstat_request]
  have stored := @memory_statReturns target
    (loader.buildSendPacket (fstatRequest loader fd buf)).1 frame now ctx (os.fstat fd).2
    (((os.fstat fd).1.kosload os.system).bytes ctx.guest) buf running (KosloadStat.length_bytes _ _)
  exact stored

/-- So does `stat`. -/
theorem netStatSeen_eq (running : loader.running = true) (pathname : GuestString) (buf : Word) :
    netStatSeen target ctx os loader frame now pathname buf =
      (os.stat (os.resolvePath pathname.bytes)).1.kosload os.system := by
  apply KosloadStat.read_bytes
  rw [Holds, netStatPath, exchange, netSyscallStat_request]
  have stored := @memory_statReturns target
    (loader.buildSendPacket (statRequest loader pathname buf)).1 frame now ctx
    (os.stat (os.resolvePath pathname.bytes)).2
    (((os.stat (os.resolvePath pathname.bytes)).1.kosload os.system).bytes ctx.guest) buf running
    (KosloadStat.length_bytes _ _)
  exact stored

/-- Over the network `readdir` gives the guest what the host has put into its structure. -/
theorem netReaddirSeen_eq (running : loader.running = true) (dir ourDir : Word) :
    netReaddirSeen target ctx os loader frame now dir ourDir =
      (nextEntry os dir).map fun de => (netKosload ctx os de).seen := by
  cases entry : nextEntry os dir with
  | some de =>
    have full : (netKosload ctx os de).dName.length = sizeofDName := length_compatStrCopy _
    obtain ⟨present, stored⟩ := @memory_readdirReturns target
      (loader.buildSendPacket (readdirRequest loader dir ourDir)).1 frame now ctx
      ((netKosload ctx os de).bytes ctx.guest) ourDir running (KosloadDirent.length_bytes _ full) _ rfl
    have same : netReaddir target ctx os loader frame now dir ourDir =
        readdirReturns (deliverAll target frame now (loader.buildSendPacket (readdirRequest loader dir ourDir)).1
          ((netSendStructure (decide loader.HostSupportsDedup) 1 ((netKosload ctx os de).bytes ctx.guest) ourDir
            (BitVec.ofNat 32 sizeofKosloadDirent)).datagrams ctx
            (loader.buildSendPacket (readdirRequest loader dir ourDir)).1.kosSyscallSeq)) ourDir := by
      rw [netReaddir, exchange, netSyscallReaddir_request dir ourDir entry]
    rw [netReaddirSeen, same]
    exact (if_pos present).trans (congrArg (fun dd => some dd.seen) (KosloadDirent.read_bytes full stored))
  | none =>
    have words := requestWord_words (fourCC 'D' 'C' '1' '8') dir ourDir
      (be32 (BitVec.ofNat 32 sizeofKosloadDirent) ++ inlineRetMagic loader)
    rw [← List.append_assoc] at words
    have nothing : netSyscallReaddir ctx os (readdirRequest loader dir ourDir) =
        { sendData := none, retval := 0, size := 0, inline := [] } := by
      simp only [netSyscallReaddir, readdirRequest, words.1, entry]
    have zero : (exchange target ctx loader frame now (readdirRequest loader dir ourDir)
        (netSyscallReaddir ctx os)).syscallRetval = 0#32 := by
      rw [exchange, nothing]
      exact @syscallRetval_processed_retval target (loader.buildSendPacket (readdirRequest loader dir ourDir)).1 frame
        now 0 0 _ [] running (Nat.zero_le _) rfl
    rw [netReaddirSeen, netReaddir, readdirReturns, if_neg (not_not_intro zero)]
    rfl

/-- The entry the console has stored field by field. -/
def serialKosload (system : HostSystem) (serialOurDir : KosloadDirent) (de : HostDirent) : KosloadDirent :=
  de.kosload system (sentName de.dName ++ serialOurDir.dName.drop (sentName de.dName).length)

/-- Over the serial line `readdir` gives the guest the host's values, and the name as it was sent. -/
theorem serialReaddirSeen_eq (serialOurDir : KosloadDirent) (dir : Word) :
    serialReaddirSeen os serialOurDir dir =
      some ((nextEntry os dir).map fun de => (serialKosload os.system serialOurDir de).seen) := by
  unfold serialReaddirSeen
  rw [Client.Serial.readdir, converse_syscall]
  simp only [serves, serSyscallReaddir, Serial.converse_word]
  rw [show (if IsDirHandle dir then os.readdir (dir - BitVec.ofNat 32 direntOffset) else none) = nextEntry os dir
    from rfl]
  cases nextEntry os dir with
  | none =>
    dsimp only
    rw [Serial.converse_result, if_neg (by decide)]
    rfl
  | some de =>
    dsimp only
    rw [Serial.converse_reply, if_pos (by decide)]
    simp only [Serial.converse_reply]
    have namelen : (BitVec.ofNat 32 (min (de.dName.bytes.length + 1) sizeofDName)).toNat =
        min (de.dName.bytes.length + 1) sizeofDName := by
      rw [BitVec.toNat_ofNat]
      exact Nat.mod_eq_of_lt (Nat.lt_of_le_of_lt (Nat.min_le_right _ _) (by decide))
    have narrow : ((de.reclen os.system).setWidth 32).setWidth 16 = de.reclen os.system := by
      rw [BitVec.setWidth_setWidth_of_le _ (by decide), BitVec.setWidth_eq]
    have byte : ((de.type os.system).setWidth 32).setWidth 8 = de.type os.system := by
      rw [BitVec.setWidth_setWidth_of_le _ (by decide), BitVec.setWidth_eq]
    rw [namelen, Serial.converse_last]
    · simp only [narrow, byte]
      rfl
    · rw [sentName, CString.terminated, List.length_take, List.length_append, List.length_singleton,
        Nat.min_eq_left (Nat.min_le_left _ _)]

variable (target ctx os loader frame now) in
/-- The calls give the guest the same over both lines, and every integer field is the host's value, cut to its
width. -/
structure SameFileInformation (fd buf : Word) (pathname : GuestString) (dir ourDir : Word)
    (serialOurDir : KosloadDirent) : Prop where
  fstat : serialFstatSeen os fd = some (netFstatSeen target ctx os loader frame now fd buf) ∧
    netFstatSeen target ctx os loader frame now fd buf = (os.fstat fd).1.kosload os.system
  stat : serialStatSeen os pathname = some (netStatSeen target ctx os loader frame now pathname buf) ∧
    netStatSeen target ctx os loader frame now pathname buf =
      (os.stat (os.resolvePath pathname.bytes)).1.kosload os.system
  readdir : serialReaddirSeen os serialOurDir dir = some (netReaddirSeen target ctx os loader frame now dir ourDir)
  entry : ∀ de, nextEntry os dir = some de →
    ∃ dName, netReaddirSeen target ctx os loader frame now dir ourDir = some (de.kosload os.system dName)

variable (ctx os) in
/-- The entry needs no conversion of its record length, and its name fits. -/
def EntryPlain (de : HostDirent) : Prop :=
  (ctx.host = ctx.guest ∨ de.reclen os.system = 0#16) ∧ de.dName.bytes.length < sizeofDName

/-- The name the guest sees over the network. -/
theorem dName_netKosload (de : HostDirent) :
    (netKosload ctx os de).seen.dName = de.dName.bytes.take (sizeofDName - 1) := by
  simp only [KosloadDirent.seen, netKosload, HostDirent.kosload]
  rw [cString_compatStrCopy]

/-- A plain entry is seen alike, and as the host has it. -/
theorem seen_of_entryPlain {de : HostDirent} (plain : EntryPlain ctx os de) (serialOurDir : KosloadDirent) :
    (netKosload ctx os de).seen = de.kosload os.system de.dName.bytes ∧
      (serialKosload os.system serialOurDir de).seen = de.kosload os.system de.dName.bytes := by
  have reclen : netReclen ctx os de = de.reclen os.system := by
    unfold netReclen
    split_ifs with same
    · rfl
    · exact (plain.1.resolve_left same).symm
  have whole : de.dName.bytes.take (sizeofDName - 1) = de.dName.bytes :=
    List.take_of_length_le (Nat.le_sub_one_of_lt plain.2)
  constructor
  · ext1
    · rfl
    · rfl
    · exact reclen
    · rfl
    · exact (dName_netKosload de).trans whole
  · ext1
    · rfl
    · rfl
    · rfl
    · rfl
    · exact cString_sentName plain.2 _

/-- An entry that is seen alike, and with the host's numbers, is plain. -/
theorem entryPlain_of_seen {de : HostDirent} {serialOurDir : KosloadDirent} {dName : List Byte}
    (alike : (serialKosload os.system serialOurDir de).seen = (netKosload ctx os de).seen)
    (numbers : (netKosload ctx os de).seen = de.kosload os.system dName) : EntryPlain ctx os de := by
  constructor
  · by_cases same : ctx.host = ctx.guest
    · exact Or.inl same
    · have reclen : netReclen ctx os de = de.reclen os.system := congrArg KosloadDirent.dReclen numbers
      rw [netReclen, if_neg same] at reclen
      exact Or.inr reclen.symm
  · by_contra long
    have names := congrArg (fun dd => dd.dName.length) alike
    have network : (netKosload ctx os de).seen.dName.length = _ := congrArg List.length (dName_netKosload de)
    have serial := length_cString_sentName (Nat.le_of_not_lt long)
      (serialOurDir.dName.drop (sentName de.dName).length)
    rw [List.length_take, Nat.min_eq_left (by omega)] at network
    have same : (cString (sentName de.dName ++ serialOurDir.dName.drop (sentName de.dName).length)).length =
      (netKosload ctx os de).seen.dName.length := names
    rw [same, network] at serial
    exact absurd serial (Nat.not_le.mpr (Nat.sub_lt (Nat.succ_pos 255) Nat.one_pos))

/-- Both lines give the guest the same, with the host's values cut to their widths, if and only if the entry of
the directory is plain. -/
theorem same_file_information_iff (running : loader.running = true) {pathname : GuestString}
    (fits : PathFits os 0 pathname) (fd buf dir ourDir : Word) (serialOurDir : KosloadDirent) :
    SameFileInformation target ctx os loader frame now fd buf pathname dir ourDir serialOurDir ↔
      ∀ de, nextEntry os dir = some de → EntryPlain ctx os de := by
  constructor
  · intro same de entry
    obtain ⟨dName, numbers⟩ := same.entry de entry
    have alike := same.readdir
    rw [netReaddirSeen_eq running, entry] at numbers alike
    rw [serialReaddirSeen_eq, entry] at alike
    exact entryPlain_of_seen (Option.some.inj (Option.some.inj alike)) (Option.some.inj numbers)
  · intro plain
    have fstat := @netFstatSeen_eq target ctx os loader frame now running fd buf
    have stat := @netStatSeen_eq target ctx os loader frame now running pathname buf
    have readdir := @netReaddirSeen_eq target ctx os loader frame now running dir ourDir
    refine ⟨⟨?_, fstat⟩, ⟨?_, stat⟩, ?_, fun de entry => ⟨de.dName.bytes, ?_⟩⟩
    · rw [fstat, serialFstatSeen_eq]
    · rw [stat, serialStatSeen_eq fits]
    · rw [serialReaddirSeen_eq, readdir]
      cases entry : nextEntry os dir with
      | none => rfl
      | some de =>
        obtain ⟨network, serial⟩ := seen_of_entryPlain (plain de entry) serialOurDir
        exact congrArg (fun dd => some (some dd)) (serial.trans network.symm)
    · rw [readdir, entry]
      exact congrArg some (seen_of_entryPlain (plain de entry) serialOurDir).1

end Guest

section Examples

/-- An entry with a record length. -/
def sampleEntry : HostDirent where
  dIno := 0x123456789
  dOff := 24
  dReclen := 32
  dType := 8
  dName := ⟨[97, 46, 109, 112, 51], by decide⟩

/-- A host with one directory of that entry. -/
def sampleHost : HostOs := { Serial.quietHost with readdir := fun _ => some sampleEntry }

/-- A running program under a tool that understands inline answers. -/
def sampleLoader : Loader := { Loader.start (fun _ => 0) (fun _ => 0) with running := true, toolVersion := 0x30000 }

def samplePath : GuestString := ⟨⟨[97], by decide⟩, by decide⟩

/-- A Dreamcast, or a Wii, at a little-endian host. -/
def sampleContext (targetBigEndian : Bool) : NetContext where
  host := .little
  targetBigEndian := targetBigEndian
  legacyMode := false
  isWiiLoader := targetBigEndian

/-- On a Dreamcast the entry is the same over both lines. -/
theorem same_file_information_dreamcast :
    SameFileInformation .dreamcast (sampleContext false) sampleHost sampleLoader 0 0 3 0x8c010000 samplePath 1337
      0x8c020000 ⟨0, 0, 0, 0, []⟩ := by
  refine (same_file_information_iff rfl ⟨by decide, rfl⟩ 3 0x8c010000 1337 0x8c020000 ⟨0, 0, 0, 0, []⟩).mpr
    fun de entry => ?_
  have same : nextEntry sampleHost 1337 = some sampleEntry := rfl
  rw [same] at entry
  cases entry
  exact ⟨Or.inl rfl, by decide⟩

/-- On a Wii the record length is zero over the network. -/
theorem file_information_differs_wii :
    ¬ SameFileInformation .wii (sampleContext true) sampleHost sampleLoader 0 0 3 0x80010000 samplePath 1337
      0x80020000 ⟨0, 0, 0, 0, []⟩ := by
  intro same
  obtain ⟨dName, numbers⟩ := same.entry sampleEntry rfl
  rw [netReaddirSeen_eq rfl, show nextEntry sampleHost 1337 = some sampleEntry from rfl] at numbers
  have reclen : netReclen (sampleContext true) sampleHost sampleEntry = sampleEntry.reclen .linux :=
    congrArg KosloadDirent.dReclen (Option.some.inj numbers)
  exact absurd reclen (by decide)

end Examples

end KosTool
