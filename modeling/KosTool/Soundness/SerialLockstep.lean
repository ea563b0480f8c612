import KosTool.Model.Host.SerialConsole

/-! # Serial syscalls in lockstep

A handler of the host exchanges with the console what the syscall exchanges with the host, unless it gives up
early: then it answers while the console still sends, or waits for, a block.
-/

namespace KosTool.Serial

open ByteWord Machine Party Client.Serial Host.Serial

variable (os : HostOs)

/-- The handler of a syscall. -/
def serves : SyscallId → SerialParty Unit
  | .fstat => serSyscallFstat os
  | .write => serSyscallWrite os
  | .read => serSyscallRead os
  | .openFile => serSyscallOpen os
  | .close => serSyscallClose os
  | .creat => serSyscallCreat os
  | .link => serSyscallLink os
  | .unlink => serSyscallUnlink os
  | .chdir => serSyscallChdir os
  | .chmod => serSyscallChmod os
  | .lseek => serSyscallLseek os
  | .time => serSyscallTime os
  | .stat => serSyscallStat os
  | .utime => serSyscallUtime os
  | .opendir => serSyscallOpendir os
  | .closedir => serSyscallClosedir os
  | .readdir => serSyscallReaddir os
  | .cdfsread => serSyscallCdfsRead os
  | .gdbpacket => serSyscallGdbpacket os
  | .rewinddir => serSyscallRewinddir
  | .mkdir => serSyscallMkdir os

/-- Host and console exchange the same words and blocks over the syscall, in the same order. -/
def Lockstep (syscall : Syscall) : Prop := InStep syscall.perform (doSerialConsole os)

/-- The host accepts the length of the path and gets memory for it. -/
def PathFits (attempt : ℕ) (pathname : GuestString) : Prop :=
  pathname.bytes.length + 1 ≤ maxPathLen ∧ os.malloc attempt (pathname.bytes.length + 1) = true

/-- The host accepts the length of the data and gets memory for them. -/
def DataFits (count : Word) : Prop := count.toNat ≤ maxSyscallSize ∧ os.malloc 0 count.toNat = true

/-- The host need not give the syscall up before its exchange is over. -/
def Served : Syscall → Prop
  | .read _ count | .write _ _ count => count = 0#32 ∨ DataFits os count
  | .openFile pathname _ _ | .creat pathname _ | .unlink pathname | .chdir pathname | .chmod pathname _
  | .mkdir pathname _ | .stat pathname | .utime pathname _ | .opendir pathname => PathFits os 0 pathname
  | .link oldpath newpath => PathFits os 0 oldpath ∧ PathFits os 1 newpath
  | .gdbpacket _ sizePack => (sizePack >>> 16).toNat ≤ gdbBufSize
  | .cdfsRead _ num => num ≠ 0#32 ∧ num.toNat ≤ maxSyscallSize / 2048 ∧ os.malloc 0 (num.toNat * 2048) = true
  | .close _ | .lseek _ _ _ | .fstat _ | .time | .closedir _ | .readdir _ _ | .rewinddir _ => True

section Steps

variable {os} {α β : Type}

/-- The byte of a syscall brings the host to its handler. -/
theorem converse_syscall (id : SyscallId) (next : Unit → SerialParty α) :
    converse (serialIoPutchar id.byte >>= next) (doSerialConsole os) = converse (next ()) (serves os id) := by
  cases id <;> exact converse_byte _ _ _

/-- The last word of an exchange. -/
theorem converse_result (value : Word) (listen : Word → SerialParty α) :
    converse (getUint >>= listen) (putUint value) = converse (listen value) (pure ()) :=
  converse_reply value listen pure

/-- The host gives up while the console sends a block. -/
theorem converse_block_fail (data : List Byte) (value : Word) (next : Unit → SerialParty α) :
    converse (sendDataBlock data >>= next) (putUint value) = none := rfl

/-- The host gives up while the console waits for a block. -/
theorem converse_fail {total : ℕ} (some : total ≠ 0) (listen : List Byte → SerialParty α) (value : Word) :
    converse (loadDataBlock total >>= listen) (putUint value) = none :=
  converse_block_reply some listen value pure

/-- The last block of an exchange. -/
theorem converse_last {data : List Byte} {total : ℕ} (same : data.length = total)
    (listen : List Byte → SerialParty α) :
    converse (loadDataBlock total >>= listen) (serSendData data) = converse (listen data) (pure ()) := by
  have step := converse_download same listen pure
  rcases Classical.em (data = []) with rfl | some
  · exact step
  · rw [serSendData, if_neg some] at step ⊢
    exact step

theorem takeWhile_terminated (pathname : CString) : cString pathname.terminated = pathname.bytes := by
  rw [cString, CString.terminated, List.takeWhile_append_of_pos]
  · simp
  · intro data inside
    simp only [ne_eq, decide_not, Bool.not_eq_eq_eq_not, Bool.not_true, decide_eq_false_iff_not]
    rintro rfl
    exact pathname.no_nul inside

/-- The path gets through if the host accepts it. -/
theorem converse_path {attempt : ℕ} {pathname : GuestString} (fits : PathFits os attempt pathname)
    (next : Unit → SerialParty α) (fail : SerialParty Unit) (handle : List Byte → SerialParty Unit) :
    converse (putPath pathname >>= next) (recvPath os attempt fail handle) =
      converse (next ()) (handle pathname.bytes) := by
  have size := pathname.toNat_size
  have some : pathname.size ≠ 0#32 := fun none => by rw [none] at size; exact absurd size (by simp)
  rw [putPath, recvPath, Party.bind_assoc, converse_word, size, if_neg, if_neg, converse_upload, takeWhile_terminated]
  · rw [CString.terminated, List.length_append, List.length_singleton]
  · exact Nat.succ_ne_zero _
  · rw [fits.2]
    decide
  · exact not_or.mpr ⟨some, Nat.not_lt.mpr fits.1⟩

/-- Otherwise the host answers while the console sends it. -/
theorem converse_path_of_not {attempt : ℕ} {pathname : GuestString} (refused : ¬ PathFits os attempt pathname)
    (next : Unit → SerialParty α) (value : Word) (handle : List Byte → SerialParty Unit) :
    converse (putPath pathname >>= next) (recvPath os attempt (putUint value) handle) = none := by
  have size := pathname.toNat_size
  rw [putPath, recvPath, Party.bind_assoc, converse_word, size]
  split_ifs with range memory
  · exact converse_block_fail _ _ _
  · exact converse_block_fail _ _ _
  · rw [not_or, Nat.not_lt] at range
    exact absurd ⟨range.2, Bool.eq_true_of_not_eq_false memory⟩ refused

/-- The fields of a structure reach the console, each cut to its width. -/
theorem converse_stat (st : HostStat) (ret : Word) (next : KosloadStat → SerialParty α) :
    converse (getStat >>= next) (sendStat os st ret) = converse (next (st.kosload os.system)) (putUint ret) := by
  have half (field : BitVec 64) : (field.setWidth 32).setWidth 16 = field.setWidth 16 :=
    BitVec.setWidth_setWidth_of_le field (by decide)
  simp only [getStat, sendStat, Party.bind_assoc, converse_reply, pure_bind, half, HostStat.kosload]

/-- Host and console are in step over the exchange of a structure. -/
theorem converse_stat_result (st : HostStat) (ret : Word) (next : KosloadStat → Word → SerialParty α) :
    converse (getStat >>= fun ds => getUint >>= next ds) (sendStat os st ret) =
      converse (next (st.kosload os.system) ret) (pure ()) :=
  (converse_stat st ret _).trans (converse_result ret _)

/-- A syscall that begins with a path stays in step if the host accepts it, and only then. -/
theorem inStep_path_iff (id : SyscallId) (pathname : GuestString) {next : Unit → SerialParty α} {value : Word}
    {handle : List Byte → SerialParty Unit} (serve : serves os id = recvPath os 0 (putUint value) handle)
    (rest : InStep (next ()) (handle pathname.bytes)) :
    InStep (serialIoPutchar id.byte >>= fun _ => putPath pathname >>= next) (doSerialConsole os) ↔
      PathFits os 0 pathname := by
  unfold InStep
  rw [converse_syscall, serve]
  by_cases fits : PathFits os 0 pathname
  · rw [converse_path fits]
    exact iff_of_true rest fits
  · rw [converse_path_of_not fits]
    exact iff_of_false Bool.false_ne_true fits

/-- `read` stays in step unless the host gives up on a count that is not zero. -/
theorem inStep_read_iff (fd count : Word) : Lockstep os (.read fd count) ↔ count = 0#32 ∨ DataFits os count := by
  unfold Lockstep InStep
  simp only [Syscall.perform, Client.Serial.read, Party.bind_assoc, pure_bind]
  rw [converse_syscall]
  simp only [serves, serSyscallRead, converse_word]
  by_cases none : count = 0#32
  · subst none
    rw [if_pos (Or.inl rfl)]
    exact iff_of_true (congrArg Option.isSome (converse_result _ _)) (Or.inl rfl)
  · have some : count.toNat ≠ 0 := fun zero => none (BitVec.eq_of_toNat_eq zero)
    split_ifs with range memory
    · rw [converse_fail some]
      exact iff_of_false (by decide) fun fits => fits.elim none fun data =>
        range.elim none fun beyond => Nat.not_lt.mpr data.1 beyond
    · rw [converse_fail some]
      refine iff_of_false (by decide) fun fits => fits.elim none fun data => ?_
      rw [data.2] at memory
      exact absurd memory (by decide)
    · rw [not_or, Nat.not_lt] at range
      rw [converse_download (os.read fd count.toNat).1.2, converse_result]
      exact iff_of_true rfl (Or.inr ⟨range.2, Bool.eq_true_of_not_eq_false memory⟩)

/-- `write` stays in step unless the host gives up on a count that is not zero. -/
theorem inStep_write_iff (fd : Word) (buf : Buffer) (count : Word) :
    Lockstep os (.write fd buf count) ↔ count = 0#32 ∨ DataFits os count := by
  unfold Lockstep InStep
  simp only [Syscall.perform, Client.Serial.write, Party.bind_assoc]
  rw [converse_syscall]
  simp only [serves, serSyscallWrite, converse_word]
  by_cases none : count = 0#32
  · subst none
    rw [if_neg (not_not_intro rfl), if_pos rfl, converse_result]
    exact iff_of_true rfl (Or.inl rfl)
  · have some : count.toNat ≠ 0 := fun zero => none (BitVec.eq_of_toNat_eq zero)
    rw [if_pos none, if_neg none, Party.bind_assoc]
    split_ifs with range memory
    · rw [converse_block_fail]
      exact iff_of_false (by decide) fun fits => fits.elim none fun data => Nat.not_lt.mpr data.1 range
    · rw [converse_block_fail]
      refine iff_of_false (by decide) fun fits => fits.elim none fun data => ?_
      rw [data.2] at memory
      exact absurd memory (by decide)
    · rw [converse_upload (length_slice _ _ _) some, converse_result]
      exact iff_of_true rfl (Or.inr ⟨Nat.not_lt.mp range, Bool.eq_true_of_not_eq_false memory⟩)

/-- `link` stays in step if the host accepts both paths. -/
theorem inStep_link_iff (oldpath newpath : GuestString) :
    Lockstep os (.link oldpath newpath) ↔ PathFits os 0 oldpath ∧ PathFits os 1 newpath := by
  unfold Lockstep InStep
  simp only [Syscall.perform, Client.Serial.link, Party.bind_assoc]
  rw [converse_syscall]
  simp only [serves, serSyscallLink]
  by_cases first : PathFits os 0 oldpath
  · rw [converse_path first]
    by_cases second : PathFits os 1 newpath
    · rw [converse_path second, converse_result]
      exact iff_of_true rfl ⟨first, second⟩
    · rw [converse_path_of_not second]
      exact iff_of_false Bool.false_ne_true fun fits => second fits.2
  · rw [converse_path_of_not first]
    exact iff_of_false Bool.false_ne_true fun fits => first fits.1

/-- The words of `utime` after the path, with times or without. -/
theorem inStep_utime_iff (filename : GuestString) (times : Option (Word × Word)) :
    Lockstep os (.utime filename times) ↔ PathFits os 0 filename := by
  unfold Lockstep
  simp only [Syscall.perform, Client.Serial.utime, Party.bind_assoc]
  refine inStep_path_iff .utime filename (by simp only [serves, serSyscallUtime]; rfl) ?_
  unfold InStep
  cases times with
  | none =>
    simp only [Party.bind_assoc, converse_word]
    rw [if_neg (by decide), converse_result]
    rfl
  | some pair =>
    simp only [Party.bind_assoc, converse_word]
    rw [if_pos (by decide)]
    simp only [converse_word]
    rw [converse_result]
    rfl

/-- `readdir` stays in step whatever the directory holds. -/
theorem inStep_readdir (serialOurDir : KosloadDirent) (dir : Word) : Lockstep os (.readdir serialOurDir dir) := by
  unfold Lockstep InStep
  simp only [Syscall.perform, Client.Serial.readdir, Party.bind_assoc]
  rw [converse_syscall]
  simp only [serves, serSyscallReaddir, converse_word]
  cases if IsDirHandle dir then os.readdir (dir - BitVec.ofNat 32 direntOffset) else none with
  | none =>
    dsimp only
    rw [converse_result, if_neg (by decide)]
    rfl
  | some de =>
    dsimp only
    rw [converse_reply, if_pos (by decide)]
    simp only [Party.bind_assoc, converse_reply]
    have namelen : (BitVec.ofNat 32 (min (de.dName.bytes.length + 1) sizeofDName)).toNat =
        min (de.dName.bytes.length + 1) sizeofDName := by
      rw [BitVec.toNat_ofNat]
      exact Nat.mod_eq_of_lt (Nat.lt_of_le_of_lt (Nat.min_le_right _ _) (by decide))
    rw [namelen, converse_last]
    · rfl
    · rw [sentName, CString.terminated, List.length_take, List.length_append, List.length_singleton,
        Nat.min_eq_left (Nat.min_le_left _ _)]

/-- A sector read stays in step unless the host gives it up. -/
theorem inStep_cdfsRead_iff (start num : Word) : Lockstep os (.cdfsRead start num) ↔ Served os (.cdfsRead start num) := by
  unfold Lockstep InStep Served
  simp only [Syscall.perform, Client.Serial.cdfsRead, Party.bind_assoc]
  rw [converse_syscall]
  simp only [serves, serSyscallCdfsRead, converse_word]
  split_ifs with range memory
  · refine iff_of_false ?_ fun fits => range.elim fits.1 fun beyond => Nat.not_lt.mpr fits.2.1 beyond
    by_cases none : (num * 2048#32).toNat = 0
    · rw [none, loadDataBlock, if_pos rfl]
      exact Bool.false_ne_true
    · rw [converse_fail none]
      exact Bool.false_ne_true
  · refine iff_of_false ?_ fun fits => ?_
    · by_cases none : (num * 2048#32).toNat = 0
      · rw [none, loadDataBlock, if_pos rfl]
        exact Bool.false_ne_true
      · rw [converse_fail none]
        exact Bool.false_ne_true
    · rw [fits.2.2] at memory
      exact absurd memory (by decide)
  · rw [not_or, Nat.not_lt] at range
    have limit : num.toNat ≤ 16384 := range.2
    have bytes : (num * 2048#32).toNat = num.toNat * 2048 := by
      rw [BitVec.toNat_mul]
      exact Nat.mod_eq_of_lt (by rw [BitVec.toNat_ofNat]; omega)
    rw [bytes, converse_last (os.cdfs (start - 150) (num.toNat * 2048)).2]
    exact iff_of_true rfl ⟨range.1, range.2, Bool.eq_true_of_not_eq_false memory⟩

/-- A packet no larger than the host's buffer gets through, an empty one with nothing sent. -/
theorem converse_gdbPacket (inBuf : Buffer) {inSize : Word} (fits : inSize.toNat ≤ gdbBufSize)
    (next : SerialParty α) (listen : List Byte → SerialParty β) :
    ∃ gdbBuf, converse (if inSize ≠ 0#32 then sendDataBlock (slice inBuf 0 inSize.toNat) >>= fun _ => next else next)
      (loadDataBlock (min inSize.toNat gdbBufSize) >>= listen) = converse next (listen gdbBuf) := by
  rw [Nat.min_eq_left fits]
  by_cases none : inSize = 0#32
  · subst none
    exact ⟨[], rfl⟩
  · refine ⟨slice inBuf 0 inSize.toNat, ?_⟩
    rw [if_pos none, converse_upload (length_slice _ _ _) fun zero => none (BitVec.eq_of_toNat_eq zero)]

/-- The console takes the host's answer to a packet as a word, and as a block if it is the length of one. -/
theorem inStep_gdbReply (outSize : Word) (small : outSize ≤ 0xffff#32) (answer : Word)
    (last : SerialParty Unit)
    (matched : answer = -1 ∧ last = pure () ∨ ∃ reply : List Byte, reply.length ≤ outSize.toNat ∧
      answer = BitVec.ofNat 32 reply.length ∧ last = serSendData reply) :
    (converse
      (getUint >>= fun retSize =>
        if retSize ≠ 0#32 ∧ retSize ≤ outSize then loadDataBlock retSize.toNat >>= fun _ => pure ()
        else (pure () : SerialParty Unit))
      (putUint answer >>= fun _ => last)).isSome := by
  rw [converse_reply]
  rcases matched with ⟨rfl, rfl⟩ | ⟨reply, short, rfl, rfl⟩
  · rw [if_neg]
    · rfl
    · rintro ⟨-, inside⟩
      exact absurd (BitVec.le_trans inside small) (by decide)
  · have below := BitVec.le_def.mp small
    have size : (BitVec.ofNat 32 reply.length).toNat = reply.length := by
      rw [BitVec.toNat_ofNat]
      exact Nat.mod_eq_of_lt (Nat.lt_of_le_of_lt (short.trans below) (by decide))
    by_cases empty : reply = []
    · subst empty
      rfl
    · rw [if_pos, size, converse_last rfl]
      · rfl
      · refine ⟨fun zero => empty ?_, BitVec.le_def.mpr (size.trans_le short)⟩
        rw [zero] at size
        exact List.length_eq_zero_iff.mp size.symm

/-- `gdbpacket` stays in step if the packet fits the host's buffer. -/
theorem inStep_gdbpacket_iff (inBuf : Buffer) (sizePack : Word) :
    Lockstep os (.gdbpacket inBuf sizePack) ↔ (sizePack >>> 16).toNat ≤ gdbBufSize := by
  have small : sizePack &&& 0xffff#32 ≤ 0xffff#32 := by
    rw [BitVec.le_def, BitVec.toNat_and]
    exact Nat.and_le_right
  unfold Lockstep InStep
  simp only [Syscall.perform, Client.Serial.gdbpacket, Party.bind_assoc]
  rw [converse_syscall]
  simp only [serves, serSyscallGdbpacket, converse_word]
  simp only [Party.ite_bind, Party.bind_assoc, pure_bind]
  by_cases fits : (sizePack >>> 16).toNat ≤ gdbBufSize
  · obtain ⟨gdbBuf, packet⟩ := converse_gdbPacket inBuf fits
      (getUint >>= fun retSize =>
        if retSize ≠ 0#32 ∧ retSize ≤ sizePack &&& 0xffff#32 then loadDataBlock retSize.toNat >>= fun _ => pure ()
        else (pure () : SerialParty Unit)) _
    rw [packet]
    refine iff_of_true ?_ fits
    have reply := inStep_gdbReply (sizePack &&& 0xffff#32) small
    have none : (0 : Word) = BitVec.ofNat 32 ([] : List Byte).length ∧ (pure () : SerialParty Unit) = serSendData [] :=
      ⟨rfl, rfl⟩
    split_ifs with server client sent out
    · exact reply (-1) _ (Or.inl ⟨rfl, rfl⟩)
    · exact reply (-1) _ (Or.inl ⟨rfl, rfl⟩)
    · exact reply 0 _ (Or.inr ⟨[], Nat.zero_le _, none⟩)
    · exact reply 0 _ (Or.inr ⟨[], Nat.zero_le _, none⟩)
    · cases received : os.gdbRecv (min (sizePack &&& 0xffff#32).toNat gdbBufSize) with
      | none => exact reply 0 _ (Or.inr ⟨[], Nat.zero_le _, none⟩)
      | some data => exact reply _ _ (Or.inr ⟨data.1, data.2.trans (Nat.min_le_left _ _), rfl, rfl⟩)
  · refine iff_of_false ?_ fits
    have some : sizePack >>> 16 ≠ 0#32 := fun zero => fits (by rw [zero]; exact Nat.zero_le _)
    rw [if_pos some, Nat.min_eq_right (Nat.le_of_not_le fits), converse_upload_of_ne]
    · exact Bool.false_ne_true
    · rw [length_slice]
      omega
    · decide

end Steps

/-- A host on which nothing succeeds. -/
def quietHost : HostOs where
  system := .linux
  malloc _ _ := true
  resolvePath path := path
  openFile _ _ _ := -1
  close _ := -1
  read _ count := (⟨List.replicate count 0, List.length_replicate⟩, -1)
  write _ _ := -1
  link _ _ := -1
  unlink _ := -1
  chdir _ := -1
  chmod _ _ := -1
  mkdir _ _ := -1
  lseek _ _ _ := -1
  fstat _ := (⟨0, 0, 0, 0, 0, 0, 0, 0, 0, 0, 0, 0, 0⟩, -1)
  time := 0
  stat _ := (⟨0, 0, 0, 0, 0, 0, 0, 0, 0, 0, 0, 0, 0⟩, -1)
  utime _ _ := -1
  freeDir := none
  opendir _ := false
  closedir _ := -1
  readdir _ := none
  cdfs _ count := ⟨List.replicate count 0, List.length_replicate⟩
  gdbServerSocket := false
  gdbClientSocket := false
  gdbSendAll _ := false
  gdbRecv _ := none

/-- A path whose terminator no longer fits the host's limit. -/
def longPath : GuestString where
  bytes := List.replicate maxPathLen 97
  no_nul := fun inside => absurd (List.eq_of_mem_replicate inside) (by decide)
  short := by rw [List.length_replicate]; decide

/-- Host and console stay in step over a syscall if and only if the host need not give it up. -/
theorem lockstep_iff_served (syscall : Syscall) : Lockstep os syscall ↔ Served os syscall := by
  have answered (id : SyscallId) (next : Unit → SerialParty Unit) (rest : InStep (next ()) (serves os id)) :
      InStep (serialIoPutchar id.byte >>= next) (doSerialConsole os) :=
    (congrArg Option.isSome (converse_syscall id next)).trans rest
  cases syscall with
  | read fd count => exact inStep_read_iff fd count
  | write fd buf count => exact inStep_write_iff fd buf count
  | link oldpath newpath => exact inStep_link_iff oldpath newpath
  | utime filename times => exact inStep_utime_iff filename times
  | gdbpacket inBuf sizePack => exact inStep_gdbpacket_iff inBuf sizePack
  | cdfsRead start num => exact inStep_cdfsRead_iff start num
  | readdir serialOurDir dir => exact iff_of_true (inStep_readdir serialOurDir dir) trivial
  | openFile pathname flags mode =>
    simp only [Lockstep, Served, Syscall.perform, Client.Serial.openFile, Party.bind_assoc]
    refine inStep_path_iff .openFile pathname (by simp only [serves, serSyscallOpen]; rfl) ?_
    rfl
  | creat pathname mode =>
    simp only [Lockstep, Served, Syscall.perform, Client.Serial.creat, Party.bind_assoc]
    refine inStep_path_iff .creat pathname (by simp only [serves, serSyscallCreat]; rfl) ?_
    rfl
  | unlink pathname =>
    simp only [Lockstep, Served, Syscall.perform, Client.Serial.unlink, Party.bind_assoc]
    refine inStep_path_iff .unlink pathname (by simp only [serves, serSyscallUnlink]; rfl) ?_
    rfl
  | chdir path =>
    simp only [Lockstep, Served, Syscall.perform, Client.Serial.chdir, Party.bind_assoc]
    refine inStep_path_iff .chdir path (by simp only [serves, serSyscallChdir]; rfl) ?_
    rfl
  | chmod path mode =>
    simp only [Lockstep, Served, Syscall.perform, Client.Serial.chmod, Party.bind_assoc]
    refine inStep_path_iff .chmod path (by simp only [serves, serSyscallChmod]; rfl) ?_
    rfl
  | mkdir path mode =>
    simp only [Lockstep, Served, Syscall.perform, Client.Serial.mkdir, Party.bind_assoc]
    refine inStep_path_iff .mkdir path (by simp only [serves, serSyscallMkdir]; rfl) ?_
    rfl
  | opendir name =>
    simp only [Lockstep, Served, Syscall.perform, Client.Serial.opendir, Party.bind_assoc]
    refine inStep_path_iff .opendir name (by simp only [serves, serSyscallOpendir]; rfl) ?_
    rfl
  | stat pathname =>
    simp only [Lockstep, Served, Syscall.perform, Client.Serial.stat, Party.bind_assoc]
    refine inStep_path_iff .stat pathname (by simp only [serves, serSyscallStat]; rfl) ?_
    exact congrArg Option.isSome (converse_stat_result _ _ _)
  | fstat fd =>
    simp only [Lockstep, Served, Syscall.perform, Client.Serial.fstat, Party.bind_assoc]
    refine iff_of_true (answered .fstat _ ?_) trivial
    rw [serves, serSyscallFstat, InStep, converse_word]
    exact congrArg Option.isSome (converse_stat_result _ _ _)
  | close fd =>
    simp only [Lockstep, Served, Syscall.perform, Client.Serial.close, Party.bind_assoc]
    refine iff_of_true (answered .close _ ?_) trivial
    rfl
  | lseek fd offset whence =>
    simp only [Lockstep, Served, Syscall.perform, Client.Serial.lseek, Party.bind_assoc]
    refine iff_of_true (answered .lseek _ ?_) trivial
    rfl
  | time =>
    simp only [Lockstep, Served, Syscall.perform, Client.Serial.time, Party.bind_assoc]
    refine iff_of_true (answered .time _ ?_) trivial
    rfl
  | closedir dir =>
    simp only [Lockstep, Served, Syscall.perform, Client.Serial.closedir, Party.bind_assoc]
    refine iff_of_true (answered .closedir _ ?_) trivial
    rfl
  | rewinddir dir =>
    simp only [Lockstep, Served, Syscall.perform, Client.Serial.rewinddir, Party.bind_assoc]
    refine iff_of_true (answered .rewinddir _ ?_) trivial
    rfl

/-- A program's syscalls, one after another. -/
def performAll : List Syscall → SerialParty Unit
  | [] => pure ()
  | syscall :: rest => syscall.perform >>= fun _ => performAll rest

/-- The turns of the host's console; what the operating system answers may change from one to the next. -/
def serveAll : List HostOs → SerialParty Unit
  | [] => pure ()
  | os :: rest => doSerialConsole os >>= fun _ => serveAll rest

/-- Over any number of syscalls the host need not give up, host and console stay in step. -/
theorem inStep_session (calls : List (HostOs × Syscall)) (served : ∀ call ∈ calls, Served call.1 call.2) :
    InStep (performAll (calls.map Prod.snd)) (serveAll (calls.map Prod.fst)) := by
  induction calls with
  | nil => rfl
  | cons call rest ih =>
    have first := (lockstep_iff_served call.1 call.2).mpr (served call List.mem_cons_self)
    have later := ih fun call inside => served call (List.mem_cons_of_mem _ inside)
    obtain ⟨⟨⟨⟩, ⟨⟩⟩, first⟩ := Option.isSome_iff_exists.mp first
    unfold InStep
    rw [List.map_cons, List.map_cons, performAll, serveAll, converse_bind first]
    exact later

end KosTool.Serial
