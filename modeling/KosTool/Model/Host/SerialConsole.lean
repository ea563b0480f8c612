import KosTool.Model.Client.SerialSyscalls

/-! # The host's serial console

The `ser_syscall_*` handlers of `host/src/console.c` and the dispatch of `do_serial_console`, as the host's end of
the line. What the operating system answers during a handler is a parameter; the answer may be any. A handler
that has read a path or data uses it, so that what reaches the operating system is visible.
-/

namespace KosTool.Host.Serial

open ByteWord KosTool.Serial
open KosTool.Client.Serial (SyscallId)

def maxPathLen : ℕ := 4096

/-- `MAX_SYSCALL_SIZE`. -/
def maxSyscallSize : ℕ := 32 * 1024 * 1024

/-- The size of `gdb_buf`. -/
def gdbBufSize : ℕ := 1024

/-- The flags of an `open`: those of the program as `translate_open_flags` turns them, or those of `creat`. -/
inductive OpenFlags where
  | translated (flags : Word)
  | createTruncate
deriving DecidableEq, Repr

/-- What the operating system and the tool's own functions answer while a handler runs. -/
structure HostOs where
  system : HostSystem
  /-- Whether the handler's allocation of the given number gets its bytes. -/
  malloc : ℕ → ℕ → Bool
  resolvePath : List Byte → List Byte
  openFile : List Byte → OpenFlags → Word → Word
  close : Word → Word
  /-- What the buffer of `read` holds afterwards, and the result. -/
  read : Word → (count : ℕ) → { data : List Byte // data.length = count } × Word
  /-- `write_full`, `console_write` or an exception report. -/
  write : Word → List Byte → Word
  link : List Byte → List Byte → Word
  unlink : List Byte → Word
  chdir : List Byte → Word
  chmod : List Byte → Word → Word
  mkdir : List Byte → Word → Word
  lseek : Word → Word → Word → Word
  fstat : Word → HostStat × Word
  time : BitVec 64
  stat : List Byte → HostStat × Word
  utime : List Byte → Option (Word × Word) → Word
  /-- The first free slot of `opendirs`. -/
  freeDir : Option (Fin maxOpenDirs)
  opendir : List Byte → Bool
  closedir : Word → Word
  readdir : Word → Option HostDirent
  /-- What the sectors from one on hold, as far as they can be read. -/
  cdfs : Word → (count : ℕ) → { data : List Byte // data.length = count }
  gdbServerSocket : Bool
  /-- A client is connected, or `accept` gets one. -/
  gdbClientSocket : Bool
  gdbSendAll : List Byte → Bool
  /-- `recv` from the GDB client of at most so many bytes. -/
  gdbRecv : (size : ℕ) → Option { data : List Byte // data.length ≤ size }

variable (os : HostOs)

/-- Reads a path for a handler, which fails otherwise: the length is out of range or no memory is left. -/
def recvPath (attempt : ℕ) (fail : SerialParty Unit) (handle : List Byte → SerialParty Unit) : SerialParty Unit := do
  let namelen ← getUint
  if namelen = 0#32 ∨ maxPathLen < namelen.toNat then fail
  else if os.malloc attempt namelen.toNat = false then fail
  else
    let pathname ← loadDataBlock namelen.toNat
    handle (cString pathname)

/-- `ser_syscall_fstat` and `ser_syscall_stat` send the fields so. -/
def sendStat (st : HostStat) (ret : Word) : SerialParty Unit := do
  putUint (st.stDev.setWidth 32)
  putUint (st.stIno.setWidth 32)
  putUint (st.stMode.setWidth 32)
  putUint (st.stNlink.setWidth 32)
  putUint (st.stUid.setWidth 32)
  putUint (st.stGid.setWidth 32)
  putUint (st.stRdev.setWidth 32)
  putUint (st.stSize.setWidth 32)
  putUint ((st.blksize os.system).setWidth 32)
  putUint ((st.blocks os.system).setWidth 32)
  putUint (st.stAtime.setWidth 32)
  putUint (st.stMtime.setWidth 32)
  putUint (st.stCtime.setWidth 32)
  putUint ret

/-- `ser_syscall_fstat`. -/
def serSyscallFstat : SerialParty Unit := do
  let fd ← getUint
  sendStat os (os.fstat fd).1 (os.fstat fd).2

/-- `ser_syscall_write`. -/
def serSyscallWrite : SerialParty Unit := do
  let fd ← getUint
  let count ← getUint
  if count = 0#32 then putUint 0
  else if maxSyscallSize < count.toNat then putUint (-1)
  else if os.malloc 0 count.toNat = false then putUint (-1)
  else
    let data ← loadDataBlock count.toNat
    putUint (os.write fd data)

/-- `ser_syscall_read`. -/
def serSyscallRead : SerialParty Unit := do
  let fd ← getUint
  let count ← getUint
  if count = 0#32 ∨ maxSyscallSize < count.toNat then putUint (-1)
  else if os.malloc 0 count.toNat = false then putUint (-1)
  else
    serSendData (os.read fd count.toNat).1.1
    putUint (os.read fd count.toNat).2

/-- `ser_syscall_open`. -/
def serSyscallOpen : SerialParty Unit :=
  recvPath os 0 (putUint (-1)) fun pathname => do
    let flags ← getUint
    let mode ← getUint
    putUint (os.openFile (os.resolvePath pathname) (.translated flags) mode)

/-- `ser_syscall_close`. -/
def serSyscallClose : SerialParty Unit := do
  let fd ← getUint
  putUint (os.close fd)

/-- `ser_syscall_creat`. -/
def serSyscallCreat : SerialParty Unit :=
  recvPath os 0 (putUint (-1)) fun pathname => do
    let mode ← getUint
    putUint (os.openFile (os.resolvePath pathname) .createTruncate mode)

/-- `ser_syscall_link`. -/
def serSyscallLink : SerialParty Unit :=
  recvPath os 0 (putUint (-1)) fun path1 =>
    recvPath os 1 (putUint (-1)) fun path2 =>
      putUint (os.link (os.resolvePath path1) (os.resolvePath path2))

/-- `ser_syscall_unlink`. -/
def serSyscallUnlink : SerialParty Unit :=
  recvPath os 0 (putUint (-1)) fun pathname => putUint (os.unlink (os.resolvePath pathname))

/-- `ser_syscall_chdir`. -/
def serSyscallChdir : SerialParty Unit :=
  recvPath os 0 (putUint (-1)) fun pathname => putUint (os.chdir (os.resolvePath pathname))

/-- `ser_syscall_chmod`. -/
def serSyscallChmod : SerialParty Unit :=
  recvPath os 0 (putUint (-1)) fun pathname => do
    let mode ← getUint
    putUint (os.chmod (os.resolvePath pathname) mode)

/-- `ser_syscall_mkdir`. -/
def serSyscallMkdir : SerialParty Unit :=
  recvPath os 0 (putUint (-1)) fun pathname => do
    let mode ← getUint
    putUint (os.mkdir (os.resolvePath pathname) mode)

/-- `ser_syscall_lseek`. -/
def serSyscallLseek : SerialParty Unit := do
  let fd ← getUint
  let offset ← getUint
  let whence ← getUint
  putUint (os.lseek fd offset whence)

/-- `ser_syscall_time`. -/
def serSyscallTime : SerialParty Unit := putUint (os.time.setWidth 32)

/-- `ser_syscall_stat`. -/
def serSyscallStat : SerialParty Unit :=
  recvPath os 0 (putUint (-1)) fun filename =>
    sendStat os (os.stat (os.resolvePath filename)).1 (os.stat (os.resolvePath filename)).2

/-- `ser_syscall_utime`. -/
def serSyscallUtime : SerialParty Unit :=
  recvPath os 0 (putUint (-1)) fun pathname => do
    let hasTimes ← getUint
    if hasTimes ≠ 0#32 then
      let actime ← getUint
      let modtime ← getUint
      putUint (os.utime (os.resolvePath pathname) (some (actime, modtime)))
    else putUint (os.utime (os.resolvePath pathname) none)

/-- The handle `opendir` answers with, or zero. -/
def openedDir (dirname : List Byte) : Word :=
  match os.freeDir with
  | some i => if os.opendir (os.resolvePath dirname) = false then 0 else BitVec.ofNat 32 (i.val + direntOffset)
  | none => 0

/-- `ser_syscall_opendir`. -/
def serSyscallOpendir : SerialParty Unit :=
  recvPath os 0 (putUint 0) fun dirname => putUint (openedDir os dirname)

/-- The handle is one of `opendir`'s. -/
def IsDirHandle (i : Word) : Prop := direntOffset ≤ i.toNat ∧ i.toNat < maxOpenDirs + direntOffset

instance (i : Word) : Decidable (IsDirHandle i) := inferInstanceAs (Decidable (_ ∧ _))

/-- `ser_syscall_closedir`. -/
def serSyscallClosedir : SerialParty Unit := do
  let i ← getUint
  putUint (if IsDirHandle i then os.closedir (i - BitVec.ofNat 32 direntOffset) else -1)

/-- The bytes of a name that are sent: with the terminator, but no more than fit. -/
def sentName (name : CString) : List Byte :=
  name.terminated.take (min (name.bytes.length + 1) sizeofDName)

/-- `ser_syscall_readdir`. -/
def serSyscallReaddir : SerialParty Unit := do
  let i ← getUint
  match if IsDirHandle i then os.readdir (i - BitVec.ofNat 32 direntOffset) else none with
  | none => putUint 0
  | some de =>
    putUint 1
    putUint (de.dIno.setWidth 32)
    putUint ((de.off os.system).setWidth 32)
    putUint ((de.reclen os.system).setWidth 32)
    putUint ((de.type os.system).setWidth 32)
    putUint (BitVec.ofNat 32 (min (de.dName.bytes.length + 1) sizeofDName))
    serSendData (sentName de.dName)

/-- `ser_syscall_gdbpacket`. -/
def serSyscallGdbpacket : SerialParty Unit := do
  let inSize ← getUint
  let outSize ← getUint
  let gdbBuf ← loadDataBlock (min inSize.toNat gdbBufSize)
  if os.gdbServerSocket = false then putUint (-1)
  else if os.gdbClientSocket = false then putUint (-1)
  else if inSize ≠ 0#32 ∧ os.gdbSendAll gdbBuf = false then putUint 0
  else if outSize = 0#32 then putUint 0
  else
    match os.gdbRecv (min outSize.toNat gdbBufSize) with
    | none => putUint 0
    | some reply =>
      putUint (BitVec.ofNat 32 reply.1.length)
      serSendData reply.1

/-- `ser_syscall_rewinddir`. -/
def serSyscallRewinddir : SerialParty Unit := do
  let _ ← getUint
  putUint 0

/-- `ser_syscall_cdfs_read`. -/
def serSyscallCdfsRead : SerialParty Unit := do
  let start ← getUint
  let num ← getUint
  if num = 0#32 ∨ maxSyscallSize / 2048 < num.toNat then putUint (-1)
  else if os.malloc 0 (num.toNat * 2048) = false then putUint (-1)
  else serSendData (os.cdfs (start - 150) (num.toNat * 2048)).1

/-- The handler `do_serial_console` calls for a byte; other bytes end the console. -/
def handler (command : Byte) : Option (SerialParty Unit) :=
  match command with
  | 1 => some (serSyscallFstat os)
  | 2 => some (serSyscallWrite os)
  | 3 => some (serSyscallRead os)
  | 4 => some (serSyscallOpen os)
  | 5 => some (serSyscallClose os)
  | 6 => some (serSyscallCreat os)
  | 7 => some (serSyscallLink os)
  | 8 => some (serSyscallUnlink os)
  | 9 => some (serSyscallChdir os)
  | 10 => some (serSyscallChmod os)
  | 11 => some (serSyscallLseek os)
  | 12 => some (serSyscallTime os)
  | 13 => some (serSyscallStat os)
  | 14 => some (serSyscallUtime os)
  | 15 => some (pure ())
  | 16 => some (serSyscallOpendir os)
  | 17 => some (serSyscallClosedir os)
  | 18 => some (serSyscallReaddir os)
  | 19 => some (serSyscallCdfsRead os)
  | 20 => some (serSyscallGdbpacket os)
  | 21 => some serSyscallRewinddir
  | 23 => some (serSyscallMkdir os)
  | _ => none

/-- One turn of `do_serial_console`. -/
def doSerialConsole : SerialParty Unit := do
  let command ← serBlreadByte
  match handler os command with
  | some handle => handle
  | none => pure ()

end KosTool.Host.Serial
