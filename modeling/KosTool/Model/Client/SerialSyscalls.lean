import KosTool.Model.KosloadTypes
import KosTool.Model.SerialLine

/-! # The syscalls of the serial loader

`client/common/serial/serial_syscalls.c` and the sector reads of `client/common/serial/cdfs_syscalls.c`, as the
console's end of the line. What a syscall stores for the program is part of its result.
-/

namespace KosTool.Client.Serial

open ByteWord KosTool.Serial

/-- `SERIAL_SYSCALL_*`. -/
inductive SyscallId where
  | fstat
  | write
  | read
  | openFile
  | close
  | creat
  | link
  | unlink
  | chdir
  | chmod
  | lseek
  | time
  | stat
  | utime
  | opendir
  | closedir
  | readdir
  | cdfsread
  | gdbpacket
  | rewinddir
  | mkdir
deriving DecidableEq, Repr

/-- The byte that asks for a syscall. -/
def SyscallId.byte : SyscallId → Byte
  | .fstat => 1
  | .write => 2
  | .read => 3
  | .openFile => 4
  | .close => 5
  | .creat => 6
  | .link => 7
  | .unlink => 8
  | .chdir => 9
  | .chmod => 10
  | .lseek => 11
  | .time => 12
  | .stat => 13
  | .utime => 14
  | .opendir => 16
  | .closedir => 17
  | .readdir => 18
  | .cdfsread => 19
  | .gdbpacket => 20
  | .rewinddir => 21
  | .mkdir => 23

/-- The thirteen words of `fstat` and `stat`, into a `kosload_stat_t`. -/
def getStat : SerialParty KosloadStat := do
  let stDev ← getUint
  let stIno ← getUint
  let stMode ← getUint
  let stNlink ← getUint
  let stUid ← getUint
  let stGid ← getUint
  let stRdev ← getUint
  let stSize ← getUint
  let blksizeVal ← getUint
  let blocksVal ← getUint
  let stAtimeVal ← getUint
  let stMtimeVal ← getUint
  let stCtimeVal ← getUint
  pure
    { stDev := stDev.setWidth 16
      stIno := stIno.setWidth 16
      stMode
      stNlink := stNlink.setWidth 16
      stUid := stUid.setWidth 16
      stGid := stGid.setWidth 16
      stRdev := stRdev.setWidth 16
      stSize
      stAtimeVal
      stSpare1 := 0
      stMtimeVal
      stSpare2 := 0
      stCtimeVal
      stSpare3 := 0
      stBlksize := blksizeVal
      stBlocks := blocksVal
      stSpare4 := (0, 0) }

/-- A path, its length first. -/
def putPath (pathname : GuestString) : SerialParty Unit := do
  putUint pathname.size
  sendDataBlock pathname.terminated

/-- `read`: what is stored at `buf`, and the result. -/
def read (fd count : Word) : SerialParty (List Byte × Word) := do
  serialIoPutchar SyscallId.read.byte
  putUint fd
  putUint count
  let data ← loadDataBlock count.toNat
  let result ← getUint
  pure (data, result)

/-- `write`. -/
def write (fd : Word) (buf : Buffer) (count : Word) : SerialParty Word := do
  serialIoPutchar SyscallId.write.byte
  putUint fd
  putUint count
  if count ≠ 0#32 then
    sendDataBlock (slice buf 0 count.toNat)
    getUint
  else getUint

/-- `open`. -/
def openFile (pathname : GuestString) (flags mode : Word) : SerialParty Word := do
  serialIoPutchar SyscallId.openFile.byte
  putPath pathname
  putUint flags
  putUint mode
  getUint

/-- `close`. -/
def close (fd : Word) : SerialParty Word := do
  serialIoPutchar SyscallId.close.byte
  putUint fd
  getUint

/-- `creat`. -/
def creat (pathname : GuestString) (mode : Word) : SerialParty Word := do
  serialIoPutchar SyscallId.creat.byte
  putPath pathname
  putUint mode
  getUint

/-- `link`. -/
def link (oldpath newpath : GuestString) : SerialParty Word := do
  serialIoPutchar SyscallId.link.byte
  putPath oldpath
  putPath newpath
  getUint

/-- `unlink`. -/
def unlink (pathname : GuestString) : SerialParty Word := do
  serialIoPutchar SyscallId.unlink.byte
  putPath pathname
  getUint

/-- `chdir`. -/
def chdir (path : GuestString) : SerialParty Word := do
  serialIoPutchar SyscallId.chdir.byte
  putPath path
  getUint

/-- `chmod`. -/
def chmod (path : GuestString) (mode : Word) : SerialParty Word := do
  serialIoPutchar SyscallId.chmod.byte
  putPath path
  putUint mode
  getUint

/-- `mkdir`. -/
def mkdir (path : GuestString) (mode : Word) : SerialParty Word := do
  serialIoPutchar SyscallId.mkdir.byte
  putPath path
  putUint mode
  getUint

/-- `lseek`. -/
def lseek (fd offset whence : Word) : SerialParty Word := do
  serialIoPutchar SyscallId.lseek.byte
  putUint fd
  putUint offset
  putUint whence
  getUint

/-- `fstat`: what is stored at `buf`, and the result. -/
def fstat (fd : Word) : SerialParty (KosloadStat × Word) := do
  serialIoPutchar SyscallId.fstat.byte
  putUint fd
  let ds ← getStat
  let result ← getUint
  pure (ds, result)

/-- `time`. -/
def time : SerialParty Word := do
  serialIoPutchar SyscallId.time.byte
  getUint

/-- `stat`: what is stored at `buf`, and the result. -/
def stat (pathname : GuestString) : SerialParty (KosloadStat × Word) := do
  serialIoPutchar SyscallId.stat.byte
  putPath pathname
  let ds ← getStat
  let result ← getUint
  pure (ds, result)

/-- `utime`; the times are those at `buf`, if it is no null pointer. -/
def utime (filename : GuestString) (times : Option (Word × Word)) : SerialParty Word := do
  serialIoPutchar SyscallId.utime.byte
  putPath filename
  match times with
  | some (actime, modtime) =>
    putUint 1
    putUint actime
    putUint modtime
    getUint
  | none =>
    putUint 0
    getUint

/-- `opendir`. -/
def opendir (name : GuestString) : SerialParty Word := do
  serialIoPutchar SyscallId.opendir.byte
  putPath name
  getUint

/-- `closedir`. -/
def closedir (dir : Word) : SerialParty Word := do
  serialIoPutchar SyscallId.closedir.byte
  putUint dir
  getUint

/-- `readdir` with what `serial_our_dir` held before: the entry it holds then, if there is one. -/
def readdir (serialOurDir : KosloadDirent) (dir : Word) : SerialParty (Option KosloadDirent) := do
  serialIoPutchar SyscallId.readdir.byte
  putUint dir
  let entry ← getUint
  if entry ≠ 0#32 then
    let dIno ← getUint
    let dOff ← getUint
    let dReclen ← getUint
    let dType ← getUint
    let namelen ← getUint
    let name ← loadDataBlock namelen.toNat
    pure (some
      { dIno
        dOff
        dReclen := dReclen.setWidth 16
        dType := dType.setWidth 8
        dName := name ++ serialOurDir.dName.drop name.length })
  else pure none

/-- `gdbpacket`: what is stored at `out_buf`, and the result. -/
def gdbpacket (inBuf : Buffer) (sizePack : Word) : SerialParty (List Byte × Word) := do
  let inSize := sizePack >>> 16
  let outSize := sizePack &&& 0xffff#32
  serialIoPutchar SyscallId.gdbpacket.byte
  putUint inSize
  putUint outSize
  if inSize ≠ 0#32 then sendDataBlock (slice inBuf 0 inSize.toNat)
  let retSize ← getUint
  if retSize ≠ 0#32 ∧ retSize ≤ outSize then
    let data ← loadDataBlock retSize.toNat
    pure (data, retSize)
  else pure ([], retSize)

/-- `rewinddir`. -/
def rewinddir (dir : Word) : SerialParty Word := do
  serialIoPutchar SyscallId.rewinddir.byte
  putUint dir
  getUint

/-- Commands 16 and 17 of `gdGdcReqCmd`: the sectors that are stored. -/
def cdfsRead (start num : Word) : SerialParty (List Byte) := do
  serialIoPutchar SyscallId.cdfsread.byte
  putUint start
  putUint num
  loadDataBlock (num * 2048#32).toNat

/-- A syscall with its arguments. -/
inductive Syscall where
  | read (fd count : Word)
  | write (fd : Word) (buf : Buffer) (count : Word)
  | openFile (pathname : GuestString) (flags mode : Word)
  | close (fd : Word)
  | creat (pathname : GuestString) (mode : Word)
  | link (oldpath newpath : GuestString)
  | unlink (pathname : GuestString)
  | chdir (path : GuestString)
  | chmod (path : GuestString) (mode : Word)
  | mkdir (path : GuestString) (mode : Word)
  | lseek (fd offset whence : Word)
  | fstat (fd : Word)
  | time
  | stat (pathname : GuestString)
  | utime (filename : GuestString) (times : Option (Word × Word))
  | opendir (name : GuestString)
  | closedir (dir : Word)
  | readdir (serialOurDir : KosloadDirent) (dir : Word)
  | gdbpacket (inBuf : Buffer) (sizePack : Word)
  | rewinddir (dir : Word)
  | cdfsRead (start num : Word)

/-- The console's end of a syscall, whatever it returns. -/
def Syscall.perform : Syscall → SerialParty Unit
  | .read fd count => do let _ ← Serial.read fd count
  | .write fd buf count => do let _ ← Serial.write fd buf count
  | .openFile pathname flags mode => do let _ ← Serial.openFile pathname flags mode
  | .close fd => do let _ ← Serial.close fd
  | .creat pathname mode => do let _ ← Serial.creat pathname mode
  | .link oldpath newpath => do let _ ← Serial.link oldpath newpath
  | .unlink pathname => do let _ ← Serial.unlink pathname
  | .chdir path => do let _ ← Serial.chdir path
  | .chmod path mode => do let _ ← Serial.chmod path mode
  | .mkdir path mode => do let _ ← Serial.mkdir path mode
  | .lseek fd offset whence => do let _ ← Serial.lseek fd offset whence
  | .fstat fd => do let _ ← Serial.fstat fd
  | .time => do let _ ← Serial.time
  | .stat pathname => do let _ ← Serial.stat pathname
  | .utime filename times => do let _ ← Serial.utime filename times
  | .opendir name => do let _ ← Serial.opendir name
  | .closedir dir => do let _ ← Serial.closedir dir
  | .readdir serialOurDir dir => do let _ ← Serial.readdir serialOurDir dir
  | .gdbpacket inBuf sizePack => do let _ ← Serial.gdbpacket inBuf sizePack
  | .rewinddir dir => do let _ ← Serial.rewinddir dir
  | .cdfsRead start num => do let _ ← Serial.cdfsRead start num

end KosTool.Client.Serial
