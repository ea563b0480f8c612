import KosTool.Model.Client.SyscallWait
import KosTool.Model.Host.SerialConsole
import KosTool.Model.Host.Upload

/-! # File information over the network

`fstat`, `stat` and `readdir` of `client/common/network/network_syscalls.c` with their handlers of
`host/src/console.c`. The host sends the structure in the answer itself, if the request asks for that, and into
guest memory otherwise. The exchange is that of a network which loses nothing.
-/

namespace KosTool

open ByteWord Protocol Client Host
open Host.Serial (HostOs IsDirHandle)

def netInlineRetMax : ℕ := 512

/-- The context of the host tool these handlers read, and the host's byte order. -/
structure NetContext where
  host : ByteOrder
  targetBigEndian : Bool
  legacyMode : Bool
  isWiiLoader : Bool

/-- The byte order of the guest. -/
def NetContext.guest (ctx : NetContext) : ByteOrder := targetByteOrder ctx.targetBigEndian

/-- What a handler sends: data into guest memory, and the `RETV`. -/
structure NetAnswer where
  sendData : Option (Word × List Byte)
  retval : Word
  size : Word
  inline : List Byte

section HostSide

variable (ctx : NetContext) (os : HostOs)

/-- A word of a request. -/
def requestWord (pkt : List Byte) (offset : ℕ) : Word := readBe32 (overlay pkt fun _ => 0) offset

/-- `net_has_inline_ret_request`. -/
def netHasInlineRetRequest (pkt : List Byte) (magicOffset : ℕ) : Bool :=
  if pkt.length < magicOffset + netInlineRetMagicLen then false
  else (pkt.drop magicOffset).take netInlineRetMagicLen = be32 netInlineRetMagic

/-- The structure goes into the answer if the request asks for it and it fits, and into guest memory otherwise. -/
def netSendStructure (inlineRet : Bool) (ret : Word) (ds : List Byte) (addr sz : Word) : NetAnswer :=
  if inlineRet ∧ sz.toNat ≤ ds.length ∧ sz.toNat ≤ netInlineRetMax then
    { sendData := none
      retval := ret
      size := BitVec.ofNat 32 netInlineRetMagicLen + sz
      inline := be32 netInlineRetMagic ++ ds.take sz.toNat }
  else
    { sendData := some (addr, ds.take sz.toNat)
      retval := ret
      size := ret
      inline := [] }

/-- `ds` of `net_syscall_fstat` and `net_syscall_stat`, as the host stores its fields. -/
def netStat (st : HostStat) : KosloadStat :=
  let order16 (x : BitVec 64) := targetOrder16 ctx.host ctx.targetBigEndian (x.setWidth 16)
  let order32 (x : BitVec 64) := targetOrder32 ctx.host ctx.targetBigEndian (x.setWidth 32)
  { stDev := order16 st.stDev
    stIno := order16 st.stIno
    stMode := order32 st.stMode
    stNlink := order16 st.stNlink
    stUid := order16 st.stUid
    stGid := order16 st.stGid
    stRdev := order16 st.stRdev
    stSize := order32 st.stSize
    stAtimeVal := order32 st.stAtime
    stSpare1 := 0
    stMtimeVal := order32 st.stMtime
    stSpare2 := 0
    stCtimeVal := order32 st.stCtime
    stSpare3 := 0
    stBlksize := if os.system = .windows then 0 else order32 st.stBlksize
    stBlocks := if os.system = .windows then 0 else order32 st.stBlocks
    stSpare4 := (0, 0) }

/-- `net_syscall_fstat`. -/
def netSyscallFstat (pkt : List Byte) : NetAnswer :=
  let fd := requestWord pkt 4
  let addr := requestWord pkt 8
  let sz := requestWord pkt 12
  netSendStructure (netHasInlineRetRequest pkt 16 && decide (0 ≤ (os.fstat fd).2.toInt)) (os.fstat fd).2
    ((netStat ctx os (os.fstat fd).1).bytes ctx.host) addr sz

/-- `cmd->string` of a request with two words. -/
def requestString (pkt : List Byte) : List Byte := cString (pkt.drop 12)

/-- `net_syscall_stat`. -/
def netSyscallStat (pkt : List Byte) : NetAnswer :=
  let addr := requestWord pkt 4
  let sz := requestWord pkt 8
  let resolved := os.resolvePath (requestString pkt)
  netSendStructure
    (netHasInlineRetRequest pkt (12 + (requestString pkt).length + 1) && decide (0 ≤ (os.stat resolved).2.toInt))
    (os.stat resolved).2 ((netStat ctx os (os.stat resolved).1).bytes ctx.host) addr sz

/-- `compat_str_copy` into an array. -/
def compatStrCopy (dst src : List Byte) : List Byte :=
  src.take (dst.length - 1) ++ 0 :: dst.drop (min src.length (dst.length - 1) + 1)

/-- `dd` of `net_syscall_readdir`. The half-word goes through the conversion of a word. -/
def netDirent (de : HostDirent) : KosloadDirent where
  dIno := targetOrder32 ctx.host ctx.targetBigEndian (de.dIno.setWidth 32)
  dOff := if os.system = .linux then targetOrder32 ctx.host ctx.targetBigEndian (de.dOff.setWidth 32) else 0
  dReclen :=
    if os.system = .windows ∨ os.system = .cygwin then 0
    else (targetOrder32 ctx.host ctx.targetBigEndian (de.dReclen.setWidth 32)).setWidth 16
  dType := if os.system = .windows ∨ os.system = .cygwin then 0 else de.dType
  dName := compatStrCopy (List.replicate sizeofDName 0) de.dName.bytes

/-- The entry `readdir` gets for a handle. -/
def nextEntry (i : Word) : Option HostDirent :=
  if IsDirHandle i then os.readdir (i - BitVec.ofNat 32 direntOffset) else none

/-- `net_syscall_readdir`. -/
def netSyscallReaddir (pkt : List Byte) : NetAnswer :=
  let i := requestWord pkt 4
  let addr := requestWord pkt 8
  let sz := requestWord pkt 12
  match nextEntry os i with
  | some de => netSendStructure (netHasInlineRetRequest pkt 16) 1 ((netDirent ctx os de).bytes ctx.host) addr sz
  | none => { sendData := none, retval := 0, size := 0, inline := [] }

/-- The transfer of an answer's data. -/
def NetAnswer.upload (addr : Word) (data : List Byte) : Upload where
  data := overlay data fun _ => 0
  destAddr := addr
  size := BitVec.ofNat 32 data.length
  legacyMode := ctx.legacyMode
  isWiiLoader := ctx.isWiiLoader

/-- What the host sends for an answer, with the sequence id of the request echoed. -/
def NetAnswer.datagrams (answer : NetAnswer) (seq : Word) : List (List Byte) :=
  (match answer.sendData with
    | some (addr, data) =>
      let upload := NetAnswer.upload ctx addr data
      [upload.stageDatagram .loadbin, upload.partbinDatagram addr 0 upload.size, upload.stageDatagram .donebin]
    | none => []) ++
  [netCommand netCmdRetval answer.retval answer.size (answer.inline ++ seqTrailer seq)]

end HostSide

section ConsoleSide

variable (loader : Loader)

/-- `append_inline_ret_magic`, if the host is new enough. -/
def inlineRetMagic : List Byte := if loader.HostSupportsDedup then be32 netInlineRetMagic else []

/-- The request of `fstat`. -/
def fstatRequest (fd buf : Word) : List Byte :=
  be32 (fourCC 'D' 'C' '0' '1') ++ be32 fd ++ be32 buf ++ be32 (BitVec.ofNat 32 sizeofKosloadStat) ++
    inlineRetMagic loader

/-- The request of `stat`. -/
def statRequest (pathname : GuestString) (buf : Word) : List Byte :=
  be32 (fourCC 'D' 'C' '1' '3') ++ be32 buf ++ be32 (BitVec.ofNat 32 sizeofKosloadStat) ++ pathname.terminated ++
    inlineRetMagic loader

/-- The request of `readdir`. -/
def readdirRequest (dir ourDir : Word) : List Byte :=
  be32 (fourCC 'D' 'C' '1' '8') ++ be32 dir ++ be32 ourDir ++ be32 (BitVec.ofNat 32 sizeofKosloadDirent) ++
    inlineRetMagic loader

/-- `copy_inline_ret`. -/
def copyInlineRet (dst : Word) (count : ℕ) : Loader :=
  match loader.syscallData with
  | some syscallData =>
    if loader.syscallDataLen ≠ netInlineRetMagicLen + count then loader
    else if readBe32 loader.rx syscallData ≠ netInlineRetMagic then loader
    else
      { loader with
        memory := loader.memory.copyIn dst count fun i => loader.rx (syscallData + netInlineRetMagicLen + i) }
  | none => loader

/-- The end of `fstat` and `stat`. -/
def statReturns (buf : Word) : Loader :=
  if 0 ≤ loader.syscallRetval.toInt ∧ loader.HostSupportsDedup then copyInlineRet loader buf sizeofKosloadStat
  else loader

/-- The end of `readdir`: whether it returns an entry. -/
def readdirReturns (ourDir : Word) : Loader × Bool :=
  if loader.syscallRetval ≠ 0#32 then
    (if loader.HostSupportsDedup then copyInlineRet loader ourDir sizeofKosloadDirent else loader, true)
  else (loader, false)

end ConsoleSide

section Exchange

variable (target : Target) (ctx : NetContext) (os : HostOs) (loader : Loader) (frame now : ℕ)

/-- The console receives datagrams one after another. -/
def deliverAll (loader : Loader) (datagrams : List (List Byte)) : Loader :=
  datagrams.foldl (fun loader payload => (processed target loader payload frame now).1) loader

/-- A request and what the host sends for it; the host has taken off the trailer of the request. -/
def exchange (request : List Byte) (handler : List Byte → NetAnswer) : Loader :=
  let sent := (loader.buildSendPacket request).1
  deliverAll target frame now sent ((handler request).datagrams ctx sent.kosSyscallSeq)

/-- `fstat`. -/
def netFstat (fd buf : Word) : Loader :=
  statReturns (exchange target ctx loader frame now (fstatRequest loader fd buf) (netSyscallFstat ctx os)) buf

/-- `stat`. -/
def netStatPath (pathname : GuestString) (buf : Word) : Loader :=
  statReturns (exchange target ctx loader frame now (statRequest loader pathname buf) (netSyscallStat ctx os)) buf

/-- `readdir`. -/
def netReaddir (dir ourDir : Word) : Loader × Bool :=
  readdirReturns (exchange target ctx loader frame now (readdirRequest loader dir ourDir) (netSyscallReaddir ctx os))
    ourDir

end Exchange

/-- Guest memory from an address on. -/
def memoryAt (memory : Memory) (address : Word) : Buffer := fun i => memory (address + BitVec.ofNat 32 i)

/-- The entry the guest sees, with its name as a string. -/
def KosloadDirent.seen (dd : KosloadDirent) : KosloadDirent := { dd with dName := cString dd.dName }

end KosTool
