import KosTool.Model.Client.SyscallWait
import KosTool.Model.Host.Dedup
import KosTool.Model.Host.Download
import KosTool.Model.Host.Upload
import KosTool.Model.Host.SerialConsole

/-! # The syscall handlers of the network console

`net_syscall_write` of `host/src/console.c` with `write_full`, the request that `write` of
`client/common/network/network_syscalls.c` sends for it, what `do_network_console` takes off a request before it is dispatched,
and `net_syscall_read`. What the operating system's `write` does comes from a list of outcomes.
-/

namespace KosTool.Client.Loader

open ByteWord Protocol

def netWriteInlineMax : ℕ := 512

/-- `NET_SYSCALL_WRITE` -/
def netSyscallWrite : Word := fourCC 'D' 'C' '0' '2'

/-- `NET_SYSCALL_WRITE_OLD` -/
def netSyscallWriteOld : Word := fourCC 'D' 'D' '0' '2'

/-- `sizeof(net_command_3int_t)` -/
def netCommand3intLen : ℕ := 16

/-- The bytes that `write` puts behind its command. -/
def inlineWrite (loader : Loader) (buf count : Word) : List Byte :=
  if loader.HostSupportsDedup ∧ 0 < count.toNat ∧ count.toNat ≤ netWriteInlineMax ∧
      count.toNat ≤ netPayloadSize - netCommand3intLen then
    loader.memory.copyOut buf count.toNat
  else []

/-- The request of `write`. -/
def writeRequest (loader : Loader) (fd buf count : Word) : List Byte :=
  netCommand (if dctoolMajor loader.toolVersion < 2#32 then netSyscallWriteOld else netSyscallWrite) fd buf
    (be32 count ++ loader.inlineWrite buf count)

end KosTool.Client.Loader

namespace KosTool.Host

open ByteWord Protocol

/-- A request as `do_network_console` dispatches it: without its trailer, and with a zero behind what is left. -/
def dispatched (buffer : Buffer) (length : ℕ) : Buffer × ℕ :=
  let pktLen := if (Dedup.extractSeq buffer length).isSome then length - netSeqTrailerLen else length
  (Function.update buffer (min pktLen (receiveBufferLen - 1)) 0, pktLen)

/-- What `write` of the host comes to. -/
inductive WriteOutcome where
  | wrote (n : ℕ)
  | interrupted
  | failed
deriving DecidableEq

/-- `write_full` from an offset on: its result, and how much it has written. -/
def writeFull (count : ℕ) : List WriteOutcome → ℕ → Option (ℤ × ℕ)
  | [], off => if count ≤ off then some (off, off) else none
  | outcome :: rest, off =>
    if count ≤ off then some (off, off)
    else
      match outcome with
      | .failed => some (-1, off)
      | .interrupted => writeFull count rest off
      | .wrote n => if min n (count - off) = 0 then some (off, off) else writeFull count rest (off + min n (count - off))

/-- What a handler meets while it serves a `write`. -/
structure WriteWorld where
  legacyMode : Bool
  isWiiLoader : Bool
  maxRerequests : ℕ
  /-- What the memory of `malloc` holds, if there is any. -/
  heap : Option Buffer
  /-- `prepare_comms` and `calloc` of `network_recv_data` succeed. -/
  opened : Bool
  stream : List (List Byte)
  replies : ℕ → List (List Byte)
  outcomes : List WriteOutcome
  /-- `console_write` or an exception report. -/
  consoleWrite : List Byte → ℤ

namespace WriteWorld

variable (world : WriteWorld)

/-- The download of a guest buffer. -/
def download (addr count : Word) : Download := ⟨addr, count, true, world.legacyMode, world.isWiiLoader⟩

/-- What `recv_data` leaves in the memory of the handler; the handler does not look at its result. -/
def pulled (addr count : Word) (heap : Buffer) : Option Receiver :=
  if world.opened then
    ((world.download addr count).networkRecvData world.maxRerequests heap world.stream world.replies).map Download.Stopped.receiver
  else some { pc := .idle, buffer := fun _ => 0, data := heap, map := fun _ => false }

end WriteWorld

open Client.Loader (netCommand3intLen)

/-- The request has the bytes behind its command. -/
def HaveInline (pktLen : ℕ) (count : Word) : Prop :=
  netCommand3intLen + count.toNat ≤ pktLen ∧ count.toNat ≤ netPayloadSize - netCommand3intLen

instance (pktLen : ℕ) (count : Word) : Decidable (HaveInline pktLen count) := inferInstanceAs (Decidable (_ ∧ _))

/-- What is in the memory of the handler when it writes: the bytes behind the request, or what has been downloaded. -/
def WriteWorld.fetched (world : WriteWorld) (pkt : Buffer) (pktLen : ℕ) (addr count : Word) (heap : Buffer) :
    Option (List Byte) :=
  if HaveInline pktLen count then some (slice pkt netCommand3intLen count.toNat)
  else (world.pulled addr count heap).map fun receiver => slice receiver.data 0 count.toNat

/-- `net_syscall_write`: the value of its `RETV`, and what has been written to a host file. -/
def netSyscallWrite (world : WriteWorld) (pkt : Buffer) (pktLen : ℕ) : Option (ℤ × List Byte) := do
  let fd := commandAddress pkt 0
  let addr := commandSize pkt 0
  let count := readBe32 pkt netCommandLen
  if count.toNat = 0 ∨ Serial.maxSyscallSize < count.toNat then some (-1, [])
  else
    match world.heap with
    | none => some (-1, [])
    | some heap => do
      let data ← world.fetched pkt pktLen addr count heap
      if fd = 1#32 ∨ fd = 2#32 then some (world.consoleWrite data, [])
      else (writeFull count.toNat world.outcomes 0).map fun written => (written.1, data.take written.2)

/-- What a handler meets while it serves a `read`. -/
structure ReadWorld where
  legacyMode : Bool
  isWiiLoader : Bool
  prepared : Bool
  isW5500 : Bool
  /-- `malloc` gives memory. -/
  allocates : Bool
  /-- What the host's `read` finds; `none` is its −1. -/
  found : Option (List Byte)
  /-- What happens to the uploads of the handler. -/
  events : List (List SendEvent)

namespace ReadWorld

variable (world : ReadWorld) (addr count : Word)

/-- The bytes that the host's `read` gives, of those it is asked for. -/
def bytes : List Byte := (world.found.getD []).take count.toNat

/-- The result of the host's `read`. -/
def ret : ℤ := if world.found.isSome then (world.bytes count).length else -1

/-- The upload of the handler's memory: what `read` has put into it, on top of what it held. -/
def upload (heap : Buffer) : Upload := ⟨overlay (world.bytes count) heap, addr, count, world.legacyMode, world.isWiiLoader⟩

end ReadWorld

/-- `net_syscall_read` in memory that holds something already: the upload it makes, whose result it does not look at, and the value
of its `RETV`. -/
def netSyscallRead (world : ReadWorld) (pkt heap : Buffer) : Option (Option Sent × ℤ) :=
  let addr := commandSize pkt 0
  let count := readBe32 pkt netCommandLen
  if count.toNat = 0 ∨ Serial.maxSyscallSize < count.toNat then some (none, -1)
  else if ¬world.allocates then some (none, -1)
  else
    ((world.upload addr count heap).networkSendData world.prepared world.isW5500 world.events).map fun sent =>
      (some sent, world.ret count)

end KosTool.Host
