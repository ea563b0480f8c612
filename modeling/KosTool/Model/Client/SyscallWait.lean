import KosTool.Machine.Run
import KosTool.Model.Client.Commands

/-! # Syscall requests and the wait for their `RETV`

`build_send_packet` and the steps of `kos_syscall_wait_for_retval` on a lossy adapter, from
`client/common/network/network_syscalls.c`. The adapter's receive loop runs between two of these
steps, so the steps are separate functions. The session machine takes them, and the datagrams that
arrive, in any order.
-/

namespace KosTool.Client

open ByteWord DivUtil Protocol

def kosSyscallSaveMax : ℕ := 2048
def kosSyscallRetryMs : Word := 600
def kosSyscallMaxRetries : ℕ := 6

/-- Ethernet, IP and UDP headers in front of a payload. -/
def frameHeaderLen : ℕ := 14 + 20 + 8

/-- The sequence id after a given one: zero is skipped. -/
def nextSeq (seq : Word) : Word := if seq + 1#32 = 0#32 then 1#32 else seq + 1#32

/-- The interval of one wait, at least one tick. -/
def retryTicks (ticksPerSecond : Word) : ℕ :=
  let ticks := (msToTicks ticksPerSecond kosSyscallRetryMs).toNat
  if ticks = 0 then 1 else ticks

namespace Loader

/-- `host_supports_dedup`. -/
def HostSupportsDedup (loader : Loader) : Prop := 0x00030000#32 ≤ loader.toolVersion

instance (loader : Loader) : Decidable loader.HostSupportsDedup := inferInstanceAs (Decidable (_ ≤ _))

/-- `build_send_packet` on the request bytes a syscall has put into the packet buffer. -/
def buildSendPacket (loader : Loader) (request : List Byte) : Loader × List Effect :=
  let payload := request ++ seqTrailer loader.kosSyscallNextSeq
  ({ loader with
      kosSyscallSeq := loader.kosSyscallNextSeq
      kosSyscallNextSeq := nextSeq loader.kosSyscallNextSeq
      kosSyscallSavePkt := if frameHeaderLen + payload.length ≤ kosSyscallSaveMax then payload else [] },
    [.tx payload])

/-- One turn of the retry loop up to `bb->loop`. -/
def armWait (loader : Loader) (ticksPerSecond : Word) (now : ℕ) : Loader :=
  { loader with
    kosSyscallTimeoutTicks := retryTicks ticksPerSecond
    escapeLoop := false
    loopDeadlineTicks := now + retryTicks ticksPerSecond }

/-- `bb->loop` has returned: the adapter clears the flag, the caller the deadline. -/
def leaveLoop (loader : Loader) : Loader := { loader with escapeLoop := false, loopDeadlineTicks := 0 }

/-- All attempts used up. -/
def giveUp (loader : Loader) : Loader :=
  { loader with
    kosSyscallTimeoutTicks := 0
    syscallRetval := -1
    syscallData := none
    syscallDataLen := 0 }

end Loader

/-- A datagram as it arrives: its place in the receive memory, its bytes, and what its UDP header
says about it. -/
structure Arrival where
  frame : ℕ
  payload : List Byte
  length : BitVec 16
  checksumMatches : Bool

/-- What can happen to a loader. -/
inductive SessionEvent where
  | datagram (arrival : Arrival) (now : ℕ)
  | sendPacket (request : List Byte)
  | armWait (ticksPerSecond : Word) (now : ℕ)
  | leaveLoop
  | giveUp
  | executeReturns

/-- An undamaged datagram at the start of the receive memory. -/
def Arrival.intact (payload : List Byte) : Arrival :=
  { frame := 0, payload, length := BitVec.ofNat 16 (udpHeaderLen + payload.length), checksumMatches := true }

def Arrival.udp (arrival : Arrival) : Udp :=
  { length := arrival.length, checksumMatches := arrival.checksumMatches, data := arrival.frame }

/-- The loader with the datagram in its receive memory, before it is processed. -/
def Loader.receiving (loader : Loader) (arrival : Arrival) : Loader :=
  loader.receive arrival.frame arrival.payload

/-- The loader and everything that can happen to it. -/
def sessionMachine (target : Target) : Machine.LabeledMachine Loader SessionEvent where
  step loader
    | .datagram arrival now => some ((loader.receiving arrival).processUdp target arrival.udp now).1
    | .sendPacket request => some (loader.buildSendPacket request).1
    | .armWait ticksPerSecond now => some (loader.armWait ticksPerSecond now)
    | .leaveLoop => some loader.leaveLoop
    | .giveUp => some loader.giveUp
    | .executeReturns => some loader.executeReturns

end KosTool.Client
