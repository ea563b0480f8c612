import KosTool.Model.Client.SyscallWait
import KosTool.Model.Host.Channel
import KosTool.Model.Host.Dedup

/-! # One console's syscalls and the host loop that serves them

The console runs a program on a lossy adapter: `build_send_packet`, `kos_syscall_wait_for_retval` and the
Wii's `wii_adapter_loop`. The host runs `do_network_console`; while it dispatches, a handler sends what it
likes of the transfer commands and in the end one `RETV`, and the datagrams it receives meanwhile leave no
trace. Both clocks tell one time, which passes between any two steps. Datagrams and dispatches carry the
number of the syscall they belong to, which the code does not know.
-/

namespace KosTool

open ByteWord Protocol Client Host

def syscallIds : List Word :=
  [fourCC 'D' 'C' '0' '0', fourCC 'D' 'C' '0' '1', fourCC 'D' 'D' '0' '2', fourCC 'D' 'C' '0' '2',
    fourCC 'D' 'C' '0' '3', fourCC 'D' 'C' '0' '4', fourCC 'D' 'C' '0' '5', fourCC 'D' 'C' '0' '6',
    fourCC 'D' 'C' '0' '7', fourCC 'D' 'C' '0' '8', fourCC 'D' 'C' '0' '9', fourCC 'D' 'C' '1' '0',
    fourCC 'D' 'C' '1' '1', fourCC 'D' 'C' '1' '2', fourCC 'D' 'C' '1' '3', fourCC 'D' 'C' '1' '4',
    fourCC 'D' 'C' '1' '5', fourCC 'D' 'C' '1' '6', fourCC 'D' 'C' '1' '7', fourCC 'D' 'C' '1' '8',
    fourCC 'D' 'C' '1' '9', fourCC 'D' 'C' '2' '0', fourCC 'D' 'C' '2' '1', fourCC 'D' 'C' '2' '2',
    fourCC 'D' 'C' '2' '3']

/-- `NET_SYSCALL_EXIT` and `NET_SYSCALL_PROGEXIT`, which end the host loop. -/
def exitIds : List Word := [fourCC 'D' 'C' '0' '0', fourCC 'D' 'C' '2' '2']

/-- The commands a syscall handler has the transport send. -/
def transferIds : List Word :=
  [netCmdLoadbin, netCmdPartbin, netCmdDonebin, netCmdSendbin, netCmdSendbinq]

/-- The largest inline payload of a `RETV`, that of `gdbpacket`. -/
def maxInlineRet : ℕ := 1024

/-- `TX_PKT_BUF_SIZE`. -/
def txPktBufSize : ℕ := 1514

/-- What stays the same over a session. -/
structure Link where
  target : Target
  ticksPerSecond : Word
  hostEpoch : Usec
  isWiiLoader : Bool

/-- Where the console stands: no syscall, before an attempt, in the adapter's loop, or after it. -/
inductive WaitPc where
  | idle
  | arm (retry : ℕ)
  | loop (retry deadline : ℕ)
  | left (retry deadline : ℕ)
deriving DecidableEq, Repr

/-- Where the host stands. -/
inductive ServePc where
  | loop
  | dispatching (syscall : Option ℕ)
  | answered (syscall : Option ℕ)
  | stopped
deriving DecidableEq, Repr

/-- A datagram on its way, with the syscall it belongs to. -/
structure InFlight where
  payload : List Byte
  syscall : Option ℕ
deriving DecidableEq

/-- A dispatch by the host. -/
structure Dispatch where
  seq : Word
  syscall : Option ℕ
deriving DecidableEq

/-- A value and an inline payload, produced by the host or returned by the console for a syscall. -/
structure Answer where
  syscall : Option ℕ
  value : Word
  data : List Byte
deriving DecidableEq

/-- Console, host, everything on its way between them, and what has happened. -/
structure SyscallSystem where
  client : WaitPc
  loader : Loader
  host : ServePc
  dedup : Dedup
  toHost : List InFlight
  toConsole : List InFlight
  /-- Microseconds passed. -/
  clock : ℕ
  /-- The number of syscalls the console has issued since its loader started. -/
  issued : ℕ
  /-- When the last one was sent first. -/
  sentAt : ℕ
  dispatched : List Dispatch
  /-- What the last dispatch passed to the cache so far. -/
  emitted : List (List Byte)
  /-- The `RETV` of the last dispatch has been sent. -/
  answerSent : Bool
  /-- The syscall each slot of the cache was captured for. -/
  slots : ℕ → Option ℕ
  produced : List Answer
  /-- What syscalls have returned, other than by the timeout. -/
  returned : List Answer

inductive SyscallEvent where
  | elapse (usec : ℕ)
  | issue (request : List Byte)
  | beginAttempt
  | consoleReceive (index frame : ℕ)
  | breakOut
  | checkDeadline
  | hostReceive (index : ℕ)
  | hostEmit (cmd address size : Word) (data : Buffer) (dsize : ℕ) (sent : Bool)
  | hostRetval (value size : Word) (data : List Byte) (sent : Bool)
  | hostEnd

/-- The bytes `syscall_data` and `syscall_data_len` stand for. -/
def Client.Loader.inline (loader : Loader) : List Byte :=
  match loader.syscallData with
  | some start => slice loader.rx start loader.syscallDataLen
  | none => []

/-- The handler restarts the console or begins a syscall of its own. -/
def leavesWait (effects : List Effect) : Bool :=
  effects.any fun
    | .execute _ | .reboot | .progexit _ => true
    | _ => false

namespace SyscallSystem

variable (link : Link) (system : SyscallSystem)

/-- `get_ticks()`. -/
def ticks : ℕ := system.clock * link.ticksPerSecond.toNat / 1000000

/-- `time_usec()`. -/
def timeUsec : Usec := link.hostEpoch + BitVec.ofNat 64 system.clock

/-- A syscall sends its request. -/
def issue (request : List Byte) : SyscallSystem :=
  let built := system.loader.buildSendPacket request
  { system with
    client := .arm 0
    loader := built.1
    toHost := system.toHost ++ (transmitted built.2).map fun payload => ⟨payload, some (system.issued + 1)⟩
    issued := system.issued + 1
    sentAt := system.clock }

/-- An attempt arms its deadline and enters the adapter's loop. -/
def beginAttempt (retry : ℕ) : SyscallSystem :=
  { system with
    client := .loop retry (system.ticks link + retryTicks link.ticksPerSecond)
    loader := system.loader.armWait link.ticksPerSecond (system.ticks link) }

/-- The adapter's loop hands a datagram to `process_udp` and ends if it was the answer. -/
def consoleReceive (retry deadline : ℕ) (payload : List Byte) (frame : ℕ) : SyscallSystem :=
  let done := processed link.target system.loader payload frame (system.ticks link)
  { system with
    client := if done.1.escapeLoop then .left retry deadline else .loop retry deadline
    loader := if done.1.escapeLoop then done.1.leaveLoop else done.1
    toHost := system.toHost ++ (transmitted done.2).map fun payload => ⟨payload, none⟩ }

/-- Back from the loop: return, give up, or send the request again. -/
def checkDeadline (retry deadline : ℕ) : SyscallSystem :=
  if system.ticks link < deadline then
    { system with
      client := .idle
      returned := system.returned ++
        [⟨some system.issued, system.loader.syscallRetval, system.loader.inline⟩] }
  else if system.loader.kosSyscallSavePkt = [] ∨ retry = kosSyscallMaxRetries then
    { system with client := .idle, loader := system.loader.giveUp }
  else
    { system with
      client := .arm (retry + 1)
      toHost := system.toHost ++ [⟨system.loader.kosSyscallSavePkt, some system.issued⟩] }

/-- A request is dispatched, or ends the loop. -/
def dispatch (id : Word) (syscall : Option ℕ) : SyscallSystem :=
  { system with host := if id ∈ exitIds then .stopped else .dispatching syscall }

/-- A request with a sequence id: its answer is sent again, it is dropped, or it is dispatched. -/
def admitRequest (seq id : Word) (syscall : Option ℕ) : SyscallSystem :=
  match system.dedup.admission seq (system.timeUsec link) with
  | (.replayed packets, _) =>
    { system with
      toConsole := system.toConsole ++ packets.zipIdx.map fun packet => (⟨packet.1, system.slots packet.2⟩ : InFlight) }
  | (.dropped, _) => system
  | (.dispatched, dedup) =>
    dispatch
      { system with
        dedup
        dispatched := system.dispatched ++ [⟨seq, syscall⟩]
        emitted := []
        answerSent := false }
      id syscall

/-- `do_network_console` receives a datagram; one without a sequence id is dispatched if it is a syscall. -/
def hostReceive (datagram : InFlight) : SyscallSystem :=
  let received := datagram.payload.take receiveBufferLen
  let buffer := storeAt (fun _ => 0) 0 received
  if received.length < 4 then system
  else
    match Dedup.extractSeq buffer received.length with
    | some seq => system.admitRequest link seq (commandId buffer 0) datagram.syscall
    | none => if commandId buffer 0 ∈ syscallIds then system.dispatch (commandId buffer 0) datagram.syscall else system

/-- A packet is passed to the cache. -/
def capture (syscall : Option ℕ) (packet : List Byte) : SyscallSystem :=
  let dedup := system.dedup.capturePkt packet
  { system with
    dedup
    emitted := system.emitted ++ [packet]
    slots := if dedup.captureCount = system.dedup.captureCount then system.slots
      else Function.update system.slots system.dedup.captureCount syscall }

/-- A packet is put on the way to the console. -/
def sendToConsole (syscall : Option ℕ) (packet : List Byte) : SyscallSystem :=
  { system with toConsole := system.toConsole ++ [⟨packet, syscall⟩] }

/-- A handler has the transport send a command; requests for guest memory are not captured. -/
def hostEmit (syscall : Option ℕ) (cmd : Word) (packet : List Byte) (sent : Bool) : SyscallSystem :=
  if sent then
    let system := system.sendToConsole syscall packet
    if cmd = netCmdSendbinq ∨ cmd = netCmdSendbin then system else system.capture syscall packet
  else system

/-- `net_send_cmd` for a `RETV`: the trailer is echoed while a capture is active. -/
def retvalPacket (value size : Word) (data : List Byte) : List Byte :=
  netCommand netCmdRetval value size data ++
    if system.dedup.capturing then seqTrailer system.dedup.captureSeq else []

/-- A handler answers. -/
def hostRetval (syscall : Option ℕ) (value size : Word) (data : List Byte) (sent : Bool) : SyscallSystem :=
  let packet := system.retvalPacket value size data
  let system :=
    { system with host := .answered syscall, answerSent := sent, produced := system.produced ++ [⟨syscall, value, data⟩] }
  if sent then (system.sendToConsole syscall packet).capture syscall packet else system

/-- The dispatch is over. -/
def hostEnd : SyscallSystem := { system with host := .loop, dedup := system.dedup.endCapture }

end SyscallSystem

/-- Console and host over the channel. A console that leaves its wait has left the system. -/
def syscallMachine (link : Link) : Machine.LabeledMachine SyscallSystem SyscallEvent where
  step system
    | .elapse usec => some { system with clock := system.clock + usec }
    | .issue request =>
      match system.client with
      | .idle =>
        if frameHeaderLen + request.length + netSeqTrailerLen ≤ txPktBufSize then some (system.issue request)
        else none
      | _ => none
    | .beginAttempt =>
      match system.client with
      | .arm retry => some (system.beginAttempt link retry)
      | _ => none
    | .consoleReceive index frame =>
      match system.client, system.toConsole[index]? with
      | .loop retry deadline, some datagram =>
        if leavesWait (processed link.target system.loader datagram.payload frame (system.ticks link)).2 then none
        else some (system.consoleReceive link retry deadline datagram.payload frame)
      | _, _ => none
    | .breakOut =>
      match system.client with
      | .loop retry deadline =>
        if system.loader.loopDeadlineTicks ≠ 0 ∧ system.loader.loopDeadlineTicks ≤ system.ticks link then
          some { system with client := .left retry deadline, loader := system.loader.leaveLoop }
        else none
      | _ => none
    | .checkDeadline =>
      match system.client with
      | .left retry deadline => some (system.checkDeadline link retry deadline)
      | _ => none
    | .hostReceive index =>
      match system.host, system.toHost[index]? with
      | .loop, some datagram => some (system.hostReceive link datagram)
      | _, _ => none
    | .hostEmit cmd address size data dsize sent =>
      match system.host with
      | .dispatching syscall =>
        if cmd ∈ transferIds then
          some (system.hostEmit syscall cmd (sendCmd link.isWiiLoader cmd address size data dsize) sent)
        else none
      | _ => none
    | .hostRetval value size data sent =>
      match system.host with
      | .dispatching syscall =>
        if data.length ≤ maxInlineRet then some (system.hostRetval syscall value size data sent) else none
      | _ => none
    | .hostEnd =>
      match system.host with
      | .dispatching _ | .answered _ => some system.hostEnd
      | _ => none

end KosTool
