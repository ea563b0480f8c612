import KosTool.Math.ByteWord
import KosTool.Model.NetStat
import KosTool.Model.SerialBlocks

/-! # The probe of the debugger's stream

`gdb_probe_stream` of `host/src/console.c` and its callers. Both flags are computed here; a caller that passes no place for one drops it.
-/

namespace KosTool.Host

open ByteWord

/-- The size of the probe's `payload`. -/
def probePayloadCap : ℕ := 32

def packetStart : Byte := 36#8
def packetEnd : Byte := 35#8

/-- What the probe knows between two bytes. -/
structure GdbProbe where
  inPacket : Bool
  checksumBytes : ℕ
  payloadLen : ℕ
  payload : Buffer

/-- `saw_detach` and `saw_ok`. -/
structure GdbSeen where
  detach : Bool
  ok : Bool
deriving DecidableEq

def GdbSeen.or (first second : GdbSeen) : GdbSeen := ⟨first.detach || second.detach, first.ok || second.ok⟩

def GdbSeen.none : GdbSeen := ⟨false, false⟩

namespace GdbProbe

/-- A probe behind `memset`. -/
def cleared : GdbProbe := ⟨false, 0, 0, fun _ => 0⟩

/-- What the probe sees in a payload that is complete. -/
def sees (payload : Buffer) : GdbSeen where
  detach := payload 0 = 68#8 ∧ (payload 1 = 0 ∨ payload 1 = 59#8)
  ok := payload 0 = 79#8 ∧ payload 1 = 75#8 ∧ payload 2 = 0

/-- One byte. -/
def byte (probe : GdbProbe) (ch : Byte) : GdbProbe × GdbSeen :=
  if probe.inPacket = false then
    if ch = packetStart then ({ probe with inPacket := true, checksumBytes := 0, payloadLen := 0 }, .none)
    else (probe, .none)
  else if ch = packetStart then ({ probe with checksumBytes := 0, payloadLen := 0 }, .none)
  else if probe.checksumBytes ≠ 0 then
    if probe.checksumBytes + 1 = 3 then
      let payload := Function.update probe.payload probe.payloadLen 0
      (⟨false, 0, 0, payload⟩, sees payload)
    else ({ probe with checksumBytes := probe.checksumBytes + 1 }, .none)
  else if ch = packetEnd then ({ probe with checksumBytes := 1 }, .none)
  else if probe.payloadLen + 1 < probePayloadCap then
    ({ probe with payload := Function.update probe.payload probe.payloadLen ch, payloadLen := probe.payloadLen + 1 }, .none)
  else (probe, .none)

/-- `gdb_probe_stream` -/
def stream : GdbProbe → GdbSeen → List Byte → GdbProbe × GdbSeen
  | probe, saw, [] => (probe, saw)
  | probe, saw, ch :: rest => stream (probe.byte ch).1 (saw.or (probe.byte ch).2) rest

end GdbProbe

/-- What the context keeps for the debugger. -/
structure GdbState where
  detachPending : Bool
  clientProbe : GdbProbe
  targetProbe : GdbProbe

namespace GdbState

variable (state : GdbState)

/-- `gdb_note_client_bytes` -/
def noteClientBytes (data : List Byte) : GdbState :=
  let probed := state.clientProbe.stream .none data
  { state with clientProbe := probed.1, detachPending := if probed.2.detach then true else state.detachPending }

/-- `gdb_note_target_bytes`: whether it has seen the answer to a detach. -/
def noteTargetBytes (data : List Byte) : GdbState × Bool :=
  if ¬state.detachPending then (state, false)
  else
    let probed := state.targetProbe.stream .none data
    ({ state with targetProbe := probed.1 }, probed.2.ok)

/-- `gdb_clear_detach_state` -/
def clearDetachState : GdbState := ⟨false, .cleared, .cleared⟩

end GdbState

end KosTool.Host

/-! # The debugger's packets, from end to end

`gdbpacket` of `client/common/network/network_syscalls.c` and of `client/common/serial/serial_syscalls.c`, with
`net_syscall_gdbpacket` and `ser_syscall_gdbpacket` of `host/src/console.c`, and what each of them reads and writes of its buffers. The
network loses nothing, and the line harms nothing.
-/

namespace KosTool.Host

open ByteWord Protocol

/-- The sockets of the debugger while a handler serves a packet. -/
structure GdbSockets where
  server : Bool
  accepts : Bool
  sendAll : List Byte → Bool
  /-- `recv` of at most so many bytes. -/
  recv : (size : ℕ) → Option { data : List Byte // data.length ≤ size }

/-- The handlers' part of the context. -/
structure GdbContext where
  clientSocket : Bool
  state : GdbState

/-- What a handler has done: how many bytes it has stored into `gdb_buf`, each time from its beginning, how many it has read for the
debugger, its answer, and the context it leaves. -/
structure GdbServed where
  stored : List ℕ
  forwarded : ℕ
  retval : Word
  data : List Byte
  context : GdbContext

/-- The context of a debugger that has left. -/
def GdbContext.closed : GdbContext := ⟨false, .clearDetachState⟩

namespace GdbSockets

variable (sockets : GdbSockets)

/-- The answer of the debugger, and the context behind it. -/
def receive (context : GdbContext) (outSize : Word) : List ℕ × List Byte × GdbContext :=
  if outSize = 0#32 then ([], [], context)
  else
    match sockets.recv (min outSize.toNat Serial.gdbBufSize) with
    | none => ([], [], .closed)
    | some reply =>
      if reply.1 = [] then ([0], [], .closed)
      else ([reply.1.length], reply.1, { context with state := context.state.noteClientBytes reply.1 })

/-- What both handlers do with a packet of the target, if there is one. -/
def serve (context : GdbContext) (packet : List Byte) (outSize : Word) : GdbServed :=
  if ¬sockets.server then ⟨[], 0, -1, [], context⟩
  else if ¬context.clientSocket ∧ ¬sockets.accepts then ⟨[], 0, -1, [], context⟩
  else if packet ≠ [] ∧ ¬sockets.sendAll packet then ⟨[], packet.length, 0, [], .closed⟩
  else
    let noted := if packet = [] then (context.state, false) else context.state.noteTargetBytes packet
    let answer := sockets.receive ⟨true, noted.1⟩ outSize
    ⟨answer.1, packet.length, BitVec.ofNat 32 answer.2.1.length, answer.2.1, if noted.2 then .closed else answer.2.2⟩

/-- `net_syscall_gdbpacket` -/
def netSyscallGdbpacket (context : GdbContext) (pkt : Buffer) : GdbServed :=
  let inSize := commandAddress pkt 0
  let outSize := commandSize pkt 0
  sockets.serve context (slice pkt netCommandLen inSize.toNat) outSize

/-- What `ser_recv_data` stores of blocks, until nothing remains. -/
def serRecvData : Word → List (List Byte) → List Byte
  | _, [] => []
  | total, block :: rest =>
    if total = 0#32 then [] else block ++ serRecvData (total - BitVec.ofNat 32 block.length) rest

/-- `ser_syscall_gdbpacket`, on the blocks of the packet and on what `gdb_buf` holds. -/
def serSyscallGdbpacket (context : GdbContext) (gdbBuf : Buffer) (inSize outSize : Word) (blocks : List (List Byte)) : GdbServed :=
  let copied := if inSize = 0#32 then [] else serRecvData (BitVec.ofNat 32 (min inSize.toNat Serial.gdbBufSize)) blocks
  let served := sockets.serve context (slice (overlay copied gdbBuf) 0 inSize.toNat) outSize
  { served with stored := copied.length :: served.stored }

end GdbSockets

end KosTool.Host

namespace KosTool

open ByteWord Protocol Client Host KosTool.Serial

/-- The bytes from `pkt_buf` to the end of `raw_pkt_buf`. -/
def pktBufSize : ℕ := 1536 - 2

/-- The sizes that the program packs into a word. -/
def gdbInSize (sizePack : Word) : Word := sizePack >>> 16
def gdbOutSize (sizePack : Word) : Word := sizePack &&& 0xffff#32

/-- The request of `gdbpacket`. -/
def gdbpacketRequest (loader : Loader) (inBuf sizePack : Word) : List Byte :=
  netCommand (fourCC 'D' 'C' '2' '0') (gdbInSize sizePack) (gdbOutSize sizePack)
    (loader.memory.copyOut inBuf (gdbInSize sizePack).toNat)

/-- The end of `gdbpacket`: the bytes it stores, the memory behind that, and its result. -/
def gdbpacketReturns (loader : Loader) (outBuf outSize : Word) : ℕ × Memory × Word :=
  if loader.syscallRetval ≤ outSize then
    (loader.syscallRetval.toNat,
      loader.memory.copyIn outBuf loader.syscallRetval.toNat fun i => loader.rx (loader.syscallData.getD 0 + i),
      loader.syscallRetval)
  else (0, loader.memory, loader.syscallRetval)

/-- The answer of the host's handler. -/
def GdbServed.answer (served : Host.GdbServed) : NetAnswer :=
  { sendData := none, retval := served.retval, size := served.retval, inline := served.data }

/-- What the host's handler does with a request, in a buffer that held something before. -/
def netGdbServed (sockets : GdbSockets) (context : GdbContext) (before : Buffer) (request : List Byte) : GdbServed :=
  sockets.netSyscallGdbpacket context (storeAt before 0 request)

/-- `gdbpacket` over the network. -/
def netGdbpacket (target : Target) (ctx : NetContext) (sockets : GdbSockets) (context : GdbContext) (before : Buffer) (loader : Loader)
    (frame now : ℕ) (inBuf sizePack outBuf : Word) : ℕ × Memory × Word :=
  gdbpacketReturns (exchange target ctx loader frame now (gdbpacketRequest loader inBuf sizePack) fun request =>
    GdbServed.answer (netGdbServed sockets context before request)) outBuf (gdbOutSize sizePack)

/-- The blocks that a sender makes of data, of so many bytes each. -/
def blocksOf (size : ℕ) : ℕ → List Byte → List (List Byte)
  | 0, _ => []
  | fuel + 1, rest => if rest = [] then [] else rest.take size :: blocksOf size fuel (rest.drop size)

/-- The blocks of `send_data_block_compressed`. -/
def clientBlocks (wrkmem : Bool) (data : List Byte) : List (List Byte) :=
  if wrkmem = false ∨ data.length < 19 then [data] else blocksOf clientChunkSize data.length data

/-- What `load_data_block_general` stores of blocks, until nothing remains. -/
def loadBlocks : ℕ → List (List Byte) → List Byte
  | _, [] => []
  | total, block :: rest => if total = 0 then [] else block ++ loadBlocks (total - block.length) rest

/-- What the host's handler does with a packet over the line. -/
def serialGdbServed (wrkmem : Bool) (sockets : GdbSockets) (context : GdbContext) (gdbBuf inBuf : Buffer) (sizePack : Word) :
    GdbServed :=
  sockets.serSyscallGdbpacket context gdbBuf (gdbInSize sizePack) (gdbOutSize sizePack)
    (clientBlocks wrkmem (slice inBuf 0 (gdbInSize sizePack).toNat))

/-- The end of `gdbpacket` over the line: what it stores, and its result. -/
def serialGdbReturns (served : GdbServed) (outSize : Word) : List Byte × Word :=
  if served.retval ≠ 0#32 ∧ served.retval ≤ outSize then
    (loadBlocks served.retval.toNat (blocksOf serialBufferSize served.data.length served.data), served.retval)
  else ([], served.retval)

end KosTool
