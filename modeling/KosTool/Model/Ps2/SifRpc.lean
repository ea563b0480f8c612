import KosTool.Machine.Run
import KosTool.Model.KosloadTypes

/-! # Remote calls over SIF

`client/playstation2/ee_sif.c`: `ee_sif_rpc_bind` and `ee_sif_rpc_call` with the receive buffer they poll, and the
other processor, which sends an `RPC_END` for each request it has received, whenever it likes and in any order. A
request is numbered as it is issued, so that a run can tell which request a reply answers; no number is sent.
-/

namespace KosTool.Ps2

open ByteWord Machine

/-- `EE_SIF_CMD_RPC_END`. -/
abbrev cmdRpcEnd : Word := 0x80000008
/-- `EE_SIF_CMD_RPC_BIND`. -/
abbrev cmdRpcBind : Word := 0x80000009
/-- `EE_SIF_CMD_RPC_CALL`. -/
abbrev cmdRpcCall : Word := 0x8000000a

/-- `SIF_RPC_PACKET_COUNT` and `SIF_PACKET_SIZE`. -/
abbrev sifRpcPacketCount : Word := 8
abbrev sifPacketSize : Word := 64

/-- The two requests. -/
inductive RpcKind where
  | bind
  | call
deriving DecidableEq, Repr

/-- The command that carries a request, which its `RPC_END` repeats. -/
def RpcKind.cid : RpcKind → Word
  | .bind => cmdRpcBind
  | .call => cmdRpcCall

/-- `ee_sif_rpc_bind_pkt_t` and `ee_sif_rpc_call_pkt_t`, with the number of the request. -/
structure RpcRequest where
  seq : ℕ
  kind : RpcKind
  recId : Word
  pktAddr : Word
  cd : Word
  recvbuf : Word
  recvSize : Word
deriving DecidableEq, Repr

/-- What the other processor makes of a request: the server of a bind, the result of a call. -/
structure RpcAnswer where
  sd : Word
  buf : Word
  cbuf : Word
  data : Buffer

/-- `ee_sif_rpc_rend_pkt_t`, as the receive buffer holds it. -/
structure RecvPacket where
  psize : Byte
  cid : Word
  recId : Word
  pktAddr : Word
  cd : Word
  command : Word
  sd : Word
  buf : Word
  cbuf : Word
deriving DecidableEq, Repr

/-- A receive buffer that has been cleared. -/
def RecvPacket.clear : RecvPacket := ⟨0, 0, 0, 0, 0, 0, 0, 0, 0⟩

/-- The `RPC_END` of a request: it names the request packet and the client again. -/
def RpcRequest.reply (request : RpcRequest) (answer : RpcAnswer) : RecvPacket where
  psize := 64
  cid := cmdRpcEnd
  recId := request.recId
  pktAddr := request.pktAddr
  cd := request.cd
  command := request.kind.cid
  sd := answer.sd
  buf := answer.buf
  cbuf := answer.cbuf

/-- What an answer brings into the receive buffer of a call. -/
def RpcRequest.deliver (request : RpcRequest) (answer : RpcAnswer) (ram : Memory) : Memory :=
  if request.kind = .call ∧ request.recvbuf ≠ 0 then ram.copyIn request.recvbuf request.recvSize.toNat answer.data
  else ram

/-- What a caller finds in its receive buffer. -/
def RpcRequest.received (request : RpcRequest) (ram : Memory) : List Byte :=
  if request.recvbuf ≠ 0 then ram.copyOut request.recvbuf request.recvSize.toNat else []

/-- The `server`, `buf` and `cbuf` of `ee_sif_rpc_client_t`. -/
structure RpcClient where
  server : Word
  buf : Word
  cbuf : Word
deriving DecidableEq, Repr

/-- How a request ended, with what the caller has of it, and what the other processor answered to it. -/
structure RpcOutcome where
  request : RpcRequest
  ret : ℤ
  origin : Option RpcRequest
  client : RpcClient
  received : List Byte
  answered : Option RpcAnswer

/-- Both processors. -/
structure RpcState where
  /-- `sifrpc_next_rid`. -/
  nextRid : Word
  /-- `rpc_next_packet`. -/
  nextPacket : Word
  clients : Word → RpcClient
  /-- `sif_recv_buf`, with the request that the packet in it answers. -/
  recv : RecvPacket
  origin : Option RpcRequest
  /-- `D_STAT_SIF0` of `D_STAT`. -/
  stat : Bool
  /-- `CHCR_STR` of `D5_CHCR`. -/
  armed : Bool
  ram : Memory
  /-- The request that `ee_sif_poll_packet` polls for. -/
  waiting : Option RpcRequest
  /-- The requests the other processor has received and not answered. -/
  outstanding : List RpcRequest
  answered : ℕ → Option RpcAnswer
  seq : ℕ
  outcomes : List RpcOutcome

namespace RpcState

variable (packets : Word)

/-- `ee_sif_rearm_receive`. -/
def rearm (state : RpcState) : RpcState :=
  if state.armed then { state with recv := .clear, origin := none }
  else { state with recv := .clear, origin := none, stat := false, armed := true }

/-- The packet of a request, in the next buffer of `rpc_alloc_packet`. -/
def packet (state : RpcState) (kind : RpcKind) (client recvbuf recvSize : Word) : RpcRequest where
  seq := state.seq
  kind := kind
  recId := (state.nextRid + 1) <<< 16 ||| 0x05
  pktAddr := packets + (state.nextPacket % sifRpcPacketCount) * sifPacketSize
  cd := client
  recvbuf := recvbuf
  recvSize := recvSize

/-- The counters after a request. -/
def counted (state : RpcState) : RpcState :=
  { state with nextRid := state.nextRid + 1, nextPacket := state.nextPacket + 1, seq := state.seq + 1 }

/-- A request returns. -/
def returns (state : RpcState) (request : RpcRequest) (origin : Option RpcRequest) (ret : ℤ) : RpcState :=
  { state with
    waiting := none
    outcomes := state.outcomes ++
      [{ request := request
         ret := ret
         origin := origin
         client := state.clients request.cd
         received := request.received state.ram
         answered := state.answered request.seq }] }

end RpcState

/-- What becomes of the packet that `ee_sif_send_cmd` sends: the transfer ends in time, or it is given up and then
never ends, or it is given up and the packet arrives nevertheless. -/
inductive Sent where
  | inTime
  | never
  | late
deriving DecidableEq, Repr

/-- A request is sent: the other processor has it unless its packet never arrives, and it is waited for only if
the send was in time. -/
def RpcState.send (state : RpcState) (request : RpcRequest) (sent : Sent) (failed : ℤ) : RpcState :=
  match sent with
  | .inTime => { state with outstanding := state.outstanding ++ [request], waiting := some request }
  | .never => state.returns request none failed
  | .late => { state with outstanding := state.outstanding ++ [request] }.returns request none failed

/-- `ee_sif_rpc_bind` up to its poll. -/
def eeSifRpcBind (packets : Word) (state : RpcState) (client : Word) (sent : Sent) : RpcState :=
  let request := state.packet packets .bind client 0 0
  if client = 0 then state.returns request none (-1)
  else
    { state.counted with
      clients := Function.update state.clients client { state.clients client with server := 0 } }.send
      request sent (-1)

/-- `ee_sif_rpc_call` up to its poll. -/
def eeSifRpcCall (packets : Word) (state : RpcState) (client recvbuf recvSize : Word) (sent : Sent) : RpcState :=
  let request := state.packet packets .call client recvbuf recvSize
  if client = 0 ∨ (state.clients client).server = 0 ∨ (state.clients client).buf = 0 then
    state.returns request none (-1)
  else state.counted.send request sent (-2)

/-- The client is given the server of a reply. -/
def RpcState.bound (state : RpcState) (client : Word) (reply : RecvPacket) : RpcState :=
  { state with clients := Function.update state.clients client ⟨reply.sd, reply.buf, reply.cbuf⟩ }

/-- `ee_sif_rpc_bind` behind its poll, with the reply it was given. -/
def RpcState.bindReply (state : RpcState) (request : RpcRequest) (origin : Option RpcRequest)
    (reply : RecvPacket) : RpcState :=
  if reply.command ≠ cmdRpcBind then state.rearm.returns request origin (-4)
  else if reply.sd = 0 then (state.bound request.cd reply).rearm.returns request origin (-3)
  else (state.bound request.cd reply).rearm.returns request origin 0

/-- `ee_sif_rpc_call` behind its poll: the reply is not looked at. -/
def RpcState.callReply (state : RpcState) (request : RpcRequest) (origin : Option RpcRequest) : RpcState :=
  state.rearm.returns request origin 0

/-- One pass of the loop of `ee_sif_poll_packet`, with what follows when it returns a packet. -/
def RpcState.poll (state : RpcState) (request : RpcRequest) : RpcState :=
  if state.stat = false then state
  else
    let seen := { state with stat := false }
    if state.recv.cid = cmdRpcEnd then
      match request.kind with
      | .bind => seen.bindReply request state.origin state.recv
      | .call => seen.callReply request state.origin
    else if state.recv.psize ≠ 0 then seen.rearm
    else seen

/-- The loop has used up its polls. -/
def RpcState.giveUp (state : RpcState) (request : RpcRequest) : RpcState :=
  match request.kind with
  | .bind => state.rearm.returns request none (-2)
  | .call => state.returns request none (-3)

/-- What happens to both processors. -/
inductive RpcEvent where
  | bind (client : Word) (sent : Sent)
  | call (client recvbuf recvSize : Word) (sent : Sent)
  | poll
  | giveUp
  /-- The other processor answers one of its requests. -/
  | answer (index : ℕ) (answer : RpcAnswer)
  /-- One of its answers is lost, overwritten while the buffer was being cleared. -/
  | lose (index : ℕ)
  /-- It sends a packet that is no `RPC_END`. -/
  | other (psize : Byte) (cid : Word)

/-- An answer arrives in the receive buffer. -/
def RpcState.arrive (state : RpcState) (request : RpcRequest) (answer : RpcAnswer) (index : ℕ) : RpcState :=
  { state with
    outstanding := state.outstanding.eraseIdx index
    answered := Function.update state.answered request.seq (some answer)
    ram := request.deliver answer state.ram
    recv := request.reply answer
    origin := some request
    stat := true
    armed := false }

/-- One event: a request is issued when none is waited for, and a packet arrives when the channel is armed. -/
def RpcState.step (packets : Word) (state : RpcState) : RpcEvent → Option RpcState
  | .bind client sent => if state.waiting = none then some (eeSifRpcBind packets state client sent) else none
  | .call client recvbuf recvSize sent =>
    if state.waiting = none then some (eeSifRpcCall packets state client recvbuf recvSize sent) else none
  | .poll => state.waiting.map state.poll
  | .giveUp => state.waiting.map state.giveUp
  | .answer index answer =>
    if state.armed then state.outstanding[index]?.map fun request => state.arrive request answer index else none
  | .lose index =>
    if index < state.outstanding.length then some { state with outstanding := state.outstanding.eraseIdx index }
    else none
  | .other psize cid =>
    if state.armed ∧ cid ≠ cmdRpcEnd then
      some { state with
        recv := { RecvPacket.clear with psize := psize, cid := cid }, origin := none, stat := true, armed := false }
    else none

/-- The machine of both processors. -/
def sifRpc (packets : Word) : LabeledMachine RpcState RpcEvent where
  step := RpcState.step packets

/-- After `ee_sif_rpc_init`: nothing is outstanding and the channel is armed. -/
def RpcState.initial (clients : Word → RpcClient) (ram : Memory) : RpcState where
  nextRid := 0
  nextPacket := 0
  clients := clients
  recv := .clear
  origin := none
  stat := false
  armed := true
  ram := ram
  waiting := none
  outstanding := []
  answered _ := none
  seq := 0
  outcomes := []

end KosTool.Ps2
