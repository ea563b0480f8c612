import Mathlib.Data.List.ReduceOption
import Mathlib.Logic.Function.Basic
import KosTool.Machine.Run
import KosTool.Math.ByteWord

/-! # The SIF broker

`client/playstation2/sif_broker.c`: the sessions, clients and blocks of the broker, its calls, and the interrupt
handler that completes a client. A call is taken apart between any two accesses to what the handler shares with it:
the slots, the status of a client that has one, the two variables of the load in flight and the list of blocks to
free. The functions of `ee_sif.c` run with interrupts masked, or share nothing with the handler, and give an answer;
the other processor answers a request that was sent, at any time after that or never.
-/

namespace KosTool.Ps2

open ByteWord Machine

/-- `BROKER_MAX_IOP_ALLOCS`, `BROKER_MAX_CMD_HANDLERS`, `BROKER_PKT_COUNT` and `BROKER_PENDING_FREE_MAX`. -/
abbrev brokerMaxIopAllocs : ℕ := 32
abbrev brokerMaxCmdHandlers : ℕ := 8
abbrev brokerPktCount : ℕ := 8
abbrev brokerPendingFreeMax : ℕ := 8

/-- `KOSLOAD_SIF_MAX_RPC_XFER` and `KOSLOAD_SIF_MAX_IOP_XFER`. -/
abbrev kosloadSifMaxXfer : ℕ := 65536

/-- `kosload_sif_err_t`. -/
inductive SifErr where
  | ok
  | einflight
  | ebusy
  | ealign
  | ebadarg
  | enomem
  | enosession
  | eversion
  | enosrv
  | etimeout
deriving DecidableEq, Repr

/-- The value of a `kosload_sif_err_t`. -/
def SifErr.code : SifErr → ℤ
  | .ok => 0
  | .einflight => 1
  | .ebusy => -1
  | .ealign => -2
  | .ebadarg => -3
  | .enomem => -4
  | .enosession => -5
  | .eversion => -6
  | .enosrv => -7
  | .etimeout => -8

/-- `BROKER_STATUS_IDLE`, `BROKER_STATUS_INFLIGHT` and `BROKER_STATUS_DONE`. -/
inductive BrokerStatus where
  | idle
  | inflight
  | done
deriving DecidableEq, Repr

/-- `BROKER_OP_BIND`, `BROKER_OP_CALL` and `BROKER_OP_LMB`, or the zero of a client that was never submitted. -/
inductive BrokerOp where
  | unset
  | bind
  | call
  | lmb
deriving DecidableEq, Repr

/-- `broker_priv_t`. -/
structure BrokerPriv where
  status : BrokerStatus
  op : BrokerOp
  result : ℤ
  server : Word
  buf : Word
  cbuf : Word
  recvBuf : Word
  recvSize : Word

/-- A client that was never submitted. -/
def BrokerPriv.clear : BrokerPriv := ⟨.idle, .unset, 0, 0, 0, 0, 0, 0⟩

/-- What an `RPC_END` carries, and the first word of `lmb_result` when it arrives. -/
structure RpcEnd where
  sd : Word
  buf : Word
  cbuf : Word
  loaded : ℤ

/-- What `broker_complete` leaves in the client. -/
def BrokerPriv.completed (priv : BrokerPriv) (reply : RpcEnd) : BrokerPriv :=
  match priv.op with
  | .bind =>
    { priv with
      server := reply.sd, buf := reply.buf, cbuf := reply.cbuf,
      result := if reply.sd ≠ 0 then SifErr.ok.code else SifErr.enosrv.code, status := .done }
  | .call => { priv with result := SifErr.ok.code, status := .done }
  | .lmb => { priv with result := if 0 ≤ reply.loaded then reply.loaded else SifErr.ebadarg.code, status := .done }
  | .unset => { priv with result := SifErr.ebadarg.code, status := .done }

@[simp] theorem BrokerPriv.completed_status (priv : BrokerPriv) (reply : RpcEnd) :
    (priv.completed reply).status = .done := by
  cases op : priv.op <;> simp only [completed, op]

@[simp] theorem BrokerPriv.completed_op (priv : BrokerPriv) (reply : RpcEnd) :
    (priv.completed reply).op = priv.op := by
  cases op : priv.op <;> simp only [completed, op]

/-- The four requests that complete by the interrupt. -/
inductive AsyncCall where
  | rpcBind
  | rpcCall (recv recvLen : Word)
  | loadModuleBuffer
  | loadModulePath
deriving DecidableEq, Repr

namespace AsyncCall

/-- The operation that is recorded for a request. -/
def op : AsyncCall → BrokerOp
  | rpcBind => .bind
  | rpcCall _ _ => .call
  | loadModuleBuffer => .lmb
  | loadModulePath => .lmb

/-- The request is a load of a module. -/
def loads (call : AsyncCall) : Bool := call.op = .lmb

/-- The fields of the client that a request sets. -/
def mark (call : AsyncCall) (lmbResult : Word) (priv : BrokerPriv) : BrokerPriv :=
  match call with
  | rpcBind => { priv with op := .bind, status := .inflight, result := SifErr.etimeout.code, recvBuf := 0, recvSize := 0 }
  | rpcCall recv recvLen =>
    { priv with op := .call, status := .inflight, result := SifErr.etimeout.code, recvBuf := recv, recvSize := recvLen }
  | loadModuleBuffer | loadModulePath =>
    { priv with op := .lmb, status := .inflight, result := SifErr.etimeout.code, recvBuf := lmbResult, recvSize := 8 }

@[simp] theorem mark_status (call : AsyncCall) (lmbResult : Word) (priv : BrokerPriv) :
    (call.mark lmbResult priv).status = .inflight := by
  cases call <;> rfl

@[simp] theorem mark_op (call : AsyncCall) (lmbResult : Word) (priv : BrokerPriv) :
    (call.mark lmbResult priv).op = call.op := by
  cases call <;> rfl

end AsyncCall

/-- A request on its way: its client, and the block that a buffer is staged in. -/
structure Submission where
  client : Word
  call : AsyncCall
  staging : Option Word

/-- What a call does once the list of blocks to free is drained. -/
inductive AfterDrain where
  | submit (request : Submission)
  | transfer
  | iopAlloc
  | iopFree (address : Word) (slot : ℕ)
  | close

/-- `pending_free_drain`, before the count is read, before an entry is looked at, before it is cleared, and before the
count is reset. -/
inductive DrainStage where
  | read
  | look (i n : ℕ)
  | clear (i n : ℕ)
  | reset

/-- Where the code that runs outside the interrupt handler is. -/
inductive Task where
  /-- No call is running; the last one returned this. -/
  | idle (returned : SifErr)
  /-- In the drain, and after it. -/
  | drain (stage : DrainStage) (next : AfterDrain)
  | resume (next : AfterDrain)
  /-- `pkt_alloc_slot`, before a slot is looked at. -/
  | scan (slot : ℕ) (request : Submission)
  /-- Before the client is put into the slot, `lmb_in_flight` is set, and `lmb_in_flight_staging` is set. -/
  | track (slot : ℕ) (request : Submission)
  | flag (slot : ℕ) (request : Submission)
  | stage (slot : ℕ) (request : Submission)
  | send (slot : ℕ) (request : Submission)
  /-- A request that could not be sent: before its slot is freed, `lmb_in_flight` is cleared, and its block is put
  into the list. -/
  | unsend (slot : ℕ) (request : Submission)
  | unflag (request : Submission)
  | push (block : Word)
  /-- `broker_close`, before a recorded block is freed. -/
  | freeBlocks (slot : ℕ)
  /-- `session_reset_state` and the end of `broker_close`, before a slot is cleared, and before
  `lmb_in_flight_staging` is. -/
  | clearSlots (opening : Bool) (slot : ℕ)
  | clearStaging (opening : Bool)

/-- What the last call returned, if none is running. -/
def Task.returned : Task → Option SifErr
  | .idle err => some err
  | _ => none

/-- An entry of the handler table. -/
structure CmdHandler where
  cid : Word
  fn : Word
  arg : Word
deriving DecidableEq, Repr

/-- The broker, the requests that the other processor has not answered, and the blocks it has handed out and taken
back so far. -/
structure SifBroker where
  /-- `g_session`. -/
  active : Bool
  iopAddrs : List (Option Word)
  handlers : List (Option CmdHandler)
  brokerActive : List (Option Word)
  /-- The clients, by their address. -/
  priv : Word → BrokerPriv
  pendingFree : List (Option Word)
  pendingFreeCount : ℕ
  lmbInFlight : Bool
  lmbInFlightStaging : Option Word
  brokerLoadfileBound : Bool
  /-- The address of `lmb_result`. -/
  lmbResult : Word
  task : Task
  outstanding : List Word
  allocated : List Word
  freed : List Word

/-- What `ee_sif.c` answers to the calls that one step makes: whether LOADFILE is bound, the block it allocates or
null, whether it transfers or sends, and whether it frees. -/
structure SifAnswer where
  bound : Bool
  heap : Word
  sent : Bool
  freed : Bool

/-- `ee_sif_alloc_iop_heap`. -/
def SifAnswer.block (answer : SifAnswer) : Option Word := if answer.heap = 0 then none else some answer.heap

/-- The calls of a guest. -/
inductive BrokerCall where
  | sessionOpen
  | sessionClose
  | registerCmdHandler (cid h arg : Word)
  | unregisterCmdHandler (cid : Word)
  | iopWrite (iopAddr src len : Word)
  | iopRead (dst iopAddr len : Word)
  | iopAlloc (len iopAddrOut : Word)
  | iopFree (iopAddr : Word)
  | rpcBind (client done : Word)
  | rpcCall (client done send sendLen recv recvLen : Word)
  | loadModuleBuffer (client done irx irxLen args argsLen : Word)
  | loadModulePath (client done : Word) (path : Option (List Byte)) (args argsLen : Word)

/-- What a call does without a session: `broker_open` needs none, and `broker_close` returns nothing. -/
def BrokerCall.refused : BrokerCall → Option SifErr
  | .sessionOpen => none
  | .sessionClose => some .ok
  | _ => some .enosession

/-- `path_len`, and `path_has_rom0_prefix` with the bounds around it. -/
def pathLen (path : List Byte) : ℕ := ((path.take 252).takeWhile (· ≠ 0)).length
def pathFits (path : List Byte) : Bool :=
  pathLen path < 252 ∧ 5 ≤ pathLen path ∧ path.take 5 = [0x72, 0x6f, 0x6d, 0x30, 0x3a]

namespace SifBroker

/-- The clients that have a slot. -/
def tracked (broker : SifBroker) : List Word := broker.brokerActive.reduceOption

/-- `ee_sif_alloc_iop_heap` and `ee_sif_free_iop_heap`, in the books. -/
def heapAlloc (broker : SifBroker) (block : Word) : SifBroker := { broker with allocated := block :: broker.allocated }
def heapFree (broker : SifBroker) (block : Word) (freed : Bool) : SifBroker :=
  { broker with freed := if freed then block :: broker.freed else broker.freed }

/-- `pending_free_push`. -/
def pendingFreePush (broker : SifBroker) (block : Word) : SifBroker :=
  { broker with
    pendingFree :=
      if broker.pendingFreeCount < brokerPendingFreeMax then
        broker.pendingFree.set broker.pendingFreeCount (some block)
      else broker.pendingFree
    pendingFreeCount := broker.pendingFreeCount + 1 }

/-- The case `BROKER_OP_LMB` of `broker_complete`. -/
def releaseLoad (broker : SifBroker) : SifBroker :=
  match broker.lmbInFlightStaging with
  | some block => { broker.pendingFreePush block with lmbInFlightStaging := none, lmbInFlight := false }
  | none => { broker with lmbInFlight := false }

/-- `broker_complete`. -/
def brokerComplete (broker : SifBroker) (client : Word) (reply : RpcEnd) : SifBroker :=
  let finished := { broker with priv := Function.update broker.priv client ((broker.priv client).completed reply) }
  if (broker.priv client).op = .lmb then finished.releaseLoad else finished

/-- `ps2_sif_broker_isr` with an `RPC_END`: the slot is the first that holds the client it names. -/
def isr (broker : SifBroker) (cd : Word) (reply : RpcEnd) : SifBroker :=
  match broker.brokerActive.findIdx? (· = some cd) with
  | some slot => { broker with brokerActive := broker.brokerActive.set slot none }.brokerComplete cd reply
  | none => broker

/-- A call ends. -/
def returns (broker : SifBroker) (err : SifErr) : SifBroker := { broker with task := .idle err }

/-- The first statements of `broker_open`. -/
def resetSession (broker : SifBroker) : SifBroker :=
  { broker with
    iopAddrs := .replicate brokerMaxIopAllocs none
    handlers := .replicate brokerMaxCmdHandlers none
    task := .clearSlots true 0 }

/-- `broker_register_cmd_handler`. -/
def registerHandler (broker : SifBroker) (cid h arg : Word) : SifBroker :=
  if cid = 0 ∨ h = 0 then broker.returns .ebadarg
  else if broker.handlers.any (·.any (·.cid = cid)) then broker.returns .ebadarg
  else
    match broker.handlers.findIdx? (·.isNone) with
    | none => broker.returns .ebadarg
    | some slot => { broker with handlers := broker.handlers.set slot (some ⟨cid, h, arg⟩) }.returns .ok

/-- `broker_unregister_cmd_handler`. -/
def unregisterHandler (broker : SifBroker) (cid : Word) : SifBroker :=
  if cid = 0 then broker.returns .ebadarg
  else
    match broker.handlers.findIdx? (·.any (·.cid = cid)) with
    | none => broker.returns .ebadarg
    | some slot => { broker with handlers := broker.handlers.set slot none }.returns .ok

/-- A call of the broker that drains before it goes on. -/
def drains (broker : SifBroker) (next : AfterDrain) : SifBroker := { broker with task := .drain .read next }

/-- The checks of the two transfers. -/
def transferStart (broker : SifBroker) (buffer iopAddr len : Word) : SifBroker :=
  if buffer = 0 ∨ len = 0 ∨ kosloadSifMaxXfer < len.toNat then broker.returns .ebadarg
  else if buffer &&& 0xf ≠ 0 ∨ len &&& 0xf ≠ 0 ∨ iopAddr &&& 0xf ≠ 0 then broker.returns .ealign
  else broker.drains .transfer

/-- The checks of `broker_rpc_call` on its buffers. -/
def rpcCallErr (priv : BrokerPriv) (send sendLen recv recvLen : Word) : Option SifErr :=
  if priv.server = 0 ∨ priv.buf = 0 then some .ebadarg
  else if kosloadSifMaxXfer < sendLen.toNat ∨ kosloadSifMaxXfer < recvLen.toNat then some .ebadarg
  else if sendLen ≠ 0 ∧ send = 0 then some .ebadarg
  else if recvLen ≠ 0 ∧ recv = 0 then some .ebadarg
  else if sendLen ≠ 0 ∧ (send &&& 0xf ≠ 0 ∨ sendLen &&& 0xf ≠ 0) then some .ealign
  else if recvLen ≠ 0 ∧ (recv &&& 0xf ≠ 0 ∨ recvLen &&& 0xf ≠ 0) then some .ealign
  else none

/-- The checks of an asynchronous call after those of its arguments: `err` is what else is wrong with it. -/
def submitStart (broker : SifBroker) (client : Word) (call : AsyncCall) (err : Option SifErr) : SifBroker :=
  if (broker.priv client).status = .inflight then broker.returns .ebusy
  else if call.loads = true ∧ broker.lmbInFlight = true then broker.returns .ebusy
  else
    match err with
    | some err => broker.returns err
    | none => broker.drains (.submit ⟨client, call, none⟩)

/-- A call with a session, up to its first shared access. -/
def enter (broker : SifBroker) : BrokerCall → SifBroker
  | .sessionOpen => broker.resetSession
  | .sessionClose => broker.drains .close
  | .registerCmdHandler cid h arg => broker.registerHandler cid h arg
  | .unregisterCmdHandler cid => broker.unregisterHandler cid
  | .iopWrite iopAddr src len => broker.transferStart src iopAddr len
  | .iopRead dst iopAddr len => broker.transferStart dst iopAddr len
  | .iopAlloc len iopAddrOut =>
    if iopAddrOut = 0 ∨ len = 0 then broker.returns .ebadarg else broker.drains .iopAlloc
  | .iopFree iopAddr =>
    if iopAddr = 0 then broker.returns .ebadarg
    else
      match broker.iopAddrs.findIdx? (· = some iopAddr) with
      | none => broker.returns .ebadarg
      | some slot => broker.drains (.iopFree iopAddr slot)
  | .rpcBind client done =>
    if client = 0 ∨ done = 0 then broker.returns .ebadarg else broker.submitStart client .rpcBind none
  | .rpcCall client done send sendLen recv recvLen =>
    if client = 0 ∨ done = 0 then broker.returns .ebadarg
    else
      broker.submitStart client (.rpcCall recv recvLen) (rpcCallErr (broker.priv client) send sendLen recv recvLen)
  | .loadModuleBuffer client done irx irxLen args argsLen =>
    if client = 0 ∨ done = 0 ∨ irx = 0 ∨ irxLen = 0 ∨ 252 < argsLen.toNat ∨ (argsLen ≠ 0 ∧ args = 0) then
      broker.returns .ebadarg
    else broker.submitStart client .loadModuleBuffer none
  | .loadModulePath client done path args argsLen =>
    if client = 0 ∨ done = 0 ∨ path = none ∨ 252 < argsLen.toNat ∨ (argsLen ≠ 0 ∧ args = 0) ∨
        path.all pathFits = false then
      broker.returns .ebadarg
    else broker.submitStart client .loadModulePath none

/-- A call, of which all but `broker_open` need a session. -/
def call (broker : SifBroker) (request : BrokerCall) : SifBroker :=
  if broker.active then broker.enter request
  else
    match request.refused with
    | some err => broker.returns err
    | none => broker.enter request

/-- The staging of a buffer in `broker_load_module_buffer`. -/
def stageBuffer (broker : SifBroker) (request : Submission) (answer : SifAnswer) : SifBroker :=
  match answer.block with
  | none => broker.returns .enomem
  | some block =>
    if answer.sent then { broker.heapAlloc block with task := .scan 0 { request with staging := some block } }
    else ((broker.heapAlloc block).heapFree block answer.freed).returns .ebadarg

/-- What is done for a load before it needs a slot: LOADFILE is bound, and a buffer is staged. -/
def prepare (broker : SifBroker) (request : Submission) (answer : SifAnswer) : SifBroker :=
  if request.call.loads = false then { broker with task := .scan 0 request }
  else if broker.brokerLoadfileBound = false ∧ answer.bound = false then broker.returns .ebadarg
  else if request.call = .loadModuleBuffer then
    { broker with brokerLoadfileBound := true }.stageBuffer request answer
  else { broker with brokerLoadfileBound := true, task := .scan 0 request }

/-- `broker_iop_alloc`, after the drain. -/
def iopAlloc (broker : SifBroker) (answer : SifAnswer) : SifBroker :=
  match answer.block with
  | none => broker.returns .enomem
  | some block =>
    match broker.iopAddrs.findIdx? (·.isNone) with
    | some slot => { broker.heapAlloc block with iopAddrs := broker.iopAddrs.set slot (some block) }.returns .ok
    | none => ((broker.heapAlloc block).heapFree block answer.freed).returns .enomem

/-- What a call does after the drain, up to its next shared access. -/
def resumed (broker : SifBroker) (answer : SifAnswer) : AfterDrain → SifBroker
  | .submit request => broker.prepare request answer
  | .transfer => broker.returns (if answer.sent then .ok else .ebadarg)
  | .iopAlloc => broker.iopAlloc answer
  | .iopFree address slot =>
    if answer.freed then
      { broker.heapFree address true with iopAddrs := broker.iopAddrs.set slot none }.returns .ok
    else broker.returns .ebadarg
  | .close => { broker with task := .freeBlocks 0 }

/-- `pkt_alloc_slot` finds no slot. -/
def noSlot (broker : SifBroker) (request : Submission) (answer : SifAnswer) : SifBroker :=
  match request.staging with
  | some block => (broker.heapFree block answer.freed).returns .ebadarg
  | none => broker.returns .ebadarg

/-- One step of the code outside the handler, up to its next shared access. -/
def thread (broker : SifBroker) (answer : SifAnswer) : Option SifBroker :=
  match broker.task with
  | .idle _ => none
  | .drain .read next =>
    some { broker with task := .drain (.look 0 (min broker.pendingFreeCount brokerPendingFreeMax)) next }
  | .drain (.look i n) next =>
    if i < n then
      match broker.pendingFree[i]? with
      | some (some block) => some { broker.heapFree block answer.freed with task := .drain (.clear i n) next }
      | _ => some { broker with task := .drain (.look (i + 1) n) next }
    else some { broker with task := .drain .reset next }
  | .drain (.clear i n) next =>
    some { broker with pendingFree := broker.pendingFree.set i none, task := .drain (.look (i + 1) n) next }
  | .drain .reset next => some { broker with pendingFreeCount := 0, task := .resume next }
  | .resume next => some (broker.resumed answer next)
  | .scan slot request =>
    if slot < brokerPktCount then
      if broker.brokerActive[slot]? = some none then some { broker with task := .track slot request }
      else some { broker with task := .scan (slot + 1) request }
    else some (broker.noSlot request answer)
  | .track slot request =>
    some { broker with
      priv := Function.update broker.priv request.client
        (request.call.mark broker.lmbResult (broker.priv request.client))
      brokerActive := broker.brokerActive.set slot (some request.client)
      task := if request.call.loads then .flag slot request else .send slot request }
  | .flag slot request => some { broker with lmbInFlight := true, task := .stage slot request }
  | .stage slot request => some { broker with lmbInFlightStaging := request.staging, task := .send slot request }
  | .send slot request =>
    if answer.sent then
      some { broker with outstanding := request.client :: broker.outstanding, task := .idle .einflight }
    else some { broker with task := .unsend slot request }
  | .unsend slot request =>
    some { broker with
      brokerActive := broker.brokerActive.set slot none
      priv := Function.update broker.priv request.client { broker.priv request.client with status := .idle }
      task := if request.call.loads then .unflag request else .idle .ebadarg }
  | .unflag request =>
    some { broker with
      lmbInFlight := false
      task := match request.staging with
        | some block => .push block
        | none => .idle .ebadarg }
  | .push block => some ((broker.pendingFreePush block).returns .ebadarg)
  | .freeBlocks slot =>
    if slot < brokerMaxIopAllocs then
      match broker.iopAddrs[slot]? with
      | some (some block) =>
        some { broker.heapFree block answer.freed with
          iopAddrs := broker.iopAddrs.set slot none, task := .freeBlocks (slot + 1) }
      | _ => some { broker with task := .freeBlocks (slot + 1) }
    else some { broker with handlers := .replicate brokerMaxCmdHandlers none, task := .clearSlots false 0 }
  | .clearSlots opening slot =>
    if slot < brokerPktCount then
      some { broker with brokerActive := broker.brokerActive.set slot none, task := .clearSlots opening (slot + 1) }
    else some { broker with brokerLoadfileBound := false, lmbInFlight := false, task := .clearStaging opening }
  | .clearStaging opening =>
    some { broker with lmbInFlightStaging := none, active := opening, task := .idle .ok }

end SifBroker

/-- What happens: the guest makes a call, the call goes on, or an `RPC_END` interrupts it. -/
inductive BrokerEvent where
  | call (request : BrokerCall)
  | thread (answer : SifAnswer)
  | rpcEnd (cd : Word) (reply : RpcEnd)

namespace SifBroker

/-- One event: a call needs the last one to have returned, a reply a request that was sent. -/
def step (broker : SifBroker) : BrokerEvent → Option SifBroker
  | .call request =>
    match broker.task with
    | .idle _ => some (broker.call request)
    | _ => none
  | .thread answer => broker.thread answer
  | .rpcEnd cd reply =>
    if broker.outstanding.contains cd then some { broker.isr cd reply with outstanding := broker.outstanding.erase cd }
    else none

/-- The broker as the loader starts it. -/
def initial (lmbResult : Word) : SifBroker where
  active := false
  iopAddrs := .replicate brokerMaxIopAllocs none
  handlers := .replicate brokerMaxCmdHandlers none
  brokerActive := .replicate brokerPktCount none
  priv := fun _ => .clear
  pendingFree := .replicate brokerPendingFreeMax none
  pendingFreeCount := 0
  lmbInFlight := false
  lmbInFlightStaging := none
  brokerLoadfileBound := false
  lmbResult := lmbResult
  task := .idle .ok
  outstanding := []
  allocated := []
  freed := []

end SifBroker

/-- The machine of the broker, its guest and the other processor. -/
def sifBroker : LabeledMachine SifBroker BrokerEvent where
  step := SifBroker.step

end KosTool.Ps2
