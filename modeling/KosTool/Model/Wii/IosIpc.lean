import KosTool.Machine.Run
import KosTool.Math.ByteWord

/-! # The mailbox to IOS

`client/wii/ios_net.c`: `ipc_sync` and the calls that fill the one request buffer they all share, with the mailbox
registers and IOS behind them. IOS acknowledges a request when it takes it, replies to the requests it has taken in
any order, and sends its next reply only after the one before it has been released. A request is numbered as it is
issued, so that a run can tell which request a reply answers; no number is sent.
-/

namespace KosTool.Wii

open Machine

/-- `IPC_CONTROL_KEEP_MASK`. -/
abbrev ipcControlKeepMask : Word := 0x30
/-- `IPC_SEND_REQUEST`, `IPC_ACK_REQUEST`, `IPC_ACK_REPLY` and `IPC_RELEASE_REPLY`. -/
abbrev ipcSendRequest : Word := 0x01
abbrev ipcAckRequest : Word := 0x02
abbrev ipcAckReply : Word := 0x04
abbrev ipcReleaseReply : Word := 0x08
/-- `IPC_REPLY_READY_MASK` and `IPC_REQUEST_ACK_MASK`. -/
abbrev ipcReplyReadyMask : Word := 0x14
abbrev ipcRequestAckMask : Word := 0x22
/-- `IPC_MAGIC`. -/
abbrev ipcMagic : Word := 0x4c4f4743
/-- `IOS_ETIMEDOUT`. -/
abbrev iosEtimedout : ℤ := -116

/-- `IPC_REG_CONTROL`: a request has been sent, IOS has acknowledged it, a reply is ready, the last reply has been
released, and the two enable bits. -/
structure Mailbox where
  sent : Bool
  acknowledged : Bool
  ready : Bool
  released : Bool
  replyEnabled : Bool
  ackEnabled : Bool
deriving DecidableEq, Repr

namespace Mailbox

/-- What a load of the register gives. -/
def load (mailbox : Mailbox) : Word :=
  (if mailbox.sent then 0x01 else 0) ||| (if mailbox.acknowledged then 0x02 else 0) |||
    (if mailbox.ready then 0x04 else 0) ||| (if mailbox.released then 0x08 else 0) |||
    (if mailbox.replyEnabled then 0x10 else 0) ||| (if mailbox.ackEnabled then 0x20 else 0)

/-- What a store into the register does: bits 0 and 3 are set by a one, bits 1 and 2 are cleared by a one. -/
def store (mailbox : Mailbox) (value : Word) : Mailbox where
  sent := mailbox.sent || value.getLsbD 0
  acknowledged := mailbox.acknowledged && !value.getLsbD 1
  ready := mailbox.ready && !value.getLsbD 2
  released := mailbox.released || value.getLsbD 3
  replyEnabled := value.getLsbD 4
  ackEnabled := value.getLsbD 5

/-- `ipc_ack`, and the store that sends a request. -/
def ack (mailbox : Mailbox) (bit : Word) : Mailbox := mailbox.store ((mailbox.load &&& ipcControlKeepMask) ||| bit)

end Mailbox

/-- Where the request buffer and the path buffer are. -/
structure IpcArena where
  request : Word
  path : Word

/-- `phys_addr`. -/
def physAddr (address : Word) : Word := address &&& 0x3fffffff

/-- The calls that are made through `ipc_sync`: `ios_open`, `ios_close`, `ios_ioctl` and `ios_ioctlv`. -/
inductive IosCall where
  | openPath (path : Option (List Byte)) (mode : Word)
  | close (fd : Word)
  | ioctl (fd cmd input inLen output outLen : Word)
  | ioctlv (fd cmd : Word) (inCount outCount : ℤ) (vec : Word)

/-- The words of the request buffer. -/
abbrev RequestWords := ℕ → Word

/-- A request with nothing but some words, behind `request_clear`. -/
def requestWords (words : List (ℕ × Word)) : RequestWords :=
  words.foldl (fun request word => Function.update request word.1 word.2) fun _ => 0

/-- What a call puts into the request buffer, or what it returns without a request. -/
def IosCall.words (arena : IpcArena) : IosCall → Except ℤ RequestWords
  | .openPath none _ => .error (-4)
  | .openPath (some _) mode => .ok (requestWords [(0, 1), (3, physAddr arena.path), (4, mode)])
  | .close fd => if fd.toInt < 0 then .error 0 else .ok (requestWords [(0, 2), (2, fd)])
  | .ioctl fd cmd input inLen output outLen =>
    .ok (requestWords [(0, 6), (2, fd), (3, cmd), (4, if input ≠ 0 then physAddr input else 0), (5, inLen),
      (6, if output ≠ 0 then physAddr output else 0), (7, outLen)])
  | .ioctlv fd cmd inCount outCount vec =>
    if inCount + outCount < 0 ∨ 8 < inCount + outCount then .error (-22)
    else .ok (requestWords [(0, 7), (2, fd), (3, cmd), (4, BitVec.ofInt 32 inCount), (5, BitVec.ofInt 32 outCount),
      (6, physAddr vec)])

/-- A request: its number, the address it was sent under, and `ipc_block`. -/
structure IosRequest where
  seq : ℕ
  address : Word
  block : Bool
deriving DecidableEq, Repr

/-- How `ipc_sync` returned: by a reply, with what the request buffer then holds, or by a timeout. -/
structure IpcOutcome where
  request : IosRequest
  ret : ℤ
  replied : Bool
  origin : Option IosRequest
  words : RequestWords
  answered : Option RequestWords

/-- The loader, the mailbox and IOS. -/
structure IpcState where
  mailbox : Mailbox
  /-- `ipc_ready`. -/
  ipcReady : Bool
  /-- `IPC_REG_REPLY`, with the request it answers. -/
  reply : Word
  origin : Option IosRequest
  /-- The request at the address in `IPC_REG_REQUEST`. -/
  posted : Option IosRequest
  /-- The request buffer in memory. -/
  words : RequestWords
  /-- The request `ipc_sync` waits for. -/
  waiting : Option IosRequest
  /-- The requests IOS has taken and not replied to. -/
  taken : List IosRequest
  answered : IosRequest → Option RequestWords
  seq : ℕ
  outcomes : List IpcOutcome

namespace IpcState

/-- `ipc_init`. -/
def ipcInit (state : IpcState) : IpcState :=
  if state.ipcReady then state else { state with mailbox := state.mailbox.store 0x38, ipcReady := true }

/-- `ipc_sync` up to its loop. -/
def ipcSync (state : IpcState) (arena : IpcArena) (words : RequestWords) (block : Bool) : IpcState :=
  let request : IosRequest := { seq := state.seq, address := physAddr arena.request, block := block }
  { state.ipcInit with
    words := Function.update words 12 ipcMagic
    posted := some request
    mailbox := state.ipcInit.mailbox.ack ipcSendRequest
    waiting := some request
    seq := state.seq + 1 }

/-- The first half of a pass of the loop: an acknowledged request is acknowledged in turn. -/
def pollAck (state : IpcState) : IpcState :=
  if state.mailbox.load &&& ipcRequestAckMask = ipcRequestAckMask then
    { state with mailbox := state.mailbox.ack ipcAckRequest }
  else state

/-- The second half: a reply is taken, and returned if it names the request buffer. -/
def pollReply (state : IpcState) (request : IosRequest) : IpcState :=
  if state.mailbox.load &&& ipcReplyReadyMask = ipcReplyReadyMask then
    let freed := { state with mailbox := (state.mailbox.ack ipcAckReply).ack ipcReleaseReply }
    if state.reply = request.address then
      { freed with
        waiting := none
        outcomes := state.outcomes ++
          [{ request := request
             ret := (state.words 1).toInt
             replied := true
             origin := state.origin
             words := state.words
             answered := state.answered request }] }
    else freed
  else state

/-- The five seconds are over. -/
def giveUp (state : IpcState) (request : IosRequest) : IpcState :=
  { state with
    waiting := none
    outcomes := state.outcomes ++
      [{ request := request
         ret := iosEtimedout
         replied := false
         origin := none
         words := state.words
         answered := state.answered request }] }

end IpcState

/-- What happens on both sides; the loop alternates its two halves, and IOS may come between any two. -/
inductive IpcEvent where
  | call (call : IosCall) (block : Bool)
  | pollAck
  | pollReply
  | giveUp
  /-- IOS takes the request in the mailbox. -/
  | take
  /-- IOS replies to one of its requests, with what it writes over the request buffer. -/
  | reply (index : ℕ) (answer : RequestWords)

namespace IpcState

/-- IOS takes a request. -/
def takes (state : IpcState) (request : IosRequest) : IpcState :=
  { state with
    mailbox := { state.mailbox with sent := false, acknowledged := true }
    taken := state.taken ++ [request] }

/-- IOS replies: it writes over the request buffer and sends its address. -/
def replies (state : IpcState) (request : IosRequest) (answer : RequestWords) (index : ℕ) : IpcState :=
  { state with
    mailbox := { state.mailbox with ready := true, released := false }
    reply := request.address
    origin := some request
    words := answer
    answered := Function.update state.answered request (some answer)
    taken := state.taken.eraseIdx index }

/-- One event. -/
def step (arena : IpcArena) (state : IpcState) : IpcEvent → Option IpcState
  | .call call block =>
    if state.waiting = none then
      match call.words arena with
      | .error _ => some state
      | .ok words => some (state.ipcSync arena words block)
    else none
  | .pollAck => state.waiting.map fun _ => state.pollAck
  | .pollReply => state.waiting.map state.pollReply
  | .giveUp => state.waiting.bind fun request => if request.block then none else some (state.giveUp request)
  | .take => if state.mailbox.sent then state.posted.map state.takes else none
  | .reply index answer =>
    if state.mailbox.released then
      state.taken[index]?.map fun request => state.replies request answer index
    else none

/-- Before the first call: nothing is in the mailbox, whatever its other bits are, and IOS has no request. -/
def initial (mailbox : Mailbox) (words : RequestWords) : IpcState where
  mailbox := { mailbox with sent := false, ready := false }
  ipcReady := false
  reply := 0
  origin := none
  posted := none
  words := words
  waiting := none
  taken := []
  answered _ := none
  seq := 0
  outcomes := []

end IpcState

/-- The machine of both sides. -/
def iosIpc (arena : IpcArena) : LabeledMachine IpcState IpcEvent where
  step := IpcState.step arena

end KosTool.Wii
