import KosTool.Machine.Run
import KosTool.Model.Host.Channel

/-! # Uploading an image

`network_send_data_once` of `host/src/transport/network.c` as a state machine: it waits in
`send_and_wait`, streams chunks, or has returned. Pacing, diagnostics and the draining of the receive
buffer leave no trace in this model.
-/

namespace KosTool.Host

open ByteWord Protocol

def maxCmdRetries : ℕ := 20
def loadbinRetryLimit : ℕ := 3

/-- `command_ack_matches` on the first `received` bytes of a buffer. -/
def commandAckMatches (buffer : Buffer) (received : ℕ) (expected address size : Word) : Bool :=
  if received < netCommandLen ∨ commandId buffer 0 ≠ expected then false
  else if expected = netCmdLoadbin ∨ expected = netCmdExecute ∨ expected = netCmdSetrtc then
    commandAddress buffer 0 = address ∧ commandSize buffer 0 = size
  else true

/-- The arguments of the upload and the parts of the context it reads. -/
structure Upload where
  data : Buffer
  destAddr : Word
  size : Word
  legacyMode : Bool
  isWiiLoader : Bool

/-- The calls of `send_and_wait`. -/
inductive UploadStage where
  | loadbin
  | donebin
  | loadbinRetry
  | donebinRetry
  | recoverDonebin
  | recoverLoadbin
deriving DecidableEq, Repr

/-- Where the sender stands. -/
inductive UploadPc where
  | idle
  | sendAndWait (stage : UploadStage) (attempt : ℕ)
  | stream (retry : Bool) (offset : Word)
  | returned (code : Int)
deriving DecidableEq, Repr

structure Sender where
  pc : UploadPc
  buffer : Buffer
  loadbinRetries : ℕ

namespace Upload

variable (upload : Upload)

/-- `chunk_size`. -/
def chunkSize : Word := if upload.legacyMode then 1024#32 else 1440#32

/-- The command a stage sends and the reply it waits for. -/
def stageCommand : UploadStage → Word × Word × Word
  | .loadbin | .loadbinRetry | .recoverLoadbin => (netCmdLoadbin, upload.destAddr, upload.size)
  | .donebin | .donebinRetry | .recoverDonebin => (netCmdDonebin, 0#32, 0#32)

/-- What a stage puts on the wire, once for every attempt. -/
def stageDatagram (stage : UploadStage) : List Byte :=
  let command := upload.stageCommand stage
  sendCmd upload.isWiiLoader command.1 command.2.1 command.2.2 (fun _ => 0) 0

/-- A `PBIN` of the bytes from an offset of the data on. -/
def partbinDatagram (address offset size : Word) : List Byte :=
  sendCmd upload.isWiiLoader netCmdPartbin address size (fun i => upload.data (offset.toNat + i)) size.toNat

/-- Beginning a stage sends its command. -/
def enter (sender : Sender) (stage : UploadStage) : Sender × List (List Byte) :=
  ({ sender with pc := .sendAndWait stage 0 }, [upload.stageDatagram stage])

/-- `network_send_data_once` is called. -/
def call (sender : Sender) : Sender × List (List Byte) :=
  if upload.size = 0#32 then ({ sender with pc := .returned (-1) }, [])
  else upload.enter { sender with loadbinRetries := 0 } .loadbin

/-- The head of the recovery loop, with the answer to `DBIN` in the buffer. -/
def recover (sender : Sender) : Sender × List (List Byte) :=
  let missAddr := commandAddress sender.buffer 0
  let missSize := commandSize sender.buffer 0
  let missOff := missAddr - upload.destAddr
  if missSize = 0#32 then ({ sender with pc := .returned 0 }, [])
  else if upload.size < missOff + missSize then ({ sender with pc := .returned 0 }, [])
  else
    let (sender, sent) := upload.enter sender .recoverDonebin
    (sender, upload.partbinDatagram missAddr missOff missSize :: sent)

/-- `send_and_wait` has returned 0. -/
def acknowledged (sender : Sender) : UploadStage → Sender × List (List Byte)
  | .loadbin => ({ sender with pc := .stream false 0 }, [])
  | .loadbinRetry => ({ sender with pc := .stream true 0 }, [])
  | .donebin | .donebinRetry | .recoverDonebin => upload.recover sender
  | .recoverLoadbin => ({ sender with pc := .returned 0 }, [])

/-- `send_and_wait` has used up its attempts. -/
def exhausted (sender : Sender) : UploadStage → Sender × List (List Byte)
  | .loadbin | .loadbinRetry | .donebinRetry | .recoverLoadbin => ({ sender with pc := .returned (-1) }, [])
  | .donebin => upload.enter sender .loadbinRetry
  | .recoverDonebin =>
    let sender := { sender with loadbinRetries := sender.loadbinRetries + 1 }
    if loadbinRetryLimit < sender.loadbinRetries then ({ sender with pc := .returned (-1) }, [])
    else upload.enter sender .recoverLoadbin

/-- One turn of a loop that streams the chunks. -/
def streamNext (sender : Sender) (retry : Bool) (offset : Word) : Sender × List (List Byte) :=
  if offset < upload.size then
    let remaining := upload.size - offset
    let sendSize := if upload.chunkSize ≤ remaining then upload.chunkSize else remaining
    ({ sender with pc := .stream retry (offset + upload.chunkSize) },
      [upload.partbinDatagram (upload.destAddr + offset) offset sendSize])
  else upload.enter sender (if retry then .donebinRetry else .donebin)

/-- The buffer of `send_and_wait` after a `recv` into it. -/
def received (sender : Sender) (payload : List Byte) : Sender :=
  { sender with buffer := storeAt sender.buffer 0 (payload.take receiveBufferLen) }

/-- The datagram ends the wait of a stage. -/
def isReply (sender : Sender) (stage : UploadStage) (payload : List Byte) : Bool :=
  let command := upload.stageCommand stage
  commandAckMatches (received sender payload).buffer (payload.take receiveBufferLen).length command.1
    command.2.1 command.2.2

/-- A datagram is received while `send_and_wait` waits. -/
def receive (sender : Sender) (stage : UploadStage) (payload : List Byte) : Sender × List (List Byte) :=
  if upload.isReply sender stage payload then upload.acknowledged (received sender payload) stage
  else (received sender payload, [])

/-- The window of an attempt is over. -/
def windowElapsed (sender : Sender) (stage : UploadStage) (attempt : ℕ) : Sender × List (List Byte) :=
  if attempt + 1 < maxCmdRetries then
    ({ sender with pc := .sendAndWait stage (attempt + 1) }, [upload.stageDatagram stage])
  else upload.exhausted sender stage

/-- A `PBIN` that the recovery loop sends: what it says, and which bytes of the data `send_cmd` copies into it. -/
structure MissPartbin where
  missAddr : Word
  missSize : Word
  first : ℕ
  count : ℕ
deriving DecidableEq

/-- What the recovery loop sends for the answer in a buffer, if it goes on. -/
def missPartbin (buffer : Buffer) : Option MissPartbin :=
  let missAddr := commandAddress buffer 0
  let missSize := commandSize buffer 0
  let missOff := missAddr - upload.destAddr
  if missSize = 0#32 then none
  else if upload.size < missOff + missSize then none
  else some ⟨missAddr, missSize, missOff.toNat, min missSize.toNat (sendBufferLen - netCommandLen - 3)⟩

/-- What the recovery loop sends for the answers it gets; an answer that does not come ends it. -/
def recoverySends : List Buffer → List MissPartbin
  | [] => []
  | buffer :: rest =>
    match upload.missPartbin buffer with
    | some sent => sent :: recoverySends rest
    | none => []

/-- On the wire are the bytes that were copied, behind what is said about them. -/
theorem partbinDatagram_eq (sent : MissPartbin) (buffer : Buffer) (sends : upload.missPartbin buffer = some sent) :
    ∃ pad : List Byte, pad.length ≤ 3 ∧ upload.partbinDatagram sent.missAddr (sent.missAddr - upload.destAddr) sent.missSize =
      netCommand netCmdPartbin sent.missAddr sent.missSize (slice upload.data sent.first sent.count ++ pad) := by
  obtain ⟨pad, short, wire⟩ := sendCmd_eq upload.isWiiLoader netCmdPartbin sent.missAddr sent.missSize
    (fun i => upload.data ((sent.missAddr - upload.destAddr).toNat + i)) sent.missSize.toNat
  simp only [missPartbin] at sends
  split_ifs at sends
  cases sends
  refine ⟨pad, short, wire.trans ?_⟩
  congr 2
  exact slice_congr fun i _ => congrArg _ (by rw [Nat.zero_add])

/-- The head of the recovery loop sends it and waits for the next answer, or the upload is over. -/
theorem recover_eq (sender : Sender) : upload.recover sender =
    match upload.missPartbin sender.buffer with
    | some sent => ((upload.enter sender .recoverDonebin).1,
        upload.partbinDatagram sent.missAddr (sent.missAddr - upload.destAddr) sent.missSize ::
          (upload.enter sender .recoverDonebin).2)
    | none => ({ sender with pc := .returned 0 }, []) := by
  rw [recover, missPartbin]
  dsimp only
  split_ifs <;> rfl

end Upload

/-- Host, console and everything on its way between them. -/
structure UploadSystem where
  sender : Sender
  loader : Client.Loader
  toConsole : List ToConsole
  toHost : List ToHost
  /-- The console has accepted the `LBIN` of this upload. -/
  accepted : Bool

inductive UploadEvent where
  | call
  | streamNext
  | windowElapsed
  | hostReceive (index : ℕ)
  | consoleReceive (index : ℕ) (frame : ℕ) (now : ℕ)
deriving DecidableEq

namespace UploadSystem

variable (target : Client.Target) (upload : Upload) (system : UploadSystem)

/-- The sender moves on and sends. -/
def advance (moved : Sender × List (List Byte)) : UploadSystem :=
  { system with
    sender := moved.1
    toConsole := system.toConsole ++ moved.2.map fun payload => { payload, leftOver := false } }

/-- The datagram is a `LBIN` of this upload that the console acknowledges. -/
def accepts (payload : List Byte) (frame : ℕ) : Bool :=
  let rx := storeAt system.loader.rx frame payload
  isCommand system.loader payload frame netCmdLoadbin && commandAddress rx frame = upload.destAddr &&
    commandSize rx frame = upload.size && upload.size.toNat ≤ Client.loadLimit target system.loader.toolVersion

/-- The console processes a datagram and answers; an answer to `DBIN` is current once the upload has been
accepted. -/
def consoleReceive (payload : List Byte) (frame now : ℕ) : UploadSystem :=
  let done := processed target system.loader payload frame now
  let accepted := system.accepted || system.accepts target upload payload frame
  let current := accepted && isCommand system.loader payload frame netCmdDonebin
  { system with
    loader := done.1
    accepted
    toHost := system.toHost ++ (transmitted done.2).map fun payload => { payload, current } }

end UploadSystem

/-- Host and console over the channel. A console that starts a program or restarts has left the system. -/
def uploadMachine (target : Client.Target) (upload : Upload) :
    Machine.LabeledMachine UploadSystem UploadEvent where
  step system
    | .call =>
      match system.sender.pc with
      | .idle => some (system.advance (upload.call system.sender))
      | _ => none
    | .streamNext =>
      match system.sender.pc with
      | .stream retry offset => some (system.advance (upload.streamNext system.sender retry offset))
      | _ => none
    | .windowElapsed =>
      match system.sender.pc with
      | .sendAndWait stage attempt =>
        some (system.advance (upload.windowElapsed system.sender stage attempt))
      | _ => none
    | .hostReceive index =>
      match system.sender.pc, system.toHost[index]? with
      | .sendAndWait stage _, some datagram =>
        some (system.advance (upload.receive system.sender stage datagram.payload))
      | _, _ => none
    | .consoleReceive index frame now =>
      match system.toConsole[index]? with
      | some datagram =>
        if leavesLoop (processed target system.loader datagram.payload frame now).2 then none
        else some (system.consoleReceive target upload datagram.payload frame now)
      | none => none

end KosTool.Host

/-! # An upload as a function of what happens to it

`network_send_data` of `host/src/transport/network.c`: the sender of an upload by the turns of its stream loops, the windows that
are over and the datagrams it receives, and the split of a large upload to a W5500 into several. Of every `PBIN` is kept which
bytes of the data it has.
-/

namespace KosTool.Host

open ByteWord Protocol

/-- `W5500_UPLOAD_WINDOW_SIZE` -/
def w5500UploadWindowSize : ℕ := 32 * 1024

/-- What happens to the sender. -/
inductive SendEvent where
  | streamNext
  | windowElapsed
  | receive (payload : List Byte)
deriving DecidableEq

/-- The stage waits for the answer that the recovery loop looks at. -/
def UploadStage.recovers : UploadStage → Bool
  | .donebin | .donebinRetry | .recoverDonebin => true
  | .loadbin | .loadbinRetry | .recoverLoadbin => false

/-- What an upload has come to: what it has put on the wire, the `PBIN`s among it, and what it returns. -/
structure Sent where
  wire : List (List Byte)
  partbins : List Upload.MissPartbin
  code : ℤ

namespace Upload

variable (upload : Upload)

/-- The sender goes on. -/
def react (sender : Sender) : SendEvent → Option (Sender × List (List Byte))
  | .streamNext =>
    match sender.pc with
    | .stream retry offset => some (upload.streamNext sender retry offset)
    | _ => none
  | .windowElapsed =>
    match sender.pc with
    | .sendAndWait stage attempt => some (upload.windowElapsed sender stage attempt)
    | _ => none
  | .receive payload =>
    match sender.pc with
    | .sendAndWait stage _ => some (upload.receive sender stage payload)
    | _ => none

/-- The `PBIN` that the stream loop sends at an offset. -/
def streamPartbin (offset : Word) : MissPartbin :=
  let remaining := upload.size - offset
  let sendSize := if upload.chunkSize ≤ remaining then upload.chunkSize else remaining
  ⟨upload.destAddr + offset, sendSize, offset.toNat, min sendSize.toNat (sendBufferLen - netCommandLen - 3)⟩

/-- The `PBIN` that the sender sends as it goes on. -/
def partbin (sender : Sender) : SendEvent → Option MissPartbin
  | .streamNext =>
    match sender.pc with
    | .stream _ offset => if offset < upload.size then some (upload.streamPartbin offset) else none
    | _ => none
  | .windowElapsed => none
  | .receive payload =>
    match sender.pc with
    | .sendAndWait stage _ =>
      if stage.recovers && upload.isReply sender stage payload then upload.missPartbin (received sender payload).buffer else none
    | _ => none

/-- The sender goes on to its return. -/
def reactAll : Sender → List SendEvent → Option Sent
  | sender, [] =>
    match sender.pc with
    | .returned code => some ⟨[], [], code⟩
    | _ => none
  | sender, event :: rest =>
    match upload.react sender event with
    | some (next, wire) =>
      (reactAll next rest).map fun sent =>
        ⟨wire ++ sent.wire, (upload.partbin sender event).toList ++ sent.partbins, sent.code⟩
    | none => none

/-- `network_send_data_once` -/
def networkSendDataOnce (events : List SendEvent) : Option Sent :=
  let called := upload.call { pc := .idle, buffer := fun _ => 0, loadbinRetries := 0 }
  (upload.reactAll called.1 events).map fun sent => { sent with wire := called.2 ++ sent.wire }

/-- The upload of a window of the data. -/
def window (offset chunk : ℕ) : Upload :=
  { upload with
    data := fun i => upload.data (offset + i)
    destAddr := upload.destAddr + BitVec.ofNat 32 offset
    size := BitVec.ofNat 32 chunk }

/-- A `PBIN` of a window as one of the whole. -/
def MissPartbin.inWhole (offset : ℕ) (sent : MissPartbin) : MissPartbin := { sent with first := offset + sent.first }

/-- The windows of an upload from an offset on; the first that fails ends it. -/
def sendWindows : ℕ → List (List SendEvent) → Option Sent
  | offset, [] => if upload.size.toNat ≤ offset then some ⟨[], [], 0⟩ else none
  | offset, events :: rest =>
    if upload.size.toNat ≤ offset then some ⟨[], [], 0⟩
    else
      let chunk := min (upload.size.toNat - offset) w5500UploadWindowSize
      match (upload.window offset chunk).networkSendDataOnce events with
      | none => none
      | some sent =>
        if sent.code ≠ 0 then some ⟨sent.wire, sent.partbins.map (.inWhole offset), -1⟩
        else (sendWindows (offset + chunk) rest).map fun others =>
          ⟨sent.wire ++ others.wire, sent.partbins.map (.inWhole offset) ++ others.partbins, others.code⟩

/-- `network_send_data`, with what happens to each of its uploads. -/
def networkSendData (prepared isW5500 : Bool) (events : List (List SendEvent)) : Option Sent :=
  if upload.size = 0#32 then some ⟨[], [], -1⟩
  else if ¬prepared then some ⟨[], [], -1⟩
  else if ¬isW5500 ∨ upload.size.toNat ≤ w5500UploadWindowSize then
    match events with
    | [] => none
    | events :: _ => upload.networkSendDataOnce events
  else upload.sendWindows 0 events

end Upload

end KosTool.Host
