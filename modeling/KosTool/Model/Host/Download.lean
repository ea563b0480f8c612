import KosTool.Machine.Run
import KosTool.Model.Host.Channel

/-! # Downloading memory

`network_recv_data` of `host/src/transport/network.c` as a state machine, from the end of `prepare_comms`
on: it streams the answer to its request, then asks again for the chunks that are missing, one in every
pass. Time is in the events: a window may be over at any moment.
-/

namespace KosTool.Host

open ByteWord Protocol

def maxRecvRerequests : ℕ := 10
def wiiRecvFastRerequests : ℕ := 10
def wiiRecvSlowRerequests : ℕ := 1

/-- The arguments of the download and the parts of the context it reads. -/
structure Download where
  srcAddr : Word
  size : Word
  quiet : Bool
  legacyMode : Bool
  isWiiLoader : Bool

/-- Where the receiver stands. -/
inductive DownloadPc where
  | idle
  | stream (packets : ℕ)
  | pass (c passes stalled : ℕ)
  | returned (code : Int)
deriving DecidableEq, Repr

structure Receiver where
  pc : DownloadPc
  buffer : Buffer
  data : Buffer
  map : ℕ → Bool

namespace Download

variable (download : Download)

/-- `chunk_size`. -/
def chunkSize : Word := if download.legacyMode then 1024#32 else 1440#32

/-- `num_chunks`. -/
def numChunks : Word := (download.size + download.chunkSize - 1#32) / download.chunkSize

/-- `max_rerequests`. -/
def maxRerequests : ℕ :=
  if download.isWiiLoader then wiiRecvFastRerequests + wiiRecvSlowRerequests else maxRecvRerequests

/-- `max_passes`. -/
def maxPasses : ℕ := download.numChunks.toNat + download.maxRerequests

/-- The request for the whole range. -/
def request : List Byte :=
  sendCmd download.isWiiLoader (if download.quiet then netCmdSendbinq else netCmdSendbin) download.srcAddr
    download.size (fun _ => 0) 0

/-- The request for one chunk. -/
def rerequest (c : ℕ) : List Byte :=
  let offset := BitVec.ofNat 32 c * download.chunkSize
  let remaining := download.size - offset
  sendCmd download.isWiiLoader netCmdSendbinq (download.srcAddr + offset)
    (if download.chunkSize ≤ remaining then download.chunkSize else remaining) (fun _ => 0) 0

/-- How far above the source address the packet in the buffer points. -/
def packetOffset (buffer : Buffer) : Word := commandAddress buffer 0 - download.srcAddr

/-- The chunk index of the packet in the buffer. -/
def chunkIdx (buffer : Buffer) : Word := download.packetOffset buffer / download.chunkSize

/-- The packet in the buffer is a `SBIN` inside the transfer. -/
def InTransfer (buffer : Buffer) : Prop :=
  ¬ (commandAddress buffer 0 < download.srcAddr ∨ download.srcAddr + download.size ≤ commandAddress buffer 0 ∨
    download.chunkSize < commandSize buffer 0 ∨
    download.srcAddr + download.size - commandAddress buffer 0 < commandSize buffer 0 ∨
    download.numChunks ≤ download.chunkIdx buffer)

instance (buffer : Buffer) : Decidable (download.InTransfer buffer) := inferInstanceAs (Decidable (¬ _))

/-- A `SBIN` inside the transfer is copied, and its chunk counts as received. -/
def copyPacket (receiver : Receiver) : Receiver :=
  { receiver with
    map := Client.mapSet receiver.map (download.chunkIdx receiver.buffer).toNat
    data := storeAt receiver.data (download.packetOffset receiver.buffer).toNat
      (slice receiver.buffer netCommandLen (commandSize receiver.buffer 0).toNat) }

/-- The head of the loop over the chunks: ask for the first one missing, or return. -/
def nextPass (receiver : Receiver) (passes stalled : ℕ) : Receiver × List (List Byte) :=
  let c := Client.mapScan receiver.map 0 download.numChunks.toNat
  if c = download.numChunks.toNat then ({ receiver with pc := .returned 0 }, [])
  else ({ receiver with pc := .pass c passes stalled }, [download.rerequest c])

/-- The end of a pass. -/
def passOver (receiver : Receiver) (c passes stalled : ℕ) : Receiver × List (List Byte) :=
  let stalled := if receiver.map c then 0 else stalled + 1
  if download.maxRerequests ≤ stalled ∨ download.maxPasses ≤ passes + 1 then
    ({ receiver with pc := .returned (-1) }, [])
  else download.nextPass receiver (passes + 1) stalled

/-- A packet of the stream has been counted. -/
def streamed (receiver : Receiver) (packets : ℕ) : Receiver × List (List Byte) :=
  if packets + 1 < (download.numChunks + 1#32).toNat then ({ receiver with pc := .stream (packets + 1) }, [])
  else download.nextPass receiver 0 0

/-- `network_recv_data` has opened communication and makes its request. -/
def call (receiver : Receiver) : Receiver × List (List Byte) :=
  ({ receiver with pc := .stream 0, map := fun _ => false }, [download.request])

/-- A datagram is received in the stream loop, which clears the buffer every time. -/
def streamReceive (receiver : Receiver) (packets : ℕ) (payload : List Byte) : Receiver × List (List Byte) :=
  let receiver := { receiver with buffer := storeAt (fun _ => 0) 0 (payload.take receiveBufferLen) }
  if payload = [] then (receiver, [])
  else if commandId receiver.buffer 0 = netCmdSendbin then
    if download.InTransfer receiver.buffer then download.streamed (download.copyPacket receiver) packets
    else (receiver, [])
  else if commandId receiver.buffer 0 = netCmdDonebin then download.streamed receiver packets
  else (receiver, [])

/-- A datagram is received in a pass, on top of what the buffer held. -/
def passReceive (receiver : Receiver) (c passes stalled : ℕ) (payload : List Byte) :
    Receiver × List (List Byte) :=
  if payload = [] then download.passOver receiver c passes stalled
  else
    let receiver := { receiver with buffer := storeAt receiver.buffer 0 (payload.take receiveBufferLen) }
    if commandId receiver.buffer 0 = netCmdSendbin then
      if download.InTransfer receiver.buffer then
        let receiver := download.copyPacket receiver
        if receiver.map c then download.passOver receiver c passes stalled else (receiver, [])
      else (receiver, [])
    else if commandId receiver.buffer 0 = netCmdDonebin then
      if receiver.map c then download.passOver receiver c passes stalled else (receiver, [])
    else (receiver, [])

end Download

/-- A request the console has serviced, with guest memory as it read it. -/
structure Served where
  address : Word
  size : Word
  memory : Memory

/-- Host, console and everything on its way between them. -/
structure DownloadSystem where
  receiver : Receiver
  loader : Client.Loader
  toConsole : List ToConsole
  toHost : List ToHost
  /-- The requests of this transfer that the console has serviced. -/
  served : List Served

inductive DownloadEvent where
  | call
  | windowElapsed
  | hostReceive (index : ℕ)
  | consoleReceive (index : ℕ) (frame : ℕ) (now : ℕ)
deriving DecidableEq

namespace DownloadSystem

variable (target : Client.Target) (system : DownloadSystem)

/-- The receiver moves on and sends. -/
def advance (moved : Receiver × List (List Byte)) : DownloadSystem :=
  { system with
    receiver := moved.1
    toConsole := system.toConsole ++ moved.2.map fun payload => { payload, leftOver := false } }

/-- The datagram is a request of this transfer. -/
def serves (datagram : ToConsole) (frame : ℕ) : Bool :=
  !datagram.leftOver && (isCommand system.loader datagram.payload frame netCmdSendbinq ||
    isCommand system.loader datagram.payload frame netCmdSendbin)

/-- The console processes a datagram and answers; an answer to a request of this transfer is current. -/
def consoleReceive (datagram : ToConsole) (frame now : ℕ) : DownloadSystem :=
  let done := processed target system.loader datagram.payload frame now
  let rx := storeAt system.loader.rx frame datagram.payload
  let current := system.serves datagram frame
  { system with
    loader := done.1
    served :=
      if current then
        system.served ++ [⟨commandAddress rx frame, commandSize rx frame, system.loader.memory⟩]
      else system.served
    toHost := system.toHost ++ (transmitted done.2).map fun payload => { payload, current } }

end DownloadSystem

/-- Host and console over the channel. A console that starts a program or restarts has left the system. -/
def downloadMachine (target : Client.Target) (download : Download) :
    Machine.LabeledMachine DownloadSystem DownloadEvent where
  step system
    | .call =>
      match system.receiver.pc with
      | .idle => some (system.advance (download.call system.receiver))
      | _ => none
    | .windowElapsed =>
      match system.receiver.pc with
      | .stream _ => some (system.advance (download.nextPass system.receiver 0 0))
      | .pass c passes stalled => some (system.advance (download.passOver system.receiver c passes stalled))
      | _ => none
    | .hostReceive index =>
      match system.receiver.pc, system.toHost[index]? with
      | .stream packets, some datagram =>
        some (system.advance (download.streamReceive system.receiver packets datagram.payload))
      | .pass c passes stalled, some datagram =>
        some (system.advance (download.passReceive system.receiver c passes stalled datagram.payload))
      | _, _ => none
    | .consoleReceive index frame now =>
      match system.toConsole[index]? with
      | some datagram =>
        if leavesLoop (processed target system.loader datagram.payload frame now).2 then none
        else some (system.consoleReceive target datagram frame now)
      | none => none

end KosTool.Host

/-! # A download as a function of what arrives

`network_recv_data` of `host/src/transport/network.c` on the datagrams that it receives in the stream and in each pass, for any
bound on passes without progress. A window is over when what arrives in it is. The loop over missing chunks comes to nothing only
where the turns it is given do not reach.
-/

namespace KosTool.Host.Download

open ByteWord Protocol

variable (download : Download)

/-- A datagram is received in a pass, on top of what the buffer held; whether the pass is over. -/
def takeReply (receiver : Receiver) (c : ℕ) (payload : List Byte) : Receiver × Bool :=
  if payload = [] then (receiver, true)
  else
    let receiver := { receiver with buffer := storeAt receiver.buffer 0 (payload.take receiveBufferLen) }
    if commandId receiver.buffer 0 = netCmdSendbin then
      if download.InTransfer receiver.buffer then
        let receiver := download.copyPacket receiver
        (receiver, receiver.map c)
      else (receiver, false)
    else if commandId receiver.buffer 0 = netCmdDonebin then (receiver, receiver.map c)
    else (receiver, false)

/-- The receive loop of a pass. -/
def takeReplies (receiver : Receiver) (c : ℕ) : List (List Byte) → Receiver
  | [] => receiver
  | payload :: rest =>
    let taken := download.takeReply receiver c payload
    if taken.2 then taken.1 else takeReplies taken.1 c rest

/-- What the loop has come to. -/
structure Stopped where
  receiver : Receiver
  passes : ℕ
  code : ℤ

/-- The loop over the chunks, with the replies of each pass. -/
def rerequestLoop (maxRerequests : ℕ) (replies : ℕ → List (List Byte)) : ℕ → Receiver → ℕ → ℕ → Option Stopped
  | 0, _, _, _ => none
  | turns + 1, receiver, passes, stalled =>
    let c := Client.mapScan receiver.map 0 download.numChunks.toNat
    if c = download.numChunks.toNat then some ⟨receiver, passes, 0⟩
    else
      let receiver := download.takeReplies receiver c (replies passes)
      let stalled := if receiver.map c then 0 else stalled + 1
      if maxRerequests ≤ stalled ∨ download.numChunks.toNat + maxRerequests ≤ passes + 1 then
        some ⟨receiver, passes + 1, -1⟩
      else rerequestLoop maxRerequests replies turns receiver (passes + 1) stalled

/-- A datagram is received in the stream loop; whether it counts. -/
def takeStreamed (receiver : Receiver) (payload : List Byte) : Receiver × Bool :=
  let receiver := { receiver with buffer := storeAt (fun _ => 0) 0 (payload.take receiveBufferLen) }
  if payload = [] then (receiver, false)
  else if commandId receiver.buffer 0 = netCmdSendbin then
    if download.InTransfer receiver.buffer then (download.copyPacket receiver, true) else (receiver, false)
  else if commandId receiver.buffer 0 = netCmdDonebin then (receiver, true)
  else (receiver, false)

/-- The stream loop, which ends with its window or one packet after the last chunk. -/
def streamLoop (receiver : Receiver) (packets : ℕ) : List (List Byte) → Receiver
  | [] => receiver
  | payload :: rest =>
    let taken := download.takeStreamed receiver payload
    let packets := if taken.2 then packets + 1 else packets
    if packets < (download.numChunks + 1#32).toNat then streamLoop taken.1 packets rest else taken.1

/-- `network_recv_data` into memory, from the end of `prepare_comms` on. -/
def networkRecvData (maxRerequests : ℕ) (data : Buffer) (stream : List (List Byte)) (replies : ℕ → List (List Byte)) :
    Option Stopped :=
  let receiver := download.streamLoop { pc := .idle, buffer := fun _ => 0, data, map := fun _ => false } 0 stream
  download.rerequestLoop maxRerequests replies (download.numChunks.toNat + maxRerequests) receiver 0 0

/-- What the stream loop does with a datagram is what the download does with it. -/
theorem streamReceive_eq (receiver : Receiver) (packets : ℕ) (payload : List Byte) :
    download.streamReceive receiver packets payload =
      if (download.takeStreamed receiver payload).2 then download.streamed (download.takeStreamed receiver payload).1 packets
      else ((download.takeStreamed receiver payload).1, []) := by
  rw [streamReceive, takeStreamed]
  by_cases empty : payload = []
  · simp only [if_pos empty, Bool.false_eq_true, if_false]
  simp only [if_neg empty]
  by_cases sendbin : commandId (storeAt (fun _ => 0) 0 (payload.take receiveBufferLen)) 0 = netCmdSendbin
  · simp only [if_pos sendbin]
    by_cases inside : download.InTransfer (storeAt (fun _ => 0) 0 (payload.take receiveBufferLen))
    · simp only [if_pos inside, if_true]
    · simp only [if_neg inside, Bool.false_eq_true, if_false]
  · simp only [if_neg sendbin]
    by_cases donebin : commandId (storeAt (fun _ => 0) 0 (payload.take receiveBufferLen)) 0 = netCmdDonebin
    · simp only [if_pos donebin, if_true]
    · simp only [if_neg donebin, Bool.false_eq_true, if_false]

/-- What a pass does with a datagram is what the download does with it. -/
theorem passReceive_eq (receiver : Receiver) (c passes stalled : ℕ) (payload : List Byte) :
    download.passReceive receiver c passes stalled payload =
      if (download.takeReply receiver c payload).2 then
        download.passOver (download.takeReply receiver c payload).1 c passes stalled
      else ((download.takeReply receiver c payload).1, []) := by
  rw [passReceive, takeReply]
  by_cases empty : payload = []
  · simp only [if_pos empty, if_true]
  simp only [if_neg empty]
  by_cases sendbin : commandId (storeAt receiver.buffer 0 (payload.take receiveBufferLen)) 0 = netCmdSendbin
  · simp only [if_pos sendbin]
    by_cases inside : download.InTransfer (storeAt receiver.buffer 0 (payload.take receiveBufferLen))
    · simp only [if_pos inside]
    · simp only [if_neg inside, Bool.false_eq_true, if_false]
  · simp only [if_neg sendbin]
    by_cases donebin : commandId (storeAt receiver.buffer 0 (payload.take receiveBufferLen)) 0 = netCmdDonebin
    · simp only [if_pos donebin]
    · simp only [if_neg donebin, Bool.false_eq_true, if_false]

end KosTool.Host.Download
