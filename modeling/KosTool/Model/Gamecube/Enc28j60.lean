import KosTool.Machine.Run
import KosTool.Math.ByteOrder
import KosTool.Math.RingStore

/-! # The receive ring of the ENC28J60

`client/gamecube/net/enc28j60.c` with what `cmd_execute` and `cmd_loadbin` do to the adapter. The controller writes a
frame behind its status vector at `ERXWRPT` if it fits before `ERXRDPT`, and counts it; programming `ERXST` sets
`ERXWRPT` back, and a reset clears the counter. A call of `enc28j60_rx` stands at its loop, or in `process_pkt` with
what is still to be done to the ring; calls nest where a handler makes a syscall. A program uses the adapter through
its syscalls only, and every initialisation finds the controller. What the controller has stored, what is not consumed
and what `process_pkt` was given is kept beside the variables of the driver, with the writes of `PKTDEC`.
-/

namespace KosTool.Gamecube

open ByteWord ByteOrder RingStore Machine

/-- `ENC_RX_START` and `ENC_RX_END`. -/
abbrev encRxStart : BitVec 16 := 0x0000
abbrev encRxEnd : BitVec 16 := 0x0FFF
/-- How many bytes the receive buffer has. -/
abbrev encRxSize : ℕ := 4096
/-- `RX_PKT_BUF_SIZE`. -/
abbrev rxPktBufSize : ℕ := 1514
/-- How many frames `EPKTCNT` counts. -/
abbrev epktcntMax : ℕ := 255

/-- A frame with its CRC, and the status bits the controller gives it. -/
structure RxFrame where
  bytes : List Byte
  status : BitVec 16
deriving DecidableEq

/-- The received ok bit of the status, and a reasonable length. -/
def rxAccepts (pktLen pktStatus : BitVec 16) : Bool :=
  pktStatus &&& 0x0080 ≠ 0 && decide (18 ≤ pktLen.toNat ∧ pktLen.toNat ≤ rxPktBufSize + 4)

namespace RxFrame

/-- What a frame takes of the buffer. -/
def size (frame : RxFrame) : ℕ := 6 + (frame.bytes.length + frame.bytes.length % 2)

/-- The status vector and the frame, as they are put down from a place on. -/
def image (frame : RxFrame) (start : ℕ) : List Byte :=
  little.bytes16 (BitVec.ofNat 16 ((start + frame.size) % encRxSize)) ++
    little.bytes16 (BitVec.ofNat 16 frame.bytes.length) ++ little.bytes16 frame.status ++ frame.bytes

def accepted (frame : RxFrame) : Bool := rxAccepts (BitVec.ofNat 16 frame.bytes.length) frame.status

/-- The frame without its CRC. -/
def payload (frame : RxFrame) : List Byte := frame.bytes.take (frame.bytes.length - 4)

end RxFrame

/-- A frame in the buffer: the how manieth it is, and where it starts. -/
structure StoredFrame where
  index : ℕ
  start : ℕ
  frame : RxFrame
deriving DecidableEq

/-- What the handler of a frame is at. -/
inductive Handler where
  /-- It makes no syscall, or none yet. -/
  | other
  /-- `cmd_loadbin` refuses an image and tells the console. -/
  | refuses
  /-- `cmd_execute` runs the program. -/
  | program
  /-- `cmd_execute` has restarted the adapter behind the program. -/
  | restarted
deriving DecidableEq, Repr

/-- A call of `enc28j60_rx`: at its loop, or in `process_pkt` with a frame and `pkt_next`. -/
inductive EncRxCall where
  | loop
  | handling (index : Option ℕ) (pktNext : BitVec 16) (handler : Handler)
deriving DecidableEq

/-- The controller and its driver. -/
structure Enc28j60 where
  memory : Buffer
  erxwrpt : ℕ
  erxrdpt : BitVec 16
  epktcnt : ℕ
  rxen : Bool
  nextPktPtr : BitVec 16
  running : Bool
  /-- The calls of `enc28j60_rx`, innermost first. -/
  calls : List EncRxCall
  /-- The frames that the controller has stored, and those that are not consumed. -/
  arrived : List RxFrame
  waiting : List StoredFrame
  /-- What `process_pkt` was given. -/
  handed : List (List Byte)
  /-- How often `PKTDEC` was written, and how many frames a reset has taken off the counter. -/
  decrements : ℕ
  flushed : ℕ

/-- `enc_rx_next_valid`. -/
def encRxNextValid (ptr : BitVec 16) : Bool := decide (ptr ≤ encRxEnd ∧ ptr &&& 1 = 0)

namespace Enc28j60

/-- How much room the controller finds between `ERXWRPT` and `ERXRDPT`. -/
def free (enc : Enc28j60) : ℕ :=
  if enc.erxrdpt.toNat < enc.erxwrpt then encRxSize - 1 - (enc.erxwrpt - enc.erxrdpt.toNat)
  else if enc.erxwrpt = enc.erxrdpt.toNat then encRxSize - 1
  else enc.erxrdpt.toNat - enc.erxwrpt - 1

/-- The controller takes a frame from the wire, and drops it where it cannot store it. -/
def receive (enc : Enc28j60) (frame : RxFrame) : Enc28j60 :=
  if enc.rxen = true ∧ enc.epktcnt < epktcntMax ∧ frame.size ≤ enc.free then
    { enc with
      memory := put encRxSize enc.memory enc.erxwrpt (frame.image enc.erxwrpt)
      erxwrpt := (enc.erxwrpt + frame.size) % encRxSize
      epktcnt := enc.epktcnt + 1
      arrived := enc.arrived ++ [frame]
      waiting := enc.waiting ++ [⟨enc.arrived.length, enc.erxwrpt, frame⟩] }
  else enc

/-- The pointers as `enc28j60_init` and `enc_rearm_rx_ring` program them. -/
def programRing (enc : Enc28j60) : Enc28j60 :=
  { enc with erxwrpt := 0, erxrdpt := encRxEnd, nextPktPtr := encRxStart, waiting := [] }

/-- `enc28j60_init`. -/
def init (enc : Enc28j60) : Enc28j60 :=
  { enc.programRing with rxen := false, epktcnt := 0, flushed := enc.flushed + enc.waiting.length }

/-- `enc28j60_start`. -/
def start (enc : Enc28j60) : Enc28j60 := { enc with rxen := true }

/-- `enc28j60_stop`. -/
def stop (enc : Enc28j60) : Enc28j60 := { enc with rxen := false }

/-- `enc_rearm_runtime`: at most 255 times the counter is taken down. -/
def rearmRuntime (enc : Enc28j60) : Enc28j60 :=
  { enc.programRing with
    rxen := true
    epktcnt := enc.epktcnt - 255
    decrements := enc.decrements + min enc.epktcnt 255 }

/-- The rest of the loop's body behind `process_pkt`. -/
def consume (enc : Enc28j60) (index : Option ℕ) (pktNext : BitVec 16) : Enc28j60 :=
  { enc with
    nextPktPtr := pktNext
    erxrdpt := if pktNext = encRxStart then encRxEnd else pktNext - 1
    epktcnt := enc.epktcnt - 1
    waiting := enc.waiting.filter fun entry => some entry.index ≠ index
    decrements := enc.decrements + 1 }

/-- The frame that starts at `next_pkt_ptr`. -/
def current (enc : Enc28j60) : Option ℕ :=
  (enc.waiting.find? fun entry => entry.start = enc.nextPktPtr.toNat).map StoredFrame.index

/-- The loop of `enc28j60_rx` up to `process_pkt`, or once round. -/
def rxStep (enc : Enc28j60) (outer : List EncRxCall) : Enc28j60 :=
  if enc.epktcnt = 0 then { enc with calls := outer }
  else
    let view := around encRxSize enc.memory enc.nextPktPtr.toNat
    let pktNext := little.load16 view 0
    let pktLen := little.load16 view 2
    let pktStatus := little.load16 view 4
    if encRxNextValid pktNext = false ∨ rxPktBufSize + 4 < pktLen.toNat then { enc.rearmRuntime with calls := outer }
    else if rxAccepts pktLen pktStatus then
      { enc with
        handed := enc.handed ++ [slice view 6 (pktLen.toNat - 4)]
        calls := .handling enc.current pktNext .other :: outer }
    else enc.consume enc.current pktNext

/-- What happens to the controller and the driver. -/
inductive Event where
  | receive (frame : RxFrame)
  /-- `enc28j60_loop` calls `enc28j60_rx`, from the main loop or for a syscall of a handler. -/
  | poll
  /-- The innermost call goes on at its loop. -/
  | rx
  /-- The innermost `process_pkt` returns. -/
  | returns
  /-- The loader or the innermost handler starts or stops the adapter, or the loader initialises it. -/
  | start
  | stop
  | init
  /-- The handler is `cmd_loadbin` and refuses the image. -/
  | refuse
  /-- The handler is `cmd_execute` and runs the program. -/
  | execute
  /-- The program returns to `cmd_execute`, which restarts the adapter. -/
  | programReturns
deriving DecidableEq

/-- One event. -/
def step (enc : Enc28j60) : Event → Option Enc28j60
  | .receive frame => some (enc.receive frame)
  | .poll =>
    match enc.calls with
    | [] | .handling _ _ .refuses :: _ | .handling _ _ .program :: _ => some { enc with calls := .loop :: enc.calls }
    | _ => none
  | .rx =>
    match enc.calls with
    | .loop :: outer => some (enc.rxStep outer)
    | _ => none
  | .returns =>
    match enc.calls with
    | .handling _ _ .program :: _ => none
    | .handling index pktNext _ :: outer => some { enc.consume index pktNext with calls := .loop :: outer }
    | _ => none
  | .start =>
    match enc.calls with
    | .loop :: _ => none
    | _ => some enc.start
  | .stop =>
    match enc.calls with
    | .loop :: _ => none
    | _ => some enc.stop
  | .init =>
    match enc.calls with
    | [] => some enc.init
    | _ => none
  | .refuse =>
    match enc.calls with
    | .handling index pktNext .other :: outer =>
      some { enc with calls := .handling index pktNext .refuses :: outer }
    | _ => none
  | .execute =>
    match enc.calls with
    | .handling index pktNext .other :: outer =>
      if enc.running then none
      else some { enc.stop with running := true, calls := .handling index pktNext .program :: outer }
    | _ => none
  | .programReturns =>
    match enc.calls with
    | .handling index pktNext .program :: outer =>
      some { enc.stop.init.start with running := false, calls := .handling index pktNext .restarted :: outer }
    | _ => none

/-- The adapter after its first initialisation, whatever its buffer holds. -/
def initial (memory : Buffer) : Enc28j60 where
  memory := memory
  erxwrpt := 0
  erxrdpt := encRxEnd
  epktcnt := 0
  rxen := false
  nextPktPtr := encRxStart
  running := false
  calls := []
  arrived := []
  waiting := []
  handed := []
  decrements := 0
  flushed := 0

end Enc28j60

/-- The machine of the adapter. -/
def enc28j60 : LabeledMachine Enc28j60 Enc28j60.Event where
  step := Enc28j60.step

end KosTool.Gamecube
