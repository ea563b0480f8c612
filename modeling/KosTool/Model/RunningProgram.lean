import KosTool.Model.Client.BoundedWait
import KosTool.Model.Host.NetConsole
import KosTool.Model.NetStat
import KosTool.Model.SyscallLink

/-! # A program and its syscalls

The loader while a program runs: the program's syscalls, each with its wait, and the datagrams the adapter's loop
takes while one waits; between two syscalls the program computes and the loader receives nothing. A discovery
request is a `VERS` or `CAPS` datagram like any other. What `CAPS` writes into the information block no syscall
reads. A run ends when the console restarts, or when a refused `LBIN` announces the program's end.
-/

namespace KosTool

open ByteWord DivUtil Protocol Client Client.Loader

/-- What of an adapter the wait depends on. -/
structure ProgramAdapter where
  lossy : Bool
  framesPerPass : ℕ
  /-- The reading a pass compares with the deadline, from the one at its top and a later one. -/
  passReading : ℕ → ℕ → ℕ

/-- The Wii's internal Wi-Fi. -/
def ProgramAdapter.wiiWifi : ProgramAdapter :=
  { lossy := true, framesPerPass := LossyAdapter.wii.framesPerPass, passReading := LossyAdapter.wii.passReading }

/-- Who sent a datagram, and where to. -/
structure DatagramHeader where
  srcMac : BitVec 48
  srcIp : Word
  srcPort : BitVec 16
  destIp : Word
  destPort : BitVec 16
deriving DecidableEq

/-- The addresses and ports the headers of a request are made of. -/
structure NetIdentity where
  toolMac : BitVec 48
  toolIp : Word
  toolPort : BitVec 16
  ourIp : Word
  kosloadSyscallPort : BitVec 16
deriving DecidableEq

/-- The port `cmd_version` sends requests from. -/
def versionPort (toolVersion : Word) (destPort : BitVec 16) : BitVec 16 :=
  if 2#32 ≤ dctoolMajor toolVersion then destPort else 31313

/-- What a datagram's handler makes of the addresses and ports. -/
def NetIdentity.handle (target : Target) (identity : NetIdentity) (loader : Loader) (udp : Udp)
    (header : DatagramHeader) : NetIdentity :=
  if loader.Takes udp netCmdLoadbin then
    if (commandSize loader.rx udp.data).toNat ≤ loadLimit target loader.toolVersion then
      { identity with ourIp := header.destIp }
    else identity
  else if loader.Takes udp netCmdSendbinq ∨ loader.Takes udp netCmdSendbin then { identity with ourIp := header.destIp }
  else if loader.Takes udp netCmdVersion then
    { identity with kosloadSyscallPort := versionPort (commandAddress loader.rx udp.data) header.destPort }
  else if loader.Takes udp netCmdExecute ∧ loader.running = false then
    { identity with
      toolMac := header.srcMac
      toolIp := header.srcIp
      toolPort := header.srcPort
      ourIp := header.destIp }
  else identity

/-- A syscall of the program, by what the loader does for it besides sending its request and waiting. -/
inductive ProgramSyscall where
  | plain (request : List Byte)
  | write (fd buf count : Word)
  | fstat (fd buf : Word)
  | stat (pathname : GuestString) (buf : Word)
  | readdir (dir ourDir : Word)
  | gdbpacket (request : List Byte) (outSize : Word)

/-- The request of a syscall. -/
def ProgramSyscall.request (loader : Loader) : ProgramSyscall → List Byte
  | .plain request | .gdbpacket request _ => request
  | .write fd buf count => loader.writeRequest fd buf count
  | .fstat fd buf => fstatRequest loader fd buf
  | .stat pathname buf => statRequest loader pathname buf
  | .readdir dir ourDir => readdirRequest loader dir ourDir

/-- The loader a syscall returns with. -/
def ProgramSyscall.finish (loader : Loader) : ProgramSyscall → Loader
  | .plain _ | .write _ _ _ | .gdbpacket _ _ => loader
  | .fstat _ buf | .stat _ buf => statReturns loader buf
  | .readdir _ ourDir => (readdirReturns loader ourDir).1

/-- The bytes a syscall hands to the program beside its value and guest memory. -/
def ProgramSyscall.handed (loader : Loader) : ProgramSyscall → List Byte
  | .gdbpacket _ outSize =>
    match loader.syscallData with
    | some start => if loader.syscallRetval ≤ outSize then slice loader.rx start loader.syscallRetval.toNat else []
    | none => []
  | _ => []

/-- What the host and the program see of the loader. -/
inductive Observation where
  /-- A request is sent, under the headers of these addresses. -/
  | request (identity : NetIdentity) (payload : List Byte)
  /-- A wait begins, with a deadline or without. -/
  | waits (deadline : Option ℕ)
  /-- A datagram is answered from these addresses, and is accepted as the answer or not. -/
  | handled (identity : NetIdentity) (effects : List Effect) (accepted : Bool)
  /-- A syscall returns. -/
  | result (value : Word) (handed : List Byte) (memory : Memory)

/-- The loader, the syscall in flight, the addresses, those in the saved request, and what has been observed.
Whether a discovery request has arrived, and how many in the pass under way, the code does not know. -/
structure ProgramSession where
  wait : BoundedWait
  call : ProgramSyscall
  identity : NetIdentity
  saved : NetIdentity
  log : List Observation
  discovered : Bool
  passDiscoveries : ℕ

/-- A discovery request: `VERS`, or `CAPS`, with any field, any size and any data. -/
structure Discovery where
  capabilities : Bool
  field : Word
  size : Word
  data : List Byte
  frame : ℕ

/-- The datagram of a discovery request. -/
def Discovery.arrival (discovery : Discovery) : Arrival :=
  { Arrival.intact (netCommand (if discovery.capabilities then netCmdCapabilities else netCmdVersion) discovery.field
      discovery.size discovery.data) with frame := discovery.frame }

inductive ProgramEvent where
  | syscall (call : ProgramSyscall)
  | begin (now : ℕ)
  | attempt (now : ℕ)
  | iterate (now : ℕ)
  | frame (header : DatagramHeader) (arrival : Arrival) (now : ℕ)
  | discovery (header : DatagramHeader) (request : Discovery) (now : ℕ)
  | escape
  | endPass (now : ℕ)
  | test (now : ℕ)

/-- The event is no discovery request. -/
def ProgramEvent.isOther : ProgramEvent → Bool
  | .discovery _ _ _ => false
  | _ => true

namespace ProgramSession

variable (target : Target) (ticksPerSecond : Word) (session : ProgramSession)

/-- The program makes a syscall. -/
def issue (call : ProgramSyscall) : ProgramSession :=
  let built := session.wait.loader.buildSendPacket (call.request session.wait.loader)
  { session with
    wait := BoundedWait.called built.1
    call
    saved := session.identity
    log := session.log ++ (Host.transmitted built.2).map (Observation.request session.identity) }

/-- The deadline of a wait in its loop. -/
def deadline (wait : BoundedWait) : Option ℕ :=
  match wait.pc with
  | .loop _ deadline => deadline
  | _ => none

/-- A wait begins: a reliable transport is waited for without a deadline. -/
def start (adapter : ProgramAdapter) (now : ℕ) : ProgramSession :=
  let wait := if adapter.lossy then session.wait.start ticksPerSecond now else { session.wait with pc := .loop 0 none }
  { session with wait, log := session.log ++ [.waits (deadline wait)] }

/-- A datagram is handled, with nothing observed. -/
def takeUnseen (retry : ℕ) (deadline : Option ℕ) (top received : ℕ) (header : DatagramHeader) (arrival : Arrival)
    (now : ℕ) : ProgramSession :=
  { session with
    wait := session.wait.take target retry deadline top received arrival now
    identity := session.identity.handle target (session.wait.loader.receiving arrival) arrival.udp header }

/-- A datagram is handled. -/
def take (retry : ℕ) (deadline : Option ℕ) (top received : ℕ) (header : DatagramHeader) (arrival : Arrival)
    (now : ℕ) : ProgramSession :=
  let loader := session.wait.loader.receiving arrival
  let next := session.takeUnseen target retry deadline top received header arrival now
  { next with
    log := session.log ++
      [.handled next.identity (loader.processUdp target arrival.udp now).2 (decide (loader.AcceptsRetval arrival.udp))] }

/-- A discovery request is handled. -/
def discover (retry : ℕ) (deadline : Option ℕ) (top received : ℕ) (header : DatagramHeader) (request : Discovery)
    (now : ℕ) : ProgramSession :=
  { session.takeUnseen target retry deadline top received header request.arrival now with
    discovered := true
    passDiscoveries := session.passDiscoveries + 1 }

/-- The syscall returns to the program. -/
def finish (loader : Loader) : ProgramSession :=
  let finished := session.call.finish loader
  { session with
    wait := { session.wait with pc := .returned, loader := finished }
    log := session.log ++
      [.result finished.syscallRetval (session.call.handed finished) finished.memory] }

/-- After the adapter's loop: the syscall returns, or its request is sent again. -/
def test (retry : ℕ) (deadline : Option ℕ) (now : ℕ) : ProgramSession :=
  let wait := session.wait.test retry deadline now
  if wait.pc = .returned then { session with wait }.finish wait.loader
  else { session with wait, log := session.log ++ [.request session.saved session.wait.loader.kosSyscallSavePkt] }

end ProgramSession

/-- The loader while a program runs. -/
def programMachine (adapter : ProgramAdapter) (ticksPerSecond : Word) (target : Target) :
    Machine.LabeledMachine ProgramSession ProgramEvent where
  step session
    | .syscall call =>
      match session.wait.pc with
      | .returned => some (session.issue call)
      | _ => none
    | .begin now =>
      match session.wait.pc with
      | .call => some (session.start ticksPerSecond adapter now)
      | _ => none
    | .attempt now =>
      match session.wait.pc with
      | .arm retry => some { session with wait := session.wait.attempt ticksPerSecond retry now }
      | _ => none
    | .iterate now =>
      match session.wait.pc with
      | .loop retry deadline =>
        if session.wait.loader.escapeLoop then some { session with wait := session.wait.leave retry deadline }
        else some { session with wait := { session.wait with pc := .pass retry deadline now 0 }, passDiscoveries := 0 }
      | _ => none
    | .frame header arrival now =>
      match session.wait.pc with
      | .pass retry deadline top received =>
        let effects := ((session.wait.loader.receiving arrival).processUdp target arrival.udp now).2
        if received < adapter.framesPerPass ∧ ¬ Host.leavesLoop effects ∧ ¬ announcesExit effects then
          some (session.take target retry deadline top received header arrival now)
        else none
      | _ => none
    | .discovery header request now =>
      match session.wait.pc with
      | .pass retry deadline top received =>
        if received < adapter.framesPerPass then
          some (session.discover target retry deadline top received header request now)
        else none
      | _ => none
    | .escape =>
      match session.wait.pc with
      | .pass _ _ _ _ =>
        some { session with wait := { session.wait with loader := { session.wait.loader with escapeLoop := true } } }
      | _ => none
    | .endPass now =>
      match session.wait.pc with
      | .pass retry deadline top received =>
        if received = 0 ∧ session.wait.loader.loopDeadlineTicks ≠ 0 ∧
            session.wait.loader.loopDeadlineTicks ≤ adapter.passReading top now then
          some { session with wait := session.wait.leave retry deadline }
        else some { session with wait := { session.wait with pc := .loop retry deadline } }
      | _ => none
    | .test now =>
      match session.wait.pc with
      | .left retry deadline => some (session.test retry deadline now)
      | _ => none

end KosTool
