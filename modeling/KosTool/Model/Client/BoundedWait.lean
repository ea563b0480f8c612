import KosTool.Model.Client.SyscallWait
import KosTool.Model.Host.Channel

/-! # The wait for a `RETV`, turn by turn

`kos_syscall_wait_for_retval` on a lossy adapter with the receive loops it runs, `wii_adapter_loop` and
`nvnet_loop`. Every clock reading is an input, and so is every frame. A frame that holds no datagram for the
loader is a damaged one: it leaves the receive memory changed and nothing else. A refused `LBIN` makes a syscall
of its own, with a wait inside the handler, and leaves whatever that leaves; a restart of the console ends the run.
-/

namespace KosTool.Client

open ByteWord Protocol

/-- The adapters that can be lossy. -/
inductive LossyAdapter where
  | wii
  | nvnet
deriving DecidableEq, Repr

/-- `RX_RING`. -/
def rxRing : ℕ := 16

/-- How many frames one pass of the adapter's loop takes at most. -/
def LossyAdapter.framesPerPass : LossyAdapter → ℕ
  | .wii => 1
  | .nvnet => rxRing + 1

/-- The reading a pass compares with the deadline: the one at its top, or one of its own. -/
def LossyAdapter.passReading : LossyAdapter → ℕ → ℕ → ℕ
  | .wii, top, _ => top
  | .nvnet, _, now => now

/-- What a syscall finds once its wait is over: `syscall_retval`, `syscall_data` and `syscall_data_len`. -/
structure RetvalAnswer where
  value : Word
  data : Option ℕ
  dataLen : ℕ
deriving DecidableEq, Repr

/-- What a wait that has given up leaves. -/
def noAnswer : RetvalAnswer := { value := -1, data := none, dataLen := 0 }

namespace Loader

/-- The answer the loader holds. -/
def answer (loader : Loader) : RetvalAnswer :=
  { value := loader.syscallRetval, data := loader.syscallData, dataLen := loader.syscallDataLen }

/-- The datagram is a `RETV` that `cmd_retval` accepts. -/
def AcceptsRetval (loader : Loader) (udp : Udp) : Prop :=
  loader.Takes udp netCmdRetval ∧ loader.running = true ∧
    ¬ (loader.Trailered udp ∧ loader.echoed udp ≠ loader.kosSyscallSeq)

instance (loader : Loader) (udp : Udp) : Decidable (loader.AcceptsRetval udp) :=
  inferInstanceAs (Decidable (_ ∧ _ ∧ ¬ (_ ∧ _)))

/-- The answer a `RETV` brings. -/
def announced (loader : Loader) (udp : Udp) : RetvalAnswer :=
  let dataLen := udp.length.toNat - udpHeaderLen - netCommandLen
  { value := commandAddress loader.rx udp.data
    data := some (commandData udp.data)
    dataLen :=
      if loader.Trailered udp ∧ netSeqTrailerLen ≤ dataLen then dataLen - netSeqTrailerLen else dataLen }

end Loader

/-- Where the wait stands: called, before another attempt, at the test of the adapter's loop, in a pass of it
with the clock at its top and the frames it has taken, after the loop, or returned. Without a deadline the wait
goes on for ever. -/
inductive BoundedPc where
  | call
  | arm (retry : ℕ)
  | loop (retry : ℕ) (deadline : Option ℕ)
  | pass (retry : ℕ) (deadline : Option ℕ) (top received : ℕ)
  | left (retry : ℕ) (deadline : Option ℕ)
  | returned
deriving DecidableEq, Repr

/-- The wait, the loader, and the answers of the `RETV` datagrams accepted during the wait. -/
structure BoundedWait where
  pc : BoundedPc
  loader : Loader
  accepted : List RetvalAnswer

inductive WaitEvent where
  | begin (now : ℕ)
  | attempt (now : ℕ)
  | iterate (now : ℕ)
  | frame (arrival : Arrival) (now : ℕ)
  /-- An `LBIN` is refused, and its handler's own syscall leaves the loader as given. -/
  | refusedLoad (arrival : Arrival) (now : ℕ) (after : Loader)
  /-- A DHCP reply, a change of the link or the timeout of a DHCP wait sets `escape_loop`. -/
  | escape
  | endPass (now : ℕ)
  | test (now : ℕ)

/-- The handler announces the program's end. -/
def announcesExit (effects : List Effect) : Bool :=
  effects.any fun
    | .progexit _ => true
    | _ => false

namespace BoundedWait

variable (ticksPerSecond : Word) (target : Target) (wait : BoundedWait)

/-- The wait as a syscall calls it. -/
def called (loader : Loader) : BoundedWait := { pc := .call, loader, accepted := [] }

/-- One attempt arms its deadline and enters the adapter's loop. -/
def attempt (retry now : ℕ) : BoundedWait :=
  { wait with
    pc := .loop retry (some (now + retryTicks ticksPerSecond))
    loader := wait.loader.armWait ticksPerSecond now }

/-- The beginning of the wait: an old tool is waited for without a deadline. -/
def start (now : ℕ) : BoundedWait :=
  if wait.loader.HostSupportsDedup then wait.attempt ticksPerSecond 0 now
  else { wait with pc := .loop 0 none }

/-- The adapter's loop has returned. -/
def leave (retry : ℕ) (deadline : Option ℕ) : BoundedWait :=
  { wait with
    pc := .left retry deadline
    loader := if deadline.isSome then wait.loader.leaveLoop else { wait.loader with escapeLoop := false } }

/-- A frame is handed to `process_pkt`. -/
def take (retry : ℕ) (deadline : Option ℕ) (top received : ℕ) (arrival : Arrival) (now : ℕ) : BoundedWait :=
  let loader := wait.loader.receiving arrival
  { pc := .pass retry deadline top (received + 1)
    loader := (loader.processUdp target arrival.udp now).1
    accepted := if loader.AcceptsRetval arrival.udp then wait.accepted ++ [loader.announced arrival.udp]
      else wait.accepted }

/-- The deadline has not been reached, or there is none. -/
def InTime (deadline : Option ℕ) (now : ℕ) : Prop := ∀ limit ∈ deadline, now < limit

instance : (deadline : Option ℕ) → (now : ℕ) → Decidable (InTime deadline now)
  | none, _ => isTrue fun _ among => nomatch among
  | some limit, now =>
    if before : now < limit then isTrue fun _ among => Option.some.inj among ▸ before
    else isFalse fun inTime => before (inTime limit rfl)

/-- After the loop: return what is there, give up, or send the request again. -/
def test (retry : ℕ) (deadline : Option ℕ) (now : ℕ) : BoundedWait :=
  if InTime deadline now then { wait with pc := .returned }
  else if wait.loader.kosSyscallSavePkt = [] ∨ retry = kosSyscallMaxRetries then
    { wait with pc := .returned, loader := wait.loader.giveUp }
  else { wait with pc := .arm (retry + 1) }

end BoundedWait

/-- The bounded wait on an adapter. -/
def waitMachine (adapter : LossyAdapter) (ticksPerSecond : Word) (target : Target) :
    Machine.LabeledMachine BoundedWait WaitEvent where
  step wait
    | .begin now =>
      match wait.pc with
      | .call => some (wait.start ticksPerSecond now)
      | _ => none
    | .attempt now =>
      match wait.pc with
      | .arm retry => some (wait.attempt ticksPerSecond retry now)
      | _ => none
    | .iterate now =>
      match wait.pc with
      | .loop retry deadline =>
        if wait.loader.escapeLoop then some (wait.leave retry deadline)
        else some { wait with pc := .pass retry deadline now 0 }
      | _ => none
    | .frame arrival now =>
      match wait.pc with
      | .pass retry deadline top received =>
        let effects := ((wait.loader.receiving arrival).processUdp target arrival.udp now).2
        if received < adapter.framesPerPass ∧ ¬ Host.leavesLoop effects ∧ ¬ announcesExit effects then
          some (wait.take target retry deadline top received arrival now)
        else none
      | _ => none
    | .refusedLoad arrival now after =>
      match wait.pc with
      | .pass retry deadline top received =>
        if received < adapter.framesPerPass ∧
            announcesExit ((wait.loader.receiving arrival).processUdp target arrival.udp now).2 then
          some { wait with pc := .pass retry deadline top (received + 1), loader := after }
        else none
      | _ => none
    | .escape =>
      match wait.pc with
      | .pass _ _ _ _ => some { wait with loader := { wait.loader with escapeLoop := true } }
      | _ => none
    | .endPass now =>
      match wait.pc with
      | .pass retry deadline top received =>
        if received = 0 ∧ wait.loader.loopDeadlineTicks ≠ 0 ∧
            wait.loader.loopDeadlineTicks ≤ adapter.passReading top now then
          some (wait.leave retry deadline)
        else some { wait with pc := .loop retry deadline }
      | _ => none
    | .test now =>
      match wait.pc with
      | .left retry deadline => some (wait.test retry deadline now)
      | _ => none

end KosTool.Client
