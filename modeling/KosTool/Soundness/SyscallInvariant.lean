import KosTool.Math.SkipZeroCounter
import KosTool.Soundness.TaggedRetval

/-! # What the syscall link keeps invariant

Every request on its way carries the sequence id of its syscall, every `RETV` on its way or in the cache
the one of the syscall the host produced it for, and the host dispatches in the order of issue. Sequence
ids come round again, so this holds while no datagram that is delivered belongs to a syscall too far back.
-/

namespace KosTool

open ByteWord Protocol Client Client.Loader Host SkipZeroCounter

/-- The sequence id on the wire of the `n`th syscall. -/
abbrev wireSeq (n : ℕ) : Word := SkipZeroCounter.value n

/-- The datagram is the request of the syscall. -/
def IsRequest (n : ℕ) (payload : List Byte) : Prop :=
  payload.length ≤ receiveBufferLen ∧ ∃ request, payload = request ++ seqTrailer (wireSeq n)

/-- The packet is a transfer command. -/
def IsTransfer (packet : List Byte) : Prop :=
  ∃ isWiiLoader cmd address size data dsize, packet = sendCmd isWiiLoader cmd address size data dsize ∧
    cmd ∈ transferIds

/-- The packet is the `RETV` of the syscall with an answer produced for it. -/
def IsAnswer (produced : List Answer) (n : ℕ) (packet : List Byte) : Prop :=
  ∃ value size data, packet = taggedRetval value size data (wireSeq n) ∧ data.length ≤ maxInlineRet ∧
    ⟨some n, value, data⟩ ∈ produced

/-- The host sends the packet while it dispatches the syscall. -/
def Emitted (produced : List Answer) (n : ℕ) (packet : List Byte) : Prop := IsTransfer packet ∨ IsAnswer produced n packet

/-- The console's side. -/
structure ClientInv (client : WaitPc) (loader : Loader) (ticks issued : ℕ) (produced : List Answer) : Prop where
  running : loader.running = true
  version : loader.HostSupportsDedup
  nextSeq : loader.kosSyscallNextSeq = wireSeq (issued + 1)
  current : client ≠ .idle →
    0 < issued ∧ loader.kosSyscallSeq = wireSeq issued ∧ IsRequest issued loader.kosSyscallSavePkt
  inLoop : ∀ retry deadline, client = .loop retry deadline → loader.escapeLoop = false ∧
    deadline ≤ loader.loopDeadlineTicks ∧ deadline ≤ ticks + loader.kosSyscallTimeoutTicks
  left : ∀ retry deadline, client = .left retry deadline →
    deadline ≤ ticks ∨ ⟨some issued, loader.syscallRetval, loader.inline⟩ ∈ produced

/-- What is on its way to the host: requests, and replies of the console's own. -/
def ToHostInv (toHost : List InFlight) (issued : ℕ) : Prop :=
  ∀ datagram ∈ toHost,
    (∃ n, datagram.syscall = some n ∧ 0 < n ∧ n ≤ issued ∧ IsRequest n datagram.payload) ∨
      datagram.syscall = none ∧ IsReply datagram.payload

/-- A packet and the syscall it is kept for. -/
def Tagged (produced : List Answer) (issued : ℕ) (syscall : Option ℕ) (packet : List Byte) : Prop :=
  ∃ n, syscall = some n ∧ 0 < n ∧ n ≤ issued ∧ Emitted produced n packet

/-- What is on its way to the console. -/
def ToConsoleInv (toConsole : List InFlight) (issued : ℕ) (produced : List Answer) : Prop :=
  ∀ datagram ∈ toConsole, Tagged produced issued datagram.syscall datagram.payload

/-- One dispatch is of an earlier syscall than another. -/
def Dispatch.Before (first second : Dispatch) : Prop :=
  ∃ m n, first.syscall = some m ∧ second.syscall = some n ∧ m < n

/-- The dispatch is of a syscall issued, under its sequence id. -/
def Dispatch.Issued (issued : ℕ) (dispatch : Dispatch) : Prop :=
  ∃ n, dispatch.syscall = some n ∧ dispatch.seq = wireSeq n ∧ 0 < n ∧ n ≤ issued

/-- The host's side. -/
structure HostInv (host : ServePc) (dedup : Dedup) (dispatched : List Dispatch) (slots : ℕ → Option ℕ)
    (issued : ℕ) (produced : List Answer) : Prop where
  log : ∀ dispatch ∈ dispatched, dispatch.Issued issued
  ordered : dispatched.Pairwise Dispatch.Before
  slots : ∀ i, i < dedup.packetCount ∨ i < dedup.captureCount → Tagged produced issued (slots i) (dedup.packets i)
  waiting : host = .loop → dedup.capturing = false ∧ (dispatched = [] ∧ dedup.valid = false ∨
    ∃ init last, dispatched = init ++ [last] ∧ dedup.valid = true ∧ dedup.seq = last.seq)
  busy : ∀ syscall, host = .dispatching syscall ∨ host = .answered syscall → dedup.capturing = true ∧
    ∃ init last, dispatched = init ++ [last] ∧ last.syscall = syscall ∧ dedup.captureSeq = last.seq
  source : ∀ answer ∈ produced, ∃ dispatch ∈ dispatched, dispatch.syscall = answer.syscall
  once : produced.Pairwise fun first second => first.syscall ≠ second.syscall
  unanswered : ∀ syscall, host = .dispatching syscall → ∀ answer ∈ produced, answer.syscall ≠ syscall

/-- What holds in every state of the link. -/
structure SyscallInv (link : Link) (system : SyscallSystem) : Prop where
  client : ClientInv system.client system.loader (system.ticks link) system.issued system.produced
  toHost : ToHostInv system.toHost system.issued
  toConsole : ToConsoleInv system.toConsole system.issued system.produced
  host : HostInv system.host system.dedup system.dispatched system.slots system.issued system.produced
  returned : ∀ answer ∈ system.returned, answer ∈ system.produced

/-- A tool of version 3.0.0 or later has just started its host loop and has sent nothing. The console may
have issued syscalls before, whose requests may still be on their way, and waits for none. -/
structure SyscallSystem.Initial (system : SyscallSystem) : Prop where
  client : system.client = .idle
  running : system.loader.running = true
  version : system.loader.HostSupportsDedup
  nextSeq : system.loader.kosSyscallNextSeq = wireSeq (system.issued + 1)
  host : system.host = .loop
  dedup : system.dedup = Dedup.start
  toHost : ToHostInv system.toHost system.issued
  toConsole : system.toConsole = []
  dispatched : system.dispatched = []
  produced : system.produced = []
  returned : system.returned = []

theorem SyscallSystem.Initial.inv {link : Link} {system : SyscallSystem} (initial : system.Initial) :
    SyscallInv link system where
  client := by
    refine ⟨initial.running, initial.version, initial.nextSeq, fun waiting => absurd initial.client waiting, ?_, ?_⟩
    · intro retry deadline inLoop
      rw [initial.client] at inLoop
      cases inLoop
    · intro retry deadline left
      rw [initial.client] at left
      cases left
  toHost := initial.toHost
  toConsole datagram among := by
    rw [initial.toConsole] at among
    cases among
  host := by
    rw [initial.host, initial.dedup, initial.dispatched, initial.produced]
    refine ⟨fun dispatch among => (by cases among), List.Pairwise.nil, fun i inside => ?_,
      fun _ => ⟨rfl, Or.inl ⟨rfl, rfl⟩⟩, fun syscall busy => ?_, fun answer among => (by cases among),
      List.Pairwise.nil, fun syscall dispatching => (by cases dispatching)⟩
    · exact absurd inside (by simp [Dedup.start])
    · rcases busy with busy | busy <;> cases busy
  returned answer among := by
    rw [initial.returned] at among
    cases among

section Mono

variable {produced more : List Answer} {issued later n : ℕ} {packet : List Byte} {syscall : Option ℕ}

theorem Emitted.mono (emitted : Emitted produced n packet) : Emitted (produced ++ more) n packet :=
  emitted.imp_right fun ⟨value, size, data, wire, short, among⟩ =>
    ⟨value, size, data, wire, short, List.mem_append_left _ among⟩

theorem Tagged.mono (tagged : Tagged produced issued syscall packet) : Tagged (produced ++ more) issued syscall packet :=
  let ⟨n, tag, positive, bound, emitted⟩ := tagged
  ⟨n, tag, positive, bound, emitted.mono⟩

theorem Tagged.grow (tagged : Tagged produced issued syscall packet) (grows : issued ≤ later) :
    Tagged produced later syscall packet :=
  let ⟨n, tag, positive, bound, emitted⟩ := tagged
  ⟨n, tag, positive, bound.trans grows, emitted⟩

theorem ToHostInv.grow {toHost : List InFlight} (inv : ToHostInv toHost issued) (grows : issued ≤ later) :
    ToHostInv toHost later :=
  fun datagram among => (inv datagram among).imp_left fun ⟨n, tag, positive, bound, request⟩ =>
    ⟨n, tag, positive, bound.trans grows, request⟩

variable {host : ServePc} {dedup : Dedup} {dispatched : List Dispatch} {slots : ℕ → Option ℕ}

theorem HostInv.grow (inv : HostInv host dedup dispatched slots issued produced) (grows : issued ≤ later) :
    HostInv host dedup dispatched slots later produced where
  log dispatch among :=
    let ⟨n, tag, seq, positive, bound⟩ := inv.log dispatch among
    ⟨n, tag, seq, positive, bound.trans grows⟩
  ordered := inv.ordered
  slots i inside := (inv.slots i inside).grow grows
  waiting := inv.waiting
  busy := inv.busy
  source := inv.source
  once := inv.once
  unanswered := inv.unanswered

variable {client : WaitPc} {loader : Loader} {ticks afterwards : ℕ}

theorem ClientInv.mono (inv : ClientInv client loader ticks issued produced) :
    ClientInv client loader ticks issued (produced ++ more) where
  running := inv.running
  version := inv.version
  nextSeq := inv.nextSeq
  current := inv.current
  inLoop := inv.inLoop
  left retry deadline left := (inv.left retry deadline left).imp_right (List.mem_append_left _)

/-- Time passes. -/
theorem ClientInv.elapse (inv : ClientInv client loader ticks issued produced) (passes : ticks ≤ afterwards) :
    ClientInv client loader afterwards issued produced where
  running := inv.running
  version := inv.version
  nextSeq := inv.nextSeq
  current := inv.current
  inLoop retry deadline inLoop :=
    let ⟨waits, armed, near⟩ := inv.inLoop retry deadline inLoop
    ⟨waits, armed, by omega⟩
  left retry deadline left := (inv.left retry deadline left).imp_left fun late => late.trans passes

end Mono

end KosTool
