import KosTool.Model.RunningProgram
import KosTool.Soundness.DisturbedLoader

/-! # Discovery while a program runs

A discovery request should leave the program's syscalls alone. `cmd_version` takes over the version and the port
it finds in any `VERS`, also while a program runs, and the loader's mode follows them. Two runs that differ only in
discovery requests show the host and the program the same as long as each request keeps the mode and the port, hits
no answer that is still to be read, and does not put off a retransmission, and as long as nothing reads the bytes it
leaves behind.
-/

namespace KosTool

open ByteWord DivUtil Protocol Client Client.Loader

/-- The datagram is complete: the header is there, and what its length and a `PBIN` announce. -/
def Client.Arrival.SelfContained (arrival : Arrival) : Prop :=
  netCommandLen ≤ arrival.payload.length ∧ arrival.length.toNat ≤ udpHeaderLen + arrival.payload.length ∧
    (commandId (storeAt (fun _ => 0) arrival.frame arrival.payload) arrival.frame = netCmdPartbin →
      netCommandLen + (commandSize (storeAt (fun _ => 0) arrival.frame arrival.payload) arrival.frame).toNat ≤
        arrival.payload.length)

instance (arrival : Arrival) : Decidable arrival.SelfContained := inferInstanceAs (Decidable (_ ∧ _ ∧ (_ → _)))

/-- The syscall reads no more of an answer than it holds. -/
def ProgramSyscall.ReadsAnswer (loader : Loader) : ProgramSyscall → Prop
  | .gdbpacket _ outSize => loader.syscallRetval ≤ outSize → loader.syscallRetval.toNat ≤ loader.syscallDataLen
  | _ => True

instance (loader : Loader) : (call : ProgramSyscall) → Decidable (call.ReadsAnswer loader)
  | .gdbpacket _ _ => inferInstanceAs (Decidable (_ → _))
  | .plain _ | .write _ _ _ | .fstat _ _ | .stat _ _ | .readdir _ _ => isTrue trivial

/-- The request keeps what the version decides, and the port. -/
def Discovery.Keeps (request : Discovery) (header : DatagramHeader) (session : ProgramSession) : Prop :=
  request.capabilities = false → SameMode session.wait.loader.toolVersion request.field ∧
    versionPort request.field header.destPort = session.identity.kosloadSyscallPort

instance (request : Discovery) (header : DatagramHeader) (session : ProgramSession) :
    Decidable (request.Keeps header session) := inferInstanceAs (Decidable (_ → _ ∧ _))

/-- A discovery request keeps mode and port and the bytes of an answer accepted before it; a pass that took nothing
else is not past the deadline; and once there was one, datagrams are complete, and a syscall that returns in time
returns with an answer accepted in its wait, of which it reads no more than there is. -/
def Harmless (adapter : ProgramAdapter) (session : ProgramSession) : ProgramEvent → Prop
  | .discovery header request _ => request.Keeps header session ∧
      (session.wait.accepted ≠ [] →
        (session.wait.loader.receiving request.arrival).inline = session.wait.loader.inline)
  | .frame _ arrival _ => session.discovered = true → arrival.SelfContained
  | .endPass now =>
    match session.wait.pc with
    | .pass _ _ top received => received ≠ 0 → received = session.passDiscoveries →
        ¬ (session.wait.loader.loopDeadlineTicks ≠ 0 ∧
          session.wait.loader.loopDeadlineTicks ≤ adapter.passReading top now)
    | _ => True
  | .test now =>
    match session.wait.pc with
    | .left _ deadline => session.discovered = true → BoundedWait.InTime deadline now →
        session.wait.accepted ≠ [] ∧ session.call.ReadsAnswer session.wait.loader
    | _ => True
  | _ => True

instance (adapter : ProgramAdapter) (session : ProgramSession) :
    (event : ProgramEvent) → Decidable (Harmless adapter session event)
  | .discovery _ _ _ => inferInstanceAs (Decidable (_ ∧ (_ → _)))
  | .frame _ _ _ => inferInstanceAs (Decidable (_ → _))
  | .endPass now =>
    match pc : session.wait.pc with
    | .pass _ _ top received =>
      decidable_of_iff (received ≠ 0 → received = session.passDiscoveries →
        ¬ (session.wait.loader.loopDeadlineTicks ≠ 0 ∧
          session.wait.loader.loopDeadlineTicks ≤ adapter.passReading top now)) (by simp only [Harmless, pc])
    | .call | .arm _ | .loop _ _ | .left _ _ | .returned => isTrue (by simp only [Harmless, pc])
  | .test now =>
    match pc : session.wait.pc with
    | .left _ deadline =>
      decidable_of_iff (session.discovered = true → BoundedWait.InTime deadline now →
        session.wait.accepted ≠ [] ∧ session.call.ReadsAnswer session.wait.loader) (by simp only [Harmless, pc])
    | .call | .arm _ | .loop _ _ | .pass _ _ _ _ | .returned => isTrue (by simp only [Harmless, pc])
  | .syscall _ | .begin _ | .attempt _ | .iterate _ | .escape => isTrue trivial

/-- The run without its discovery requests. -/
def undiscovered (events : List ProgramEvent) : List ProgramEvent := events.filter ProgramEvent.isOther

/-- Where a wait stands that has taken some frames more in the pass under way. -/
def Client.BoundedPc.further (extra : ℕ) : BoundedPc → BoundedPc
  | .pass retry deadline top received => .pass retry deadline top (received + extra)
  | other => other

/-- A session with discovery requests and the one without them. -/
structure Undisturbed (session other : ProgramSession) : Prop where
  pc : session.wait.pc = other.wait.pc.further session.passDiscoveries
  mode : SameMode session.wait.loader.toolVersion other.wait.loader.toolVersion
  loader : other.wait.loader = session.wait.loader.disturbed other.wait.loader.toolVersion other.wait.loader.rx
  accepted : other.wait.accepted = session.wait.accepted
  call : other.call = session.call
  identity : other.identity = session.identity
  saved : other.saved = session.saved
  log : other.log = session.log
  inline : session.wait.accepted ≠ [] → other.wait.loader.inline = session.wait.loader.inline
  fresh : session.discovered = false → other.wait.loader = session.wait.loader

section Memory

variable {rx other : Buffer} {frame start count : ℕ} {payload : List Byte}

theorem storeAt_inside_congr (rx other : Buffer) (frame : ℕ) {payload : List Byte} {i : ℕ} (inside : i < payload.length) :
    storeAt other frame payload (frame + i) = storeAt rx frame payload (frame + i) := by
  rw [storeAt_add, storeAt_add, overlay, overlay, List.getD_eq_getElem _ _ inside, List.getD_eq_getElem _ _ inside]

theorem eq_of_slice_eq (same : slice other start count = slice rx start count) {i : ℕ} (inside : i < count) :
    other (start + i) = rx (start + i) := by
  have left := getD_slice other start inside 0
  rwa [same, getD_slice rx start inside 0, eq_comm] at left

/-- What agreed before a datagram agrees behind it. -/
theorem slice_storeAt_congr (same : slice other start count = slice rx start count) :
    slice (storeAt other frame payload) start count = slice (storeAt rx frame payload) start count := by
  refine slice_congr fun i inside => ?_
  have agrees := eq_of_slice_eq same inside
  unfold storeAt
  split
  · by_cases short : start + i - frame < payload.length
    · rw [List.getD_eq_getElem _ _ short, List.getD_eq_getElem _ _ short]
    · rw [List.getD_eq_default _ _ (Nat.not_lt.mp short), List.getD_eq_default _ _ (Nat.not_lt.mp short), agrees]
  · exact agrees

end Memory

section Datagram

variable {arrival : Arrival} {rx other : Buffer}

theorem sameDatagram_of_selfContained (complete : arrival.SelfContained) :
    SameDatagram (storeAt rx arrival.frame arrival.payload) (storeAt other arrival.frame arrival.payload) arrival.udp := by
  obtain ⟨header, covered, data⟩ := complete
  have inside {i : ℕ} (below : i < arrival.payload.length) (buffer : Buffer) :
      storeAt other arrival.frame arrival.payload (arrival.frame + i) =
        storeAt buffer arrival.frame arrival.payload (arrival.frame + i) := storeAt_inside_congr _ _ _ below
  refine ⟨fun i below => inside (by omega) rx, fun i below => inside ?_ rx, fun partbin i below => ?_⟩
  · change i < arrival.length.toNat - udpHeaderLen at below
    omega
  · have word (offset : ℕ) (place : offset + 4 ≤ netCommandLen) :
        readBe32 (storeAt (fun _ => 0) arrival.frame arrival.payload) (arrival.frame + offset) =
          readBe32 (storeAt rx arrival.frame arrival.payload) (arrival.frame + offset) := by
      refine readBe32_congr fun i small => ?_
      rw [Nat.add_assoc]
      exact storeAt_inside_congr _ _ _ (by omega)
    have id := data ((word 0 (by decide)).trans partbin)
    rw [show commandSize (storeAt (fun _ => 0) arrival.frame arrival.payload) arrival.frame =
      commandSize (storeAt rx arrival.frame arrival.payload) arrival.frame from word 8 (by decide)] at id
    change i < (commandSize (storeAt rx arrival.frame arrival.payload) arrival.frame).toNat at below
    change storeAt other arrival.frame arrival.payload (arrival.frame + netCommandLen + i) =
      storeAt rx arrival.frame arrival.payload (arrival.frame + netCommandLen + i)
    rw [Nat.add_assoc]
    exact inside (by omega) rx

theorem SameDatagram.refl (rx : Buffer) (udp : Udp) : SameDatagram rx rx udp :=
  ⟨fun _ _ => rfl, fun _ _ => rfl, fun _ _ _ => rfl⟩

end Datagram

section Inline

variable {loader : Loader} {version : Word} {rx : Buffer}

theorem inline_disturbed_iff : (loader.disturbed version rx).inline = loader.inline ↔
    ∀ start ∈ loader.syscallData, slice rx start loader.syscallDataLen = slice loader.rx start loader.syscallDataLen := by
  unfold Loader.inline
  rw [show (loader.disturbed version rx).syscallData = loader.syscallData from rfl]
  cases loader.syscallData with
  | none => exact iff_of_true rfl (by rintro _ ⟨⟩)
  | some start =>
    constructor
    · rintro same _ ⟨⟩
      exact same
    · intro same
      exact same start rfl

end Inline

section Handling

variable {target : Target} {loader : Loader} {udp : Udp} {now : ℕ} {version : Word} {rx : Buffer}

theorem cmdLoadbin_rx : (loader.cmdLoadbin target udp now).1.rx = loader.rx := by
  simp only [cmdLoadbin]
  split_ifs <;> exact netBumpSyscallDeadline_rx

theorem cmdRetval_rx : (loader.cmdRetval udp).1.rx = loader.rx := by
  unfold cmdRetval
  split_ifs <;> rfl

theorem cmdExecute_rx : (loader.cmdExecute udp).1.rx = loader.rx := by
  unfold cmdExecute
  split <;> rfl

theorem ite_fst {choice : Prop} [Decidable choice] {condition : Loader → Prop} {first second : Loader × List Effect}
    (left : condition first.1) (right : condition second.1) : condition (if choice then first else second).1 := by
  split
  · exact left
  · exact right

/-- What holds of every handler's result and of the unchanged loader holds of what a datagram leaves. -/
theorem processUdp_cases {condition : Loader → Prop} (same : condition loader)
    (partbin : condition (loader.cmdPartbin target udp now).1) (bumped : condition (loader.netBumpSyscallDeadline now))
    (retval : condition (loader.cmdRetval udp).1) (loadbin : condition (loader.cmdLoadbin target udp now).1)
    (execute : condition (loader.cmdExecute udp).1) (version : condition (loader.cmdVersion target udp).1)
    (reboot : condition loader.cmdReboot.1) : condition (loader.processUdp target udp now).1 := by
  unfold processUdp dispatch
  dsimp only
  refine ite_fst same (ite_fst same (ite_fst partbin (ite_fst same (ite_fst bumped (ite_fst retval (ite_fst loadbin
    (ite_fst bumped (ite_fst execute (ite_fst version (ite_fst same (ite_fst reboot same)))))))))))

/-- The handlers only read the receive memory. -/
theorem processUdp_rx : (loader.processUdp target udp now).1.rx = loader.rx :=
  @processUdp_cases target loader udp now (fun after => after.rx = loader.rx) rfl netBumpSyscallDeadline_rx
    netBumpSyscallDeadline_rx cmdRetval_rx cmdLoadbin_rx cmdExecute_rx rfl rfl

theorem loadLimit_congr (target : Target) (mode : SameMode loader.toolVersion version) :
    loadLimit target version = loadLimit target loader.toolVersion := by
  unfold loadLimit
  simp only [mode.legacy]

theorem handle_disturbed (mode : SameMode loader.toolVersion version) (same : SameDatagram loader.rx rx udp)
    (identity : NetIdentity) (header : DatagramHeader) :
    identity.handle target (loader.disturbed version rx) udp header = identity.handle target loader udp header := by
  unfold NetIdentity.handle
  simp only [same.takes_iff, disturbed_rx, disturbed_toolVersion, disturbed_running, same.commandSize,
    same.commandAddress, loadLimit_congr target mode]

theorem disturbed_disturbed (loader : Loader) (version other : Word) (rx buffer : Buffer) :
    (loader.disturbed version rx).disturbed other buffer = loader.disturbed other buffer := rfl

/-- An accepted answer lies in its datagram. -/
theorem inline_of_accepts (accepts : loader.AcceptsRetval udp) (same : SameDatagram loader.rx rx udp) (next : Word) :
    ((loader.processUdp target udp now).1.disturbed next rx).inline = (loader.processUdp target udp now).1.inline := by
  have answer := @Loader.processUdp_answer_of_accepts target _ _ now accepts
  have data := congrArg RetvalAnswer.data answer
  have length := congrArg RetvalAnswer.dataLen answer
  dsimp only [Loader.answer, announced] at data length
  rw [inline_disturbed_iff]
  intro start among
  rw [data] at among
  cases among
  rw [processUdp_rx]
  refine slice_congr fun i below => ?_
  rw [commandData, Nat.add_assoc]
  refine same.covered _ ?_
  rw [length] at below
  split at below <;> omega

/-- Another datagram leaves what was there. -/
theorem inline_of_not (refused : ¬ loader.AcceptsRetval udp) (next : Word)
    (same : (loader.disturbed next rx).inline = loader.inline) :
    ((loader.processUdp target udp now).1.disturbed next rx).inline = (loader.processUdp target udp now).1.inline := by
  have answer := @Loader.processUdp_answer_of_not target _ _ now refused
  have data := congrArg RetvalAnswer.data answer
  have length := congrArg RetvalAnswer.dataLen answer
  dsimp only [Loader.answer] at data length
  rw [inline_disturbed_iff] at same ⊢
  rw [data, length, processUdp_rx]
  exact same

end Handling

section Requests

variable {loader : Loader} {version : Word} {rx : Buffer}

theorem hostSupportsDedup_disturbed (mode : SameMode loader.toolVersion version) :
    (loader.disturbed version rx).HostSupportsDedup ↔ loader.HostSupportsDedup := mode.dedup

/-- Both send the same request for a syscall. -/
theorem request_disturbed (mode : SameMode loader.toolVersion version) (call : ProgramSyscall) :
    call.request (loader.disturbed version rx) = call.request loader := by
  cases call with
  | plain request => rfl
  | gdbpacket request outSize => rfl
  | write fd buf count =>
    simp only [ProgramSyscall.request, writeRequest, inlineWrite, hostSupportsDedup_disturbed mode, disturbed_memory,
      disturbed_toolVersion, mode.legacy]
  | fstat fd buf =>
    simp only [ProgramSyscall.request, fstatRequest, inlineRetMagic, hostSupportsDedup_disturbed mode]
  | stat pathname buf =>
    simp only [ProgramSyscall.request, statRequest, inlineRetMagic, hostSupportsDedup_disturbed mode]
  | readdir dir ourDir =>
    simp only [ProgramSyscall.request, readdirRequest, inlineRetMagic, hostSupportsDedup_disturbed mode]

/-- All syscalls send what they sent exactly if the version is treated alike. -/
theorem requests_kept_iff (loader : Loader) (version : Word) :
    (∀ call : ProgramSyscall, call.request (loader.disturbed version loader.rx) = call.request loader) ↔
      SameMode loader.toolVersion version := by
  constructor
  · intro kept
    -- A `write` of one byte shows both: the version in its command, and whether the byte is in it.
    have write := kept (.write 1 0 1)
    simp only [ProgramSyscall.request, writeRequest, inlineWrite] at write
    obtain ⟨id, -, -, rest⟩ := netCommand_inj.mp write
    have bytes := List.append_cancel_left rest
    have inlined : 0 < (1 : Word).toNat ∧ (1 : Word).toNat ≤ netWriteInlineMax ∧
        (1 : Word).toNat ≤ netPayloadSize - netCommand3intLen := by decide
    constructor
    · by_cases dedup : loader.HostSupportsDedup <;> by_cases after : (loader.disturbed version loader.rx).HostSupportsDedup
      · exact iff_of_true after dedup
      · rw [if_neg fun both => after both.1, if_pos ⟨dedup, inlined⟩] at bytes
        cases bytes
      · rw [if_pos ⟨after, inlined⟩, if_neg fun both => dedup both.1] at bytes
        cases bytes
      · exact iff_of_false after dedup
    · by_cases legacy : dctoolMajor loader.toolVersion < 2#32 <;> by_cases after : dctoolMajor version < 2#32
      · exact iff_of_true after legacy
      · rw [disturbed_toolVersion, if_pos legacy, if_neg after] at id
        exact absurd id (by decide)
      · rw [disturbed_toolVersion, if_neg legacy, if_pos after] at id
        exact absurd id (by decide)
      · exact iff_of_false after legacy
  · intro mode call
    exact request_disturbed mode call

theorem copyInlineRet_disturbed (same : (loader.disturbed version rx).inline = loader.inline) (dst : Word) (count : ℕ) :
    copyInlineRet (loader.disturbed version rx) dst count = (copyInlineRet loader dst count).disturbed version rx := by
  rw [inline_disturbed_iff] at same
  unfold copyInlineRet
  rw [show (loader.disturbed version rx).syscallData = loader.syscallData from rfl,
    show (loader.disturbed version rx).syscallDataLen = loader.syscallDataLen from rfl]
  cases data : loader.syscallData with
  | none => rfl
  | some start =>
    have agrees {i : ℕ} (inside : i < loader.syscallDataLen) : rx (start + i) = loader.rx (start + i) :=
      eq_of_slice_eq (same start data) inside
    dsimp only
    by_cases length : loader.syscallDataLen ≠ netInlineRetMagicLen + count
    · rw [if_pos length, if_pos length]
    rw [if_neg length, if_neg length]
    rw [not_not] at length
    have magic : readBe32 rx start = readBe32 loader.rx start :=
      readBe32_congr fun i small => agrees (by rw [length, netInlineRetMagicLen]; omega)
    rw [disturbed_rx, magic]
    by_cases other : readBe32 loader.rx start ≠ netInlineRetMagic
    · rw [if_pos other, if_pos other]
    rw [if_neg other, if_neg other, disturbed_memory]
    have copied := @copyIn_congr loader.memory dst count (fun i => loader.rx (start + netInlineRetMagicLen + i))
      (fun i => rx (start + netInlineRetMagicLen + i)) fun i below => by
        rw [Nat.add_assoc]
        exact agrees (by omega)
    rw [copied]
    rfl

/-- Both return from a syscall with the same. -/
theorem finish_disturbed (mode : SameMode loader.toolVersion version)
    (same : (loader.disturbed version rx).inline = loader.inline) (call : ProgramSyscall) :
    call.finish (loader.disturbed version rx) = (call.finish loader).disturbed version rx := by
  have stat (buf : Word) : statReturns (loader.disturbed version rx) buf = (statReturns loader buf).disturbed version rx := by
    unfold statReturns
    simp only [hostSupportsDedup_disturbed mode, copyInlineRet_disturbed same]
    rw [show (loader.disturbed version rx).syscallRetval = loader.syscallRetval from rfl]
    split <;> rfl
  cases call with
  | plain request => rfl
  | gdbpacket request outSize => rfl
  | write fd buf count => rfl
  | fstat fd buf => exact stat buf
  | stat pathname buf => exact stat buf
  | readdir dir ourDir =>
    simp only [ProgramSyscall.finish, readdirReturns, hostSupportsDedup_disturbed mode, copyInlineRet_disturbed same]
    rw [show (loader.disturbed version rx).syscallRetval = loader.syscallRetval from rfl]
    split_ifs <;> rfl

theorem handed_disturbed (same : (loader.disturbed version rx).inline = loader.inline) {call : ProgramSyscall}
    (reads : loader.syscallData ≠ none → call.ReadsAnswer loader) :
    call.handed (loader.disturbed version rx) = call.handed loader := by
  rw [inline_disturbed_iff] at same
  cases call with
  | gdbpacket request outSize =>
    simp only [ProgramSyscall.handed, show (loader.disturbed version rx).syscallData = loader.syscallData from rfl,
      show (loader.disturbed version rx).syscallRetval = loader.syscallRetval from rfl, disturbed_rx]
    cases data : loader.syscallData with
    | none => rfl
    | some start =>
      dsimp only
      split
      · have short := reads (by rw [data]; nofun) (by assumption)
        exact slice_congr fun i below => eq_of_slice_eq (same start data) (by omega)
      · rfl
  | plain | write | fstat | stat | readdir => rfl

/-- What a syscall does as it returns changes neither the answer nor the receive memory. -/
theorem finish_fields (loader : Loader) (call : ProgramSyscall) : ∃ memory, call.finish loader = { loader with memory } := by
  have copy (dst : Word) (count : ℕ) : ∃ memory, copyInlineRet loader dst count = { loader with memory } := by
    unfold copyInlineRet
    split
    · split_ifs
      · exact ⟨loader.memory, rfl⟩
      · exact ⟨loader.memory, rfl⟩
      · exact ⟨_, rfl⟩
    · exact ⟨loader.memory, rfl⟩
  cases call with
  | plain | gdbpacket | write => exact ⟨loader.memory, rfl⟩
  | fstat fd buf | stat pathname buf =>
    simp only [ProgramSyscall.finish, statReturns]
    split_ifs
    · exact copy _ _
    · exact ⟨loader.memory, rfl⟩
  | readdir dir ourDir =>
    simp only [ProgramSyscall.finish, readdirReturns]
    split_ifs
    · exact copy _ _
    · exact ⟨loader.memory, rfl⟩
    · exact ⟨loader.memory, rfl⟩

end Requests

section Steps

variable {adapter : ProgramAdapter} {ticksPerSecond : Word} {target : Target} {session other next : ProgramSession}

theorem further_eq_pass {extra : ℕ} {pc : BoundedPc} {retry top received : ℕ} {deadline : Option ℕ}
    (stands : .pass retry deadline top received = pc.further extra) :
    ∃ fewer, pc = .pass retry deadline top fewer ∧ received = fewer + extra := by
  cases pc with
  | pass retry' deadline' top' fewer =>
    cases stands
    exact ⟨fewer, rfl, rfl⟩
  | call | arm | loop | left | returned => cases stands

theorem further_eq_other {extra : ℕ} {pc there : BoundedPc} (stands : there = pc.further extra)
    (outside : ∀ retry deadline top received, there ≠ .pass retry deadline top received) : pc = there := by
  cases pc with
  | pass retry deadline top received => exact absurd stands (outside _ _ _ _)
  | call | arm | loop | left | returned => exact stands.symm

/-- The loaders of both sessions read a complete datagram alike, and any if they are still the same. -/
theorem Undisturbed.sameDatagram (undisturbed : Undisturbed session other) {arrival : Arrival}
    (complete : session.discovered = true → arrival.SelfContained) :
    SameDatagram (session.wait.loader.receiving arrival).rx (other.wait.loader.receiving arrival).rx arrival.udp := by
  cases discovered : session.discovered with
  | true => exact sameDatagram_of_selfContained (complete discovered)
  | false =>
    rw [undisturbed.fresh discovered]
    exact SameDatagram.refl _ _

theorem Undisturbed.receiving (undisturbed : Undisturbed session other) (arrival : Arrival) :
    other.wait.loader.receiving arrival = (session.wait.loader.receiving arrival).disturbed
      other.wait.loader.toolVersion (other.wait.loader.receiving arrival).rx := by
  conv_lhs => rw [undisturbed.loader]
  rfl

theorem Undisturbed.inline_disturbed (undisturbed : Undisturbed session other) (accepted : session.wait.accepted ≠ []) :
    (session.wait.loader.disturbed other.wait.loader.toolVersion other.wait.loader.rx).inline =
      session.wait.loader.inline := by
  rw [← undisturbed.loader]
  exact undisturbed.inline accepted

/-- A datagram that is no discovery request is handled alike. -/
theorem undisturbed_take (undisturbed : Undisturbed session other) {retry top received fewer now : ℕ}
    {deadline : Option ℕ} {header : DatagramHeader} {arrival : Arrival}
    (complete : session.discovered = true → arrival.SelfContained)
    (count : received = fewer + session.passDiscoveries) :
    ((other.wait.loader.receiving arrival).processUdp target arrival.udp now).2 =
        ((session.wait.loader.receiving arrival).processUdp target arrival.udp now).2 ∧
      Undisturbed (session.take target retry deadline top received header arrival now)
        (other.take target retry deadline top fewer header arrival now) := by
  have same := undisturbed.sameDatagram complete
  have mode : SameMode (session.wait.loader.receiving arrival).toolVersion other.wait.loader.toolVersion :=
    undisturbed.mode
  obtain ⟨version, modeAfter, agrees⟩ := @processUdp_disturbed target _ arrival.udp now _ _ mode same
  have accepts := acceptsRetval_disturbed mode same
  have announced := announced_disturbed mode same
  have handled := @handle_disturbed target _ _ _ _ mode same session.identity header
  rw [← undisturbed.receiving arrival] at agrees accepts announced handled
  obtain ⟨loader, effects⟩ := Prod.ext_iff.mp agrees
  dsimp only at loader effects
  refine ⟨effects, ?_⟩
  refine ⟨?_, ?_, ?_, ?_, undisturbed.call, ?_, undisturbed.saved, ?_, ?_, ?_⟩
  · change BoundedPc.pass retry deadline top (received + 1) =
      .pass retry deadline top (fewer + 1 + session.passDiscoveries)
    rw [count, Nat.add_right_comm]
  · change SameMode _ ((other.wait.loader.receiving arrival).processUdp target arrival.udp now).1.toolVersion
    rw [loader]
    exact modeAfter
  · change ((other.wait.loader.receiving arrival).processUdp target arrival.udp now).1 = Loader.disturbed _ _ _
    dsimp only [ProgramSession.take, ProgramSession.takeUnseen, BoundedWait.take]
    rw [loader]
    rfl
  · dsimp only [ProgramSession.take, ProgramSession.takeUnseen, BoundedWait.take]
    simp only [accepts, announced, undisturbed.accepted]
  · change other.identity.handle _ _ _ _ = session.identity.handle _ _ _ _
    rw [undisturbed.identity]
    exact handled
  · dsimp only [ProgramSession.take, ProgramSession.takeUnseen]
    rw [undisturbed.log, undisturbed.identity, handled, effects]
    simp only [accepts]
  · intro accepted
    change ((other.wait.loader.receiving arrival).processUdp target arrival.udp now).1.inline =
      ((session.wait.loader.receiving arrival).processUdp target arrival.udp now).1.inline
    rw [loader]
    by_cases now_accepts : (session.wait.loader.receiving arrival).AcceptsRetval arrival.udp
    · exact inline_of_accepts now_accepts same version
    · dsimp only [ProgramSession.take, ProgramSession.takeUnseen, BoundedWait.take] at accepted
      rw [if_neg now_accepts] at accepted
      refine inline_of_not now_accepts version ?_
      have before := undisturbed.inline_disturbed accepted
      rw [inline_disturbed_iff] at before ⊢
      exact fun start among => slice_storeAt_congr (before start among)
  · intro discovered
    change ((other.wait.loader.receiving arrival).processUdp target arrival.udp now).1 =
      ((session.wait.loader.receiving arrival).processUdp target arrival.udp now).1
    rw [undisturbed.fresh discovered]

theorem discovery_id (loader : Loader) (request : Discovery) :
    commandId (loader.receiving request.arrival).rx request.arrival.udp.data =
      if request.capabilities then netCmdCapabilities else netCmdVersion := commandId_storeAt ..

theorem discovery_field (loader : Loader) (request : Discovery) :
    commandAddress (loader.receiving request.arrival).rx request.arrival.udp.data = request.field :=
  commandAddress_storeAt ..

theorem not_takes_discovery (loader : Loader) (request : Discovery) {id : Word} (capabilities : id ≠ netCmdCapabilities)
    (version : id ≠ netCmdVersion) : ¬ (loader.receiving request.arrival).Takes request.arrival.udp id := by
  rintro ⟨-, -, named⟩
  rw [discovery_id] at named
  split at named
  · exact capabilities named.symm
  · exact version named.symm

/-- A discovery request leaves the loader as it is, or with the version of a `VERS`. -/
theorem processUdp_discovery (target : Target) (now : ℕ) (loader : Loader) (request : Discovery) :
    ((loader.receiving request.arrival).processUdp target request.arrival.udp now).1 = loader.receiving request.arrival ∨
      request.capabilities = false ∧
        ((loader.receiving request.arrival).processUdp target request.arrival.udp now).1 =
          { loader.receiving request.arrival with toolVersion := request.field } := by
  have field := discovery_field loader request
  by_cases long : udpHeaderLen ≤ request.arrival.udp.length.toNat
  · have takes : (loader.receiving request.arrival).Takes request.arrival.udp
        (if request.capabilities then netCmdCapabilities else netCmdVersion) :=
      ⟨long, rfl, discovery_id loader request⟩
    cases capabilities : request.capabilities with
    | true =>
      rw [capabilities, if_pos rfl] at takes
      refine Or.inl ?_
      rw [processUdp_of_takes takes (by decide), dispatch, takes.2.2]
      rfl
    | false =>
      rw [capabilities, if_neg (by decide)] at takes
      refine Or.inr ⟨rfl, ?_⟩
      rw [processUdp_version takes, cmdVersion, field]
  · refine Or.inl ?_
    unfold processUdp
    rw [if_pos (Or.inl (Nat.not_le.mp long))]

theorem handle_discovery (target : Target) (identity : NetIdentity) (loader : Loader) (request : Discovery)
    (header : DatagramHeader) (keeps : request.capabilities = false →
      versionPort request.field header.destPort = identity.kosloadSyscallPort) :
    identity.handle target (loader.receiving request.arrival) request.arrival.udp header = identity := by
  unfold NetIdentity.handle
  rw [if_neg (not_takes_discovery loader request (by decide) (by decide)),
    if_neg (not_or.mpr ⟨not_takes_discovery loader request (by decide) (by decide),
      not_takes_discovery loader request (by decide) (by decide)⟩)]
  split_ifs with version execute
  · have named := version.2.2
    rw [discovery_id] at named
    have plain : request.capabilities = false := by
      cases capabilities : request.capabilities with
      | true =>
        rw [capabilities, if_pos rfl] at named
        exact absurd named (by decide)
      | false => rfl
    rw [discovery_field, keeps plain]
  · exact absurd execute.1 (not_takes_discovery loader request (by decide) (by decide))
  · rfl

/-- A discovery request that keeps mode, port and answer changes nothing that shows. -/
theorem undisturbed_discover (undisturbed : Undisturbed session other) {retry top received now : ℕ}
    {deadline : Option ℕ} {header : DatagramHeader} {request : Discovery} (keeps : request.Keeps header session)
    (answer : session.wait.accepted ≠ [] →
      (session.wait.loader.receiving request.arrival).inline = session.wait.loader.inline)
    (pc : session.wait.pc = .pass retry deadline top received) :
    Undisturbed (session.discover target retry deadline top received header request now) other := by
  have refused : ¬ (session.wait.loader.receiving request.arrival).AcceptsRetval request.arrival.udp := fun accepts =>
    not_takes_discovery _ _ (by decide) (by decide) accepts.1
  have accepted : (session.discover target retry deadline top received header request now).wait.accepted =
      session.wait.accepted := if_neg refused
  obtain ⟨fewer, there, count⟩ := further_eq_pass (pc ▸ undisturbed.pc)
  have handled := handle_discovery target session.identity session.wait.loader request header fun plain => (keeps plain).2
  have loader := processUdp_discovery target now session.wait.loader request
  refine ⟨?_, ?_, ?_, accepted.symm ▸ undisturbed.accepted, undisturbed.call, undisturbed.identity.trans handled.symm,
    undisturbed.saved, undisturbed.log, ?_, nofun⟩
  · rw [there]
    change BoundedPc.pass retry deadline top (received + 1) =
      .pass retry deadline top (fewer + (session.passDiscoveries + 1))
    rw [count, Nat.add_assoc]
  · change SameMode ((session.wait.loader.receiving request.arrival).processUdp target request.arrival.udp now).1.toolVersion _
    rcases loader with same | ⟨plain, version⟩
    · rw [same]
      exact undisturbed.mode
    · rw [version]
      exact (keeps plain).1.symm.trans undisturbed.mode
  · change _ = Loader.disturbed
      ((session.wait.loader.receiving request.arrival).processUdp target request.arrival.udp now).1 _ _
    rcases loader with same | ⟨-, version⟩
    · rw [same]
      exact undisturbed.loader
    · rw [version]
      exact undisturbed.loader
  · intro before
    rw [accepted] at before
    change _ = ((session.wait.loader.receiving request.arrival).processUdp target request.arrival.udp now).1.inline
    rw [undisturbed.inline before, ← answer before]
    rcases loader with same | ⟨-, version⟩
    · rw [same]
    · rw [version]
      rfl

/-- A step that does the same to both loaders and leaves the answer alone. -/
theorem Undisturbed.move (undisturbed : Undisturbed session other) (pc there : BoundedPc) (extra : ℕ)
    (change : Loader → Loader) (stands : pc = there.further extra)
    (commutes : ∀ loader version rx, change (loader.disturbed version rx) = (change loader).disturbed version rx)
    (answer : ∀ loader, (change loader).syscallData = loader.syscallData ∧
      (change loader).syscallDataLen = loader.syscallDataLen) :
    Undisturbed
      { session with
        wait := { session.wait with pc, loader := change session.wait.loader }
        passDiscoveries := extra }
      { other with wait := { other.wait with pc := there, loader := change other.wait.loader } } := by
  have kept (loader : Loader) : change loader = (change loader).disturbed loader.toolVersion loader.rx :=
    commutes loader loader.toolVersion loader.rx
  have version (loader : Loader) : (change loader).toolVersion = loader.toolVersion := by
    rw [kept loader]
    rfl
  have rx (loader : Loader) : (change loader).rx = loader.rx := by
    rw [kept loader]
    rfl
  refine ⟨stands, ?_, ?_, undisturbed.accepted, undisturbed.call, undisturbed.identity, undisturbed.saved,
    undisturbed.log, ?_, ?_⟩
  · dsimp only
    rw [version, version]
    exact undisturbed.mode
  · dsimp only
    rw [version, rx]
    conv_lhs => rw [undisturbed.loader]
    exact commutes _ _ _
  · intro accepted
    have before := undisturbed.inline_disturbed accepted
    dsimp only
    rw [undisturbed.loader, commutes, inline_disturbed_iff]
    rw [inline_disturbed_iff] at before
    rw [(answer _).1, (answer _).2, rx]
    exact before
  · intro discovered
    exact congrArg change (undisturbed.fresh discovered)

/-- Both show the same. -/
theorem Undisturbed.observe (undisturbed : Undisturbed session other) (shown : List Observation) :
    Undisturbed { session with log := session.log ++ shown } { other with log := other.log ++ shown } :=
  { undisturbed with log := congrArg (· ++ shown) undisturbed.log }

/-- A syscall sends the same request. -/
theorem undisturbed_issue (undisturbed : Undisturbed session other) (call : ProgramSyscall) :
    Undisturbed (session.issue call) (other.issue call) := by
  have request := @request_disturbed _ _ other.wait.loader.rx undisturbed.mode call
  rw [← undisturbed.loader] at request
  unfold ProgramSession.issue
  dsimp only
  rw [request, undisturbed.identity, undisturbed.log]
  refine ⟨rfl, undisturbed.mode, ?_, rfl, rfl, rfl, rfl, ?_, fun accepted => absurd rfl accepted, ?_⟩
  · rw [undisturbed.loader]
    rfl
  · rw [undisturbed.loader]
    rfl
  · intro discovered
    rw [undisturbed.fresh discovered]

/-- A wait begins with the same deadline, or without one. -/
theorem undisturbed_start (undisturbed : Undisturbed session other) (now : ℕ) :
    Undisturbed (session.start ticksPerSecond adapter now) (other.start ticksPerSecond adapter now) := by
  have dedup : other.wait.loader.HostSupportsDedup ↔ session.wait.loader.HostSupportsDedup := undisturbed.mode.dedup
  unfold ProgramSession.start BoundedWait.start
  simp only [dedup]
  split_ifs
  · have moved := undisturbed.move (.loop 0 (some (now + retryTicks ticksPerSecond))) (.loop 0 (some _))
      session.passDiscoveries (fun loader => loader.armWait ticksPerSecond now) rfl (fun _ _ _ => rfl) fun _ => ⟨rfl, rfl⟩
    exact moved.observe _
  · have moved := undisturbed.move (.loop 0 none) (.loop 0 none) session.passDiscoveries id rfl (fun _ _ _ => rfl)
      fun _ => ⟨rfl, rfl⟩
    exact moved.observe _
  · have moved := undisturbed.move (.loop 0 none) (.loop 0 none) session.passDiscoveries id rfl (fun _ _ _ => rfl)
      fun _ => ⟨rfl, rfl⟩
    exact moved.observe _

/-- The loop is left alike. -/
theorem undisturbed_leave (undisturbed : Undisturbed session other) (retry : ℕ) (deadline : Option ℕ) :
    Undisturbed { session with wait := session.wait.leave retry deadline }
      { other with wait := other.wait.leave retry deadline } := by
  exact undisturbed.move (.left retry deadline) (.left retry deadline) session.passDiscoveries
    (fun loader => if deadline.isSome then loader.leaveLoop else { loader with escapeLoop := false }) rfl
    (fun _ _ _ => by split <;> rfl) fun _ => by split <;> exact ⟨rfl, rfl⟩

/-- A syscall returns with the same. -/
theorem undisturbed_finish (undisturbed : Undisturbed session other)
    (same : other.wait.loader.inline = session.wait.loader.inline)
    (reads : session.discovered = true → session.wait.loader.syscallData ≠ none →
      session.call.ReadsAnswer session.wait.loader) :
    Undisturbed (session.finish session.wait.loader) (other.finish other.wait.loader) := by
  have inline : (session.wait.loader.disturbed other.wait.loader.toolVersion other.wait.loader.rx).inline =
      session.wait.loader.inline := by
    rw [← undisturbed.loader]
    exact same
  have finished : session.call.finish other.wait.loader =
      (session.call.finish session.wait.loader).disturbed other.wait.loader.toolVersion other.wait.loader.rx := by
    conv_lhs => rw [undisturbed.loader]
    exact finish_disturbed undisturbed.mode inline session.call
  obtain ⟨memory, fields⟩ := finish_fields session.wait.loader session.call
  have handed : session.call.handed (session.call.finish other.wait.loader) =
      session.call.handed (session.call.finish session.wait.loader) := by
    cases discovered : session.discovered with
    | true =>
      rw [finished, fields]
      exact handed_disturbed inline (reads discovered)
    | false => rw [undisturbed.fresh discovered]
  unfold ProgramSession.finish
  dsimp only
  rw [undisturbed.call, handed, undisturbed.log, finished]
  refine ⟨rfl, ?_, ?_, undisturbed.accepted, rfl, undisturbed.identity, undisturbed.saved, rfl, fun _ => ?_, ?_⟩
  · rw [fields]
    exact undisturbed.mode
  · rfl
  · rw [fields]
    exact inline
  · intro discovered
    dsimp only
    rw [← finished, undisturbed.fresh discovered]

/-- After the loop: the same is returned, or the same request is sent again. -/
theorem undisturbed_test (undisturbed : Undisturbed session other) (retry : ℕ) (deadline : Option ℕ) (now : ℕ)
    (harmless : session.discovered = true → BoundedWait.InTime deadline now →
      session.wait.accepted ≠ [] ∧ session.call.ReadsAnswer session.wait.loader) :
    Undisturbed (session.test retry deadline now) (other.test retry deadline now) := by
  have savePkt : other.wait.loader.kosSyscallSavePkt = session.wait.loader.kosSyscallSavePkt := by
    rw [undisturbed.loader]
    rfl
  unfold ProgramSession.test BoundedWait.test
  dsimp only
  by_cases inTime : BoundedWait.InTime deadline now
  · rw [if_pos inTime, if_pos inTime, if_pos rfl, if_pos rfl]
    have moved := undisturbed.move .returned .returned session.passDiscoveries id rfl (fun _ _ _ => rfl)
      fun _ => ⟨rfl, rfl⟩
    refine undisturbed_finish moved ?_ fun discovered _ => (harmless discovered inTime).2
    cases discovered : session.discovered with
    | true => exact undisturbed.inline (harmless discovered inTime).1
    | false => exact congrArg Loader.inline (undisturbed.fresh discovered)
  · rw [if_neg inTime, if_neg inTime, savePkt]
    by_cases last : session.wait.loader.kosSyscallSavePkt = [] ∨ retry = kosSyscallMaxRetries
    · rw [if_pos last, if_pos last, if_pos rfl, if_pos rfl]
      refine undisturbed_finish ?_ rfl fun _ some => absurd rfl some
      refine ⟨rfl, undisturbed.mode, ?_, undisturbed.accepted, undisturbed.call, undisturbed.identity,
        undisturbed.saved, undisturbed.log, fun _ => rfl, fun discovered => congrArg giveUp (undisturbed.fresh discovered)⟩
      dsimp only
      conv_lhs => rw [undisturbed.loader]
      rfl
    · have moved := undisturbed.move (.arm (retry + 1)) (.arm (retry + 1)) session.passDiscoveries id rfl
        (fun _ _ _ => rfl) fun _ => ⟨rfl, rfl⟩
      have sent := moved.observe [.request session.saved session.wait.loader.kosSyscallSavePkt]
      rw [if_neg last, if_neg last, if_neg nofun, if_neg nofun]
      rw [show other.log ++ [.request other.saved session.wait.loader.kosSyscallSavePkt] =
        other.log ++ [.request session.saved session.wait.loader.kosSyscallSavePkt] by rw [undisturbed.saved]]
      exact sent

theorem undisturbed_endPass (undisturbed : Undisturbed session other) {retry top received fewer : ℕ}
    {deadline : Option ℕ} (there : other.wait.pc = .pass retry deadline top fewer)
    (now : ℕ) (count : received = fewer + session.passDiscoveries)
    (harmless : received ≠ 0 → received = session.passDiscoveries →
      ¬ (session.wait.loader.loopDeadlineTicks ≠ 0 ∧
        session.wait.loader.loopDeadlineTicks ≤ adapter.passReading top now))
    (step : (if received = 0 ∧ session.wait.loader.loopDeadlineTicks ≠ 0 ∧
        session.wait.loader.loopDeadlineTicks ≤ adapter.passReading top now then
          some { session with wait := session.wait.leave retry deadline }
        else some { session with wait := { session.wait with pc := .loop retry deadline } }) = some next) :
    ∃ after, (programMachine adapter ticksPerSecond target).step other (.endPass now) = some after ∧
      Undisturbed next after := by
  have ticks : other.wait.loader.loopDeadlineTicks = session.wait.loader.loopDeadlineTicks := by
    rw [undisturbed.loader]
    rfl
  have same : (fewer = 0 ∧ session.wait.loader.loopDeadlineTicks ≠ 0 ∧
      session.wait.loader.loopDeadlineTicks ≤ adapter.passReading top now) ↔
      (received = 0 ∧ session.wait.loader.loopDeadlineTicks ≠ 0 ∧
        session.wait.loader.loopDeadlineTicks ≤ adapter.passReading top now) := by
    constructor
    · rintro ⟨none, late⟩
      refine ⟨?_, late⟩
      by_contra some
      exact harmless some (by omega) late
    · rintro ⟨none, late⟩
      exact ⟨by omega, late⟩
  simp only [programMachine, there, ticks, same]
  split_ifs at step ⊢
  · cases step
    exact ⟨_, rfl, undisturbed_leave undisturbed retry deadline⟩
  · cases step
    exact ⟨_, rfl, undisturbed.move (.loop retry deadline) (.loop retry deadline) session.passDiscoveries id rfl
      (fun _ _ _ => rfl) fun _ => ⟨rfl, rfl⟩⟩

/-- Every step but a discovery request can be taken without them as well. -/
theorem undisturbed_step {event : ProgramEvent} (undisturbed : Undisturbed session other) (isOther : event.isOther = true)
    (harmless : Harmless adapter session event)
    (step : (programMachine adapter ticksPerSecond target).step session event = some next) :
    ∃ after, (programMachine adapter ticksPerSecond target).step other event = some after ∧ Undisturbed next after := by
  have elsewhere (pc : ∀ retry deadline top received, session.wait.pc ≠ .pass retry deadline top received) :
      other.wait.pc = session.wait.pc := further_eq_other undisturbed.pc pc
  cases event with
  | discovery header request now => cases isOther
  | syscall call =>
    simp only [programMachine] at step
    split at step
    · rename_i pc
      cases step
      have there := elsewhere (by rw [pc]; exact fun _ _ _ _ => nofun)
      refine ⟨other.issue call, ?_, undisturbed_issue undisturbed call⟩
      simp only [programMachine, there, pc]
    · cases step
  | begin now =>
    simp only [programMachine] at step
    split at step
    · rename_i pc
      cases step
      have there := elsewhere (by rw [pc]; exact fun _ _ _ _ => nofun)
      refine ⟨other.start ticksPerSecond adapter now, ?_, undisturbed_start undisturbed now⟩
      simp only [programMachine, there, pc]
    · cases step
  | attempt now =>
    simp only [programMachine] at step
    split at step
    · rename_i retry pc
      cases step
      have there := elsewhere (by rw [pc]; exact fun _ _ _ _ => nofun)
      have moved := undisturbed.move (.loop retry (some (now + retryTicks ticksPerSecond))) (.loop retry (some _))
        session.passDiscoveries (fun loader => loader.armWait ticksPerSecond now) rfl (fun _ _ _ => rfl)
        fun _ => ⟨rfl, rfl⟩
      refine ⟨{ other with wait := other.wait.attempt ticksPerSecond retry now }, ?_, moved⟩
      simp only [programMachine, there, pc]
    · cases step
  | iterate now =>
    simp only [programMachine] at step
    split at step
    · rename_i retry deadline pc
      have there := elsewhere (by rw [pc]; exact fun _ _ _ _ => nofun)
      have escape : other.wait.loader.escapeLoop = session.wait.loader.escapeLoop := by
        rw [undisturbed.loader]
        rfl
      simp only [programMachine, there, pc, escape]
      split_ifs at step ⊢
      · cases step
        exact ⟨_, rfl, undisturbed_leave undisturbed retry deadline⟩
      · cases step
        have moved := undisturbed.move (.pass retry deadline now 0) (.pass retry deadline now 0) 0 id rfl (fun _ _ _ => rfl)
          fun _ => ⟨rfl, rfl⟩
        exact ⟨_, rfl, moved.pc, moved.mode, moved.loader, moved.accepted, moved.call, moved.identity, moved.saved,
          undisturbed.log, moved.inline, moved.fresh⟩
    · cases step
  | frame header arrival now =>
    simp only [programMachine] at step
    split at step
    · rename_i retry deadline top received pc
      obtain ⟨fewer, there, count⟩ := further_eq_pass (pc ▸ undisturbed.pc)
      obtain ⟨effects, after⟩ := @undisturbed_take target _ _ undisturbed retry top received fewer now deadline header
        arrival harmless count
      split_ifs at step with room
      cases step
      refine ⟨_, ?_, after⟩
      simp only [programMachine, there, effects]
      rw [if_pos ⟨by omega, room.2⟩]
    · cases step
  | escape =>
    simp only [programMachine] at step
    split at step
    · rename_i retry deadline top received pc
      cases step
      obtain ⟨fewer, there, count⟩ := further_eq_pass (pc ▸ undisturbed.pc)
      have moved := undisturbed.move session.wait.pc other.wait.pc session.passDiscoveries
        (fun loader => { loader with escapeLoop := true }) undisturbed.pc (fun _ _ _ => rfl) fun _ => ⟨rfl, rfl⟩
      refine ⟨_, ?_, moved⟩
      simp only [programMachine, there]
    · cases step
  | endPass now =>
    simp only [programMachine] at step
    split at step
    · rename_i retry deadline top received pc
      obtain ⟨fewer, there, count⟩ := further_eq_pass (pc ▸ undisturbed.pc)
      simp only [Harmless, pc] at harmless
      exact undisturbed_endPass undisturbed there now count harmless step
    · cases step
  | test now =>
    simp only [programMachine] at step
    split at step
    · rename_i retry deadline pc
      cases step
      have there := elsewhere (by rw [pc]; exact fun _ _ _ _ => nofun)
      simp only [Harmless, pc] at harmless
      refine ⟨other.test retry deadline now, ?_, undisturbed_test undisturbed retry deadline now harmless⟩
      simp only [programMachine, there, pc]
    · cases step

/-- A discovery request can be left out. -/
theorem undisturbed_discovery {header : DatagramHeader} {request : Discovery} {now : ℕ}
    (undisturbed : Undisturbed session other) (harmless : Harmless adapter session (.discovery header request now))
    (step : (programMachine adapter ticksPerSecond target).step session (.discovery header request now) = some next) :
    Undisturbed next other := by
  simp only [programMachine] at step
  split at step
  · rename_i pc
    split_ifs at step
    cases step
    exact undisturbed_discover undisturbed harmless.1 harmless.2 pc
  · cases step

end Steps

/-- The same state, with no discovery request behind it. -/
def ProgramSession.quiet (session : ProgramSession) : ProgramSession :=
  { session with discovered := false, passDiscoveries := 0 }

theorem undisturbed_quiet (session : ProgramSession) : Undisturbed session.quiet session.quiet := by
  refine ⟨?_, SameMode.refl _, rfl, rfl, rfl, rfl, rfl, rfl, fun _ => rfl, fun _ => rfl⟩
  change session.wait.pc = session.wait.pc.further 0
  cases session.wait.pc <;> rfl

/-- Along a run whose steps meet the condition, discovery requests can be left out. -/
theorem undisturbed_run {adapter : ProgramAdapter} {ticksPerSecond : Word} {target : Target}
    {session other last : ProgramSession} {events : List ProgramEvent} (undisturbed : Undisturbed session other)
    (run : (programMachine adapter ticksPerSecond target).run? session events = some last)
    (harmless : (programMachine adapter ticksPerSecond target).Along (Harmless adapter) session events) :
    ∃ without, (programMachine adapter ticksPerSecond target).run? other (undiscovered events) = some without ∧
      Undisturbed last without := by
  induction events generalizing session other with
  | nil =>
    cases run
    exact ⟨other, rfl, undisturbed⟩
  | cons event rest ih =>
    obtain ⟨next, step, suffix⟩ := Machine.LabeledMachine.run?_cons_eq_some.mp run
    have later := harmless.tail step
    cases isOther : event.isOther with
    | true =>
      obtain ⟨after, taken, still⟩ := undisturbed_step undisturbed isOther harmless.head step
      obtain ⟨without, goes, ends⟩ := ih still suffix later
      refine ⟨without, ?_, ends⟩
      rw [undiscovered, List.filter_cons_of_pos isOther]
      exact Machine.LabeledMachine.run?_cons_eq_some.mpr ⟨after, taken, goes⟩
    | false =>
      cases event with
      | discovery header request now =>
        rw [undiscovered, List.filter_cons_of_neg (by simp only [isOther, Bool.false_eq_true, not_false_eq_true])]
        exact ih (undisturbed_discovery undisturbed harmless.head step) suffix later
      | syscall | begin | attempt | iterate | frame | escape | endPass | test => cases isOther

/-- Discovery requests are harmless along every run whose steps meet the condition: the run can be taken without them,
and the host and the program see the same. -/
theorem discovery_harmless (adapter : ProgramAdapter) (ticksPerSecond : Word) (target : Target) (session : ProgramSession)
    (events : List ProgramEvent) {last : ProgramSession}
    (run : (programMachine adapter ticksPerSecond target).run? session.quiet events = some last)
    (harmless : (programMachine adapter ticksPerSecond target).Along (Harmless adapter) session.quiet events) :
    ∃ without, (programMachine adapter ticksPerSecond target).run? session.quiet (undiscovered events) = some without ∧
      without.log = last.log ∧ Undisturbed last without := by
  obtain ⟨without, goes, undisturbed⟩ := undisturbed_run (undisturbed_quiet session) run harmless
  exact ⟨without, goes, undisturbed.log, undisturbed⟩

/-- What the host gets of a program: the requests and where they come from. -/
def requests (log : List Observation) : List (NetIdentity × List Byte) :=
  log.filterMap fun
    | .request identity payload => some (identity, payload)
    | _ => none

/-- A program on the Wii's internal Wi-Fi under a tool of version 3.0.0. -/
def wiiProgram : ProgramSession where
  wait :=
    { pc := .returned
      loader := { Loader.start (fun _ => 0x41) (fun _ => 0) with running := true, toolVersion := 0x00030000 }
      accepted := [] }
  call := .plain []
  identity :=
    { toolMac := 0x020000000001
      toolIp := 0xC0A80002
      toolPort := 40000
      ourIp := 0xC0A80003
      kosloadSyscallPort := 53535 }
  saved :=
    { toolMac := 0x020000000001
      toolIp := 0xC0A80002
      toolPort := 40000
      ourIp := 0xC0A80003
      kosloadSyscallPort := 53535 }
  log := []
  discovered := false
  passDiscoveries := 0

/-- A datagram to a port, from another host. -/
def fromElsewhere (destPort : BitVec 16) : DatagramHeader where
  srcMac := 0x020000000009
  srcIp := 0xC0A80009
  srcPort := 50000
  destIp := 0xFFFFFFFF
  destPort

/-- Two writes, and a `VERS` while the first of them waits. -/
def versDuringWrite (version : Word) (destPort : BitVec 16) : List ProgramEvent :=
  [.syscall (.write 1 0x80010000 4), .begin 0, .iterate 1,
    .discovery (fromElsewhere destPort) { capabilities := false, field := version, size := 0, data := [], frame := 0 } 1,
    .endPass 1, .iterate 2,
    .frame (fromElsewhere 53535) (Arrival.intact (netCommand netCmdRetval 4 0 (seqTrailer 1))) 2, .endPass 2, .iterate 2,
    .test 2, .syscall (.write 1 0x80010000 4)]

theorem discovery_harmless_same_version :
    ∃ last, (programMachine .wiiWifi 1000#32 Target.wii).run? wiiProgram.quiet (versDuringWrite 0x00030000 53535) =
        some last ∧
      ∃ without, (programMachine .wiiWifi 1000#32 Target.wii).run? wiiProgram.quiet
          (undiscovered (versDuringWrite 0x00030000 53535)) = some without ∧
        without.log = last.log ∧ Undisturbed last without := by
  have allowed : ((programMachine .wiiWifi 1000#32 Target.wii).run? wiiProgram.quiet
    (versDuringWrite 0x00030000 53535)).isSome = true := by decide
  obtain ⟨last, run⟩ := Option.isSome_iff_exists.mp allowed
  exact ⟨last, run, discovery_harmless _ _ _ _ _ run (by decide)⟩

/-- The scan of the network for consoles, with its version 2.0.0 and its legacy port, changes the next request. -/
theorem discovery_disturbs :
    (((programMachine .wiiWifi 1000#32 Target.wii).run? wiiProgram.quiet (versDuringWrite 0x00020000 31313)).map
        fun session => (requests session.log).map fun request => (request.1.kosloadSyscallPort, request.2.length)) =
      some [(53535, 28), (31313, 24)] ∧
    (((programMachine .wiiWifi 1000#32 Target.wii).run? wiiProgram.quiet
        (undiscovered (versDuringWrite 0x00020000 31313))).map
        fun session => (requests session.log).map fun request => (request.1.kosloadSyscallPort, request.2.length)) =
      some [(53535, 28), (53535, 28)] := by
  decide

end KosTool
