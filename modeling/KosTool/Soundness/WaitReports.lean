import KosTool.Model.Client.BoundedWait

/-! # What the bounded wait reports

A wait should end with the answer of the `RETV` it accepted, and with −1 exactly if it accepted none. The code
tells the two apart by the clock: a loop that is left before the attempt's own deadline counts as answered, one
that is left later as stalled. Transfers push the adapter's deadline past that one, and other datagrams leave the
loop as well, so a wait reports what happened exactly along the runs in which every test finds what it assumes.
-/

namespace KosTool.Client

open ByteWord Protocol

namespace Loader

variable {target : Target} {loader : Loader} {udp : Udp} {now : ℕ}

@[simp] theorem netBumpSyscallDeadline_answer : (loader.netBumpSyscallDeadline now).answer = loader.answer := by
  unfold netBumpSyscallDeadline; split <;> rfl

theorem cmdLoadbin_answer : (loader.cmdLoadbin target udp now).1.answer = loader.answer := by
  simp only [cmdLoadbin]
  split_ifs <;> exact netBumpSyscallDeadline_answer

/-- An accepted `RETV` leaves the answer it brings. -/
theorem cmdRetval_answer (accepts : loader.AcceptsRetval udp) :
    (loader.cmdRetval udp).1.answer = loader.announced udp := by
  obtain ⟨⟨long, -, -⟩, running, fresh⟩ := accepts
  unfold cmdRetval
  rw [if_neg (by rw [running]; simp only [not_true_eq_false, false_or]; omega), if_neg fresh]
  rfl

theorem cmdRetval_refused (refused : ¬ (loader.running = true ∧
    ¬ (loader.Trailered udp ∧ loader.echoed udp ≠ loader.kosSyscallSeq))) :
    (loader.cmdRetval udp).1.answer = loader.answer := by
  unfold cmdRetval
  by_cases dropped : ¬ loader.running = true ∨ udp.length.toNat < udpHeaderLen
  · rw [if_pos dropped]
  · by_cases stale : loader.Trailered udp ∧ loader.echoed udp ≠ loader.kosSyscallSeq
    · rw [if_neg dropped, if_pos stale]
    · exact absurd ⟨not_not.mp (not_or.mp dropped).1, stale⟩ refused

theorem processUdp_answer_of_accepts (accepts : loader.AcceptsRetval udp) :
    (loader.processUdp target udp now).1.answer = loader.announced udp := by
  rw [processUdp_retval accepts.1]
  exact cmdRetval_answer accepts

/-- Every other datagram leaves the answer alone. -/
theorem processUdp_answer_of_not (refused : ¬ loader.AcceptsRetval udp) :
    (loader.processUdp target udp now).1.answer = loader.answer := by
  by_cases retval : loader.Takes udp netCmdRetval
  · rw [processUdp_retval retval]
    exact cmdRetval_refused fun accepted => refused ⟨retval, accepted⟩
  · unfold processUdp
    by_cases dropped : udp.length.toNat < udpHeaderLen ∨ udp.checksumMatches = false
    · rw [if_pos dropped]
    by_cases dhcp : loader.rx udp.data = 2#8
    · rw [if_neg dropped, if_pos dhcp]
    rw [if_neg dropped, if_neg dhcp]
    rw [not_or, Nat.not_lt, Bool.not_eq_false] at dropped
    have other : commandId loader.rx udp.data ≠ netCmdRetval := fun id => retval ⟨dropped.1, dropped.2, id⟩
    simp only [dispatch, other, if_false, cmdDonebin, cmdSendbinq, cmdVersion, cmdReboot, cmdExecute]
    split_ifs <;> first | rfl | exact netBumpSyscallDeadline_answer | exact cmdLoadbin_answer

end Loader

namespace BoundedWait

variable {target : Target} {adapter : LossyAdapter} {ticksPerSecond : Word} {wait : BoundedWait}

/-- Every accepted answer is what the loader holds, no attempt follows one, and a wait that has returned holds
−1 exactly if there was none. -/
structure Reports (wait : BoundedWait) : Prop where
  holds : ∀ answer ∈ wait.accepted, wait.loader.answer = answer
  kept : ∀ retry, wait.pc = .arm retry → wait.accepted = []
  settled : wait.pc = .returned → (wait.loader.answer = noAnswer ↔ wait.accepted = [])

/-- The wait reports what happened after the step, if it can be taken. -/
def StepReports (adapter : LossyAdapter) (ticksPerSecond : Word) (target : Target) (wait : BoundedWait)
    (event : WaitEvent) : Prop :=
  ∀ next, (waitMachine adapter ticksPerSecond target).step wait event = some next → next.Reports

/-- What a step takes for granted, if it can be taken: the test in time, that a `RETV` has been accepted or the
loader holds −1 anyway; the test too late, that none has; another `RETV` or a refused `LBIN` behind an accepted
`RETV` in one pass, that they leave its answer. -/
def StepTells (adapter : LossyAdapter) (ticksPerSecond : Word) (target : Target) (wait : BoundedWait)
    (event : WaitEvent) : Prop :=
  ((waitMachine adapter ticksPerSecond target).step wait event).isSome →
    match event with
    | .frame arrival _ => (wait.loader.receiving arrival).AcceptsRetval arrival.udp →
        ∀ answer ∈ wait.accepted, (wait.loader.receiving arrival).announced arrival.udp = answer
    | .refusedLoad _ _ after => ∀ answer ∈ wait.accepted, after.answer = answer
    | .test now => ∀ retry deadline, wait.pc = .left retry deadline →
        if InTime deadline now then wait.accepted = [] → wait.loader.answer = noAnswer else wait.accepted = []
    | _ => True

/-- Accepted answers come with data, which −1 does not. -/
def Answered (wait : BoundedWait) : Prop := ∀ answer ∈ wait.accepted, answer ≠ noAnswer

/-- What a step can do, and where. -/
def Taken (adapter : LossyAdapter) (ticksPerSecond : Word) (target : Target) (wait next : BoundedWait) :
    WaitEvent → Prop
  | .begin now => wait.pc = .call ∧ next = wait.start ticksPerSecond now
  | .attempt now => ∃ retry, wait.pc = .arm retry ∧ next = wait.attempt ticksPerSecond retry now
  | .iterate now => ∃ retry deadline, wait.pc = .loop retry deadline ∧
      (wait.loader.escapeLoop = true ∧ next = wait.leave retry deadline ∨
        wait.loader.escapeLoop = false ∧ next = { wait with pc := .pass retry deadline now 0 })
  | .frame arrival now => ∃ retry deadline top received, wait.pc = .pass retry deadline top received ∧
      received < adapter.framesPerPass ∧ next = wait.take target retry deadline top received arrival now
  | .refusedLoad _ _ after => ∃ retry deadline top received, wait.pc = .pass retry deadline top received ∧
      received < adapter.framesPerPass ∧
        next = { wait with pc := .pass retry deadline top (received + 1), loader := after }
  | .escape => ∃ retry deadline top received, wait.pc = .pass retry deadline top received ∧
      next = { wait with loader := { wait.loader with escapeLoop := true } }
  | .endPass now => ∃ retry deadline top received, wait.pc = .pass retry deadline top received ∧
      (received = 0 ∧ wait.loader.loopDeadlineTicks ≤ adapter.passReading top now ∧
          next = wait.leave retry deadline ∨
        next = { wait with pc := .loop retry deadline })
  | .test now => ∃ retry deadline, wait.pc = .left retry deadline ∧ next = wait.test retry deadline now

theorem taken_of_step {event : WaitEvent} {next : BoundedWait}
    (step : (waitMachine adapter ticksPerSecond target).step wait event = some next) :
    Taken adapter ticksPerSecond target wait next event := by
  cases event with
  | begin now =>
    simp only [waitMachine] at step
    split at step
    · exact ⟨by assumption, (Option.some.inj step).symm⟩
    · cases step
  | attempt now =>
    simp only [waitMachine] at step
    split at step
    · exact ⟨_, by assumption, (Option.some.inj step).symm⟩
    · cases step
  | iterate now =>
    simp only [waitMachine] at step
    split at step
    · refine ⟨_, _, by assumption, ?_⟩
      split_ifs at step with escaped
      · exact Or.inl ⟨escaped, (Option.some.inj step).symm⟩
      · exact Or.inr ⟨Bool.not_eq_true _ ▸ escaped, (Option.some.inj step).symm⟩
    · cases step
  | frame arrival now =>
    simp only [waitMachine] at step
    split at step
    · split_ifs at step with room
      exact ⟨_, _, _, _, by assumption, room.1, (Option.some.inj step).symm⟩
    · cases step
  | refusedLoad arrival now after =>
    simp only [waitMachine] at step
    split at step
    · split_ifs at step with room
      exact ⟨_, _, _, _, by assumption, room.1, (Option.some.inj step).symm⟩
    · cases step
  | escape =>
    simp only [waitMachine] at step
    split at step
    · exact ⟨_, _, _, _, by assumption, (Option.some.inj step).symm⟩
    · cases step
  | endPass now =>
    simp only [waitMachine] at step
    split at step
    · refine ⟨_, _, _, _, by assumption, ?_⟩
      split_ifs at step with late
      · exact Or.inl ⟨late.1, late.2.2, (Option.some.inj step).symm⟩
      · exact Or.inr (Option.some.inj step).symm
    · cases step
  | test now =>
    simp only [waitMachine] at step
    split at step
    · exact ⟨_, _, by assumption, (Option.some.inj step).symm⟩
    · cases step

theorem announced_ne_noAnswer (loader : Loader) (udp : Udp) : loader.announced udp ≠ noAnswer := fun same =>
  nomatch congrArg RetvalAnswer.data same

theorem answered_step {event : WaitEvent} {next : BoundedWait} (answered : wait.Answered)
    (step : (waitMachine adapter ticksPerSecond target).step wait event = some next) : next.Answered := by
  have taken := taken_of_step step
  cases event with
  | begin now =>
    obtain ⟨-, rfl⟩ := taken
    unfold start attempt
    split <;> exact answered
  | attempt now =>
    obtain ⟨retry, -, rfl⟩ := taken
    exact answered
  | iterate now =>
    obtain ⟨retry, deadline, -, ⟨-, rfl⟩ | ⟨-, rfl⟩⟩ := taken <;> exact answered
  | frame arrival now =>
    obtain ⟨retry, deadline, top, received, -, -, rfl⟩ := taken
    intro answer among
    dsimp only [take] at among
    split_ifs at among with accepts
    · rcases List.mem_append.mp among with earlier | latest
      · exact answered answer earlier
      · rw [List.mem_singleton.mp latest]
        exact announced_ne_noAnswer _ _
    · exact answered answer among
  | refusedLoad arrival now after =>
    obtain ⟨retry, deadline, top, received, -, -, rfl⟩ := taken
    exact answered
  | escape =>
    obtain ⟨retry, deadline, top, received, -, rfl⟩ := taken
    exact answered
  | endPass now =>
    obtain ⟨retry, deadline, top, received, -, ⟨-, -, rfl⟩ | rfl⟩ := taken <;> exact answered
  | test now =>
    obtain ⟨retry, deadline, -, rfl⟩ := taken
    unfold test
    split_ifs <;> exact answered

/-- A step that neither changes the answer nor ends an attempt. -/
theorem Reports.same {next : BoundedWait} (reports : wait.Reports) (answer : next.loader.answer = wait.loader.answer)
    (accepted : next.accepted = wait.accepted) (arm : ∀ retry, next.pc ≠ .arm retry) (returned : next.pc ≠ .returned) :
    next.Reports where
  holds := by
    rw [answer, accepted]
    exact reports.holds
  kept retry at_arm := absurd at_arm (arm retry)
  settled at_end := absurd at_end returned

theorem reports_start (reports : wait.Reports) (now : ℕ) : (wait.start ticksPerSecond now).Reports := by
  unfold start attempt
  split <;> exact reports.same rfl rfl (fun _ => nofun) nofun

theorem reports_leave (reports : wait.Reports) (retry : ℕ) (deadline : Option ℕ) :
    (wait.leave retry deadline).Reports := by
  refine reports.same ?_ rfl (fun _ => nofun) nofun
  unfold leave
  dsimp only
  split <;> rfl

/-- A frame leaves the wait true to what happened exactly if a `RETV` in it agrees with those before. -/
theorem reports_take_iff (reports : wait.Reports) (retry : ℕ) (deadline : Option ℕ) (top received : ℕ)
    (arrival : Arrival) (now : ℕ) : (wait.take target retry deadline top received arrival now).Reports ↔
      ((wait.loader.receiving arrival).AcceptsRetval arrival.udp →
        ∀ answer ∈ wait.accepted, (wait.loader.receiving arrival).announced arrival.udp = answer) := by
  by_cases accepts : (wait.loader.receiving arrival).AcceptsRetval arrival.udp
  · have answer := @Loader.processUdp_answer_of_accepts target _ _ now accepts
    constructor
    · intro after _ earlier among
      rw [← answer]
      refine after.holds earlier ?_
      dsimp only [take]
      rw [if_pos accepts]
      exact List.mem_append_left _ among
    · intro agrees
      refine ⟨fun last among => ?_, fun _ => nofun, nofun⟩
      dsimp only [take] at among ⊢
      rw [if_pos accepts] at among
      rw [answer]
      rcases List.mem_append.mp among with earlier | latest
      · exact agrees accepts last earlier
      · rw [List.mem_singleton.mp latest]
  · refine iff_of_true (reports.same ?_ ?_ (fun _ => nofun) nofun) fun accepted => absurd accepted accepts
    · exact Loader.processUdp_answer_of_not accepts
    · dsimp only [take]
      rw [if_neg accepts]

/-- The test leaves the wait true to what happened exactly if the clock tells it. -/
theorem reports_test_iff (reports : wait.Reports) (answered : wait.Answered) (retry : ℕ) (deadline : Option ℕ)
    (now : ℕ) : (wait.test retry deadline now).Reports ↔
      if InTime deadline now then wait.accepted = [] → wait.loader.answer = noAnswer else wait.accepted = [] := by
  unfold test
  split_ifs with inTime last
  · constructor
    · intro after none
      exact (after.settled rfl).mpr none
    · intro tells
      refine ⟨reports.holds, fun _ => nofun, fun _ => ⟨fun none => ?_, tells⟩⟩
      refine List.eq_nil_iff_forall_not_mem.mpr fun answer among => ?_
      exact answered answer among ((reports.holds answer among).symm.trans none)
  · constructor
    · intro after
      exact (after.settled rfl).mp rfl
    · intro none
      refine ⟨fun answer among => ?_, fun _ => nofun, fun _ => ⟨fun _ => none, fun _ => rfl⟩⟩
      rw [show wait.accepted = [] from none] at among
      cases among
  · constructor
    · intro after
      exact after.kept _ rfl
    · intro none
      exact ⟨reports.holds, fun _ _ => none, nofun⟩

/-- A step keeps the wait true to what happened exactly if it finds what it takes for granted. -/
theorem stepReports_iff_tells (reports : wait.Reports) (answered : wait.Answered) (event : WaitEvent) :
    StepReports adapter ticksPerSecond target wait event ↔ StepTells adapter ticksPerSecond target wait event := by
  unfold StepReports StepTells
  cases step : (waitMachine adapter ticksPerSecond target).step wait event with
  | none => exact iff_of_true (fun _ => nofun) nofun
  | some next =>
    simp only [Option.some.injEq, forall_eq', Option.isSome_some, forall_const]
    have taken := taken_of_step step
    cases event with
    | begin now =>
      obtain ⟨-, rfl⟩ := taken
      exact iff_of_true (reports_start reports _) trivial
    | attempt now =>
      obtain ⟨retry, -, rfl⟩ := taken
      exact iff_of_true (reports.same rfl rfl (fun _ => nofun) nofun) trivial
    | iterate now =>
      obtain ⟨retry, deadline, -, ⟨-, rfl⟩ | ⟨-, rfl⟩⟩ := taken
      · exact iff_of_true (reports_leave reports _ _) trivial
      · exact iff_of_true (reports.same rfl rfl (fun _ => nofun) nofun) trivial
    | frame arrival now =>
      obtain ⟨retry, deadline, top, received, -, -, rfl⟩ := taken
      exact reports_take_iff reports _ _ _ _ _ _
    | refusedLoad arrival now after =>
      obtain ⟨retry, deadline, top, received, -, -, rfl⟩ := taken
      exact ⟨fun after => after.holds, fun agrees => ⟨agrees, fun _ => nofun, nofun⟩⟩
    | escape =>
      obtain ⟨retry, deadline, top, received, pc, rfl⟩ := taken
      refine iff_of_true (reports.same rfl rfl (fun retry => ?_) ?_) trivial
      · rw [pc]
        nofun
      · rw [pc]
        nofun
    | endPass now =>
      obtain ⟨retry, deadline, top, received, -, ⟨-, -, rfl⟩ | rfl⟩ := taken
      · exact iff_of_true (reports_leave reports _ _) trivial
      · exact iff_of_true (reports.same rfl rfl (fun _ => nofun) nofun) trivial
    | test now =>
      obtain ⟨retry, deadline, pc, rfl⟩ := taken
      rw [reports_test_iff reports answered]
      constructor
      · intro tells retry deadline stands
        rw [pc] at stands
        cases stands
        exact tells
      · intro tells
        exact tells _ _ pc

/-- Over a whole wait, the answers accepted, kept and returned are what happened exactly if every step finds what
it takes for granted: above all, a loop left before its deadline was left for a `RETV`, and one left later was not. -/
theorem wait_reports_iff_tells (adapter : LossyAdapter) (ticksPerSecond : Word) (target : Target) (loader : Loader)
    (events : List WaitEvent) :
    (waitMachine adapter ticksPerSecond target).Along (StepReports adapter ticksPerSecond target) (called loader) events ↔
      (waitMachine adapter ticksPerSecond target).Along (StepTells adapter ticksPerSecond target) (called loader)
        events := by
  have initial : (called loader).Reports ∧ (called loader).Answered :=
    ⟨⟨fun _ among => (List.not_mem_nil among).elim, fun _ _ => rfl, nofun⟩, fun _ among => (List.not_mem_nil among).elim⟩
  have kept : ∀ wait event next, wait.Reports ∧ wait.Answered →
      StepReports adapter ticksPerSecond target wait event →
        (waitMachine adapter ticksPerSecond target).step wait event = some next → next.Reports ∧ next.Answered :=
    fun _ _ next inv after step => ⟨after next step, answered_step inv.2 step⟩
  exact Machine.LabeledMachine.along_congr_of_kept kept (fun _ event inv => stepReports_iff_tells inv.1 inv.2 event)
    events initial

/-- A loader whose program has just asked for `close(3)`. -/
def closing : Loader :=
  ({ Loader.start (fun _ => 0) (fun _ => 0) with running := true, toolVersion := 0x00030000 }.buildSendPacket
    (netCommand (fourCC 'D' 'C' '0' '5') 3 0 [])).1

/-- An attempt in which nothing arrives: it begins, one pass runs past its deadline, and the test is too late. -/
def silentAttempt (retry : ℕ) : List WaitEvent :=
  [if retry = 0 then .begin (retry * 600) else .attempt (retry * 600), .iterate (retry * 600 + 600),
    .endPass (retry * 600 + 600), .test (retry * 600 + 600)]

/-- Six silent attempts, and a last one whose answer arrives one tick before the deadline and is tested at it. -/
def lateTest : List WaitEvent :=
  (List.range 6).flatMap silentAttempt ++
    [.attempt 3600, .iterate 4199, .frame (Arrival.intact (netCommand netCmdRetval 0 0 [])) 4199, .endPass 4199,
      .iterate 4199, .test 4200]

/-- A DHCP reply ends the loop long before the deadline. -/
def dhcpReplyArrives : List WaitEvent :=
  [.begin 0, .iterate 1, .frame (Arrival.intact [2#8]) 1, .escape, .endPass 1, .iterate 1, .test 1]

/-- An accepted answer is overwritten with −1, and a wait without one returns what the last syscall left. -/
theorem wait_misreports :
    ((waitMachine .wii 1000#32 Target.wii).run? (called closing) lateTest).map
        (fun wait => (wait.pc, wait.accepted, wait.loader.answer)) =
          some (.returned, [⟨0, some 12, 0⟩], noAnswer) ∧
      ((waitMachine .wii 1000#32 Target.wii).run? (called { closing with syscallRetval := 7 }) dhcpReplyArrives).map
        (fun wait => (wait.pc, wait.accepted, wait.loader.syscallRetval)) = some (.returned, [], 7) := by
  decide

end BoundedWait

end KosTool.Client
