import KosTool.Soundness.ReplayFidelity
import KosTool.Soundness.SyscallSafety

/-! # A retransmitted request is served

While the console waits for a syscall and its retry budget lasts, a copy of the request that reaches the
host loop should be dispatched for the first time or have the answer sent again. The cache keeps a response
for three seconds from the beginning of its dispatch and for 64 packets, the budget lasts 4.2 seconds, and
a request that is not replayed counts as stale. What is served is exactly what `RetransmitCovered` says.
-/

namespace KosTool

open ByteWord Protocol Client Host SkipZeroCounter

/-- How long all attempts of a syscall last together. -/
def retryBudgetUsec : ℕ := kosSyscallRetryMs.toNat * 1000 * (kosSyscallMaxRetries + 1)

/-- The datagram belongs to the syscall the console is waiting for, and its retry budget lasts. -/
def SyscallSystem.Live (system : SyscallSystem) (datagram : InFlight) : Prop :=
  datagram.syscall = some system.issued ∧ system.client ≠ .idle ∧ system.clock ≤ system.sentAt + retryBudgetUsec

/-- The syscall the console issued last has not been dispatched. -/
def SyscallSystem.Undispatched (system : SyscallSystem) : Prop :=
  ∀ dispatch ∈ system.dispatched, dispatch.syscall ≠ some system.issued

/-- The host dispatches the syscall for the first time, or what it sends ends in the syscall's answer. -/
def SyscallSystem.Served (system next : SyscallSystem) : Prop :=
  system.Undispatched ∧ next.dispatched = system.dispatched ++ [⟨wireSeq system.issued, some system.issued⟩] ∨
  ∃ response answer, IsAnswer system.produced system.issued answer ∧
    next.toConsole.map InFlight.payload = system.toConsole.map InFlight.payload ++ (response ++ [answer])

/-- Whenever a live retransmit reaches the host loop, it is served. -/
def RetransmitServed (link : Link) (system : SyscallSystem) : SyscallEvent → Prop
  | .hostReceive index => Meets (fun datagram => system.host = .loop → system.Live datagram →
      system.Served (system.hostReceive link datagram)) system.toHost[index]?
  | _ => True

/-- The syscall has not been dispatched, or its dispatch began at most three seconds ago, sent a `RETV` and
passed no more packets to the cache than it has slots. -/
def SyscallSystem.Covered (link : Link) (system : SyscallSystem) : Prop :=
  system.Undispatched ∨ system.timeUsec link - system.dedup.capturedAtUs ≤ dedupWindowUsec ∧
    system.answerSent = true ∧ system.emitted.length ≤ dedupMaxPackets

/-- Whenever a live retransmit reaches the host loop, it is covered. -/
def RetransmitCovered (link : Link) (system : SyscallSystem) : SyscallEvent → Prop
  | .hostReceive index => Meets (fun datagram => system.host = .loop → system.Live datagram → system.Covered link)
      system.toHost[index]?
  | _ => True

/-- Besides what is delivered, the host's last dispatch is recent. -/
def RetransmitGuard (system : SyscallSystem) (event : SyscallEvent) : Prop :=
  SyscallGuard system event ∧
    match event with
    | .hostReceive _ => ∀ dispatch ∈ system.dispatched.getLast?, Recent system.issued dispatch.syscall
    | _ => True

/-- What the last dispatch passed to the cache, and what of it the cache holds. -/
structure ResponseInv (host : ServePc) (dedup : Dedup) (dispatched : List Dispatch) (emitted : List (List Byte))
    (answerSent : Bool) (produced : List Answer) : Prop where
  capturing : ∀ syscall, host = .dispatching syscall ∨ host = .answered syscall →
    dedup.slots dedup.captureCount = stored emitted
  committed : host = .loop → dedup.slots dedup.packetCount = stored emitted
  storable : ∀ packet ∈ emitted, Storable packet
  dispatching : ∀ syscall, host = .dispatching syscall → answerSent = false
  unanswered : answerSent = false → ∀ packet ∈ emitted, IsTransfer packet
  answered : answerSent = true → ∃ transfers answer, emitted = transfers ++ [answer] ∧
    (∀ packet ∈ transfers, IsTransfer packet) ∧
      ∀ last ∈ dispatched.getLast?, ∀ n, last.syscall = some n → IsAnswer produced n answer

/-- If there was a dispatch, the cache matches what the last one passed to it. -/
def SyscallSystem.Responds (system : SyscallSystem) : Prop :=
  system.dispatched ≠ [] → ResponseInv system.host system.dedup system.dispatched system.emitted system.answerSent
    system.produced

/-- What holds in every state of the link, with the response of the last dispatch. -/
structure RetransmitInv (link : Link) (system : SyscallSystem) : Prop where
  syscall : SyscallInv link system
  responds : system.Responds

section Packets

variable {packet : List Byte} {produced more : List Answer} {n : ℕ}

theorem IsTransfer.storable (transfer : IsTransfer packet) : Storable packet := by
  obtain ⟨isWiiLoader, cmd, address, size, data, dsize, rfl, -⟩ := transfer
  refine ⟨?_, length_sendCmd_le ..⟩
  obtain ⟨pad, -, wire⟩ := sendCmd_eq isWiiLoader cmd address size data dsize
  rw [wire, length_netCommand, netCommandLen]
  omega

theorem IsAnswer.storable (answer : IsAnswer produced n packet) : Storable packet := by
  obtain ⟨value, size, data, rfl, short, -⟩ := answer
  rw [Storable, length_taggedRetval]
  simp only [maxInlineRet, dedupMaxPktBytes] at short ⊢
  omega

/-- No transfer command is a `RETV`. -/
theorem IsTransfer.not_isAnswer (transfer : IsTransfer packet) : ¬ IsAnswer produced n packet := by
  obtain ⟨isWiiLoader, cmd, address, size, data, dsize, rfl, among⟩ := transfer
  rintro ⟨value, size', data', retval, -, -⟩
  obtain ⟨pad, -, wire⟩ := sendCmd_eq isWiiLoader cmd address size data dsize
  rw [wire, taggedRetval] at retval
  rw [(netCommand_inj.mp retval).1] at among
  exact absurd among (by decide)

theorem IsAnswer.mono (answer : IsAnswer produced n packet) : IsAnswer (produced ++ more) n packet := by
  obtain ⟨value, size, data, wire, short, among⟩ := answer
  exact ⟨value, size, data, wire, short, List.mem_append_left _ among⟩

end Packets

section Response

variable {host : ServePc} {dedup : Dedup} {dispatched : List Dispatch} {emitted : List (List Byte)} {answerSent : Bool}
  {produced more : List Answer} {packet : List Byte} {syscall : Option ℕ}

theorem forall_mem_concat {α : Type*} {condition : α → Prop} {list : List α} {last : α}
    (holds : ∀ entry ∈ list, condition entry) (ends : condition last) : ∀ entry ∈ list ++ [last], condition entry := by
  intro entry among
  rcases List.mem_append.mp among with earlier | now
  · exact holds entry earlier
  · rw [List.mem_singleton.mp now]
    exact ends

/-- A dispatch begins with nothing passed to the cache. -/
theorem ResponseInv.begin (left : host ≠ .loop) (seq : Word) (now : Usec) :
    ResponseInv host (dedup.beginCapture seq now) dispatched [] false produced where
  capturing _ _ := rfl
  committed waits := absurd waits left
  storable _ among := (List.not_mem_nil among).elim
  dispatching _ _ := rfl
  unanswered _ _ among := (List.not_mem_nil among).elim
  answered sent := by cases sent

/-- A transfer command is passed to the cache. -/
theorem ResponseInv.emit (inv : ResponseInv (.dispatching syscall) dedup dispatched emitted answerSent produced)
    (capturing : dedup.capturing = true) (transfer : IsTransfer packet) :
    ResponseInv (.dispatching syscall) (dedup.capturePkt packet) dispatched (emitted ++ [packet]) answerSent produced where
  capturing again busy := slots_capturePkt capturing (inv.capturing again busy)
  committed waits := by cases waits
  storable := forall_mem_concat inv.storable transfer.storable
  dispatching := inv.dispatching
  unanswered unsent := forall_mem_concat (inv.unanswered unsent) transfer
  answered sent := by
    rw [inv.dispatching syscall rfl] at sent
    cases sent

/-- The answer could not be sent. -/
theorem ResponseInv.fail (inv : ResponseInv (.dispatching syscall) dedup dispatched emitted answerSent produced) :
    ResponseInv (.answered syscall) dedup dispatched emitted false (produced ++ more) where
  capturing _ _ := inv.capturing syscall (Or.inl rfl)
  committed waits := by cases waits
  storable := inv.storable
  dispatching _ dispatching := by cases dispatching
  unanswered _ := inv.unanswered (inv.dispatching syscall rfl)
  answered sent := by cases sent

/-- The answer is passed to the cache. -/
theorem ResponseInv.answer (inv : ResponseInv (.dispatching syscall) dedup dispatched emitted answerSent produced)
    (capturing : dedup.capturing = true) (storable : Storable packet)
    (answers : ∀ last ∈ dispatched.getLast?, ∀ n, last.syscall = some n → IsAnswer (produced ++ more) n packet) :
    ResponseInv (.answered syscall) (dedup.capturePkt packet) dispatched (emitted ++ [packet]) true
      (produced ++ more) where
  capturing _ _ := slots_capturePkt capturing (inv.capturing syscall (Or.inl rfl))
  committed waits := by cases waits
  storable := forall_mem_concat inv.storable storable
  dispatching _ dispatching := by cases dispatching
  unanswered unsent := by cases unsent
  answered _ := ⟨emitted, packet, rfl, inv.unanswered (inv.dispatching syscall rfl), answers⟩

/-- The dispatch is committed. -/
theorem ResponseInv.finish (inv : ResponseInv host dedup dispatched emitted answerSent produced)
    (busy : host = .dispatching syscall ∨ host = .answered syscall) (capturing : dedup.capturing = true) :
    ResponseInv .loop dedup.endCapture dispatched emitted answerSent produced where
  capturing again busy := by rcases busy with busy | busy <;> cases busy
  committed _ := by
    rw [Dedup.endCapture, if_neg (not_not.mpr capturing)]
    exact inv.capturing syscall busy
  storable := inv.storable
  dispatching _ dispatching := by cases dispatching
  unanswered := inv.unanswered
  answered := inv.answered

/-- What the cache holds ends in the answer exactly when there is one and everything found room. -/
theorem ResponseInv.ends_iff (inv : ResponseInv host dedup dispatched emitted answerSent produced)
    {last : Dispatch} {n : ℕ} (logged : last ∈ dispatched.getLast?) (tag : last.syscall = some n) :
    (∃ response answer, IsAnswer produced n answer ∧ stored emitted = response ++ [answer]) ↔
      answerSent = true ∧ emitted.length ≤ dedupMaxPackets := by
  have kept : stored emitted = emitted.take dedupMaxPackets := by
    rw [stored, List.filter_eq_self.mpr fun packet among => decide_eq_true (inv.storable packet among)]
  rw [kept]
  constructor
  · rintro ⟨response, answer, answers, ends⟩
    have among : answer ∈ emitted.take dedupMaxPackets := by
      rw [ends]
      exact List.mem_append_right _ (List.mem_singleton_self _)
    cases sent : answerSent with
    | false => exact absurd answers (inv.unanswered sent answer (List.mem_of_mem_take among)).not_isAnswer
    | true =>
      refine ⟨rfl, Nat.not_lt.mp fun overflows => ?_⟩
      obtain ⟨transfers, final, whole, transfer, -⟩ := inv.answered sent
      rw [whole, List.length_append, List.length_singleton] at overflows
      rw [whole, List.take_append_of_le_length (Nat.le_of_lt_succ overflows)] at among
      exact (transfer answer (List.mem_of_mem_take among)).not_isAnswer answers
  · rintro ⟨sent, fits⟩
    obtain ⟨transfers, final, whole, -, answers⟩ := inv.answered sent
    exact ⟨transfers, final, answers last logged n tag, (List.take_of_length_le fits).trans whole⟩

end Response

section Run

variable {link : Link} {system : SyscallSystem}

/-- The dispatch going on is the last one. -/
theorem SyscallInv.last_dispatch (inv : SyscallInv link system) {syscall : Option ℕ}
    (busy : system.host = .dispatching syscall ∨ system.host = .answered syscall) : system.dispatched ≠ [] ∧
      ∀ last ∈ system.dispatched.getLast?, last.syscall = syscall := by
  obtain ⟨-, init, last, log, tag, -⟩ := inv.host.busy syscall busy
  rw [log]
  refine ⟨List.append_ne_nil_of_right_ne_nil _ (List.cons_ne_nil _ _), fun other among => ?_⟩
  rw [List.getLast?_concat, Option.mem_some_iff] at among
  rw [← among]
  exact tag

/-- The host loop receives a datagram. -/
theorem responds_hostReceive (inv : SyscallInv link system) (responds : system.Responds) {datagram : InFlight}
    (on_way : datagram ∈ system.toHost) (untagged : datagram.syscall = none → Dedup.extractSeq
      (storeAt (fun _ => 0) 0 (datagram.payload.take receiveBufferLen))
      (datagram.payload.take receiveBufferLen).length = none) :
    (system.hostReceive link datagram).Responds := by
  rcases inv.toHost datagram on_way with ⟨n, tag, positive, bound, request⟩ | ⟨tag, reply⟩
  · rw [hostReceive_request request, tag, SyscallSystem.admitRequest]
    rcases admission_cases system.dedup (wireSeq n) (system.timeUsec link) with ⟨replays, -⟩ | ⟨drops, -⟩ |
      ⟨dispatches, -⟩
    · rw [replays]
      exact responds
    · rw [drops]
      exact responds
    · rw [dispatches]
      intro _
      refine ResponseInv.begin ?_ _ _
      simp only [SyscallSystem.dispatch]
      split
      · exact ServePc.noConfusion
      · exact ServePc.noConfusion
  · obtain ⟨id, address, size, data, wire, noSyscall⟩ := reply
    have untagged := untagged tag
    simp only [SyscallSystem.hostReceive, untagged]
    rw [wire, commandId_reply, if_neg noSyscall, ite_self]
    exact responds

/-- A handler has a transfer command sent. -/
theorem responds_hostEmit (inv : SyscallInv link system) (responds : system.Responds) {syscall : Option ℕ}
    (busy : system.host = .dispatching syscall) {cmd : Word} {packet : List Byte} {sent : Bool}
    (transfer : IsTransfer packet) : (system.hostEmit syscall cmd packet sent).Responds := by
  have capturing := (inv.host.busy syscall (Or.inl busy)).1
  have response := responds (inv.last_dispatch (Or.inl busy)).1
  rw [busy] at response
  unfold SyscallSystem.hostEmit
  cases sent with
  | false => exact responds
  | true =>
    simp only [if_true]
    split
    · exact responds
    · intro _
      have after := response.emit capturing transfer
      rw [← busy] at after
      exact after

/-- A handler answers. -/
theorem responds_hostRetval (inv : SyscallInv link system) (responds : system.Responds) {syscall : Option ℕ}
    (busy : system.host = .dispatching syscall) {value size : Word} {data : List Byte} {sent : Bool}
    (short : data.length ≤ maxInlineRet) : (system.hostRetval syscall value size data sent).Responds := by
  obtain ⟨n, tag, -, -, captureSeq, -⟩ := inv.host.current (Or.inl busy)
  have capturing := (inv.host.busy syscall (Or.inl busy)).1
  obtain ⟨nonempty, current⟩ := inv.last_dispatch (Or.inl busy)
  have response := responds nonempty
  rw [busy] at response
  have packet : system.retvalPacket value size data = taggedRetval value size data (wireSeq n) := by
    rw [SyscallSystem.retvalPacket, capturing, if_pos rfl, captureSeq, netCommand_append]
    rfl
  have answers : IsAnswer (system.produced ++ [⟨syscall, value, data⟩]) n (system.retvalPacket value size data) :=
    ⟨value, size, data, packet, short, by rw [tag]; simp⟩
  unfold SyscallSystem.hostRetval
  cases sent with
  | false => exact fun _ => response.fail
  | true =>
    intro _
    refine response.answer capturing answers.storable fun last logged m lastTag => ?_
    obtain rfl : m = n := Option.some.inj (lastTag.symm.trans ((current last logged).trans tag))
    exact answers

/-- The dispatch is over and committed. -/
theorem responds_hostEnd (inv : SyscallInv link system) (responds : system.Responds) {syscall : Option ℕ}
    (busy : system.host = .dispatching syscall ∨ system.host = .answered syscall) : system.hostEnd.Responds :=
  fun _ => (responds (inv.last_dispatch busy).1).finish busy (inv.host.busy syscall busy).1

/-- A guarded step keeps the invariant. -/
theorem RetransmitInv.step (system : SyscallSystem) (event : SyscallEvent) (next : SyscallSystem)
    (inv : RetransmitInv link system) (guard : SyscallGuard system event)
    (step : (syscallMachine link).step system event = some next) : RetransmitInv link next := by
  refine ⟨SyscallInv.step system event next inv.syscall guard step, ?_⟩
  cases event with
  | elapse usec =>
    cases step
    exact inv.responds
  | issue request =>
    simp only [syscallMachine] at step
    split at step
    · split at step <;> cases step
      exact inv.responds
    · cases step
  | beginAttempt =>
    simp only [syscallMachine] at step
    split at step <;> cases step
    exact inv.responds
  | consoleReceive index frame =>
    simp only [syscallMachine] at step
    split at step
    · split at step <;> cases step
      exact inv.responds
    · cases step
  | breakOut =>
    simp only [syscallMachine] at step
    split at step
    · split at step <;> cases step
      exact inv.responds
    · cases step
  | checkDeadline =>
    simp only [syscallMachine] at step
    split at step <;> cases step
    unfold SyscallSystem.checkDeadline
    split_ifs
    · exact inv.responds
    · exact inv.responds
    · exact inv.responds
  | hostReceive index =>
    simp only [syscallMachine] at step
    split at step <;> cases step
    rename_i datagram waiting at_index
    simp only [SyscallGuard, at_index, Meets] at guard
    refine responds_hostReceive inv.syscall inv.responds (List.mem_of_getElem? at_index) fun tag => ?_
    have untagged := guard.2
    rw [tag] at untagged
    exact untagged
  | hostEmit cmd address size data dsize sent =>
    simp only [syscallMachine] at step
    split at step
    · rename_i syscall busy
      split at step <;> cases step
      rename_i transfer
      exact responds_hostEmit inv.syscall inv.responds busy ⟨_, cmd, address, size, data, dsize, rfl, transfer⟩
    · cases step
  | hostRetval value size data sent =>
    simp only [syscallMachine] at step
    split at step
    · rename_i syscall busy
      split at step <;> cases step
      rename_i short
      exact responds_hostRetval inv.syscall inv.responds busy short
    · cases step
  | hostEnd =>
    simp only [syscallMachine] at step
    split at step
    · rename_i syscall busy
      cases step
      exact responds_hostEnd inv.syscall inv.responds (Or.inl busy)
    · rename_i syscall busy
      cases step
      exact responds_hostEnd inv.syscall inv.responds (Or.inr busy)
    · cases step

theorem SyscallSystem.Initial.retransmitInv (initial : system.Initial) : RetransmitInv link system :=
  ⟨initial.inv, fun nonempty => absurd initial.dispatched nonempty⟩

/-- A recent dispatch with the sequence id of the syscall issued last is a dispatch of it. -/
theorem Dispatch.Issued.current {last : Dispatch} (logged : last.Issued system.issued)
    (recent : Recent system.issued last.syscall) (seq : wireSeq system.issued = last.seq) :
    last.syscall = some system.issued := by
  obtain ⟨m, tag, lastSeq, positive, bound⟩ := logged
  rw [tag, Recent] at recent
  rw [tag]
  refine congrArg some (bound.eq_or_lt.resolve_right fun earlier => ?_)
  refine value_ne positive earlier ?_ (lastSeq.symm.trans seq.symm)
  simp only [window, period] at recent ⊢
  omega

/-- A dispatched syscall that was issued last was dispatched last. -/
theorem HostInv.last_current (inv : HostInv system.host system.dedup system.dispatched system.slots system.issued
    system.produced) {init : List Dispatch} {last : Dispatch} (log : system.dispatched = init ++ [last])
    (dispatched : ¬ system.Undispatched) : last.syscall = some system.issued := by
  simp only [SyscallSystem.Undispatched, not_forall, not_not] at dispatched
  obtain ⟨dispatch, among, tag⟩ := dispatched
  rw [log] at among
  rcases List.mem_append.mp among with earlier | now
  · have ordered := inv.ordered
    rw [log] at ordered
    obtain ⟨m, n, first, second, below⟩ :=
      (List.pairwise_append.mp ordered).2.2 dispatch earlier last (List.mem_singleton_self _)
    obtain ⟨k, lastTag, -, -, bound⟩ := inv.log last (by rw [log]; simp)
    obtain rfl : k = n := Option.some.inj (lastTag.symm.trans second)
    obtain rfl : system.issued = m := Option.some.inj (tag.symm.trans first)
    exact absurd below (Nat.not_lt.mpr bound)
  · rw [← List.mem_singleton.mp now]
    exact tag

/-- A live retransmit at the waiting host is served exactly when it is covered. -/
theorem served_iff_covered (inv : RetransmitInv link system) (waiting : system.host = .loop)
    (recent : ∀ dispatch ∈ system.dispatched.getLast?, Recent system.issued dispatch.syscall) {datagram : InFlight}
    (on_way : datagram ∈ system.toHost) (live : system.Live datagram) :
    system.Served (system.hostReceive link datagram) ↔ system.Covered link := by
  obtain ⟨tag, busy, -⟩ := live
  have positive := (inv.syscall.client.current busy).1
  obtain ⟨request, -⟩ : IsRequest system.issued datagram.payload ∧ True := by
    rcases inv.syscall.toHost datagram on_way with ⟨n, again, -, -, request⟩ | ⟨untagged, -⟩
    · obtain rfl : n = system.issued := Option.some.inj (again.symm.trans tag)
      exact ⟨request, trivial⟩
    · rw [tag] at untagged
      cases untagged
  rw [hostReceive_request request, tag, SyscallSystem.admitRequest]
  obtain ⟨-, committed⟩ := inv.syscall.host.waiting waiting
  have outcome := admission_cases system.dedup (wireSeq system.issued) (system.timeUsec link)
  by_cases undispatched : system.Undispatched
  · -- The last dispatch, if any, is of an earlier syscall, so the request is neither replayed nor stale.
    refine iff_of_true ?_ (Or.inl undispatched)
    rcases outcome with ⟨-, valid, seq, -⟩ | ⟨-, stale, -⟩ | ⟨dispatches, -⟩
    · rcases committed with ⟨-, invalid⟩ | ⟨init, last, log, -, lastSeq⟩
      · rw [invalid] at valid
        cases valid
      · have among : last ∈ system.dispatched := by rw [log]; simp
        exact absurd ((inv.syscall.host.log last among).current (recent last (by rw [log]; simp)) (seq.trans lastSeq))
          (undispatched last among)
    · rcases committed with ⟨-, invalid⟩ | ⟨init, last, log, valid, lastSeq⟩
      · rw [Dedup.isStale, invalid] at stale
        cases stale
      · have among : last ∈ system.dispatched := by rw [log]; simp
        obtain ⟨m, lastTag, seq, begun, bound⟩ := inv.syscall.host.log last among
        have near := recent last (by rw [log]; simp)
        rw [lastTag, Recent] at near
        have earlier : m < system.issued := bound.lt_of_ne fun same => undispatched last among (same ▸ lastTag)
        have later := toInt_value_sub_pos begun earlier (by omega)
        rw [Dedup.isStale, valid, lastSeq, seq, Bool.true_and, decide_eq_true_iff] at stale
        exact absurd stale (Int.not_le.mpr later)
    · rw [dispatches]
      refine Or.inl ⟨undispatched, ?_⟩
      simp only [SyscallSystem.dispatch]
  · rcases committed with ⟨none_yet, -⟩ | ⟨init, last, log, valid, lastSeq⟩
    · refine absurd (fun dispatch among => ?_) undispatched
      rw [none_yet] at among
      cases among
    have current := inv.syscall.host.last_current log undispatched
    have logged : last ∈ system.dispatched.getLast? := by rw [log]; simp
    have seq : wireSeq system.issued = system.dedup.seq := by
      obtain ⟨m, lastTag, lastWire, -, -⟩ := inv.syscall.host.log last (by rw [log]; simp)
      obtain rfl : m = system.issued := Option.some.inj (lastTag.symm.trans current)
      exact lastWire.symm.trans lastSeq.symm
    have response := inv.responds (by rw [log]; simp)
    simp only [SyscallSystem.Covered, undispatched, false_or]
    rcases outcome with ⟨replays, -, -, inTime⟩ | ⟨drops, -, late⟩ | ⟨-, fresh⟩
    · rw [replays]
      simp only [SyscallSystem.Served, undispatched, false_and, false_or, inTime, true_and]
      rw [← response.ends_iff logged current, ← response.committed waiting]
      simp only [List.map_append, List.map_map, List.append_cancel_left_eq]
      have payloads : ((List.range system.dedup.packetCount).map system.dedup.packets).zipIdx.map
          (InFlight.payload ∘ fun packet => ⟨packet.1, system.slots packet.2⟩) =
            system.dedup.slots system.dedup.packetCount := List.zipIdx_map_fst _ _
      rw [payloads]
    · rw [drops]
      refine iff_of_false ?_ fun covered => late ⟨valid, seq, covered.1⟩
      rintro (⟨again, -⟩ | ⟨response, answer, -, longer⟩)
      · exact undispatched again
      · have lengths := congrArg List.length longer
        simp only [List.length_append, List.length_singleton] at lengths
        omega
    · rw [Dedup.isStale, valid, ← seq, BitVec.sub_self] at fresh
      cases fresh

end Run

instance (system : SyscallSystem) (event : SyscallEvent) : Decidable (RetransmitGuard system event) :=
  haveI : Decidable (match event with
      | .hostReceive _ => ∀ dispatch ∈ system.dispatched.getLast?, Recent system.issued dispatch.syscall
      | _ => True) :=
    match event with
    | .hostReceive _ => inferInstanceAs (Decidable (∀ dispatch ∈ system.dispatched.getLast?, _))
    | .elapse _ | .issue _ | .beginAttempt | .consoleReceive _ _ | .breakOut | .checkDeadline | .hostEmit ..
    | .hostRetval .. | .hostEnd => isTrue trivial
  inferInstanceAs (Decidable (_ ∧ _))

instance (system : SyscallSystem) (datagram : InFlight) : Decidable (system.Live datagram) :=
  inferInstanceAs (Decidable (_ ∧ _ ≠ _ ∧ _ ≤ _))

instance (system : SyscallSystem) : Decidable system.Undispatched :=
  inferInstanceAs (Decidable (∀ dispatch ∈ system.dispatched, _ ≠ _))

instance (link : Link) (system : SyscallSystem) : Decidable (system.Covered link) :=
  inferInstanceAs (Decidable (_ ∨ _ ≤ _ ∧ _ = _ ∧ _ ≤ _))

instance (link : Link) (system : SyscallSystem) : (event : SyscallEvent) → Decidable (RetransmitCovered link system event)
  | .hostReceive _ => inferInstanceAs (Decidable (Meets (fun _ => _ = _ → _ → _) _))
  | .elapse _ | .issue _ | .beginAttempt | .consoleReceive _ _ | .breakOut | .checkDeadline | .hostEmit ..
  | .hostRetval .. | .hostEnd => isTrue trivial

/-- Along every guarded run, the live retransmits are served exactly when they are covered. -/
theorem retransmits_served_iff_covered (link : Link) (source : SyscallSystem) (events : List SyscallEvent)
    (initial : source.Initial) (guarded : (syscallMachine link).Along RetransmitGuard source events) :
    (syscallMachine link).Along (RetransmitServed link) source events ↔
      (syscallMachine link).Along (RetransmitCovered link) source events := by
  have start : RetransmitInv link source := initial.retransmitInv
  refine Machine.LabeledMachine.along_congr_of_guarded
    (fun source event next inv guard _ => RetransmitInv.step source event next inv guard.1) ?_ start guarded
  intro system event inv guard
  cases event with
  | hostReceive index =>
    simp only [RetransmitServed, RetransmitCovered]
    cases at_index : system.toHost[index]? with
    | none => exact Iff.rfl
    | some datagram =>
      refine forall_congr' fun waiting => forall_congr' fun live => ?_
      exact served_iff_covered inv waiting guard.2 (List.mem_of_getElem? at_index) live
  | elapse | issue | beginAttempt | consoleReceive | breakOut | checkDeadline | hostEmit | hostRetval | hostEnd =>
    exact Iff.rfl

theorem retransmits_served_answered :
    (syscallMachine wifiLink).Along (RetransmitServed wifiLink) (sessionStart 0 []) answeredTime := by
  refine (retransmits_served_iff_covered wifiLink (sessionStart 0 []) answeredTime
    (sessionStart_initial fun _ among => (List.not_mem_nil among).elim) (by decide +kernel)).mpr ?_
  decide +kernel

/-- Serving a retransmit is visible: the host dispatches or sends. -/
theorem RetransmitServed.visible {link : Link} {system : SyscallSystem} {index : ℕ}
    (served : RetransmitServed link system (.hostReceive index)) :
    Meets (fun datagram => system.host = .loop → system.Live datagram →
      system.dispatched.length < (system.hostReceive link datagram).dispatched.length ∨
        system.toConsole.length < (system.hostReceive link datagram).toConsole.length) system.toHost[index]? := by
  simp only [RetransmitServed] at served
  cases at_index : system.toHost[index]? with
  | none => trivial
  | some datagram =>
    rw [at_index] at served
    intro waiting live
    rcases served waiting live with ⟨-, dispatches⟩ | ⟨response, answer, -, sends⟩
    · rw [dispatches, List.length_append, List.length_singleton]
      exact Or.inl (Nat.lt_succ_self _)
    · have lengths := congrArg List.length sends
      simp only [List.length_map, List.length_append, List.length_singleton] at lengths
      exact Or.inr (by omega)

/-- What `read` puts in front of the trailer. -/
def readRequest : List Byte := netCommand (fourCC 'D' 'C' '0' '3') 3 0x81000000 (be32 512)

/-- An attempt that brings nothing, and the next one. -/
def lostAttempt : List SyscallEvent := [.elapse 600000, .breakOut, .checkDeadline, .beginAttempt]

/-- A `read` that takes three seconds and whose answer is lost, up to the sixth retransmission. -/
def slowRead : List SyscallEvent :=
  [.issue readRequest, .beginAttempt, .hostReceive 0] ++ lostAttempt ++ lostAttempt ++ lostAttempt ++ lostAttempt ++
    lostAttempt ++ [.hostRetval 512 0 [] true, .hostEnd] ++ lostAttempt

theorem slowRead_completes : ((syscallMachine wifiLink).run? (sessionStart 0 []) slowRead).isSome = true := by
  decide +kernel

/-- The sixth retransmission, 3.6 seconds after the request, is dropped. -/
theorem retransmits_not_served :
    ¬ ∀ (link : Link) (source : SyscallSystem) (events : List SyscallEvent), source.Initial →
      (syscallMachine link).Along (RetransmitServed link) source events := by
  intro served
  have along := served wifiLink (sessionStart 0 []) (slowRead ++ [.hostReceive 6])
    (sessionStart_initial fun _ among => (List.not_mem_nil among).elim)
  have visible := (along.at_cut (Option.some_get slowRead_completes).symm).visible
  revert visible
  decide +kernel

end KosTool
