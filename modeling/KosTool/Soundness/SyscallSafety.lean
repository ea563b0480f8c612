import KosTool.Soundness.SyscallInvariant

/-! # Syscalls are dispatched once and answered right

As long as no datagram is delivered that belongs to a syscall more than `2 ^ 31 - 2` syscalls back, and
none but a request ends in a trailer, the host dispatches every syscall at most once and in the order of
issue, and what a syscall returns is what the host produced for it.
-/

namespace KosTool

open ByteWord Protocol Client Client.Loader Host SkipZeroCounter

variable {link : Link} {system : SyscallSystem}

section Console

/-- A syscall is issued. -/
theorem SyscallInv.issue (inv : SyscallInv link system) {request : List Byte}
    (fits : frameHeaderLen + request.length + netSeqTrailerLen ≤ txPktBufSize) :
    SyscallInv link (system.issue request) := by
  have length : (request ++ seqTrailer system.loader.kosSyscallNextSeq).length = request.length + 8 := by
    rw [List.length_append, length_seqTrailer]
    rfl
  have saved : frameHeaderLen + (request ++ seqTrailer system.loader.kosSyscallNextSeq).length ≤ kosSyscallSaveMax := by
    rw [length]
    simp only [frameHeaderLen, netSeqTrailerLen, txPktBufSize, kosSyscallSaveMax] at *
    omega
  have isRequest : IsRequest (system.issued + 1) (request ++ seqTrailer system.loader.kosSyscallNextSeq) := by
    refine ⟨?_, request, by rw [inv.client.nextSeq]⟩
    rw [length]
    simp only [frameHeaderLen, netSeqTrailerLen, txPktBufSize, receiveBufferLen] at *
    omega
  refine ⟨?_, ?_, fun datagram among => (inv.toConsole datagram among).grow (Nat.le_succ _),
    inv.host.grow (Nat.le_succ _), inv.returned⟩
  · simp only [SyscallSystem.issue, buildSendPacket, if_pos saved]
    refine ⟨inv.client.running, inv.client.version, ?_, fun _ => ⟨Nat.succ_pos _, inv.client.nextSeq, isRequest⟩,
      fun retry deadline inLoop => (by cases inLoop), fun retry deadline left => (by cases left)⟩
    rw [inv.client.nextSeq]
    exact (value_succ (Nat.succ_pos _)).symm
  · intro datagram among
    rcases List.mem_append.mp among with earlier | sent
    · exact inv.toHost.grow (Nat.le_succ _) datagram earlier
    · simp only [buildSendPacket, transmitted, List.filterMap_cons, List.filterMap_nil, List.map_cons, List.map_nil,
        List.mem_singleton] at sent
      subst sent
      exact Or.inl ⟨system.issued + 1, rfl, Nat.succ_pos _, le_rfl, isRequest⟩

/-- An attempt begins. -/
theorem SyscallInv.beginAttempt (inv : SyscallInv link system) {retry : ℕ} (arm : system.client = .arm retry) :
    SyscallInv link (system.beginAttempt link retry) := by
  refine ⟨?_, inv.toHost, inv.toConsole, inv.host, inv.returned⟩
  refine ⟨inv.client.running, inv.client.version, inv.client.nextSeq,
    fun _ => inv.client.current (by rw [arm]; simp), fun again deadline inLoop => ?_, fun again deadline left => (by cases left)⟩
  cases inLoop
  exact ⟨rfl, le_rfl, le_rfl⟩

/-- The deadline has passed in the loop. -/
theorem SyscallInv.breakOut (inv : SyscallInv link system) {retry deadline : ℕ}
    (inLoop : system.client = .loop retry deadline) (late : system.loader.loopDeadlineTicks ≤ system.ticks link) :
    SyscallInv link { system with client := .left retry deadline, loader := system.loader.leaveLoop } := by
  refine ⟨?_, inv.toHost, inv.toConsole, inv.host, inv.returned⟩
  refine ⟨inv.client.running, inv.client.version, inv.client.nextSeq,
    fun _ => inv.client.current (by rw [inLoop]; simp), fun again other inLoop => (by cases inLoop),
    fun again other left => ?_⟩
  cases left
  exact Or.inl ((inv.client.inLoop retry deadline inLoop).2.1.trans late)

/-- The deadline is checked after the loop: only an answer comes before it. -/
theorem SyscallInv.checkDeadline (inv : SyscallInv link system) {retry deadline : ℕ}
    (left : system.client = .left retry deadline) : SyscallInv link (system.checkDeadline link retry deadline) := by
  obtain ⟨positive, seq, request⟩ := inv.client.current (by rw [left]; simp)
  unfold SyscallSystem.checkDeadline
  split_ifs with early finished
  · refine ⟨⟨inv.client.running, inv.client.version, inv.client.nextSeq, fun waiting => absurd rfl waiting,
      fun again other inLoop => (by cases inLoop), fun again other left => (by cases left)⟩, inv.toHost,
      inv.toConsole, inv.host, fun answer among => ?_⟩
    rcases List.mem_append.mp among with earlier | now
    · exact inv.returned answer earlier
    · rw [List.mem_singleton.mp now]
      exact (inv.client.left retry deadline left).resolve_left (Nat.not_le.mpr early)
  · exact ⟨⟨inv.client.running, inv.client.version, inv.client.nextSeq, fun waiting => absurd rfl waiting,
      fun again other inLoop => (by cases inLoop), fun again other left => (by cases left)⟩, inv.toHost,
      inv.toConsole, inv.host, inv.returned⟩
  · refine ⟨⟨inv.client.running, inv.client.version, inv.client.nextSeq, fun _ => ⟨positive, seq, request⟩,
      fun again other inLoop => (by cases inLoop), fun again other left => (by cases left)⟩, fun datagram among => ?_,
      inv.toConsole, inv.host, inv.returned⟩
    rcases List.mem_append.mp among with earlier | again
    · exact inv.toHost datagram earlier
    · rw [List.mem_singleton.mp again]
      exact Or.inl ⟨system.issued, rfl, positive, le_rfl, request⟩

/-- A transfer command is received. -/
theorem SyscallInv.consoleTransfer (inv : SyscallInv link system) {retry deadline frame : ℕ}
    (inLoop : system.client = .loop retry deadline) {isWiiLoader : Bool} {cmd address size : Word} {data : Buffer}
    {dsize : ℕ} (transfer : cmd ∈ transferIds) :
    SyscallInv link (system.consoleReceive link retry deadline (sendCmd isWiiLoader cmd address size data dsize) frame) := by
  have takes := takes_sendCmd isWiiLoader cmd address size data dsize system.loader frame
  have keeps : KeepsWait system.loader (processed link.target system.loader
      (sendCmd isWiiLoader cmd address size data dsize) frame (system.ticks link)).1 (system.ticks link) := by
    obtain ⟨running, toolVersion, escapeLoop, seq, nextSeq, savePkt, timeout, moved⟩ :=
      keepsWait_processUdp link.target (system.ticks link) takes transfer
    exact ⟨running, toolVersion, escapeLoop, seq, nextSeq, savePkt, timeout, moved⟩
  have version : (processed link.target system.loader (sendCmd isWiiLoader cmd address size data dsize) frame
      (system.ticks link)).1.HostSupportsDedup := by
    rw [HostSupportsDedup, keeps.toolVersion]
    exact inv.client.version
  obtain ⟨waits, armed, near⟩ := inv.client.inLoop retry deadline inLoop
  have stays := keeps.escapeLoop.trans waits
  refine ⟨?_, fun datagram among => ?_, inv.toConsole, inv.host, inv.returned⟩
  · simp only [SyscallSystem.consoleReceive, stays, Bool.false_eq_true, if_false]
    refine ⟨keeps.running.trans inv.client.running, version, keeps.nextSeq.trans inv.client.nextSeq, fun _ => ?_,
      fun again other same => ?_, fun again other left => (by cases left)⟩
    · obtain ⟨positive, seq, request⟩ := inv.client.current (by rw [inLoop]; simp)
      exact ⟨positive, keeps.seq.trans seq, keeps.savePkt ▸ request⟩
    · cases same
      refine ⟨stays, ?_, ?_⟩
      · rcases keeps.deadline with same | bumped
        · rw [same]
          exact armed
        · rw [bumped]
          exact near
      · rw [keeps.timeout]
        exact near
  · rcases List.mem_append.mp among with earlier | sent
    · exact inv.toHost datagram earlier
    · obtain ⟨payload, reply, rfl⟩ := List.mem_map.mp sent
      exact Or.inr ⟨rfl, isReply_processUdp takes transfer reply⟩

/-- A tagged answer is received. -/
theorem SyscallInv.consoleAnswer (inv : SyscallInv link system) {retry deadline frame n : ℕ}
    (inLoop : system.client = .loop retry deadline) {value size : Word} {data : List Byte}
    (short : data.length ≤ maxInlineRet) (produced : ⟨some n, value, data⟩ ∈ system.produced) (positive : 0 < n)
    (bound : n ≤ system.issued) (recent : system.issued ≤ n + window) :
    SyscallInv link (system.consoleReceive link retry deadline (taggedRetval value size data (wireSeq n)) frame) := by
  obtain ⟨begun, seq, request⟩ := inv.client.current (by rw [inLoop]; simp)
  obtain ⟨waits, armed, near⟩ := inv.client.inLoop retry deadline inLoop
  by_cases current : wireSeq n = system.loader.kosSyscallSeq
  · -- Sequence ids this close to each other are equal only for one syscall.
    obtain rfl : n = system.issued := by
      by_contra other
      exact value_ne positive (by omega) (by simp only [window, period] at recent ⊢; omega) (current.trans seq)
    have done := processed_currentRetval link.target system.loader value size _ frame (system.ticks link)
      inv.client.running inv.client.version short current
    refine ⟨?_, fun datagram among => ?_, inv.toConsole, inv.host, inv.returned⟩
    · simp only [SyscallSystem.consoleReceive, done, if_true]
      refine ⟨inv.client.running, inv.client.version, inv.client.nextSeq, fun _ => ⟨begun, seq, request⟩,
        fun again other inLoop => (by cases inLoop), fun again other left => Or.inr ?_⟩
      simp only [leaveLoop, Loader.inline, Loader.receive]
      rw [slice_taggedRetval]
      exact produced
    · rcases List.mem_append.mp among with earlier | sent
      · exact inv.toHost datagram earlier
      · rw [done] at sent
        simp only [transmitted, List.filterMap_cons, List.filterMap_nil, List.map_cons, List.map_nil,
          List.mem_singleton] at sent
        subst sent
        refine Or.inr ⟨rfl, isReply_slice ?_⟩
        rw [taggedRetval, commandId_storeAt]
        decide
  · have done := processed_otherRetval link.target system.loader value size _ frame (system.ticks link)
      inv.client.running inv.client.version short current
    refine ⟨?_, fun datagram among => ?_, inv.toConsole, inv.host, inv.returned⟩
    · have stays : (system.loader.receive frame (taggedRetval value size data (wireSeq n))).escapeLoop = false := waits
      simp only [SyscallSystem.consoleReceive, done, stays, Bool.false_eq_true, if_false]
      refine ⟨inv.client.running, inv.client.version, inv.client.nextSeq, fun _ => ⟨begun, seq, request⟩,
        fun again other same => ?_, fun again other left => (by cases left)⟩
      cases same
      exact ⟨waits, armed, near⟩
    · rcases List.mem_append.mp among with earlier | sent
      · exact inv.toHost datagram earlier
      · rw [done] at sent
        cases sent

/-- A recent datagram is received. -/
theorem SyscallInv.consoleReceive (inv : SyscallInv link system) {retry deadline frame : ℕ}
    (inLoop : system.client = .loop retry deadline) {datagram : InFlight} (on_way : datagram ∈ system.toConsole)
    (recent : ∀ n, datagram.syscall = some n → system.issued ≤ n + window) :
    SyscallInv link (system.consoleReceive link retry deadline datagram.payload frame) := by
  obtain ⟨n, tag, positive, bound, emitted⟩ := inv.toConsole datagram on_way
  rcases emitted with ⟨isWiiLoader, cmd, address, size, data, dsize, wire, transfer⟩ |
    ⟨value, size, data, wire, short, produced⟩
  · rw [wire]
    exact inv.consoleTransfer inLoop transfer
  · rw [wire]
    exact inv.consoleAnswer inLoop short produced positive bound (recent n tag)

end Console

section Serving

variable {n : ℕ} {payload : List Byte}

/-- The host finds the sequence id of a request. -/
theorem extractSeq_request (request : IsRequest n payload) :
    Dedup.extractSeq (storeAt (fun _ => 0) 0 payload) payload.length = some (wireSeq n) := by
  obtain ⟨-, request, rfl⟩ := request
  exact Dedup.extractSeq_append _ request _

/-- The id of a console's own reply survives the receive buffer. -/
theorem commandId_reply {id address size : Word} {data : List Byte} :
    commandId (storeAt (fun _ => 0) 0 ((netCommand id address size data).take receiveBufferLen)) 0 = id := by
  have taken : (netCommand id address size data).take receiveBufferLen =
      netCommand id address size (data.take (receiveBufferLen - netCommandLen)) := by
    have header : (be32 id ++ be32 address ++ be32 size).length = netCommandLen := rfl
    rw [netCommand, netCommand, List.take_append, header, List.take_of_length_le (by rw [header]; decide)]
  rw [taken, commandId_storeAt]

/-- The dispatches stay in order when a later syscall follows. -/
theorem pairwise_before_append {init : List Dispatch} {last next : Dispatch}
    (ordered : (init ++ [last]).Pairwise Dispatch.Before) (later : last.Before next) :
    (init ++ [last] ++ [next]).Pairwise Dispatch.Before := by
  refine List.pairwise_append.mpr ⟨ordered, List.pairwise_singleton _ _, fun dispatch among other same => ?_⟩
  rw [List.mem_singleton.mp same]
  rcases List.mem_append.mp among with earlier | now
  · obtain ⟨l, m, tag, lastTag, below⟩ := (List.pairwise_append.mp ordered).2.2 dispatch earlier last (by simp)
    obtain ⟨m', k, lastTag', nextTag, above⟩ := later
    obtain rfl : m = m' := Option.some.inj (lastTag.symm.trans lastTag')
    exact ⟨l, k, tag, nextTag, below.trans above⟩
  · rw [List.mem_singleton.mp now]
    exact later

/-- The block that admits a request has three outcomes. -/
theorem admission_cases (dedup : Dedup) (seq : Word) (now : Usec) :
    dedup.admission seq now = (.replayed ((List.range dedup.packetCount).map dedup.packets), dedup) ∧
        dedup.valid = true ∧ seq = dedup.seq ∧ now - dedup.capturedAtUs ≤ dedupWindowUsec ∨
      dedup.admission seq now = (.dropped, dedup) ∧ dedup.isStale seq = true ∧
        ¬ (dedup.valid = true ∧ seq = dedup.seq ∧ now - dedup.capturedAtUs ≤ dedupWindowUsec) ∨
      dedup.admission seq now = (.dispatched, dedup.beginCapture seq now) ∧ dedup.isStale seq = false := by
  unfold Dedup.admission Dedup.tryReplay
  by_cases other : ¬ dedup.valid = true ∨ seq ≠ dedup.seq
  · rw [if_pos other]
    cases stale : dedup.isStale seq with
    | true =>
      refine Or.inr (Or.inl ⟨rfl, rfl, fun same => ?_⟩)
      exact other.elim (fun invalid => invalid same.1) fun different => different same.2.1
    | false => exact Or.inr (Or.inr ⟨rfl, rfl⟩)
  · rw [not_or, not_not, not_not] at other
    rw [if_neg (by rw [not_or, not_not, not_not]; exact other)]
    by_cases old : dedupWindowUsec < now - dedup.capturedAtUs
    · rw [if_pos old]
      cases stale : dedup.isStale seq with
      | true => exact Or.inr (Or.inl ⟨rfl, rfl, fun same => absurd same.2.2 (BitVec.not_le.mpr old)⟩)
      | false => exact Or.inr (Or.inr ⟨rfl, rfl⟩)
    · rw [if_neg old]
      exact Or.inl ⟨rfl, other.1, other.2, BitVec.not_lt.mp old⟩

/-- The host loop on the request of a syscall. -/
theorem hostReceive_request {datagram : InFlight} (request : IsRequest n datagram.payload) :
    system.hostReceive link datagram = system.admitRequest link (wireSeq n)
      (commandId (storeAt (fun _ => 0) 0 datagram.payload) 0) datagram.syscall := by
  have whole : datagram.payload.take receiveBufferLen = datagram.payload := List.take_of_length_le request.1
  have long : ¬ datagram.payload.length < 4 := by
    obtain ⟨-, leading, wire⟩ := request
    rw [wire, List.length_append, length_seqTrailer, netSeqTrailerLen]
    omega
  simp only [SyscallSystem.hostReceive, whole, if_neg long, extractSeq_request request]

/-- A syscall that is not stale is later than the one committed last. -/
theorem before_of_fresh {last : Dispatch} {dedup : Dedup} {issued : ℕ} (logged : last.Issued issued)
    (valid : dedup.valid = true) (seq : dedup.seq = last.seq) (positive : 0 < n) (recent : issued ≤ n + window)
    (fresh : dedup.isStale (wireSeq n) = false) : last.Before ⟨wireSeq n, some n⟩ := by
  obtain ⟨m, tag, lastSeq, -, bound⟩ := logged
  refine ⟨m, n, tag, rfl, ?_⟩
  by_contra notLater
  have stale := toInt_value_sub_nonpos positive (Nat.not_lt.mp notLater) (by omega)
  rw [Dedup.isStale, valid, seq, lastSeq, Bool.true_and, decide_eq_false_iff_not] at fresh
  exact fresh stale

/-- A request is dispatched. -/
theorem HostInv.dispatch {host : ServePc} (inv : HostInv .loop system.dedup system.dispatched system.slots
    system.issued system.produced) {now : Usec} (positive : 0 < n) (bound : n ≤ system.issued)
    (recent : system.issued ≤ n + window) (fresh : system.dedup.isStale (wireSeq n) = false)
    (next : host = .stopped ∨ host = .dispatching (some n)) :
    HostInv host (system.dedup.beginCapture (wireSeq n) now) (system.dispatched ++ [⟨wireSeq n, some n⟩])
      system.slots system.issued system.produced := by
  obtain ⟨-, committed⟩ := inv.waiting rfl
  have ordered : (system.dispatched ++ [(⟨wireSeq n, some n⟩ : Dispatch)]).Pairwise Dispatch.Before := by
    rcases committed with ⟨none_yet, -⟩ | ⟨init, last, log, valid, seq⟩
    · rw [none_yet]
      exact List.pairwise_singleton _ _
    · rw [log]
      refine pairwise_before_append (log ▸ inv.ordered) ?_
      exact before_of_fresh (inv.log last (by rw [log]; simp)) valid seq positive recent fresh
  refine ⟨fun dispatch among => ?_, ordered, fun i inside => ?_, fun waits => ?_, fun syscall busy => ⟨rfl, ?_⟩,
    fun answer among => ?_, inv.once, fun syscall dispatching answer among same => ?_⟩
  · rcases List.mem_append.mp among with earlier | now
    · exact inv.log dispatch earlier
    · rw [List.mem_singleton.mp now]
      exact ⟨n, rfl, rfl, positive, bound⟩
  · exact inv.slots i (inside.imp_right fun impossible => absurd impossible (Nat.not_lt_zero i))
  · rcases next with rfl | rfl <;> cases waits
  · rcases next with rfl | rfl
    · rcases busy with busy | busy <;> cases busy
    · rcases busy with busy | busy <;> cases busy
      exact ⟨_, _, rfl, rfl, rfl⟩
  · obtain ⟨dispatch, among, tag⟩ := inv.source answer among
    exact ⟨dispatch, List.mem_append_left _ among, tag⟩
  · rcases next with rfl | rfl <;> cases dispatching
    obtain ⟨dispatch, logged, tag⟩ := inv.source answer among
    have before : dispatch.Before ⟨wireSeq n, some n⟩ :=
      (List.pairwise_append.mp ordered).2.2 dispatch logged _ (List.mem_singleton.mpr rfl)
    obtain ⟨l, m, earlierTag, newTag, below⟩ := before
    cases newTag
    cases earlierTag.symm.trans (tag.trans same)
    exact absurd below (Nat.lt_irrefl _)

/-- The host loop receives a datagram of a recent syscall, or a reply without a trailer. -/
theorem SyscallInv.hostReceive (inv : SyscallInv link system) (waiting : system.host = .loop) {datagram : InFlight}
    (on_way : datagram ∈ system.toHost) (recent : ∀ n, datagram.syscall = some n → system.issued ≤ n + window)
    (untagged : datagram.syscall = none → Dedup.extractSeq
      (storeAt (fun _ => 0) 0 (datagram.payload.take receiveBufferLen))
      (datagram.payload.take receiveBufferLen).length = none) :
    SyscallInv link (system.hostReceive link datagram) := by
  rcases inv.toHost datagram on_way with ⟨n, tag, positive, bound, request⟩ | ⟨tag, reply⟩
  · rw [hostReceive_request request, tag, SyscallSystem.admitRequest]
    rcases admission_cases system.dedup (wireSeq n) (system.timeUsec link) with ⟨replays, -⟩ | ⟨drops, -⟩ |
      ⟨dispatches, fresh⟩
    · rw [replays]
      refine ⟨inv.client, inv.toHost, fun packet among => ?_, inv.host, inv.returned⟩
      rcases List.mem_append.mp among with earlier | replayed
      · exact inv.toConsole packet earlier
      · obtain ⟨⟨bytes, i⟩, indexed, rfl⟩ := List.mem_map.mp replayed
        obtain ⟨-, inside, same⟩ := List.mem_zipIdx indexed
        rw [List.length_map, List.length_range] at inside
        simp only [Nat.sub_zero, List.getElem_map, List.getElem_range] at same
        rw [same]
        exact inv.host.slots i (Or.inl (by omega))
    · rw [drops]
      exact inv
    · rw [dispatches]
      have host := inv.host
      rw [waiting] at host
      refine ⟨inv.client, inv.toHost, inv.toConsole, ?_, inv.returned⟩
      refine host.dispatch positive bound (recent n tag) fresh ?_
      simp only [SyscallSystem.dispatch]
      split
      · exact Or.inl rfl
      · exact Or.inr rfl
  · obtain ⟨id, address, size, data, wire, noSyscall⟩ := reply
    have untagged := untagged tag
    simp only [SyscallSystem.hostReceive, untagged]
    rw [wire, commandId_reply, if_neg noSyscall, ite_self]
    exact inv

/-- Capturing fills the next slot or leaves the cache as it is. -/
theorem capturePkt_cases (dedup : Dedup) (packet : List Byte) : dedup.capturePkt packet = dedup ∨
    dedup.capturePkt packet = { dedup with
      packets := Function.update dedup.packets dedup.captureCount packet
      captureCount := dedup.captureCount + 1 } := by
  unfold Dedup.capturePkt
  split_ifs
  · exact Or.inl rfl
  · exact Or.inl rfl
  · exact Or.inl rfl
  · exact Or.inr rfl

/-- A packet of the dispatch going on is captured. -/
theorem HostInv.capture (system : SyscallSystem) {host : ServePc} (inv : HostInv host system.dedup system.dispatched system.slots
    system.issued system.produced) {syscall : Option ℕ} {packet : List Byte}
    (busy : host = .dispatching syscall ∨ host = .answered syscall)
    (tagged : Tagged system.produced system.issued syscall packet) :
    HostInv host (system.capture syscall packet).dedup system.dispatched (system.capture syscall packet).slots
      system.issued system.produced := by
  obtain ⟨capturing, committed⟩ := inv.busy syscall busy
  simp only [SyscallSystem.capture]
  rcases capturePkt_cases system.dedup packet with same | stored
  · rw [same, if_pos rfl]
    exact inv
  · rw [stored, if_neg (Nat.succ_ne_self _)]
    refine ⟨inv.log, inv.ordered, fun i inside => ?_, fun waits => ?_, inv.busy, inv.source, inv.once, inv.unanswered⟩
    · by_cases here : i = system.dedup.captureCount
      · subst here
        simp only [Function.update_self]
        exact tagged
      · simp only [Function.update_of_ne here]
        exact inv.slots i (inside.imp_right fun below => Nat.lt_of_le_of_ne (Nat.le_of_lt_succ below) here)
    · rcases busy with busy | busy <;> rw [busy] at waits <;> cases waits

/-- A packet of the dispatch going on is on its way to the console. -/
theorem ToConsoleInv.send (system : SyscallSystem) (inv : ToConsoleInv system.toConsole system.issued system.produced) {syscall : Option ℕ}
    {packet : List Byte} (tagged : Tagged system.produced system.issued syscall packet) :
    ToConsoleInv (system.sendToConsole syscall packet).toConsole system.issued system.produced := by
  intro datagram among
  rcases List.mem_append.mp among with earlier | now
  · exact inv datagram earlier
  · rw [List.mem_singleton.mp now]
    exact tagged

/-- The dispatch going on is of a syscall issued. -/
theorem HostInv.current {host : ServePc} (inv : HostInv host system.dedup system.dispatched system.slots
    system.issued system.produced) {syscall : Option ℕ} (busy : host = .dispatching syscall ∨ host = .answered syscall) :
    ∃ n, syscall = some n ∧ 0 < n ∧ n ≤ system.issued ∧ system.dedup.captureSeq = wireSeq n ∧
      ∃ dispatch ∈ system.dispatched, dispatch.syscall = some n := by
  obtain ⟨-, init, last, log, tag, seq⟩ := inv.busy syscall busy
  obtain ⟨n, lastTag, lastSeq, positive, bound⟩ := inv.log last (by rw [log]; simp)
  exact ⟨n, tag.symm.trans lastTag, positive, bound, seq.trans lastSeq, last, by rw [log]; simp, lastTag⟩

/-- A handler has a transfer command sent. -/
theorem SyscallInv.hostEmit (inv : SyscallInv link system) {syscall : Option ℕ} (busy : system.host = .dispatching syscall)
    {isWiiLoader sent : Bool} {cmd address size : Word} {data : Buffer} {dsize : ℕ} (transfer : cmd ∈ transferIds) :
    SyscallInv link (system.hostEmit syscall cmd (sendCmd isWiiLoader cmd address size data dsize) sent) := by
  obtain ⟨n, tag, positive, bound, -⟩ := inv.host.current (Or.inl busy)
  have tagged : Tagged system.produced system.issued syscall (sendCmd isWiiLoader cmd address size data dsize) :=
    ⟨n, tag, positive, bound, Or.inl ⟨isWiiLoader, cmd, address, size, data, dsize, rfl, transfer⟩⟩
  unfold SyscallSystem.hostEmit
  cases sent with
  | false => exact inv
  | true =>
    simp only [if_true]
    split
    · exact ⟨inv.client, inv.toHost, inv.toConsole.send system tagged, inv.host, inv.returned⟩
    · exact ⟨inv.client, inv.toHost, inv.toConsole.send system tagged,
        HostInv.capture (system.sendToConsole syscall _) inv.host (Or.inl busy) tagged, inv.returned⟩

/-- A handler answers. -/
theorem SyscallInv.hostRetval (inv : SyscallInv link system) {syscall : Option ℕ} (busy : system.host = .dispatching syscall)
    {value size : Word} {data : List Byte} {sent : Bool} (short : data.length ≤ maxInlineRet) :
    SyscallInv link (system.hostRetval syscall value size data sent) := by
  obtain ⟨n, tag, positive, bound, captureSeq, dispatch, among, dispatchTag⟩ := inv.host.current (Or.inl busy)
  obtain ⟨capturing, committed⟩ := inv.host.busy syscall (Or.inl busy)
  have packet : system.retvalPacket value size data = taggedRetval value size data (wireSeq n) := by
    rw [SyscallSystem.retvalPacket, capturing, if_pos rfl, captureSeq, netCommand_append]
    rfl
  have tagged : Tagged (system.produced ++ [⟨syscall, value, data⟩]) system.issued syscall
      (system.retvalPacket value size data) :=
    ⟨n, tag, positive, bound, Or.inr ⟨value, size, data, packet, short, by rw [tag]; simp⟩⟩
  have client : ClientInv system.client system.loader (system.ticks link) system.issued
      (system.produced ++ [⟨syscall, value, data⟩]) := inv.client.mono
  have toConsole : ToConsoleInv system.toConsole system.issued (system.produced ++ [⟨syscall, value, data⟩]) :=
    fun datagram on_way => (inv.toConsole datagram on_way).mono
  have returned : ∀ answer ∈ system.returned, answer ∈ system.produced ++ [⟨syscall, value, data⟩] :=
    fun answer among => List.mem_append_left _ (inv.returned answer among)
  have host : HostInv (.answered syscall) system.dedup system.dispatched system.slots system.issued
      (system.produced ++ [⟨syscall, value, data⟩]) := by
    refine ⟨inv.host.log, inv.host.ordered, fun i inside => (inv.host.slots i inside).mono, fun waits => (by cases waits),
      fun other same => ?_, fun answer among => ?_, ?_, fun other dispatching => (by cases dispatching)⟩
    · rcases same with same | same <;> cases same
      exact ⟨capturing, committed⟩
    · rcases List.mem_append.mp among with earlier | now
      · exact inv.host.source answer earlier
      · rw [List.mem_singleton.mp now]
        exact ⟨dispatch, ‹_›, dispatchTag.trans tag.symm⟩
    · refine List.pairwise_append.mpr ⟨inv.host.once, List.pairwise_singleton _ _, fun answer earlier other same => ?_⟩
      rw [List.mem_singleton.mp same]
      exact inv.host.unanswered syscall busy answer earlier
  unfold SyscallSystem.hostRetval
  cases sent with
  | false => exact ⟨client, inv.toHost, toConsole, host, returned⟩
  | true =>
    simp only [if_true]
    exact ⟨client, inv.toHost,
      ToConsoleInv.send { system with produced := system.produced ++ [⟨syscall, value, data⟩] } toConsole tagged,
      HostInv.capture { system with produced := system.produced ++ [⟨syscall, value, data⟩] } host
        (Or.inr rfl) tagged, returned⟩

/-- The dispatch is over and committed. -/
theorem SyscallInv.hostEnd (inv : SyscallInv link system) {syscall : Option ℕ}
    (busy : system.host = .dispatching syscall ∨ system.host = .answered syscall) : SyscallInv link system.hostEnd := by
  obtain ⟨capturing, init, last, log, tag, seq⟩ := inv.host.busy syscall busy
  refine ⟨inv.client, inv.toHost, inv.toConsole, ?_, inv.returned⟩
  simp only [SyscallSystem.hostEnd, Dedup.endCapture, capturing, not_true_eq_false, if_false]
  refine ⟨inv.host.log, inv.host.ordered, fun i inside => inv.host.slots i (Or.inr (inside.elim id id)),
    fun _ => ⟨rfl, Or.inr ⟨init, last, log, rfl, seq⟩⟩, fun other same => ?_, inv.host.source, inv.host.once,
    fun other dispatching => (by cases dispatching)⟩
  rcases same with same | same <;> cases same

end Serving

/-- A datagram of a syscall belongs to one of the last `2 ^ 31 - 2` syscalls. -/
def Recent (issued : ℕ) : Option ℕ → Prop
  | some n => issued ≤ n + window
  | none => True

/-- A datagram of no syscall does not end in a trailer. -/
def Untagged (payload : List Byte) : Option ℕ → Prop
  | some _ => True
  | none => Dedup.extractSeq (storeAt (fun _ => 0) 0 (payload.take receiveBufferLen))
      (payload.take receiveBufferLen).length = none

/-- The datagram, if there is one, meets the condition. -/
def Meets (condition : InFlight → Prop) : Option InFlight → Prop
  | some datagram => condition datagram
  | none => True

/-- The step delivers nothing that is too old, and nothing that looks like a request and is none. -/
def SyscallGuard (system : SyscallSystem) : SyscallEvent → Prop
  | .consoleReceive index _ => Meets (fun datagram => Recent system.issued datagram.syscall) system.toConsole[index]?
  | .hostReceive index => Meets (fun datagram => Recent system.issued datagram.syscall ∧
      Untagged datagram.payload datagram.syscall) system.toHost[index]?
  | _ => True

instance (issued : ℕ) : (syscall : Option ℕ) → Decidable (Recent issued syscall)
  | some _ => inferInstanceAs (Decidable (_ ≤ _))
  | none => isTrue trivial

instance (payload : List Byte) : (syscall : Option ℕ) → Decidable (Untagged payload syscall)
  | some _ => isTrue trivial
  | none => inferInstanceAs (Decidable (_ = _))

instance (condition : InFlight → Prop) [∀ datagram, Decidable (condition datagram)] :
    (datagram : Option InFlight) → Decidable (Meets condition datagram)
  | some datagram => inferInstanceAs (Decidable (condition datagram))
  | none => isTrue trivial

instance (system : SyscallSystem) : (event : SyscallEvent) → Decidable (SyscallGuard system event)
  | .consoleReceive _ _ => inferInstanceAs (Decidable (Meets _ _))
  | .hostReceive _ => inferInstanceAs (Decidable (Meets _ _))
  | .elapse _ | .issue _ | .beginAttempt | .breakOut | .checkDeadline | .hostEmit .. | .hostRetval .. | .hostEnd =>
    isTrue trivial

/-- A guarded step keeps the invariant. -/
theorem SyscallInv.step (system : SyscallSystem) (event : SyscallEvent) (next : SyscallSystem)
    (inv : SyscallInv link system) (guard : SyscallGuard system event)
    (step : (syscallMachine link).step system event = some next) : SyscallInv link next := by
  cases event with
  | elapse usec =>
    cases step
    refine ⟨inv.client.elapse ?_, inv.toHost, inv.toConsole, inv.host, inv.returned⟩
    exact Nat.div_le_div_right (Nat.mul_le_mul_right _ (Nat.le_add_right _ _))
  | issue request =>
    simp only [syscallMachine] at step
    split at step
    · split at step
      · rename_i fits
        cases step
        exact inv.issue fits
      · cases step
    · cases step
  | beginAttempt =>
    simp only [syscallMachine] at step
    split at step
    · rename_i retry arm
      cases step
      exact inv.beginAttempt arm
    · cases step
  | consoleReceive index frame =>
    simp only [syscallMachine] at step
    split at step
    · rename_i retry deadline datagram inLoop at_index
      split at step
      · cases step
      · cases step
        simp only [SyscallGuard, at_index, Meets] at guard
        refine inv.consoleReceive inLoop (List.mem_of_getElem? at_index) fun n tag => ?_
        rw [tag] at guard
        exact guard
    · cases step
  | breakOut =>
    simp only [syscallMachine] at step
    split at step
    · rename_i retry deadline inLoop
      split at step
      · rename_i late
        cases step
        exact inv.breakOut inLoop late.2
      · cases step
    · cases step
  | checkDeadline =>
    simp only [syscallMachine] at step
    split at step
    · rename_i retry deadline left
      cases step
      exact inv.checkDeadline left
    · cases step
  | hostReceive index =>
    simp only [syscallMachine] at step
    split at step
    · rename_i datagram waiting at_index
      cases step
      simp only [SyscallGuard, at_index, Meets] at guard
      refine inv.hostReceive waiting (List.mem_of_getElem? at_index) (fun n tag => ?_) fun tag => ?_
      · have recent := guard.1
        rw [tag] at recent
        exact recent
      · have untagged := guard.2
        rw [tag] at untagged
        exact untagged
    · cases step
  | hostEmit cmd address size data dsize sent =>
    simp only [syscallMachine] at step
    split at step
    · rename_i syscall busy
      split at step
      · rename_i transfer
        cases step
        exact inv.hostEmit busy transfer
      · cases step
    · cases step
  | hostRetval value size data sent =>
    simp only [syscallMachine] at step
    split at step
    · rename_i syscall busy
      split at step
      · rename_i short
        cases step
        exact inv.hostRetval busy short
      · cases step
    · cases step
  | hostEnd =>
    simp only [syscallMachine] at step
    split at step
    · rename_i syscall busy
      cases step
      exact inv.hostEnd (Or.inl busy)
    · rename_i syscall busy
      cases step
      exact inv.hostEnd (Or.inr busy)
    · cases step

/-- A Wii on its internal Wi-Fi and a host. -/
def wifiLink : Link where
  target := .wii
  ticksPerSecond := 60750000
  hostEpoch := 1700000000000000
  isWiiLoader := true

/-- A host starts while a program runs that has issued syscalls before. -/
def sessionStart (issued : ℕ) (toHost : List InFlight) : SyscallSystem where
  client := .idle
  loader :=
    { Loader.start (fun _ => 0) fun _ => 0 with
      running := true
      toolVersion := 0x00030000
      kosSyscallNextSeq := wireSeq (issued + 1) }
  host := .loop
  dedup := Dedup.start
  toHost := toHost
  toConsole := []
  clock := 0
  issued := issued
  sentAt := 0
  dispatched := []
  emitted := []
  answerSent := false
  slots _ := none
  produced := []
  returned := []

theorem sessionStart_initial {issued : ℕ} {toHost : List InFlight} (earlier : ToHostInv toHost issued) :
    (sessionStart issued toHost).Initial where
  client := rfl
  running := rfl
  version := by
    change 0x00030000#32 ≤ 0x00030000#32
    decide
  nextSeq := rfl
  host := rfl
  dedup := rfl
  toHost := earlier
  toConsole := rfl
  dispatched := rfl
  produced := rfl
  returned := rfl

/-- What `time` puts in front of the trailer. -/
def timeRequest : List Byte := netCommand (fourCC 'D' 'C' '1' '2') 0 0 []

/-- A `time` is issued, dispatched, answered and returned; its request and its answer arrive twice. -/
def answeredTime : List SyscallEvent :=
  [.issue timeRequest, .beginAttempt, .hostReceive 0, .hostRetval 0x65000000 0 [] true, .hostEnd, .hostReceive 0,
    .consoleReceive 1 0, .checkDeadline]

theorem answeredTime_completes :
    ((syscallMachine wifiLink).run? (sessionStart 0 []) answeredTime).isSome = true := by decide +kernel

/-- The request of an earlier `time`. -/
def earlierTime (n : ℕ) : InFlight := ⟨timeRequest ++ seqTrailer (wireSeq n), some n⟩

/-- The first request and the one `2 ^ 31 - 1` later, both still on their way at the start. -/
def earlierTimes : List InFlight := [earlierTime 1, earlierTime (2 ^ 31)]

theorem earlierTimes_inv : ToHostInv earlierTimes (2 ^ 32 - 2) := by
  have among : ∀ n, 0 < n → n ≤ 2 ^ 32 - 2 → ∃ k, (earlierTime n).syscall = some k ∧ 0 < k ∧ k ≤ 2 ^ 32 - 2 ∧
      IsRequest k (earlierTime n).payload :=
    fun n positive bound => ⟨n, rfl, positive, bound, by simp [earlierTime, timeRequest, receiveBufferLen,
      netCommandLen, length_seqTrailer, netSeqTrailerLen], timeRequest, rfl⟩
  intro datagram member
  simp only [earlierTimes, List.mem_cons, List.not_mem_nil, or_false] at member
  rcases member with rfl | rfl
  · exact Or.inl (among 1 (by decide) (by decide))
  · exact Or.inl (among (2 ^ 31) (by decide) (by decide))

/-- Both arrive, then the request of a new `time`, then the first one again. -/
def wrappedTimes : List SyscallEvent :=
  [.hostReceive 0, .hostEnd, .hostReceive 1, .hostEnd, .issue timeRequest, .hostReceive 2, .hostEnd, .hostReceive 0]

theorem wrappedTimes_completes :
    ((syscallMachine wifiLink).run? (sessionStart (2 ^ 32 - 2) earlierTimes) wrappedTimes).isSome = true := by
  decide +kernel

end KosTool
