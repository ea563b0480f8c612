import KosTool.Model.Host.Upload

/-! # What the recovery loop reads of the image

The range check of `network_send_data_once` adds an offset and a size that the answer to `DBIN` has brought, in 32 bits, and
`send_cmd` cuts data off that its buffer has no room for.
-/

namespace KosTool.Host.Upload

open ByteWord Protocol

variable (upload : Upload)

/-- The bytes are within the data, and there are as many as the datagram says. -/
def MissPartbin.Within (sent : MissPartbin) : Prop :=
  sent.first + sent.count ≤ upload.size.toNat ∧ sent.missSize.toNat = sent.count

/-- The offset and the size of an answer do not wrap, and the wire buffer holds the size. -/
def MissHolds (buffer : Buffer) : Prop :=
  (commandAddress buffer 0 - upload.destAddr).toNat + (commandSize buffer 0).toNat < 2 ^ 32 ∧
    (commandSize buffer 0).toNat ≤ sendBufferLen - netCommandLen - 3

variable {upload}

/-- One turn of the loop. -/
theorem within_iff {buffer : Buffer} {sent : MissPartbin} (sends : upload.missPartbin buffer = some sent) :
    sent.Within upload ↔ upload.MissHolds buffer := by
  have size := upload.size.isLt
  simp only [missPartbin] at sends
  split_ifs at sends with empty outside
  cases sends
  have checked := mt BitVec.lt_def.mpr outside
  have nonzero : (commandSize buffer 0).toNat ≠ 0 := fun zero => empty (BitVec.eq_of_toNat_eq zero)
  rw [BitVec.toNat_add] at checked
  simp only [MissPartbin.Within, MissHolds]
  constructor
  · rintro ⟨inside, announced⟩
    omega
  · rintro ⟨fits, short⟩
    omega

/-- Every `PBIN` of the recovery is of the data and as long as it says exactly if every answer that the loop acts on neither wraps
nor asks for more than the wire buffer holds. -/
theorem recovery_within_iff (upload : Upload) (buffers : List Buffer) :
    (∀ sent ∈ upload.recoverySends buffers, sent.Within upload) ↔
      ∀ buffer ∈ buffers.takeWhile fun buffer => (upload.missPartbin buffer).isSome, upload.MissHolds buffer := by
  induction buffers with
  | nil => exact iff_of_true (fun sent member => nomatch member) fun buffer member => nomatch member
  | cons buffer rest ih =>
    rw [recoverySends]
    cases sends : upload.missPartbin buffer with
    | none =>
      rw [List.takeWhile_cons_of_neg (by rw [sends]; decide)]
      exact iff_of_true (fun sent member => nomatch member) fun buffer member => nomatch member
    | some sent =>
      rw [List.takeWhile_cons_of_pos (by rw [sends]; rfl), List.forall_mem_cons, List.forall_mem_cons, within_iff sends, ih]

/-- Four kilobytes for a console, and an answer that misses 32 bytes from 16 bytes below them on. -/
theorem recovery_reads_outside : ¬∀ sent ∈ recoverySends ⟨fun _ => 0, 0x8c010000, 4096, false, false⟩
    [storeAt (fun _ => 0) 0 (netCommand netCmdDonebin 0x8c00fff0 32 [])],
    sent.first + sent.count ≤ 4096 ∧ sent.missSize.toNat = sent.count := by
  intro within
  have sends : recoverySends ⟨fun _ => 0, 0x8c010000, 4096, false, false⟩
      [storeAt (fun _ => 0) 0 (netCommand netCmdDonebin 0x8c00fff0 32 [])] = [⟨0x8c00fff0, 32, 0xfffffff0, 32⟩] := by rfl
  rw [sends] at within
  exact absurd (within _ List.mem_cons_self).1 (by decide)

end KosTool.Host.Upload

/-! # What an upload puts on the wire

An upload whose `LBIN` is acknowledged streams all of its data, whatever comes of it then. Which bytes its `PBIN`s have does not
depend on the data, and what is on the wire depends on these bytes only.
-/

namespace KosTool.Host.Upload

open ByteWord Protocol

variable {upload : Upload} {sender next : Sender} {wire : List (List Byte)}

/-- The step acknowledges the `LBIN`. -/
def Acknowledges (upload : Upload) (sender : Sender) : SendEvent → Prop
  | .receive payload => (∃ attempt, sender.pc = .sendAndWait .loadbin attempt) ∧ upload.isReply sender .loadbin payload = true
  | _ => False

/-- The recovery loop goes on with an answer that it can serve, if it does. -/
def AnswerHolds (upload : Upload) (sender : Sender) : SendEvent → Prop
  | .receive payload => ∀ stage attempt, sender.pc = .sendAndWait stage attempt → stage.recovers = true →
      upload.isReply sender stage payload = true → (upload.missPartbin (received sender payload).buffer).isSome →
        upload.MissHolds (received sender payload).buffer
  | _ => True

/-- Every step of a run is one of a kind. -/
def Along (upload : Upload) (kind : Sender → SendEvent → Prop) : Sender → List SendEvent → Prop
  | _, [] => True
  | sender, event :: rest =>
    kind sender event ∧ ∀ next wire, upload.react sender event = some (next, wire) → Along upload kind next rest

/-- The run ends with a datagram, not with a window that is over. -/
def Answered (events : List SendEvent) : Prop := ∃ payload, events.getLast? = some (.receive payload)

/-- The `PBIN` has a byte of the data. -/
def MissPartbin.Has (k : ℕ) (sent : MissPartbin) : Prop := sent.first ≤ k ∧ k < sent.first + sent.count

/-- The `PBIN`s have every byte from one on. -/
def Covers (upload : Upload) (start : ℕ) (partbins : List MissPartbin) : Prop :=
  ∀ k, start ≤ k → k < upload.size.toNat → ∃ sent ∈ partbins, sent.Has k

theorem reactAll_cons {event : SendEvent} {rest : List SendEvent} {sent : Sent} :
    upload.reactAll sender (event :: rest) = some sent ↔ ∃ next wire others, upload.react sender event = some (next, wire) ∧
      upload.reactAll next rest = some others ∧
      sent = ⟨wire ++ others.wire, (upload.partbin sender event).toList ++ others.partbins, others.code⟩ := by
  rw [reactAll]
  constructor
  · intro result
    split at result
    · rename_i next wire reacted
      obtain ⟨others, went, rfl⟩ := Option.map_eq_some_iff.mp result
      exact ⟨next, wire, others, reacted, went, rfl⟩
    · nomatch result
  · rintro ⟨next, wire, others, reacted, went, rfl⟩
    rw [reacted]
    dsimp only
    rw [went]
    rfl

/-- A sender that has returned stays. -/
theorem reactAll_returned {code : ℤ} (pc : sender.pc = .returned code) {events : List SendEvent} {sent : Sent}
    (went : upload.reactAll sender events = some sent) : events = [] ∧ sent = ⟨[], [], code⟩ := by
  cases events with
  | nil =>
    rw [reactAll, pc] at went
    exact ⟨rfl, (Option.some.inj went).symm⟩
  | cons event rest =>
    obtain ⟨next, wire, others, reacted, -, -⟩ := reactAll_cons.mp went
    cases event <;> simp only [react, pc] at reacted <;> nomatch reacted

/-- What holds along a run holds of its first step and along the rest. -/
theorem along_cons {kind : Sender → SendEvent → Prop} {event : SendEvent} {rest : List SendEvent}
    (reacted : upload.react sender event = some (next, wire)) :
    upload.Along kind sender (event :: rest) ↔ kind sender event ∧ upload.Along kind next rest := by
  rw [Along]
  refine and_congr_right fun _ => ⟨fun after => after next wire reacted, fun after next' wire' reacted' => ?_⟩
  cases Option.some.inj (reacted.symm.trans reacted')
  exact after

theorem recover_pc (upload : Upload) (sender : Sender) : (upload.recover sender).1.pc = .returned 0 ∨
    (upload.recover sender).1.pc = .sendAndWait .recoverDonebin 0 := by
  rw [recover_eq]
  cases upload.missPartbin sender.buffer with
  | none => exact .inl rfl
  | some sent => exact .inr rfl

/-- An answer ends the upload with success only. -/
theorem acknowledged_returned {stage : UploadStage} {code : ℤ} (pc : (upload.acknowledged sender stage).1.pc = .returned code) :
    code = 0 := by
  cases stage with
  | loadbin => nomatch pc
  | loadbinRetry => nomatch pc
  | recoverLoadbin => exact (UploadPc.returned.inj pc).symm
  | donebin | donebinRetry | recoverDonebin =>
    obtain ended | goes := recover_pc upload sender
    · exact UploadPc.returned.inj (pc.symm.trans ended)
    · nomatch pc.symm.trans goes

/-- Without an answer it ends with failure. -/
theorem windowElapsed_returned {stage : UploadStage} {attempt : ℕ} {code : ℤ}
    (pc : (upload.windowElapsed sender stage attempt).1.pc = .returned code) : code = -1 := by
  rw [windowElapsed] at pc
  split at pc
  · nomatch pc
  · cases stage with
    | loadbin | loadbinRetry | donebinRetry | recoverLoadbin => exact (UploadPc.returned.inj pc).symm
    | donebin => nomatch pc
    | recoverDonebin =>
      simp only [exhausted] at pc
      split at pc
      · exact (UploadPc.returned.inj pc).symm
      · nomatch pc

/-- A step ends the upload with success on a datagram and with failure on the end of a window. -/
theorem react_returned {event : SendEvent} {code : ℤ} (reacted : upload.react sender event = some (next, wire))
    (pc : next.pc = .returned code) :
    (code = 0 ∧ ∃ payload, event = .receive payload) ∨ (code = -1 ∧ event = .windowElapsed) := by
  cases event with
  | streamNext =>
    simp only [react] at reacted
    split at reacted
    · rename_i retry offset here
      have went := Option.some.inj reacted
      rw [streamNext] at went
      split at went
      · cases went
        nomatch pc
      · cases went
        nomatch pc
    · nomatch reacted
  | windowElapsed =>
    simp only [react] at reacted
    split at reacted
    · rename_i stage attempt here
      have went := Option.some.inj reacted
      exact .inr ⟨@windowElapsed_returned upload sender stage attempt code (by rw [went]; exact pc), rfl⟩
    · nomatch reacted
  | receive payload =>
    refine .inl ⟨?_, payload, rfl⟩
    simp only [react] at reacted
    split at reacted
    · rename_i stage attempt here
      have went := Option.some.inj reacted
      rw [receive] at went
      split at went
      · exact acknowledged_returned (by rw [went]; exact pc)
      · cases went
        rw [received] at pc
        nomatch here.symm.trans pc
    · nomatch reacted

/-- An upload returns 0 or −1, and 0 exactly if it ends with a datagram. -/
theorem reactAll_code {events : List SendEvent} (running : ∀ code, sender.pc ≠ .returned code) {sent : Sent}
    (went : upload.reactAll sender events = some sent) : (sent.code = 0 ∧ Answered events) ∨ (sent.code = -1 ∧ ¬Answered events) := by
  induction events generalizing sender sent with
  | nil =>
    rw [reactAll] at went
    split at went
    · rename_i code pc
      exact absurd pc (running code)
    · nomatch went
  | cons event rest ih =>
    obtain ⟨next, wire, others, reacted, after, rfl⟩ := reactAll_cons.mp went
    by_cases overrun : ∃ code, next.pc = .returned code
    · obtain ⟨code, pc⟩ := overrun
      obtain ⟨rfl, rfl⟩ := reactAll_returned pc after
      obtain ⟨rfl, payload, rfl⟩ | ⟨rfl, rfl⟩ := react_returned reacted pc
      · exact .inl ⟨rfl, payload, rfl⟩
      · exact .inr ⟨rfl, fun ⟨payload, last⟩ => nomatch last⟩
    · have goes := ih (fun code pc => overrun ⟨code, pc⟩) after
      cases rest with
      | nil =>
        rw [reactAll] at after
        split at after
        · rename_i code pc
          exact absurd ⟨code, pc⟩ overrun
        · nomatch after
      | cons second rest =>
        rw [Answered, List.getLast?_cons_cons]
        exact goes

section Stream

theorem chunkSize_toNat (upload : Upload) : 0 < upload.chunkSize.toNat ∧ upload.chunkSize.toNat ≤ 1440 := by
  rw [chunkSize]
  split_ifs <;> decide

/-- A `PBIN` of the stream loop is a whole chunk, or the rest. -/
theorem streamPartbin_eq {offset : Word} (inside : offset < upload.size) :
    (upload.streamPartbin offset).first = offset.toNat ∧
      (upload.streamPartbin offset).count = min (upload.size.toNat - offset.toNat) upload.chunkSize.toNat ∧
      (upload.streamPartbin offset).missSize.toNat = (upload.streamPartbin offset).count := by
  have below := BitVec.lt_def.mp inside
  have size := upload.size.isLt
  obtain ⟨positive, small⟩ := chunkSize_toNat upload
  have remaining : (upload.size - offset).toNat = upload.size.toNat - offset.toNat := by
    rw [BitVec.toNat_sub]
    omega
  have room : sendBufferLen - netCommandLen - 3 = 2033 := rfl
  rw [streamPartbin]
  dsimp only
  rw [room]
  split_ifs with full
  · have whole := BitVec.le_def.mp full
    rw [remaining] at whole
    exact ⟨rfl, by omega, by omega⟩
  · have rest := mt BitVec.le_def.mpr full
    rw [remaining] at rest
    rw [remaining]
    exact ⟨rfl, by omega, by omega⟩

variable (fits : upload.size.toNat + 1440 ≤ 2 ^ 32)

include fits

/-- The first stream loop sends everything that is left. -/
theorem covers_stream {events : List SendEvent} {offset : Word} (pc : sender.pc = .stream false offset) {sent : Sent}
    (went : upload.reactAll sender events = some sent) : upload.Covers offset.toNat sent.partbins := by
  induction events generalizing sender offset sent with
  | nil =>
    rw [reactAll, pc] at went
    nomatch went
  | cons event rest ih =>
    obtain ⟨next, wire, others, reacted, after, rfl⟩ := reactAll_cons.mp went
    cases event with
    | windowElapsed => simp only [react, pc] at reacted; nomatch reacted
    | receive payload => simp only [react, pc] at reacted; nomatch reacted
    | streamNext =>
      simp only [react, pc, streamNext, Option.some.injEq] at reacted
      intro k lower upper
      by_cases inside : offset < upload.size
      · rw [if_pos inside] at reacted
        cases reacted
        obtain ⟨first, count, -⟩ := streamPartbin_eq inside
        obtain ⟨positive, small⟩ := chunkSize_toNat upload
        have below := BitVec.lt_def.mp inside
        have step : (offset + upload.chunkSize).toNat = offset.toNat + upload.chunkSize.toNat := by
          rw [BitVec.toNat_add]
          omega
        have emitted : upload.partbin sender .streamNext = some (upload.streamPartbin offset) := by
          simp only [partbin, pc, if_pos inside]
        by_cases here : k < offset.toNat + upload.chunkSize.toNat
        · refine ⟨upload.streamPartbin offset, ?_, by omega, by omega⟩
          rw [emitted]
          exact List.mem_append_left _ (List.mem_singleton_self _)
        · obtain ⟨sent, member, within⟩ := ih rfl after k (by rw [step]; omega) upper
          exact ⟨sent, List.mem_append_right _ member, within⟩
      · have behind := mt BitVec.lt_def.mpr inside
        omega

/-- An upload whose `LBIN` is not acknowledged sends nothing and fails; another sends everything. -/
theorem loadbin_cases {events : List SendEvent} {attempt : ℕ} (pc : sender.pc = .sendAndWait .loadbin attempt) {sent : Sent}
    (went : upload.reactAll sender events = some sent) :
    (upload.Along (fun sender event => ¬upload.Acknowledges sender event) sender events ∧ sent.partbins = [] ∧ sent.code = -1) ∨
      (¬upload.Along (fun sender event => ¬upload.Acknowledges sender event) sender events ∧ upload.Covers 0 sent.partbins) := by
  induction events generalizing sender attempt sent with
  | nil =>
    rw [reactAll, pc] at went
    nomatch went
  | cons event rest ih =>
    obtain ⟨next, wire, others, reacted, after, rfl⟩ := reactAll_cons.mp went
    rw [along_cons reacted]
    -- the wait goes on, or has ended without an answer
    have waits : ¬upload.Acknowledges sender event → upload.partbin sender event = none →
        (∃ attempt, next.pc = .sendAndWait .loadbin attempt) ∨ next.pc = .returned (-1) →
        ((¬upload.Acknowledges sender event ∧ upload.Along (fun sender event => ¬upload.Acknowledges sender event) next rest) ∧
            (upload.partbin sender event).toList ++ others.partbins = [] ∧ others.code = -1) ∨
          (¬(¬upload.Acknowledges sender event ∧ upload.Along (fun sender event => ¬upload.Acknowledges sender event) next rest) ∧
            upload.Covers 0 ((upload.partbin sender event).toList ++ others.partbins)) := by
      rintro unanswered none_sent (⟨attempt, pc⟩ | pc)
      · rw [none_sent, Option.toList_none, List.nil_append]
        obtain ⟨never, nothing, failed⟩ | ⟨answered, everything⟩ := ih pc after
        · exact .inl ⟨⟨unanswered, never⟩, nothing, failed⟩
        · exact .inr ⟨fun never => answered never.2, everything⟩
      · obtain ⟨rfl, rfl⟩ := reactAll_returned pc after
        rw [none_sent]
        exact .inl ⟨⟨unanswered, trivial⟩, rfl, rfl⟩
    cases event with
    | streamNext =>
      simp only [react, pc] at reacted
      nomatch reacted
    | windowElapsed =>
      simp only [react, pc, windowElapsed, Option.some.injEq] at reacted
      refine waits id rfl ?_
      split at reacted
      · cases reacted
        exact .inl ⟨_, rfl⟩
      · cases reacted
        exact .inr rfl
    | receive payload =>
      simp only [react, pc, receive, Option.some.injEq] at reacted
      have none_sent : upload.partbin sender (.receive payload) = none := by
        simp only [partbin, pc, UploadStage.recovers, Bool.false_and, Bool.false_eq_true, if_false]
      by_cases reply : upload.isReply sender .loadbin payload = true
      · rw [if_pos reply] at reacted
        cases reacted
        refine .inr ⟨fun never => never.1 ⟨⟨attempt, pc⟩, reply⟩, ?_⟩
        rw [none_sent]
        exact covers_stream fits rfl after
      · rw [if_neg reply] at reacted
        cases reacted
        exact waits (fun answered => reply answered.2) none_sent (.inl ⟨attempt, pc⟩)

end Stream

/-! ### Which bytes, and whose -/

section Bytes

/-- The bytes of a `PBIN` are where its address says, within the first bytes of the data, and as many as it says. -/
def MissPartbin.Exact (addr : Word) (length : ℕ) (sent : MissPartbin) : Prop :=
  sent.missAddr = addr + BitVec.ofNat 32 sent.first ∧ sent.first + sent.count ≤ length ∧ sent.missSize.toNat = sent.count

/-- What the recovery loop sends is right exactly if it can serve the answer. -/
theorem missPartbin_exact_iff {buffer : Buffer} {part : MissPartbin} {base length : ℕ} {addr : Word}
    (large : base + upload.size.toNat ≤ length) (small : length + 2033 < 2 ^ 32)
    (window : upload.destAddr = addr + BitVec.ofNat 32 base) (sends : upload.missPartbin buffer = some part) :
    (part.inWhole base).Exact addr length ↔ upload.MissHolds buffer := by
  have place : (part.inWhole base).missAddr = addr + BitVec.ofNat 32 (part.inWhole base).first := by
    simp only [missPartbin] at sends
    split_ifs at sends
    cases sends
    rw [MissPartbin.inWhole, BitVec.ofNat_add, ← BitVec.add_assoc, ← window, BitVec.ofNat_toNat, BitVec.setWidth_eq]
    rw [BitVec.add_comm, BitVec.sub_add_cancel]
  rw [MissPartbin.Exact, and_iff_right place, ← within_iff sends, MissPartbin.Within]
  have size := upload.size.isLt
  simp only [missPartbin] at sends
  split_ifs at sends with empty outside
  cases sends
  have checked := mt BitVec.lt_def.mpr outside
  rw [BitVec.toNat_add] at checked
  have room : sendBufferLen - netCommandLen - 3 = 2033 := rfl
  rw [MissPartbin.inWhole, room]
  dsimp only
  have first := (commandAddress buffer 0 - upload.destAddr).isLt
  constructor
  · rintro ⟨inside, announced⟩
    omega
  · rintro ⟨inside, announced⟩
    omega

theorem streamPartbin_exact {offset : Word} (inside : offset < upload.size) {base length : ℕ} {addr : Word}
    (large : base + upload.size.toNat ≤ length) (window : upload.destAddr = addr + BitVec.ofNat 32 base) :
    ((upload.streamPartbin offset).inWhole base).Exact addr length := by
  obtain ⟨first, count, announced⟩ := streamPartbin_eq inside
  have below := BitVec.lt_def.mp inside
  refine ⟨?_, ?_, announced⟩
  · rw [MissPartbin.inWhole, BitVec.ofNat_add, ← BitVec.add_assoc, ← window, first, BitVec.ofNat_toNat, BitVec.setWidth_eq]
    rfl
  · rw [MissPartbin.inWhole]
    dsimp only
    omega

/-- The `PBIN` of a step on a window is right for the whole exactly if the recovery loop can serve the answer. -/
theorem exact_iff {event : SendEvent} {base length : ℕ} {addr : Word} (large : base + upload.size.toNat ≤ length)
    (small : length + 2033 < 2 ^ 32) (window : upload.destAddr = addr + BitVec.ofNat 32 base) :
    (∀ part ∈ (upload.partbin sender event).toList, (part.inWhole base).Exact addr length) ↔ upload.AnswerHolds sender event := by
  cases event with
  | windowElapsed => exact iff_of_true (fun part member => nomatch member) trivial
  | streamNext =>
    refine iff_of_true (fun part member => ?_) trivial
    simp only [partbin] at member
    split at member
    · rename_i retry offset pc
      split at member
      · rename_i inside
        cases List.mem_singleton.mp member
        exact streamPartbin_exact inside large window
      · nomatch member
    · nomatch member
  | receive payload =>
    simp only [partbin, AnswerHolds]
    split
    · rename_i stage attempt pc
      by_cases acts : (stage.recovers && upload.isReply sender stage payload) = true
      · obtain ⟨recovers, reply⟩ := Bool.and_eq_true_iff.mp acts
        rw [if_pos acts]
        cases sends : upload.missPartbin (received sender payload).buffer with
        | none =>
          exact iff_of_true (fun part member => nomatch member) fun _ _ _ _ _ isSome => nomatch isSome
        | some part =>
          rw [Option.toList_some, List.forall_mem_singleton, missPartbin_exact_iff large small window sends]
          refine ⟨fun holds _ _ _ _ _ _ => holds, fun holds => holds stage attempt pc recovers reply rfl⟩
      · rw [if_neg acts]
        refine iff_of_true (fun part member => nomatch member) fun stage' attempt' pc' recovers reply _ => ?_
        cases pc.symm.trans pc'
        exact absurd (Bool.and_eq_true_iff.mpr ⟨recovers, reply⟩) acts
    · rename_i waits
      exact iff_of_true (fun part member => nomatch member) fun stage attempt pc => absurd pc (waits stage attempt)

/-- The `PBIN`s of a run are right exactly if every answer of the recovery loop is one that it can serve. -/
theorem all_exact_iff {events : List SendEvent} {base length : ℕ} {addr : Word} (large : base + upload.size.toNat ≤ length)
    (small : length + 2033 < 2 ^ 32) (window : upload.destAddr = addr + BitVec.ofNat 32 base) {sent : Sent}
    (went : upload.reactAll sender events = some sent) :
    (∀ part ∈ sent.partbins, (part.inWhole base).Exact addr length) ↔ upload.Along upload.AnswerHolds sender events := by
  induction events generalizing sender sent with
  | nil =>
    rw [reactAll] at went
    split at went
    · cases went
      exact iff_of_true (fun part member => nomatch member) trivial
    · nomatch went
  | cons event rest ih =>
    obtain ⟨next, wire, others, reacted, after, rfl⟩ := reactAll_cons.mp went
    rw [along_cons reacted, List.forall_mem_append, exact_iff large small window, ih after]

theorem sendCmd_congr {isWiiLoader : Bool} {cmd address size : Word} {data other : Buffer} {dsize : ℕ}
    (agree : ∀ i < min dsize (sendBufferLen - netCommandLen - 3), data i = other i) :
    sendCmd isWiiLoader cmd address size data dsize = sendCmd isWiiLoader cmd address size other dsize := by
  have same : slice data 0 (min dsize (sendBufferLen - netCommandLen - 3)) =
      slice other 0 (min dsize (sendBufferLen - netCommandLen - 3)) :=
    slice_congr fun i below => by rw [Nat.zero_add]; exact agree i below
  rw [sendCmd, sendCmd, same]

theorem recover_congr {other : Buffer}
    (agree : ∀ part ∈ (upload.missPartbin sender.buffer).toList, ∀ k, part.Has k → upload.data k = other k) :
    recover { upload with data := other } sender = upload.recover sender := by
  rw [recover_eq, recover_eq]
  have sends : missPartbin { upload with data := other } sender.buffer = upload.missPartbin sender.buffer := rfl
  rw [sends]
  cases found : upload.missPartbin sender.buffer with
  | none => rfl
  | some part =>
    have same : partbinDatagram { upload with data := other } part.missAddr (part.missAddr - upload.destAddr) part.missSize =
        upload.partbinDatagram part.missAddr (part.missAddr - upload.destAddr) part.missSize := by
      refine sendCmd_congr fun i below => (agree part (by rw [found]; exact List.mem_singleton_self _) _ ?_).symm
      simp only [missPartbin] at found
      split_ifs at found
      cases found
      exact ⟨Nat.le_add_right _ _, Nat.add_lt_add_left below _⟩
    dsimp only
    rw [same]
    rfl

/-- Where another data has the bytes that a step sends, it sends the same. -/
theorem react_congr {event : SendEvent} {other : Buffer}
    (agree : ∀ part ∈ (upload.partbin sender event).toList, ∀ k, part.Has k → upload.data k = other k) :
    react { upload with data := other } sender event = upload.react sender event := by
  cases event with
  | windowElapsed =>
    simp only [react]
    split <;> rfl
  | streamNext =>
    simp only [react]
    split
    · rename_i retry offset pc
      simp only [partbin, pc] at agree
      refine congrArg some ?_
      rw [streamNext, streamNext]
      dsimp only
      by_cases inside : offset < upload.size
      · rw [if_pos inside] at agree
        rw [if_pos inside, if_pos inside]
        refine congrArg (Prod.mk _) (congrArg (· :: []) ?_)
        refine sendCmd_congr fun i below => (agree _ (List.mem_singleton_self _) _ ?_).symm
        exact ⟨Nat.le_add_right _ _, Nat.add_lt_add_left below _⟩
      · rw [if_neg inside, if_neg inside]
        rfl
    · rfl
  | receive payload =>
    simp only [react]
    split
    · rename_i stage attempt pc
      simp only [partbin, pc] at agree
      refine congrArg some ?_
      have reply : isReply { upload with data := other } sender stage payload = upload.isReply sender stage payload := rfl
      rw [receive, receive, reply]
      by_cases acts : upload.isReply sender stage payload = true
      · rw [if_pos acts, if_pos acts]
        cases stage with
        | loadbin | loadbinRetry | recoverLoadbin => rfl
        | donebin | donebinRetry | recoverDonebin =>
          rw [UploadStage.recovers, acts] at agree
          exact recover_congr agree
      · rw [if_neg acts, if_neg acts]
    · rfl

/-- Where another data has the bytes of the `PBIN`s of a run, the run is the same. -/
theorem reactAll_congr {events : List SendEvent} {other : Buffer} {sent : Sent} (went : upload.reactAll sender events = some sent)
    (agree : ∀ part ∈ sent.partbins, ∀ k, part.Has k → upload.data k = other k) :
    reactAll { upload with data := other } sender events = some sent := by
  induction events generalizing sender sent with
  | nil =>
    rw [reactAll] at went ⊢
    exact went
  | cons event rest ih =>
    obtain ⟨next, wire, others, reacted, after, rfl⟩ := reactAll_cons.mp went
    obtain ⟨here, later⟩ := List.forall_mem_append.mp agree
    exact reactAll_cons.mpr ⟨next, wire, others, (react_congr here).trans reacted, ih after later, rfl⟩

end Bytes

end KosTool.Host.Upload
