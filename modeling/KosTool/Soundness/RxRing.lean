import KosTool.Soundness.RxPump

/-! # The receive ring loses no frame

The polls take the frames in the order in which the pump has put them in. What they have taken is staged and released in that
order too, with the turns that the handler checks it for: so no batch is refused, and no slot is written before it is got back.
-/

namespace KosTool.Ps2

open ByteWord RingTurns Machine

/-- Whether the slot that a poll takes is staged where its release goes on. -/
def ReleaseCaller.staged : ReleaseCaller → ℕ
  | .watermark _ => 1
  | _ => 0

/-- No slot of the poll is staged, and the handler is not asked. -/
def RxCall.quiet : RxCall → Bool
  | .idle | .readLen _ | .readSeq _ _ | .copy _ _ _ | .stage _ _ => true
  | _ => false

namespace SmapRx

/-- The release of an entry. -/
def releaseOf (j : ℕ) : RxRelease := ⟨BitVec.ofNat 32 (j % ps2SmapRxSlots), turnSeq j⟩

/-- How many slots have been staged. -/
def staged (rx : SmapRx) : ℕ := rx.returned.length +
  match rx.call with
  | .release caller | .calling caller | .flushTx _ caller => caller.staged
  | .finish _ => 1
  | _ => 0

/-- A poll takes the next frame as it was put in. -/
def Takes (rx : SmapRx) (taken : Option (List Byte)) : Prop :=
  ∃ frame, rx.delivered[rx.returned.length]? = some frame ∧ taken = some frame

/-- No batch is full before its slot is staged. -/
def Returns (rx : SmapRx) : ReleaseCaller → Prop
  | .outside => True
  | .full _ _ => False
  | .watermark taken => rx.Takes taken

/-- How far a poll is. -/
def Polling (rx : SmapRx) : Prop :=
  match rx.call with
  | .idle => True
  | .readLen _ => rx.returned.length < rx.delivered.length
  | .readSeq _ len => ∃ frame, rx.delivered[rx.returned.length]? = some frame ∧ len = BitVec.ofNat 32 frame.length
  | .copy len seq dst => seq = turnSeq rx.returned.length ∧ ∃ frame,
      rx.delivered[rx.returned.length]? = some frame ∧ len = BitVec.ofNat 32 frame.length ∧ dst = frame.take dst.length
  | .stage seq taken => seq = turnSeq rx.returned.length ∧ rx.Takes taken
  | .release caller | .calling caller | .flushTx _ caller => rx.Returns caller
  | .finish taken => rx.Takes taken

/-- What is staged and not got back is pending, or in the batch that the handler has. -/
def Batched (rx : SmapRx) : Prop :=
  match rx.call with
  | .calling _ =>
    match rx.rpc with
    | .asked batch => batch = rx.pendingReleases ∧ batch ≠ [] ∧ rx.released + batch.length = rx.staged
    | .checking batch _ => batch = rx.pendingReleases ∧ rx.released + batch.length = rx.staged
    | .answered _ rc => rc = .ok ∧ rx.released = rx.staged
    | .idle => False
  | _ => rx.rpc = .idle ∧ rx.released + rx.pendingReleases.length = rx.staged

/-- How long the batch gets. -/
def limit (rx : SmapRx) : ℕ :=
  match rx.call with
  | .release _ | .calling _ => ps2SmapReleaseFlushWatermark
  | _ => ps2SmapReleaseFlushWatermark - 1

/-- The ring as the polls keep it. -/
structure Polls (rx : SmapRx) : Prop where
  tail : rx.rxTail = BitVec.ofNat 32 rx.returned.length
  returned : rx.returned = (rx.delivered.take rx.returned.length).map some
  pending : ∃ first, first + rx.pendingReleases.length = rx.staged ∧
    rx.pendingReleases = (List.range' first rx.pendingReleases.length).map releaseOf
  short : rx.pendingReleases.length ≤ rx.limit
  polling : rx.Polling
  batched : rx.Batched

section Ring

variable {rx : SmapRx}

theorem Polls.behind (polls : rx.Polls) : rx.returned.length ≤ rx.delivered.length := by
  have length := congrArg List.length polls.returned
  rw [List.length_map, List.length_take] at length
  omega

theorem Takes.inside {taken : Option (List Byte)} (takes : rx.Takes taken) : rx.returned.length < rx.delivered.length := by
  obtain ⟨frame, at_tail, -⟩ := takes
  exact (List.getElem?_eq_some_iff.mp at_tail).1

/-- What is staged is in the ring. -/
theorem Polls.staged_le (polls : rx.Polls) : rx.staged ≤ rx.delivered.length := by
  have behind := polls.behind
  have polling := polls.polling
  have returns (caller : ReleaseCaller) (here : rx.Returns caller) :
      rx.returned.length + caller.staged ≤ rx.delivered.length := by
    cases caller with
    | watermark taken => exact here.inside
    | outside | full => exact behind
  rw [Polling] at polling
  rw [staged]
  cases here : rx.call with
  | release caller | calling caller =>
    rw [here] at polling
    exact returns caller polling
  | flushTx rc caller =>
    rw [here] at polling
    exact returns caller polling
  | finish taken =>
    rw [here] at polling
    exact polling.inside
  | idle | readLen | readSeq | copy | stage => exact behind

/-- What is not staged is not got back. -/
theorem Polls.released_le (polls : rx.Polls) : rx.released ≤ rx.staged := by
  have batched := polls.batched
  rw [Batched] at batched
  cases here : rx.call with
  | calling caller =>
    rw [here] at batched
    cases asked : rx.rpc with
    | idle =>
      rw [asked] at batched
      exact batched.elim
    | asked batch =>
      rw [asked] at batched
      exact Nat.le.intro batched.2.2
    | checking batch i =>
      rw [asked] at batched
      exact Nat.le.intro batched.2
    | answered batch rc =>
      rw [asked] at batched
      exact batched.2.le
  | _ =>
    rw [here] at batched
    exact Nat.le.intro batched.2

/-- A call goes on without a change of what is staged. -/
theorem Polls.goto (polls : rx.Polls) {call : RxCall} (same : SmapRx.staged { rx with call := call } = rx.staged)
    (short : rx.pendingReleases.length ≤ limit { rx with call := call }) (polling : Polling { rx with call := call })
    (batched : Batched { rx with call := call }) : Polls { rx with call := call } :=
  ⟨polls.tail, polls.returned, by rw [same]; exact polls.pending, short, polling, batched⟩

theorem staged_of {call : RxCall} (here : rx.call = call) : SmapRx.staged { rx with call := call } = rx.staged := by
  subst here
  rfl

/-- The frame at the tail is in its slot. -/
theorem Polls.stored (polls : rx.Polls) (pumps : rx.Pumps) (front : rx.staged = rx.returned.length) {frame : List Byte}
    (at_tail : rx.delivered[rx.returned.length]? = some frame) : rx.Stored rx.returned.length frame :=
  pumps.stored _ frame (front ▸ polls.released_le) at_tail

theorem Polls.tailSlot (polls : rx.Polls) : rx.tailSlot = rx.returned.length % ps2SmapRxSlots := by
  rw [SmapRx.tailSlot, polls.tail, slot_ofNat]

/-- The length of the frame at the tail. -/
theorem Stored.toNat_len {j : ℕ} {frame : List Byte} (stored : rx.Stored j frame) :
    (BitVec.ofNat 32 frame.length).toNat = frame.length := by
  have small := stored.small.2
  change frame.length ≤ 1518 at small
  rw [BitVec.toNat_ofNat]
  omega

/-- What holds before a slot is staged. -/
theorem quiet_iff (quiet : rx.call.quiet = true) : rx.staged = rx.returned.length ∧
    rx.limit = ps2SmapReleaseFlushWatermark - 1 ∧
    (rx.Batched ↔ rx.rpc = .idle ∧ rx.released + rx.pendingReleases.length = rx.returned.length) := by
  rw [Batched, staged, limit]
  cases here : rx.call with
  | idle | readLen | readSeq | copy | stage => exact ⟨rfl, rfl, .rfl⟩
  | release | calling | flushTx | finish =>
    rw [here] at quiet
    cases quiet

/-- A poll goes on before it stages its slot. -/
theorem Polls.still (polls : rx.Polls) (quiet : rx.call.quiet = true) {call : RxCall} (next : call.quiet = true)
    (polling : Polling { rx with call := call }) : Polls { rx with call := call } := by
  obtain ⟨front, limited, batched⟩ := quiet_iff quiet
  obtain ⟨front', limited', batched'⟩ := quiet_iff (show (SmapRx.call { rx with call := call }).quiet = true from next)
  refine polls.goto (front'.trans front.symm) ?_ polling (batched'.mpr (batched.mp polls.batched))
  rw [limited', ← limited]
  exact polls.short

/-- A poll that the ring is not empty for. -/
theorem Polls.poll (polls : rx.Polls) (pumps : rx.Pumps) (here : rx.call = .idle) (some : rx.rxHead ≠ rx.rxTail)
    (bufSize : ℕ) : Polls { rx with call := .readLen bufSize } := by
  refine polls.still (by rw [here]; rfl) rfl (polls.behind.lt_of_ne fun same => some ?_)
  rw [pumps.head, polls.tail]
  exact congrArg (BitVec.ofNat 32) same.symm

/-- The length of the frame is read. -/
theorem Polls.readLen (polls : rx.Polls) (pumps : rx.Pumps) {bufSize : ℕ} (here : rx.call = .readLen bufSize) :
    Polls { rx with call := .readSeq bufSize (rx.rxRing rx.tailSlot).len } := by
  have quiet : rx.call.quiet = true := by rw [here]; rfl
  have polling := polls.polling
  rw [Polling, here] at polling
  obtain ⟨frame, at_tail⟩ : ∃ frame, rx.delivered[rx.returned.length]? = some frame := ⟨_, List.getElem?_eq_getElem polling⟩
  refine polls.still quiet rfl ⟨frame, at_tail, ?_⟩
  rw [polls.tailSlot]
  exact (polls.stored pumps (quiet_iff quiet).1 at_tail).len

/-- The turn is read, and the frame is taken if there is room for it. -/
theorem Polls.readSeq (polls : rx.Polls) (pumps : rx.Pumps) {next : SmapRx} {bufSize : ℕ} {len : Word}
    (here : rx.call = .readSeq bufSize len) (stepped : rx.callStep = some next) :
    ∃ call, next = { rx with call := call } ∧ Polls { rx with call := call } := by
  have quiet : rx.call.quiet = true := by rw [here]; rfl
  have polling := polls.polling
  rw [Polling, here] at polling
  obtain ⟨frame, at_tail, length⟩ := polling
  have stored := polls.stored pumps (quiet_iff quiet).1 at_tail
  rw [callStep, here] at stepped
  dsimp only at stepped
  rw [length, stored.toNat_len,
    if_neg (not_or.mpr ⟨Nat.not_lt.mpr stored.small.1, Nat.not_lt.mpr stored.small.2⟩)] at stepped
  split_ifs at stepped with narrow
  · cases stepped
    exact ⟨_, rfl, polls.still quiet rfl trivial⟩
  · cases stepped
    refine ⟨_, rfl, polls.still quiet rfl ⟨?_, frame, at_tail, rfl, rfl⟩⟩
    rw [polls.tailSlot]
    exact stored.seq

/-- A byte of the frame is copied, or all of them are. -/
theorem Polls.copy (polls : rx.Polls) (pumps : rx.Pumps) {next : SmapRx} {len seq : Word} {dst : List Byte}
    (here : rx.call = .copy len seq dst) (stepped : rx.callStep = some next) :
    ∃ call, next = { rx with call := call } ∧ Polls { rx with call := call } := by
  have quiet : rx.call.quiet = true := by rw [here]; rfl
  have polling := polls.polling
  rw [Polling, here] at polling
  obtain ⟨turn, frame, at_tail, length, front⟩ := polling
  have stored := polls.stored pumps (quiet_iff quiet).1 at_tail
  rw [callStep, here] at stepped
  dsimp only at stepped
  rw [length, stored.toNat_len] at stepped
  split_ifs at stepped with more
  · cases stepped
    refine ⟨_, rfl, polls.still quiet rfl ⟨turn, frame, at_tail, rfl, ?_⟩⟩
    have byte : rx.rxData (rx.tailSlot * ps2SmapSlotSize + dst.length) = frame[dst.length] := by
      rw [polls.tailSlot, ← getD_slice rx.rxData _ more 0, stored.data, List.getD_eq_getElem _ _ more]
    rw [byte, List.length_append, List.length_singleton, List.take_succ_eq_append_getElem more, ← front]
  · cases stepped
    refine ⟨_, rfl, polls.still quiet rfl ⟨turn, frame, at_tail, ?_⟩⟩
    rw [front, List.take_of_length_le (Nat.not_lt.mp more)]

/-- The slot is staged behind those that are. -/
theorem Polls.stage (polls : rx.Polls) {next : SmapRx} {seq : Word} {taken : Option (List Byte)}
    (here : rx.call = .stage seq taken) (stepped : rx.callStep = some next) :
    ∃ pending call, next = { rx with pendingReleases := pending, call := call } ∧ next.Polls := by
  have quiet : rx.call.quiet = true := by rw [here]; rfl
  obtain ⟨front, limited, batched⟩ := quiet_iff quiet
  obtain ⟨idle, count⟩ := batched.mp polls.batched
  have short := polls.short
  have polling := polls.polling
  rw [limited] at short
  rw [Polling, here] at polling
  obtain ⟨turn, takes⟩ := polling
  have room : ¬ps2SmapReleaseBatchMax ≤ rx.pendingReleases.length := by
    change _ ≤ 3 at short
    change ¬16 ≤ _
    omega
  have own : (⟨BitVec.ofNat 32 rx.tailSlot, seq⟩ : RxRelease) = releaseOf rx.returned.length := by
    rw [polls.tailSlot, turn]
    rfl
  obtain ⟨first, reach, entries⟩ := polls.pending
  rw [front] at reach
  have pending : rx.pendingReleases ++ [releaseOf rx.returned.length] =
      (List.range' first (rx.pendingReleases.length + 1)).map releaseOf := by
    rw [List.range'_1_concat, List.map_append, ← entries, reach]
    rfl
  have length : (rx.pendingReleases ++ [releaseOf rx.returned.length]).length = rx.pendingReleases.length + 1 :=
    List.length_append
  rw [callStep, here] at stepped
  dsimp only at stepped
  rw [if_neg room, stageStep, own, length] at stepped
  split_ifs at stepped with full
  · cases stepped
    refine ⟨_, _, rfl, polls.tail, polls.returned, ⟨first, ?_, ?_⟩, ?_, takes, idle, ?_⟩
    · exact (congrArg (first + ·) length).trans (congrArg (· + 1) reach)
    · dsimp only
      rw [length, pending]
    · dsimp only [limit]
      rw [length]
      exact Nat.succ_le_succ short
    · exact (congrArg (rx.released + ·) length).trans (congrArg (· + 1) count)
  · cases stepped
    refine ⟨_, _, rfl, polls.tail, polls.returned, ⟨first, ?_, ?_⟩, ?_, takes, idle, ?_⟩
    · exact (congrArg (first + ·) length).trans (congrArg (· + 1) reach)
    · dsimp only
      rw [length, pending]
    · dsimp only [limit]
      rw [length]
      exact Nat.le_of_lt_succ (Nat.lt_of_not_le full)
    · exact (congrArg (rx.released + ·) length).trans (congrArg (· + 1) count)

/-- What is pending is put into a batch, or there is nothing to release. -/
theorem Polls.release (polls : rx.Polls) {next : SmapRx} {caller : ReleaseCaller} (here : rx.call = .release caller)
    (stepped : rx.callStep = some next) :
    ∃ rpc call, next = { rx with rpc := rpc, call := call } ∧ next.Polls := by
  have batched := polls.batched
  have short := polls.short
  have polling := polls.polling
  have pending := polls.pending
  rw [Batched, here] at batched
  rw [limit, here] at short
  rw [Polling, here] at polling
  have same : rx.staged = rx.returned.length + caller.staged := by rw [staged, here]
  rw [same] at pending batched
  rw [callStep, here] at stepped
  dsimp only at stepped
  split_ifs at stepped with empty
  · cases stepped
    refine ⟨_, _, rfl, polls.tail, polls.returned, pending, ?_, polling, batched⟩
    rw [empty]
    exact Nat.zero_le _
  · cases stepped
    exact ⟨_, _, rfl, polls.tail, polls.returned, pending, short, polling, rfl, empty, batched.2⟩

/-- The call has been executed, and its answer has arrived or is lost. -/
theorem Polls.called (polls : rx.Polls) {caller : ReleaseCaller} {batch : List RxRelease} {rc : SmapRc}
    (here : rx.call = .calling caller) (answered : rx.rpc = .answered batch rc) (rcRelease : ℤ) :
    (SmapRx.called rx rcRelease caller).Polls := by
  have batched := polls.batched
  have polling := polls.polling
  rw [Batched, here, answered] at batched
  rw [Polling, here] at polling
  have same : rx.staged = rx.returned.length + caller.staged := by rw [staged, here]
  exact ⟨polls.tail, polls.returned, ⟨_, Nat.add_zero _, rfl⟩, Nat.zero_le _, polling, rfl, batched.2.trans same⟩

/-- The poll returns. -/
theorem Polls.finish (polls : rx.Polls) {next : SmapRx} {taken : Option (List Byte)} (here : rx.call = .finish taken)
    (stepped : rx.callStep = some next) :
    ∃ tail call returned, next = { rx with rxTail := tail, call := call, returned := returned } ∧ next.Polls := by
  have batched := polls.batched
  have short := polls.short
  have polling := polls.polling
  have pending := polls.pending
  rw [Batched, here] at batched
  rw [limit, here] at short
  rw [Polling, here] at polling
  have same : rx.staged = rx.returned.length + 1 := by rw [staged, here]
  obtain ⟨frame, at_tail, rfl⟩ := polling
  have length : (rx.returned ++ [some frame]).length = rx.returned.length + 1 := List.length_append
  rw [same, ← length] at pending batched
  rw [callStep, here] at stepped
  cases stepped
  refine ⟨_, _, _, rfl, ?_, ?_, pending, short, trivial, batched⟩
  · dsimp only
    rw [length, BitVec.ofNat_add, polls.tail]
    rfl
  · dsimp only
    rw [length, List.take_add_one, at_tail, List.map_append, ← polls.returned]
    rfl

/-- A batch returns to who has asked for it. -/
theorem Polls.flushed (polls : rx.Polls) {rcRelease : ℤ} {caller : ReleaseCaller} (here : rx.call = .flushTx rcRelease caller)
    (rc : ℤ) : ∃ call, rx.releaseReturns rc caller = { rx with call := call } ∧ (rx.releaseReturns rc caller).Polls := by
  have batched := polls.batched
  have short := polls.short
  have polling := polls.polling
  have pending := polls.pending
  rw [Batched, here] at batched
  rw [limit, here] at short
  rw [Polling, here] at polling
  have same : rx.staged = rx.returned.length + caller.staged := by rw [staged, here]
  rw [same] at pending batched
  cases caller with
  | outside => exact ⟨_, rfl, polls.tail, polls.returned, pending, short, trivial, batched⟩
  | full seq taken => exact polling.elim
  | watermark taken => exact ⟨_, rfl, polls.tail, polls.returned, pending, short, polling, batched⟩

/-- The batch is flushed from outside. -/
theorem Polls.releasePending (polls : rx.Polls) (here : rx.call = .idle) : Polls { rx with call := .release .outside } := by
  obtain ⟨front, limited, batched⟩ := quiet_iff (show rx.call.quiet = true by rw [here]; rfl)
  have short := polls.short
  rw [limited] at short
  exact polls.goto front.symm (Nat.le_succ_of_le short) trivial (batched.mp polls.batched)

/-- The release of an entry that is in the ring is accepted. -/
theorem Pumps.checkRelease (pumps : rx.Pumps) {j : ℕ} (kept : rx.released ≤ j) (inside : j < rx.delivered.length) :
    rx.checkRelease (releaseOf j) = .ok := by
  have below : j % ps2SmapRxSlots < ps2SmapRxSlots := Nat.mod_lt _ (by decide)
  have slot : (releaseOf j).slot.toNat = j % ps2SmapRxSlots := by
    change (BitVec.ofNat 32 (j % 16)).toNat = j % 16
    rw [BitVec.toNat_ofNat]
    omega
  have room := pumps.room
  have ahead : rx.delivered.length + rx.counted ≤ rx.released + 15 := by
    change rx.delivered.length ≤ rx.released + 15 at room
    have filling := pumps.filling
    rw [Filling] at filling
    rw [counted]
    cases here : rx.pump with
    | stamp | publish =>
      rw [here] at filling
      exact filling.1.free
    | idle | scan | gate | regate | write | describe | count | advance => exact room
  rw [SmapRx.checkRelease, slot, if_neg (Nat.not_le.mpr below), pumps.turned _ below,
    turns_of_live (Nat.lt_add_right _ inside) (by change _ ≤ j + 16; omega)]
  exact if_neg (not_not.mpr rfl)

/-- What the polls change is of no matter to the pump. -/
theorem Pumps.other (pumps : rx.Pumps) {rxTail : Word} {pending : List RxRelease} {call : RxCall} {rpc : ReleaseRpc}
    {returned : List (Option (List Byte))} :
    Pumps { rx with rxTail := rxTail, pendingReleases := pending, call := call, rpc := rpc, returned := returned } :=
  pumps.release (n := 0) pumps.behind (BitVec.add_zero _).symm rfl rfl rfl rfl rfl rfl rfl rfl

/-- A step of the handler. -/
theorem Polls.serve (polls : rx.Polls) (pumps : rx.Pumps) {next : SmapRx} (stepped : rx.serveStep = some next) :
    next.Pumps ∧ next.Polls := by
  have batched := polls.batched
  rw [Batched] at batched
  cases here : rx.call with
  | calling caller =>
    have short := polls.short
    have same : rx.staged = rx.returned.length + caller.staged := by rw [staged, here]
    rw [limit, here] at short
    rw [here] at batched
    rw [serveStep] at stepped
    have kept {rpc : ReleaseRpc} : Pumps { rx with rpc := rpc } := pumps.other
    cases asked : rx.rpc with
    | idle | answered =>
      rw [asked] at stepped
      cases stepped
    | asked batch =>
      rw [asked] at batched stepped
      obtain ⟨rfl, some, count⟩ := batched
      have fits : ¬(rx.pendingReleases.length = 0 ∨ ps2SmapReleaseBatchMax < rx.pendingReleases.length) := by
        rw [not_or, List.length_eq_zero_iff]
        exact ⟨some, Nat.not_lt.mpr (short.trans (show 4 ≤ 16 by decide))⟩
      dsimp only at stepped
      rw [if_neg fits] at stepped
      cases stepped
      refine ⟨kept, polls.tail, polls.returned, polls.pending, polls.short, polls.polling, ?_⟩
      rw [Batched]
      dsimp only
      rw [here]
      exact ⟨rfl, count.trans same⟩
    | checking batch i =>
      rw [asked] at batched stepped
      obtain ⟨rfl, count⟩ := batched
      obtain ⟨first, reach, entries⟩ := polls.pending
      have start : first = rx.released := by omega
      have accepted (entry : RxRelease) (at_i : rx.pendingReleases[i]? = some entry) : rx.checkRelease entry = .ok := by
        have below := (List.getElem?_eq_some_iff.mp at_i).1
        have inside := polls.staged_le
        rw [entries, List.getElem?_map, List.getElem?_range' below] at at_i
        cases at_i
        exact pumps.checkRelease (by omega) (by omega)
      cases at_i : rx.pendingReleases[i]? with
      | some entry =>
        dsimp only at stepped
        rw [at_i] at stepped
        dsimp only at stepped
        rw [accepted entry at_i] at stepped
        cases stepped
        refine ⟨kept, polls.tail, polls.returned, polls.pending, polls.short, polls.polling, ?_⟩
        rw [Batched]
        dsimp only
        rw [here]
        exact ⟨rfl, count.trans same⟩
      | none =>
        dsimp only at stepped
        rw [at_i] at stepped
        cases stepped
        refine ⟨pumps.release (n := rx.pendingReleases.length) (count.trans_le polls.staged_le) rfl rfl rfl rfl rfl rfl rfl rfl rfl,
          polls.tail, polls.returned, polls.pending, polls.short, polls.polling, ?_⟩
        rw [Batched]
        dsimp only
        rw [here]
        exact ⟨rfl, count.trans same⟩
  | _ =>
    rw [here] at batched
    rw [serveStep, batched.1] at stepped
    cases stepped

/-- A step of the polls. -/
theorem Polls.resume (polls : rx.Polls) (pumps : rx.Pumps) {next : SmapRx} (stepped : rx.callStep = some next) :
    next.Pumps ∧ next.Polls := by
  cases here : rx.call with
  | idle | flushTx =>
    rw [callStep, here] at stepped
    cases stepped
  | readLen bufSize =>
    have read := polls.readLen pumps here
    rw [callStep, here] at stepped
    cases stepped
    exact ⟨pumps.other, read⟩
  | readSeq bufSize len =>
    obtain ⟨call, rfl, read⟩ := polls.readSeq pumps here stepped
    exact ⟨pumps.other, read⟩
  | copy len seq dst =>
    obtain ⟨call, rfl, copied⟩ := polls.copy pumps here stepped
    exact ⟨pumps.other, copied⟩
  | stage seq taken =>
    obtain ⟨pending, call, rfl, staged⟩ := polls.stage here stepped
    exact ⟨pumps.other, staged⟩
  | release caller =>
    obtain ⟨rpc, call, rfl, asked⟩ := polls.release here stepped
    exact ⟨pumps.other, asked⟩
  | calling caller =>
    rw [callStep, here] at stepped
    dsimp only at stepped
    cases asked : rx.rpc with
    | answered batch rc =>
      rw [asked] at stepped
      cases stepped
      exact ⟨pumps.other, polls.called here asked rc.code⟩
    | idle | asked | checking =>
      rw [asked] at stepped
      cases stepped
  | finish taken =>
    obtain ⟨tail, call, returned, rfl, finished⟩ := polls.finish here stepped
    exact ⟨pumps.other, finished⟩

/-- More frames in the ring are of no matter to the polls. -/
theorem Polls.grow (polls : rx.Polls) {next : SmapRx} {more : List (List Byte)} (delivered : next.delivered = rx.delivered ++ more)
    (tail : next.rxTail = rx.rxTail) (returned : next.returned = rx.returned)
    (pending : next.pendingReleases = rx.pendingReleases) (call : next.call = rx.call) (rpc : next.rpc = rx.rpc)
    (released : next.released = rx.released) : next.Polls := by
  have staged_eq : next.staged = rx.staged := by rw [staged, staged, call, returned]
  have there {frame : List Byte} (at_tail : rx.delivered[rx.returned.length]? = some frame) :
      next.delivered[next.returned.length]? = some frame := by
    rw [delivered, returned, List.getElem?_append_left (List.getElem?_eq_some_iff.mp at_tail).1, at_tail]
  have takes {taken : Option (List Byte)} (before : rx.Takes taken) : next.Takes taken := by
    obtain ⟨frame, at_tail, taken_eq⟩ := before
    exact ⟨frame, there at_tail, taken_eq⟩
  have returns {caller : ReleaseCaller} (before : rx.Returns caller) : next.Returns caller := by
    cases caller with
    | outside => trivial
    | full => exact before
    | watermark taken => exact takes before
  refine ⟨by rw [tail, returned, polls.tail], ?_, by rw [pending, staged_eq]; exact polls.pending, ?_, ?_, ?_⟩
  · rw [returned, delivered, List.take_append_of_le_length polls.behind]
    exact polls.returned
  · rw [pending, limit, call]
    exact polls.short
  · have polling := polls.polling
    rw [Polling] at polling ⊢
    rw [call]
    cases here : rx.call with
    | idle => trivial
    | readLen bufSize =>
      rw [here] at polling
      dsimp only
      rw [returned, delivered, List.length_append]
      exact Nat.lt_add_right _ polling
    | readSeq bufSize len =>
      rw [here] at polling
      exact polling.imp fun frame => And.imp_left there
    | copy len seq dst =>
      rw [here] at polling
      dsimp only
      exact ⟨returned ▸ polling.1, polling.2.imp fun frame => And.imp_left there⟩
    | stage seq taken =>
      rw [here] at polling
      exact ⟨returned ▸ polling.1, takes polling.2⟩
    | release caller | calling caller =>
      rw [here] at polling
      exact returns polling
    | flushTx rc caller =>
      rw [here] at polling
      exact returns polling
    | finish taken =>
      rw [here] at polling
      exact takes polling
  · have batched := polls.batched
    rw [Batched] at batched ⊢
    rw [call, rpc, pending, released, staged_eq]
    exact batched

/-- A step of the pump. -/
theorem Polls.pumpStep (polls : rx.Polls) (frameCnt : Byte) : (rx.pumpStep frameCnt).Polls := by
  have delivered : ∃ more, (rx.pumpStep frameCnt).delivered = rx.delivered ++ more := by
    rw [SmapRx.pumpStep]
    cases rx.pump with
    | publish => exact ⟨_, rfl⟩
    | idle | describe | count | stamp | advance => exact ⟨[], (List.append_nil _).symm⟩
    | scan | gate | regate | write =>
      refine ⟨[], ?_⟩
      dsimp only
      split_ifs <;> exact (List.append_nil _).symm
  obtain ⟨more, delivered⟩ := delivered
  have others : (rx.pumpStep frameCnt).rxTail = rx.rxTail ∧ (rx.pumpStep frameCnt).returned = rx.returned ∧
      (rx.pumpStep frameCnt).pendingReleases = rx.pendingReleases ∧ (rx.pumpStep frameCnt).call = rx.call ∧
      (rx.pumpStep frameCnt).rpc = rx.rpc ∧ (rx.pumpStep frameCnt).released = rx.released := by
    rw [SmapRx.pumpStep]
    cases rx.pump with
    | publish | idle | describe | count | stamp | advance => exact ⟨rfl, rfl, rfl, rfl, rfl, rfl⟩
    | scan | gate | regate | write =>
      dsimp only
      split_ifs <;> exact ⟨rfl, rfl, rfl, rfl, rfl, rfl⟩
  obtain ⟨tail, returned, pending, call, rpc, released⟩ := others
  exact polls.grow delivered tail returned pending call rpc released

end Ring

/-- The call of an event comes through. -/
def Event.Succeeds : Event → Prop
  | .loseRequest | .loseReply => False
  | _ => True

instance : DecidablePred Event.Succeeds
  | .arrive .. | .pump _ | .serve | .poll _ | .releasePending | .resume | .flushedTx _ => inferInstanceAs (Decidable True)
  | .loseRequest | .loseReply => inferInstanceAs (Decidable False)

/-- The call of an event reaches the handler. -/
def Event.Reaches : Event → Prop
  | .loseRequest => False
  | _ => True

theorem Event.Succeeds.reaches {event : Event} (succeeds : event.Succeeds) : event.Reaches := by
  cases event with
  | loseRequest => exact succeeds.elim
  | _ => trivial

/-- Both sides keep the ring, unless a batch is lost. -/
theorem keeps_step {rx next : SmapRx} (kept : rx.Pumps ∧ rx.Polls) {event : Event} (reaches : event.Reaches)
    (stepped : rx.step event = some next) : next.Pumps ∧ next.Polls := by
  obtain ⟨pumps, polls⟩ := kept
  cases event with
  | arrive idx bd =>
    rw [step] at stepped
    split_ifs at stepped with filled
    cases stepped
    exact ⟨pumps.arrive filled.2.1, polls.grow (List.append_nil _).symm rfl rfl rfl rfl rfl rfl⟩
  | pump frameCnt =>
    cases stepped
    exact ⟨pumps.pumpStep frameCnt, polls.pumpStep frameCnt⟩
  | serve => exact polls.serve pumps stepped
  | poll bufSize =>
    rw [step] at stepped
    cases here : rx.call with
    | idle =>
      rw [here] at stepped
      dsimp only at stepped
      split_ifs at stepped with empty
      · cases stepped
        exact ⟨pumps, polls⟩
      · cases stepped
        exact ⟨pumps.other, polls.poll pumps here empty bufSize⟩
    | _ =>
      rw [here] at stepped
      cases stepped
  | releasePending =>
    rw [step] at stepped
    cases here : rx.call with
    | idle =>
      rw [here] at stepped
      cases stepped
      exact ⟨pumps.other, polls.releasePending here⟩
    | _ =>
      rw [here] at stepped
      cases stepped
  | resume => exact polls.resume pumps stepped
  | flushedTx rcSubmit =>
    rw [step] at stepped
    cases here : rx.call with
    | flushTx rcRelease caller =>
      rw [here] at stepped
      cases stepped
      obtain ⟨call, same, flushed⟩ := polls.flushed here (if rcRelease < 0 then rcRelease else rcSubmit)
      refine ⟨?_, flushed⟩
      rw [same]
      exact pumps.other
    | _ =>
      rw [here] at stepped
      cases stepped
  | loseRequest => exact reaches.elim
  | loseReply =>
    rw [step] at stepped
    cases here : rx.call with
    | calling caller =>
      cases asked : rx.rpc with
      | answered batch rc =>
        rw [here, asked] at stepped
        cases stepped
        exact ⟨pumps.other, polls.called here asked (-2)⟩
      | idle | asked | checking =>
        rw [here, asked] at stepped
        cases stepped
    | _ =>
      rw [here] at stepped
      cases stepped

/-- A batch of releases is not refused. -/
def Accepts (rx : SmapRx) : Prop := ∀ batch rc, rx.rpc = .answered batch rc → rc = .ok

/-- The slot that the pump writes is none of those that it has not got back. -/
def Spares (rx : SmapRx) : Prop := ∀ j, rx.released ≤ j → j < rx.delivered.length → j % ps2SmapRxSlots ≠ rx.headSlot

/-- The counters between two calls: how far the tail and the head are ahead of the view of the pump. -/
def Ordered (rx : SmapRx) : Prop := rx.call = .idle →
  (rx.rxTail - rx.rxTailIopView).toNat ≤ (rx.rxHead - rx.rxTailIopView).toNat ∧
    (rx.rxHead - rx.rxTailIopView).toNat < ps2SmapRxSlots

/-- The distance of two counters that are not a turn of the words apart. -/
theorem toNat_ofNat_sub {a b : ℕ} (below : b ≤ a) (near : a ≤ b + ps2SmapRxSlots) :
    (BitVec.ofNat 32 a - BitVec.ofNat 32 b).toNat = a - b := by
  change a ≤ b + 16 at near
  rw [BitVec.toNat_sub, BitVec.toNat_ofNat, BitVec.toNat_ofNat]
  omega

theorem initial_keeps (bds : ℕ → RxBd) : (initial bds).Pumps ∧ (initial bds).Polls :=
  ⟨⟨rfl, rfl, le_rfl, Nat.zero_le _, nofun, fun _ inside => congrArg (BitVec.ofNat 32) (turns_zero inside).symm, trivial⟩,
    rfl, rfl, ⟨0, rfl, rfl⟩, Nat.zero_le _, trivial, rfl, rfl⟩

end SmapRx

open SmapRx

/-- In every run in which no call is lost, the polls return the frames of the ring, each once and in their order, no slot is
written before it is got back, no batch is refused, and between two calls the counters are in order. -/
theorem receive_ring_right {bds : ℕ → RxBd} {events : List SmapRx.Event} {rx : SmapRx}
    (succeeds : smapRx.Along (fun _ event => event.Succeeds) (SmapRx.initial bds) events)
    (run : smapRx.run? (SmapRx.initial bds) events = some rx) :
    rx.returned = (rx.delivered.take rx.returned.length).map some ∧ rx.Spares ∧ rx.Accepts ∧ rx.Ordered := by
  have step_keeps (source : SmapRx) (event : SmapRx.Event) (next : SmapRx) (kept : source.Pumps ∧ source.Polls)
      (comes : event.Succeeds) (stepped : smapRx.step source event = some next) : next.Pumps ∧ next.Polls :=
    keeps_step kept comes.reaches stepped
  obtain ⟨pumps, polls⟩ := LabeledMachine.run?_invariant step_keeps (initial_keeps bds) succeeds run
  refine ⟨polls.returned, fun j kept inside => ?_, fun batch rc answered => ?_, fun idle => ?_⟩
  · exact pumps.slot_ne kept (List.getElem?_eq_getElem inside)
  · have batched := polls.batched
    rw [Batched] at batched
    cases here : rx.call with
    | calling caller =>
      rw [here, answered] at batched
      exact batched.1
    | _ =>
      rw [here, answered] at batched
      cases batched.1
  · obtain ⟨front, -⟩ := quiet_iff (show rx.call.quiet = true by rw [idle]; rfl)
    have least := polls.released_le
    have most := polls.behind
    have room := pumps.room
    rw [front] at least
    change rx.delivered.length ≤ rx.released + 15 at room
    rw [pumps.head, pumps.view, polls.tail, toNat_ofNat_sub least (by change _ ≤ _ + 16; omega),
      toNat_ofNat_sub pumps.behind (by change _ ≤ _ + 16; omega)]
    change _ ∧ _ < 16
    omega

/-- A frame arrives, is drained and polled, and its slot is got back. -/
def oneFrame : List SmapRx.Event :=
  .arrive 0 ⟨0, 14, fun _ => 7⟩ :: List.replicate 13 (.pump 1) ++ .poll 1518 :: List.replicate 19 .resume ++
    .releasePending :: .resume :: List.replicate 3 .serve ++ [.resume, .flushedTx 0]

set_option maxRecDepth 8000 in
theorem oneFrame_runs : ∃ rx, smapRx.run? (SmapRx.initial fun _ => ⟨0x8000, 0, fun _ => 7⟩) oneFrame = some rx ∧
    rx.returned = [some (List.replicate 14 7)] ∧ rx.released = 1 :=
  ⟨_, rfl, rfl, rfl⟩

theorem receive_ring_right_once : ∃ rx,
    smapRx.run? (SmapRx.initial fun _ => ⟨0x8000, 0, fun _ => 7⟩) oneFrame = some rx ∧ rx.released = 1 ∧
    rx.returned = (rx.delivered.take rx.returned.length).map some ∧ rx.Spares ∧ rx.Accepts ∧ rx.Ordered := by
  obtain ⟨rx, run, -, released⟩ := oneFrame_runs
  exact ⟨rx, run, released, receive_ring_right (LabeledMachine.Along.of_events (by decide)) run⟩

end KosTool.Ps2
