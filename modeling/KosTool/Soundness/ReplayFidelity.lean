import KosTool.Machine.Run
import KosTool.Math.ListOverwrite
import KosTool.Model.Host.Dedup

/-! # What a replay sends

The calls `do_network_console` makes to the cache, with the history of what each dispatch emitted. A
replay should send exactly what the committed dispatch emitted, and stay possible until the next commit.
A capture that is never committed has by then overwritten the front of the packets and their time, and
packets that do not fit were never stored: `replayIntact_iff` says exactly what that leaves.
-/

namespace KosTool.Host

open ListOverwrite Machine

/-- A dispatch of a request: when it began and every packet it passed to the cache. -/
structure Dispatch where
  seq : Word
  startedAt : Usec
  emitted : List (List Byte)

/-- What the console loop is doing. -/
inductive LoopPhase where
  | waiting
  | dispatching (dedupActive : Bool)
deriving DecidableEq

/-- The console loop's cache, with the dispatch last committed and those begun since, newest first. -/
structure ConsoleLoop where
  dedup : Dedup
  phase : LoopPhase
  committed : Option Dispatch
  uncommitted : List Dispatch

/-- The calls the loop makes. A dispatch that never ends is `abandon`ed. -/
inductive ConsoleCall where
  | request (seq : Word) (now : Usec)
  | untrailered
  | emit (packet : List Byte)
  | finish
  | abandon

namespace ConsoleLoop

def start : ConsoleLoop := { dedup := .start, phase := .waiting, committed := none, uncommitted := [] }

/-- A packet is passed to the cache. -/
def emit (loop : ConsoleLoop) (packet : List Byte) : ConsoleLoop :=
  { loop with
    dedup := loop.dedup.capturePkt packet
    uncommitted := loop.uncommitted.modifyHead fun dispatch =>
      { dispatch with emitted := dispatch.emitted ++ [packet] } }

/-- A dispatch that captures comes to its end. -/
def finish (loop : ConsoleLoop) : ConsoleLoop :=
  { dedup := loop.dedup.endCapture, phase := .waiting, committed := loop.uncommitted.head?, uncommitted := [] }

/-- A request with a trailer goes through the dedup block. -/
def request (loop : ConsoleLoop) (seq : Word) (now : Usec) : ConsoleLoop :=
  match loop.dedup.admission seq now with
  | (.dispatched, dedup) =>
    { loop with
      dedup
      phase := .dispatching true
      uncommitted := { seq, startedAt := now, emitted := [] } :: loop.uncommitted }
  | (_, dedup) => { loop with dedup }

end ConsoleLoop

/-- The loop takes requests while it waits and emits packets while it dispatches. -/
def consoleMachine : LabeledMachine ConsoleLoop ConsoleCall where
  step loop call :=
    match loop.phase, call with
    | .waiting, .request seq now => some (loop.request seq now)
    | .waiting, .untrailered => some { loop with phase := .dispatching false }
    | .dispatching _, .emit packet => some (loop.emit packet)
    | .dispatching true, .finish => some loop.finish
    | .dispatching false, .finish => some { loop with phase := .waiting }
    | .dispatching _, .abandon => some { loop with phase := .waiting }
    | _, _ => none

/-- A replay sends exactly what the dispatch of that request emitted, and the committed dispatch can be
replayed within the window. -/
structure ReplayFaithful (loop : ConsoleLoop) (seq : Word) (now : Usec) : Prop where
  exact : ∀ packets, loop.dedup.tryReplay seq now = some packets →
    ∃ dispatch, loop.committed = some dispatch ∧ dispatch.seq = seq ∧ packets = dispatch.emitted
  armed : ∀ dispatch, loop.committed = some dispatch → dispatch.seq = seq →
    now - dispatch.startedAt ≤ dedupWindowUsec → (loop.dedup.tryReplay seq now).isSome

/-- The packet is one the cache takes. -/
def Storable (packet : List Byte) : Prop := packet.length ≠ 0 ∧ packet.length ≤ dedupMaxPktBytes

instance (packet : List Byte) : Decidable (Storable packet) := inferInstanceAs (Decidable (_ ∧ _))

/-- The packets of a dispatch the cache has room for. -/
def stored (emitted : List (List Byte)) : List (List Byte) :=
  (emitted.filter Storable).take dedupMaxPackets

/-- When the time stamp of the cache was last set. -/
def ConsoleLoop.stampedAt (loop : ConsoleLoop) (committed : Dispatch) : Usec :=
  (loop.uncommitted.headD committed).startedAt

/-- What is left of some packets once the dispatches, the newest last, have stored theirs over them. -/
def remaining (uncommitted : List Dispatch) (packets : List (List Byte)) : List (List Byte) :=
  uncommitted.foldr (fun dispatch left => overwrite (stored dispatch.emitted) left) packets

/-- If the request is the one committed last: while its stamp is in the window, the cache had room for
everything it emitted and the dispatches begun since have stored nothing else over it; and they have not
moved the stamp out of the window. -/
def ReplayIntact (loop : ConsoleLoop) (seq : Word) (now : Usec) : Prop :=
  ∀ dispatch, loop.committed = some dispatch → dispatch.seq = seq →
    (now - loop.stampedAt dispatch ≤ dedupWindowUsec →
      (dispatch.emitted.length ≤ dedupMaxPackets ∧ ∀ packet ∈ dispatch.emitted, Storable packet) ∧
        remaining loop.uncommitted dispatch.emitted = dispatch.emitted) ∧
    (now - dispatch.startedAt ≤ dedupWindowUsec → now - loop.stampedAt dispatch ≤ dedupWindowUsec)

@[simp] theorem length_remaining (uncommitted : List Dispatch) (packets : List (List Byte)) :
    (remaining uncommitted packets).length = packets.length := by
  induction uncommitted with
  | nil => rfl
  | cons dispatch rest ih => rw [remaining, List.foldr_cons, length_overwrite, ← remaining, ih]

theorem stored_concat (emitted : List (List Byte)) (packet : List Byte) :
    stored (emitted ++ [packet]) =
      if Storable packet ∧ (stored emitted).length < dedupMaxPackets then stored emitted ++ [packet]
      else stored emitted := by
  unfold stored
  by_cases storable : Storable packet
  · rw [List.filter_append, List.filter_singleton, decide_eq_true storable, cond_true, List.length_take]
    generalize List.filter Storable emitted = taken
    split_ifs with room
    · rw [List.take_of_length_le (by rw [List.length_append, List.length_singleton]; omega),
        List.take_of_length_le (by omega)]
    · rw [List.take_append_of_le_length (by
        have full : ¬ min dedupMaxPackets taken.length < dedupMaxPackets := fun less => room ⟨storable, less⟩
        omega)]
  · rw [if_neg fun both => storable both.1, List.filter_append, List.filter_singleton,
      decide_eq_false storable, cond_false, List.append_nil]

theorem stored_sublist (emitted : List (List Byte)) : (stored emitted).Sublist emitted :=
  (List.take_sublist _ _).trans List.filter_sublist

theorem stored_eq_self_iff (emitted : List (List Byte)) :
    stored emitted = emitted ↔
      emitted.length ≤ dedupMaxPackets ∧ ∀ packet ∈ emitted, Storable packet := by
  constructor
  · intro same
    refine ⟨?_, fun packet member => ?_⟩
    · rw [← same, stored]
      exact List.length_take_le _ _
    · rw [← same] at member
      exact of_decide_eq_true (List.mem_filter.mp (List.mem_of_mem_take member)).2
  · rintro ⟨room, storable⟩
    rw [stored, List.filter_eq_self.mpr fun packet member => decide_eq_true (storable packet member),
      List.take_of_length_le room]

/-- The slots of the cache up to a count. -/
def Dedup.slots (dedup : Dedup) (count : ℕ) : List (List Byte) := (List.range count).map dedup.packets

@[simp] theorem Dedup.length_slots (dedup : Dedup) (count : ℕ) : (dedup.slots count).length = count := by
  simp only [slots, List.length_map, List.length_range]

/-- How the cache stands to the history of the loop. -/
structure CacheMatches (loop : ConsoleLoop) : Prop where
  valid : loop.dedup.valid = loop.committed.isSome
  capturing : loop.dedup.capturing = !loop.uncommitted.isEmpty
  seq : ∀ dispatch, loop.committed = some dispatch → loop.dedup.seq = dispatch.seq
  stamp : ∀ dispatch, loop.committed = some dispatch → loop.dedup.capturedAtUs = loop.stampedAt dispatch
  packets : ∀ dispatch, loop.committed = some dispatch →
    loop.dedup.slots loop.dedup.packetCount = remaining loop.uncommitted (stored dispatch.emitted)
  captureSeq : ∀ dispatch rest, loop.uncommitted = dispatch :: rest → loop.dedup.captureSeq = dispatch.seq
  captureStamp : ∀ dispatch rest, loop.uncommitted = dispatch :: rest →
    loop.dedup.capturedAtUs = dispatch.startedAt
  captured : ∀ dispatch rest, loop.uncommitted = dispatch :: rest →
    loop.dedup.slots loop.dedup.captureCount = stored dispatch.emitted
  active : loop.phase = .dispatching true → loop.uncommitted ≠ []

theorem cacheMatches_start : CacheMatches .start := by
  constructor <;> simp [ConsoleLoop.start, Dedup.start]

section Capture

variable {dedup : Dedup} {packet : List Byte}

theorem capturePkt_of_idle (idle : dedup.capturing = false) : dedup.capturePkt packet = dedup := by
  unfold Dedup.capturePkt
  rw [if_pos (Or.inl (by rw [idle]; decide))]

theorem capturePkt_seq : (dedup.capturePkt packet).seq = dedup.seq := by
  unfold Dedup.capturePkt; split_ifs <;> rfl

theorem capturePkt_capturedAtUs : (dedup.capturePkt packet).capturedAtUs = dedup.capturedAtUs := by
  unfold Dedup.capturePkt; split_ifs <;> rfl

theorem capturePkt_packetCount : (dedup.capturePkt packet).packetCount = dedup.packetCount := by
  unfold Dedup.capturePkt; split_ifs <;> rfl

theorem capturePkt_valid : (dedup.capturePkt packet).valid = dedup.valid := by
  unfold Dedup.capturePkt; split_ifs <;> rfl

theorem capturePkt_capturing : (dedup.capturePkt packet).capturing = dedup.capturing := by
  unfold Dedup.capturePkt; split_ifs <;> rfl

theorem capturePkt_captureSeq : (dedup.capturePkt packet).captureSeq = dedup.captureSeq := by
  unfold Dedup.capturePkt; split_ifs <;> rfl

/-- While capturing, a storable packet goes into the next slot, if there is one. -/
theorem capturePkt_eq (capturing : dedup.capturing = true) :
    dedup.capturePkt packet =
      if Storable packet ∧ dedup.captureCount < dedupMaxPackets then
        { dedup with
          packets := Function.update dedup.packets dedup.captureCount packet
          captureCount := dedup.captureCount + 1 }
      else dedup := by
  unfold Dedup.capturePkt Storable
  split_ifs <;> simp_all <;> omega

theorem slots_update (count index : ℕ) :
    ({ dedup with packets := Function.update dedup.packets index packet } : Dedup).slots count =
      (dedup.slots count).set index packet := by
  apply List.ext_getElem
  · simp only [Dedup.length_slots, List.length_set]
  · intro i left right
    simp only [Dedup.slots, List.getElem_map, List.getElem_range, List.getElem_set, Function.update_apply,
      @eq_comm _ i]

theorem slots_succ (count : ℕ) : dedup.slots (count + 1) = dedup.slots count ++ [dedup.packets count] := by
  simp only [Dedup.slots, List.range_succ, List.map_append, List.map_cons, List.map_nil]

/-- A capture holds what the cache had room for of the packets passed to it. -/
theorem slots_capturePkt {emitted : List (List Byte)} (capturing : dedup.capturing = true)
    (slots : dedup.slots dedup.captureCount = stored emitted) :
    (dedup.capturePkt packet).slots (dedup.capturePkt packet).captureCount = stored (emitted ++ [packet]) := by
  have count : dedup.captureCount = (stored emitted).length := by rw [← slots, Dedup.length_slots]
  rw [capturePkt_eq capturing, stored_concat, ← count]
  by_cases room : Storable packet ∧ dedup.captureCount < dedupMaxPackets
  · rw [if_pos room, if_pos room, ← slots, slots_succ]
    congr 1
    · exact (slots_update _ _).trans (List.set_eq_of_length_le (by rw [Dedup.length_slots]))
    · exact congrArg (fun entry => [entry]) (Function.update_self _ _ _)
  · rw [if_neg room, if_neg room]
    exact slots

end Capture

/-- Emitting a packet keeps the cache matched to the history. -/
theorem cacheMatches_emit {loop : ConsoleLoop} (matched : CacheMatches loop) (packet : List Byte) :
    CacheMatches (loop.emit packet) := by
  cases history : loop.uncommitted with
  | nil =>
    have idle : loop.dedup.capturing = false := by rw [matched.capturing, history]; rfl
    have same : loop.emit packet = loop := by
      rw [ConsoleLoop.emit, capturePkt_of_idle idle, history, List.modifyHead_nil, ← history]
    rw [same]
    exact matched
  | cons dispatch rest =>
    have capturing : loop.dedup.capturing = true := by rw [matched.capturing, history]; rfl
    have slots := matched.captured dispatch rest history
    have count : loop.dedup.captureCount = (stored dispatch.emitted).length := by
      rw [← slots, Dedup.length_slots]
    have after : (loop.emit packet).uncommitted =
        { dispatch with emitted := dispatch.emitted ++ [packet] } :: rest := by
      rw [ConsoleLoop.emit, history, List.modifyHead_cons]
    have stamp (committed : Dispatch) : (loop.emit packet).stampedAt committed = loop.stampedAt committed := by
      rw [ConsoleLoop.stampedAt, after, ConsoleLoop.stampedAt, history]
      rfl
    have concat := stored_concat dispatch.emitted packet
    rw [← count] at concat
    have dedup : (loop.emit packet).dedup = loop.dedup.capturePkt packet := rfl
    refine ⟨?_, ?_, ?_, ?_, ?_, ?_, ?_, ?_, fun _ => by rw [after]; exact List.cons_ne_nil _ _⟩
    · rw [dedup, capturePkt_valid]
      exact matched.valid
    · rw [dedup, after, capturePkt_capturing]
      exact capturing
    · rw [dedup, capturePkt_seq]
      exact matched.seq
    · intro committed member
      rw [dedup, stamp, capturePkt_capturedAtUs]
      exact matched.stamp committed member
    · intro committed member
      have packets := matched.packets committed member
      rw [history, remaining, List.foldr_cons, ← remaining] at packets
      rw [dedup, after, capturePkt_packetCount, capturePkt_eq capturing, remaining, List.foldr_cons, ← remaining,
        concat]
      by_cases room : Storable packet ∧ loop.dedup.captureCount < dedupMaxPackets
      · rw [if_pos room, if_pos room, overwrite_concat, ← packets, ← count]
        exact slots_update _ _
      · rw [if_neg room, if_neg room]
        exact packets
    · rw [dedup, after, capturePkt_captureSeq]
      rintro _ _ ⟨⟩
      exact matched.captureSeq dispatch rest history
    · rw [dedup, after, capturePkt_capturedAtUs]
      rintro _ _ ⟨⟩
      exact matched.captureStamp dispatch rest history
    · rw [dedup, after]
      rintro _ _ ⟨⟩
      exact slots_capturePkt capturing slots

/-- Committing a capture makes it the committed dispatch, with nothing stored over it. -/
theorem cacheMatches_finish {loop : ConsoleLoop} (matched : CacheMatches loop)
    (active : loop.phase = .dispatching true) : CacheMatches loop.finish := by
  cases history : loop.uncommitted with
  | nil => exact absurd history (matched.active active)
  | cons dispatch rest =>
    have capturing : loop.dedup.capturing = true := by rw [matched.capturing, history]; rfl
    have dedup : loop.finish.dedup =
        { loop.dedup with
          seq := loop.dedup.captureSeq
          packetCount := loop.dedup.captureCount
          valid := true
          capturing := false } := by
      rw [ConsoleLoop.finish, Dedup.endCapture, if_neg (by rw [capturing]; decide)]
    have committed : loop.finish.committed = some dispatch := by
      rw [ConsoleLoop.finish, history]
      rfl
    refine ⟨?_, ?_, ?_, ?_, ?_, ?_, ?_, ?_, ?_⟩
    · rw [dedup, committed]
      rfl
    · rw [dedup]
      rfl
    · rw [dedup, committed]
      rintro _ ⟨⟩
      exact matched.captureSeq dispatch rest history
    · rw [dedup, committed]
      rintro _ ⟨⟩
      exact matched.captureStamp dispatch rest history
    · rw [dedup, committed]
      rintro _ ⟨⟩
      exact matched.captured dispatch rest history
    · rintro _ _ ⟨⟩
    · rintro _ _ ⟨⟩
    · rintro _ _ ⟨⟩
    · rintro ⟨⟩

/-- Beginning a capture leaves the committed packets in place and takes over the stamp. -/
theorem cacheMatches_begin {loop : ConsoleLoop} (matched : CacheMatches loop) (seq : Word) (now : Usec) :
    CacheMatches
      { loop with
        dedup := loop.dedup.beginCapture seq now
        phase := .dispatching true
        uncommitted := { seq, startedAt := now, emitted := [] } :: loop.uncommitted } := by
  refine ⟨matched.valid, rfl, matched.seq, fun _ _ => rfl, fun committed member => ?_, ?_, ?_, ?_,
    fun _ => List.cons_ne_nil _ _⟩
  · have packets := matched.packets committed member
    rw [remaining, List.foldr_cons, ← remaining]
    exact packets.trans (overwrite_nil _).symm
  · rintro _ _ ⟨⟩
    rfl
  · rintro _ _ ⟨⟩
    rfl
  · rintro _ _ ⟨⟩
    rfl

theorem cacheMatches_request {loop : ConsoleLoop} (matched : CacheMatches loop) (seq : Word) (now : Usec) :
    CacheMatches (loop.request seq now) := by
  unfold ConsoleLoop.request Dedup.admission
  cases loop.dedup.tryReplay seq now with
  | some packets => exact matched
  | none =>
    by_cases stale : loop.dedup.isStale seq
    · simp only [stale, if_true]
      exact matched
    · simp only [stale]
      exact cacheMatches_begin matched seq now

/-- Every call keeps the cache matched to the history. -/
theorem cacheMatches_step {loop next : ConsoleLoop} {call : ConsoleCall} (matched : CacheMatches loop)
    (step : consoleMachine.step loop call = some next) : CacheMatches next := by
  have quiet (phase : LoopPhase) (inactive : phase ≠ .dispatching true) :
      CacheMatches { loop with phase } :=
    { matched with active := fun active => absurd active inactive }
  cases phase : loop.phase with
  | waiting =>
    cases call with
    | request seq now =>
      simp only [consoleMachine, phase, Option.some.injEq] at step
      exact step ▸ cacheMatches_request matched seq now
    | untrailered =>
      simp only [consoleMachine, phase, Option.some.injEq] at step
      exact step ▸ quiet _ (by decide)
    | emit | finish | abandon => simp [consoleMachine, phase] at step
  | dispatching active =>
    cases call with
    | request | untrailered => cases active <;> simp [consoleMachine, phase] at step
    | emit packet =>
      simp only [consoleMachine, phase, Option.some.injEq] at step
      exact step ▸ cacheMatches_emit matched packet
    | finish =>
      cases active with
      | true =>
        simp only [consoleMachine, phase, Option.some.injEq] at step
        exact step ▸ cacheMatches_finish matched phase
      | false =>
        simp only [consoleMachine, phase, Option.some.injEq] at step
        exact step ▸ quiet _ (by decide)
    | abandon =>
      simp only [consoleMachine, phase, Option.some.injEq] at step
      exact step ▸ quiet _ (by decide)

/-- What the cache answers to the request committed last. -/
theorem tryReplay_committed {loop : ConsoleLoop} (matched : CacheMatches loop) {dispatch : Dispatch}
    (committed : loop.committed = some dispatch) (now : Usec) :
    loop.dedup.tryReplay dispatch.seq now =
      if now - loop.stampedAt dispatch ≤ dedupWindowUsec then
        some (remaining loop.uncommitted (stored dispatch.emitted))
      else none := by
  have packets : (List.range loop.dedup.packetCount).map loop.dedup.packets = _ :=
    matched.packets dispatch committed
  rw [Dedup.tryReplay, if_neg (by
    rw [matched.valid, committed, matched.seq dispatch committed]
    simp), matched.stamp dispatch committed, packets]
  by_cases inside : now - loop.stampedAt dispatch ≤ dedupWindowUsec
  · rw [if_pos inside, if_neg (BitVec.not_lt.mpr inside)]
  · rw [if_neg inside, if_pos (BitVec.not_le.mp inside)]

/-- The cache answers no other request. -/
theorem committed_of_tryReplay {loop : ConsoleLoop} (matched : CacheMatches loop) {seq : Word} {now : Usec}
    {packets : List (List Byte)} (replayed : loop.dedup.tryReplay seq now = some packets) :
    ∃ dispatch, loop.committed = some dispatch ∧ dispatch.seq = seq := by
  unfold Dedup.tryReplay at replayed
  split_ifs at replayed with other
  rw [not_or, not_not, ne_eq, not_not, matched.valid] at other
  obtain ⟨dispatch, committed⟩ := Option.isSome_iff_exists.mp other.1
  exact ⟨dispatch, committed, (matched.seq dispatch committed).symm.trans other.2.symm⟩

/-- What is left of the stored packets is what was emitted exactly when everything was stored and nothing
else has been stored over it. -/
theorem remaining_stored_eq_iff (uncommitted : List Dispatch) (emitted : List (List Byte)) :
    remaining uncommitted (stored emitted) = emitted ↔
      (emitted.length ≤ dedupMaxPackets ∧ ∀ packet ∈ emitted, Storable packet) ∧
        remaining uncommitted emitted = emitted := by
  rw [← stored_eq_self_iff]
  constructor
  · intro same
    have lengths := congrArg List.length same
    rw [length_remaining] at lengths
    have whole := (stored_sublist emitted).eq_of_length lengths
    rw [whole] at same
    exact ⟨whole, same⟩
  · rintro ⟨whole, same⟩
    rw [whole, same]

theorem replayFaithful_iff_intact {loop : ConsoleLoop} (matched : CacheMatches loop) (seq : Word) (now : Usec) :
    ReplayFaithful loop seq now ↔ ReplayIntact loop seq now := by
  constructor
  · rintro ⟨exact, armed⟩ dispatch committed rfl
    have answer := tryReplay_committed matched committed now
    refine ⟨fun inside => ?_, fun fresh => ?_⟩
    · rw [if_pos inside] at answer
      obtain ⟨same, member, -, sent⟩ := exact _ answer
      rw [committed, Option.some.injEq] at member
      subst member
      exact (remaining_stored_eq_iff _ _).mp sent
    · by_contra outside
      have replayed := armed dispatch committed rfl fresh
      rw [answer, if_neg outside] at replayed
      exact absurd replayed (by decide)
  · intro intact
    refine ⟨fun packets replayed => ?_, ?_⟩
    · obtain ⟨dispatch, committed, rfl⟩ := committed_of_tryReplay matched replayed
      rw [tryReplay_committed matched committed] at replayed
      split_ifs at replayed with inside
      refine ⟨dispatch, committed, rfl, ?_⟩
      rw [← Option.some.inj replayed]
      exact (remaining_stored_eq_iff _ _).mpr ((intact dispatch committed rfl).1 inside)
    · rintro dispatch committed rfl fresh
      rw [tryReplay_committed matched committed, if_pos ((intact dispatch committed rfl).2 fresh)]
      rfl

/-- If the call is a request the loop takes, its replay is faithful. -/
def CallFaithful (loop : ConsoleLoop) : ConsoleCall → Prop
  | .request seq now => loop.phase = .waiting → ReplayFaithful loop seq now
  | _ => True

/-- If the call is a request the loop takes, what it would replay is intact. -/
def CallIntact (loop : ConsoleLoop) : ConsoleCall → Prop
  | .request seq now => loop.phase = .waiting → ReplayIntact loop seq now
  | _ => True

theorem callFaithful_iff_intact {loop : ConsoleLoop} (matched : CacheMatches loop) (call : ConsoleCall) :
    CallFaithful loop call ↔ CallIntact loop call := by
  cases call with
  | request seq now => exact imp_congr_right fun _ => replayFaithful_iff_intact matched seq now
  | untrailered | emit | finish | abandon => exact Iff.rfl

theorem along_callFaithful_iff {loop : ConsoleLoop} (matched : CacheMatches loop) (calls : List ConsoleCall) :
    consoleMachine.Along CallFaithful loop calls ↔ consoleMachine.Along CallIntact loop calls :=
  LabeledMachine.along_congr_of_invariant (fun _ _ _ matched => cacheMatches_step matched)
    (fun _ call matched => callFaithful_iff_intact matched call) calls matched

/-- Over every sequence of calls in the order of the console loop, every replay is faithful exactly if what
it replays is intact. -/
theorem replay_faithful_iff_intact (calls : List ConsoleCall) :
    consoleMachine.Along CallFaithful .start calls ↔ consoleMachine.Along CallIntact .start calls :=
  along_callFaithful_iff cacheMatches_start calls

instance (loop : ConsoleLoop) (seq : Word) (now : Usec) : Decidable (ReplayIntact loop seq now) :=
  match committed : loop.committed with
  | none => isTrue fun dispatch member => by rw [committed] at member; cases member
  | some dispatch =>
    decidable_of_iff
      (dispatch.seq = seq →
        (now - loop.stampedAt dispatch ≤ dedupWindowUsec →
          (dispatch.emitted.length ≤ dedupMaxPackets ∧ ∀ packet ∈ dispatch.emitted, Storable packet) ∧
            remaining loop.uncommitted dispatch.emitted = dispatch.emitted) ∧
        (now - dispatch.startedAt ≤ dedupWindowUsec → now - loop.stampedAt dispatch ≤ dedupWindowUsec))
      ⟨fun intact _ member => by
        rw [committed, Option.some.injEq] at member
        exact member ▸ intact, fun intact => intact dispatch committed⟩

instance (loop : ConsoleLoop) : (call : ConsoleCall) → Decidable (CallIntact loop call)
  | .request _ _ => inferInstanceAs (Decidable (_ → _))
  | .untrailered | .emit _ | .finish | .abandon => isTrue trivial

/-- Syscall 1 is answered, syscall 2 emits a packet and never ends, syscall 1 is requested again. -/
def abandonedCalls : List ConsoleCall :=
  [.request 1 0, .emit [0x61], .finish, .request 2 1, .emit [0x62], .abandon, .request 1 2]

/-- Syscall 1 emits 64 packets of bulk data and its answer, and is requested again. -/
def overflowingCalls : List ConsoleCall :=
  .request 1 0 :: List.replicate 64 (.emit [0x61]) ++ [.emit [0x62], .finish, .request 1 1]

theorem replay_unfaithful :
    ¬ consoleMachine.Along CallFaithful .start abandonedCalls ∧
      ¬ consoleMachine.Along CallFaithful .start overflowingCalls := by
  rw [along_callFaithful_iff cacheMatches_start, along_callFaithful_iff cacheMatches_start]
  decide +kernel

end KosTool.Host
