import KosTool.Math.Framing
import KosTool.Model.GdbPacket

/-! # What the probe of the debugger's stream finds

The probe keeps the front of a payload, and takes it for a string. It finds the packets that a stream contains, however the stream is
cut and however long they are, as far as it looks at them.
-/

namespace KosTool.Host

open ByteWord Framing

namespace GdbProbe

/-- The payload up to its first zero. -/
def text (payload : List Byte) : List Byte := payload.takeWhile fun ch => ch ≠ 0

/-- The text is that of a detach, of all processes or of one. -/
def IsDetach (text : List Byte) : Prop := text = [68#8] ∨ [68#8, 59#8] <+: text

/-- The text is that of an answer without an error. -/
def IsOk (text : List Byte) : Prop := text = [79#8, 75#8]

instance (text : List Byte) : Decidable (IsDetach text) := inferInstanceAs (Decidable (_ ∨ _))
instance (text : List Byte) : Decidable (IsOk text) := inferInstanceAs (Decidable (_ = _))

/-- What a payload is. -/
def meaning (payload : List Byte) : GdbSeen := ⟨IsDetach (text payload), IsOk (text payload)⟩

/-- The stream contains a packet with a payload: a dollar sign, the payload, a number sign, and two characters. -/
def Contains (stream payload : List Byte) : Prop := Framed packetStart packetEnd 2 payload stream

/-- The buffer of the probe holds the front of a payload. -/
structure Holds (probe : GdbProbe) (payload : List Byte) : Prop where
  length : probe.payloadLen = min payload.length (probePayloadCap - 1)
  bytes : ∀ i < probe.payloadLen, payload[i]? = some (probe.payload i)

theorem or_none (saw : GdbSeen) : saw.or .none = saw := by
  rw [GdbSeen.or, GdbSeen.none, Bool.or_false, Bool.or_false]

theorem none_or (saw : GdbSeen) : GdbSeen.none.or saw = saw := rfl

theorem saw_assoc (first second third : GdbSeen) : (first.or second).or third = first.or (second.or third) := by
  rw [GdbSeen.or, GdbSeen.or, GdbSeen.or, GdbSeen.or, Bool.or_assoc, Bool.or_assoc]

/-- Where the probe stands. -/
def Stands (probe : GdbProbe) : State Byte → Prop
  | .idle => probe.inPacket = false
  | .body payload => probe.inPacket = true ∧ probe.checksumBytes = 0 ∧ probe.Holds payload
  | .trailer payload seen => probe.inPacket = true ∧ probe.checksumBytes = seen + 1 ∧ seen < 2 ∧ probe.Holds payload

theorem text_cons (a : Byte) (rest : List Byte) : text (a :: rest) = if a = 0 then [] else a :: text rest := by
  rw [text, List.takeWhile_cons]
  by_cases zero : a = 0
  · rw [if_pos zero, decide_eq_false (not_not.mpr zero)]
    rfl
  · rw [if_neg zero, decide_eq_true zero]
    rfl

theorem isDetach_iff (a b : Byte) (rest : List Byte) :
    IsDetach (text (a :: b :: rest)) ↔ a = 68#8 ∧ (b = 0 ∨ b = 59#8) := by
  rw [text_cons, text_cons, IsDetach]
  by_cases zero : a = 0
  · rw [if_pos zero, zero]
    exact iff_of_false (by decide) fun both => absurd both.1 (by decide)
  · rw [if_neg zero]
    by_cases ends : b = 0
    · rw [if_pos ends, ends, List.cons.injEq, eq_self, and_true, List.cons_prefix_cons]
      exact ⟨fun either => ⟨either.elim id fun long => absurd long.2 (by decide), .inl rfl⟩, fun both => .inl both.1⟩
    · rw [if_neg ends, List.cons_prefix_cons, List.cons_prefix_cons]
      constructor
      · rintro (short | ⟨first, second, -⟩)
        · exact absurd (List.cons.inj short).2 (List.cons_ne_nil _ _)
        · exact ⟨first.symm, .inr second.symm⟩
      · rintro ⟨first, second | second⟩
        · exact absurd second ends
        · exact .inr ⟨first.symm, second.symm, List.nil_prefix⟩

theorem isOk_iff (a b : Byte) (rest : List Byte) :
    IsOk (text (a :: b :: rest)) ↔ a = 79#8 ∧ b = 75#8 ∧ rest.head?.getD 0 = 0 := by
  rw [text_cons, text_cons, IsOk]
  by_cases zero : a = 0
  · rw [if_pos zero, zero]
    exact iff_of_false (by decide) fun both => absurd both.1 (by decide)
  · rw [if_neg zero]
    by_cases ends : b = 0
    · rw [if_pos ends, ends]
      exact iff_of_false (fun same => nomatch (List.cons.inj same).2) fun both => absurd both.2.1 (by decide)
    · rw [if_neg ends, List.cons.injEq, List.cons.injEq]
      refine and_congr_right fun _ => and_congr_right fun _ => ?_
      cases rest with
      | nil => exact iff_of_true rfl rfl
      | cons c rest =>
        rw [text_cons, List.head?_cons, Option.getD_some]
        by_cases last : c = 0
        · rw [if_pos last]
          exact iff_of_true rfl last
        · rw [if_neg last]
          exact iff_of_false (List.cons_ne_nil _ _) last

/-- What is looked at of the buffer is what the payload is. -/
theorem sees_eq {probe : GdbProbe} {payload : List Byte} (holds : probe.Holds payload) :
    sees (Function.update probe.payload probe.payloadLen 0) = meaning payload := by
  obtain ⟨length, bytes⟩ := holds
  have cap : probePayloadCap - 1 = 31 := rfl
  have at_ : ∀ i ≤ 2, i ≤ payload.length → Function.update probe.payload probe.payloadLen 0 i = payload[i]?.getD 0 := by
    intro i small inside
    by_cases ends : i = probe.payloadLen
    · rw [← ends, Function.update_self, List.getElem?_eq_none (by omega), Option.getD_none]
    · rw [Function.update_of_ne ends, bytes i (by omega), Option.getD_some]
  have first := at_ 0 (by decide) (Nat.zero_le _)
  match payload, at_, first with
  | [], _, first =>
    rw [sees, first]
    rfl
  | [a], at_, first =>
    have second := at_ 1 (by decide) le_rfl
    have same : text [a] = text [a, 0] := by
      rw [text_cons, text_cons, text_cons, if_pos rfl]
      rfl
    have absent : [a][1]?.getD 0 = 0 := rfl
    rw [sees, first, second, absent, meaning, same]
    simp only [isDetach_iff, isOk_iff, List.getElem?_cons_zero, Option.getD_some]
    simp
  | a :: b :: rest, at_, first =>
    have second := at_ 1 (by decide) (by exact Nat.succ_le_succ (Nat.zero_le _))
    have third := at_ 2 (by decide) (by exact Nat.succ_le_succ (Nat.succ_le_succ (Nat.zero_le _)))
    rw [sees, first, second, third, meaning]
    simp only [isDetach_iff, isOk_iff]
    cases rest <;> rfl

theorem holds_nil {probe : GdbProbe} (empty : probe.payloadLen = 0) : probe.Holds [] :=
  ⟨empty, fun i below => absurd (by rw [empty] at below; exact below) (Nat.not_lt_zero i)⟩

/-- One byte takes the probe where it takes a reader of packets, and shows what the packet is that ends with it. -/
theorem byte_stands {probe : GdbProbe} {state : State Byte} (stands : probe.Stands state) (ch : Byte) :
    (probe.byte ch).1.Stands (step packetStart packetEnd 2 state ch).1 ∧
      (probe.byte ch).2 = ((step packetStart packetEnd 2 state ch).2.map meaning).getD .none := by
  rw [byte, step.eq_def]
  by_cases starts : ch = packetStart
  · rw [if_pos starts, if_pos starts, if_pos starts]
    by_cases outside : probe.inPacket = false
    · rw [if_pos outside]
      exact ⟨⟨rfl, rfl, holds_nil rfl⟩, rfl⟩
    · rw [if_neg outside]
      exact ⟨⟨Bool.eq_true_of_not_eq_false outside, rfl, holds_nil rfl⟩, rfl⟩
  · rw [if_neg starts, if_neg starts, if_neg starts]
    cases state with
    | idle =>
      have outside : probe.inPacket = false := stands
      rw [if_pos outside]
      exact ⟨stands, rfl⟩
    | body payload =>
      obtain ⟨inside, checksum, length, bytes⟩ := stands
      rw [if_neg (by rw [inside]; decide), if_neg (not_not.mpr checksum)]
      dsimp only
      by_cases ends : ch = packetEnd
      · rw [if_pos ends, if_pos ends]
        exact ⟨⟨inside, rfl, by decide, length, bytes⟩, rfl⟩
      · rw [if_neg ends, if_neg ends]
        have cap : probePayloadCap = 32 := rfl
        by_cases room : probe.payloadLen + 1 < probePayloadCap
        · rw [if_pos room]
          refine ⟨⟨inside, checksum, ?_, fun i below => ?_⟩, rfl⟩
          · rw [List.length_append, List.length_singleton]
            dsimp only
            omega
          · dsimp only at below ⊢
            have at_end : probe.payloadLen = payload.length := by omega
            obtain earlier | here := (Nat.lt_succ_iff.mp below).lt_or_eq
            · rw [Function.update_of_ne (by omega), List.getElem?_append_left (by omega), bytes i earlier]
            · rw [here, Function.update_self, at_end, List.getElem?_concat_length]
        · rw [if_neg room]
          refine ⟨⟨inside, checksum, ?_, fun i below => ?_⟩, rfl⟩
          · rw [List.length_append, List.length_singleton]
            dsimp only
            omega
          · dsimp only at below ⊢
            rw [List.getElem?_append_left (by omega), bytes i below]
    | trailer payload seen =>
      obtain ⟨inside, checksum, below, holds⟩ := stands
      rw [if_neg (by rw [inside]; decide), if_pos (by omega)]
      dsimp only
      by_cases last : seen + 1 = 2
      · rw [if_pos (by omega), if_pos last]
        exact ⟨rfl, sees_eq holds⟩
      · rw [if_neg (by omega), if_neg last]
        exact ⟨⟨inside, by rw [checksum], by omega, holds.length, holds.bytes⟩, rfl⟩

/-- A flag is up behind a stream if it was, or if a packet that the stream ends puts it up. -/
theorem stream_seen {probe : GdbProbe} {state : State Byte} (stands : probe.Stands state) (saw : GdbSeen) (data : List Byte) :
    (probe.stream saw data).2 =
      saw.or ⟨(Framing.read packetStart packetEnd 2 state data).any fun payload => (meaning payload).detach,
        (Framing.read packetStart packetEnd 2 state data).any fun payload => (meaning payload).ok⟩ := by
  induction data generalizing probe state saw with
  | nil => exact (or_none saw).symm
  | cons ch rest ih =>
    obtain ⟨next, seen⟩ := byte_stands stands ch
    rw [stream, ih next, saw_assoc, seen, Framing.read, List.any_append, List.any_append]
    congr 1
    cases (step packetStart packetEnd 2 state ch).2 with
    | none => rfl
    | some payload =>
      rw [Option.map_some, Option.getD_some, Option.toList_some, List.any_cons, List.any_cons, List.any_nil, List.any_nil, Bool.or_false,
        Bool.or_false]
      rfl

/-- The flags of a stream that begins between packets are those of the packets it contains. -/
theorem stream_detects {probe : GdbProbe} (between : probe.inPacket = false) (data : List Byte) :
    ((probe.stream .none data).2.detach = true ↔ ∃ payload, Contains data payload ∧ IsDetach (text payload)) ∧
      ((probe.stream .none data).2.ok = true ↔ ∃ payload, Contains data payload ∧ IsOk (text payload)) := by
  have isOpen : State.Open 2 (State.idle : State Byte) := trivial
  have packets : ∀ payload, payload ∈ Framing.read packetStart packetEnd 2 .idle data ↔ Contains data payload := fun payload =>
    (mem_read_iff (by decide) (by decide) isOpen).trans (or_iff_right id)
  have standing : probe.Stands .idle := between
  rw [stream_seen standing, none_or, List.any_eq_true, List.any_eq_true]
  simp only [packets, meaning, decide_eq_true_eq, and_self]

/-- A stream in two parts is probed as one. -/
theorem stream_append (probe : GdbProbe) (saw : GdbSeen) (first second : List Byte) :
    probe.stream saw (first ++ second) = (probe.stream saw first).1.stream (probe.stream saw first).2 second := by
  induction first generalizing probe saw with
  | nil => rfl
  | cons ch rest ih => exact ih _ _

/-- Flags that are up already stay up, and change nothing else. -/
theorem stream_or (probe : GdbProbe) (saw : GdbSeen) (data : List Byte) :
    probe.stream saw data = ((probe.stream .none data).1, saw.or (probe.stream .none data).2) := by
  induction data generalizing probe saw with
  | nil => rw [stream, stream, or_none]
  | cons ch rest ih =>
    rw [stream, stream, ih (probe.byte ch).1 (saw.or (probe.byte ch).2), ih (probe.byte ch).1 (GdbSeen.none.or (probe.byte ch).2), none_or,
      saw_assoc]

/-- A stream in any number of parts is probed as one. -/
theorem stream_chunks (probe : GdbProbe) (saw : GdbSeen) (chunks : List (List Byte)) :
    chunks.foldl (fun probed chunk => probed.1.stream probed.2 chunk) (probe, saw) = probe.stream saw chunks.flatten := by
  induction chunks generalizing probe saw with
  | nil => rfl
  | cons chunk rest ih =>
    rw [List.foldl_cons, List.flatten_cons, stream_append]
    exact ih _ _

end GdbProbe

namespace GdbState

open GdbProbe

theorem noteClientBytes_append (state : GdbState) (first second : List Byte) :
    state.noteClientBytes (first ++ second) = (state.noteClientBytes first).noteClientBytes second := by
  rw [noteClientBytes, noteClientBytes, noteClientBytes, stream_append, stream_or _ (state.clientProbe.stream .none first).2 second]
  dsimp only
  rw [GdbSeen.or]
  cases (state.clientProbe.stream .none first).2.detach with
  | false => rfl
  | true => cases ((state.clientProbe.stream .none first).1.stream .none second).2.detach <;> rfl

theorem noteTargetBytes_pending {state : GdbState} (pending : state.detachPending = true) (data : List Byte) :
    state.noteTargetBytes data = ({ state with targetProbe := (state.targetProbe.stream .none data).1 },
      (state.targetProbe.stream .none data).2.ok) := by
  rw [noteTargetBytes, if_neg (not_not.mpr pending)]

theorem noteTargetBytes_quiet {state : GdbState} (quiet : state.detachPending = false) (data : List Byte) :
    state.noteTargetBytes data = (state, false) := by
  rw [noteTargetBytes, if_pos (by rw [quiet]; decide)]

theorem noteTargetBytes_append (state : GdbState) (first second : List Byte) : state.noteTargetBytes (first ++ second) =
    (((state.noteTargetBytes first).1.noteTargetBytes second).1,
      (state.noteTargetBytes first).2 || ((state.noteTargetBytes first).1.noteTargetBytes second).2) := by
  cases pending : state.detachPending with
  | true =>
    rw [noteTargetBytes_pending pending, noteTargetBytes_pending pending, stream_append,
      stream_or _ (state.targetProbe.stream .none first).2 second]
    have after := @noteTargetBytes_pending { state with targetProbe := (state.targetProbe.stream .none first).1 } pending second
    rw [after]
    rfl
  | false =>
    rw [noteTargetBytes_quiet pending, noteTargetBytes_quiet pending, noteTargetBytes_quiet pending]
    rfl

theorem noteClientBytes_chunks (state : GdbState) (chunks : List (List Byte)) :
    chunks.foldl noteClientBytes state = state.noteClientBytes chunks.flatten := by
  induction chunks generalizing state with
  | nil => rfl
  | cons chunk rest ih => rw [List.foldl_cons, List.flatten_cons, noteClientBytes_append, ih]

/-- The bytes of the target in parts: the state behind them, and whether one has shown the answer to a detach. -/
def noteTargetChunks : GdbState → List (List Byte) → GdbState × Bool
  | state, [] => (state, false)
  | state, chunk :: rest =>
    let noted := state.noteTargetBytes chunk
    let others := noteTargetChunks noted.1 rest
    (others.1, noted.2 || others.2)

theorem noteTargetBytes_chunks (state : GdbState) (chunks : List (List Byte)) :
    state.noteTargetChunks chunks = state.noteTargetBytes chunks.flatten := by
  induction chunks generalizing state with
  | nil =>
    rw [noteTargetChunks, List.flatten_nil]
    cases pending : state.detachPending with
    | true => rw [noteTargetBytes_pending pending]; rfl
    | false => rw [noteTargetBytes_quiet pending]
  | cons chunk rest ih => rw [noteTargetChunks, List.flatten_cons, noteTargetBytes_append, ih]

end GdbState

open GdbProbe

/-- However a stream is cut, the probe and the callers come to the same; and a stream from the start shows a detach, or the answer to
one, exactly if it contains a packet whose payload is one as a string. -/
theorem gdb_probe_detects (chunks : List (List Byte)) :
    (∀ probe saw, chunks.foldl (fun probed chunk => GdbProbe.stream probed.1 probed.2 chunk) (probe, saw) =
      GdbProbe.stream probe saw chunks.flatten) ∧
    (∀ state, chunks.foldl GdbState.noteClientBytes state = GdbState.noteClientBytes state chunks.flatten) ∧
    (∀ state, GdbState.noteTargetChunks state chunks = GdbState.noteTargetBytes state chunks.flatten) ∧
    ((GdbProbe.cleared.stream .none chunks.flatten).2.detach = true ↔
      ∃ payload, Contains chunks.flatten payload ∧ IsDetach (text payload)) ∧
    ((GdbProbe.cleared.stream .none chunks.flatten).2.ok = true ↔
      ∃ payload, Contains chunks.flatten payload ∧ IsOk (text payload)) :=
  ⟨fun probe saw => stream_chunks probe saw chunks, fun state => GdbState.noteClientBytes_chunks state chunks,
    fun state => GdbState.noteTargetBytes_chunks state chunks, stream_detects rfl chunks.flatten⟩

/-- A packet that kills the program is not a matter for the probe. -/
theorem kill_not_detected : ¬((GdbProbe.cleared.stream .none [36, 107, 35, 54, 98]).2.detach = true ↔
    ∃ payload, Contains [36, 107, 35, 54, 98] payload ∧ (IsDetach payload ∨ payload = [107])) := by
  intro detects
  have kill : Contains [36, 107, 35, 54, 98] [107] := ⟨[], [54, 98], [], rfl, rfl, by decide, by decide, by decide⟩
  exact absurd (detects.mpr ⟨[107], kill, .inr rfl⟩) (by decide)

end KosTool.Host
