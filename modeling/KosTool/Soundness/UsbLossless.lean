import KosTool.Model.Psp.UsbPipe

/-! # The byte pipe loses nothing

What the host has sent is what was handed out, what is in the receive ring and what lies in the OUT buffer, as long
as every packet that is copied came without an error and finds room in the ring. What the loader has queued is what
was transferred, what is being transferred and what is in the transmit ring.
-/

namespace KosTool.Psp

open ByteWord Machine CounterRing

variable {ring : CounterRing Byte} {pipe next : UsbPipe}

theorem ringSz_dvd : ringSz ∣ 2 ^ 32 := ⟨2 ^ 20, rfl⟩

/-- A packet that has room is in the ring. -/
theorem rxCopy_contents {bytes : List Byte} (room : ring.used + bytes.length ≤ ringSz) :
    (rxCopy ring bytes).contents ringSz = ring.contents ringSz ++ bytes := by
  induction bytes generalizing ring with
  | nil => exact (List.append_nil _).symm
  | cons byte rest ih =>
    rw [List.length_cons] at room
    have size : ringSz = 4096 := rfl
    have pushed : (ring.push ringSz byte).used = ring.used + 1 := used_push (by omega) byte
    rw [rxCopy, if_neg (by omega), ih (by omega), contents_push ringSz_dvd (by decide) (by omega), List.append_assoc,
      List.singleton_append]

/-- What is copied out of the ring, and what is left, is what was in it. -/
theorem txCopy_contents (room : ℕ) :
    (txCopy ring room).1 ++ (txCopy ring room).2.contents ringSz = ring.contents ringSz ∧
      (txCopy ring room).1.length ≤ room ∧ (txCopy ring room).2.used ≤ ring.used := by
  induction room generalizing ring with
  | zero => exact ⟨rfl, Nat.le_refl _, Nat.le_refl _⟩
  | succ room ih =>
    rw [txCopy]
    split_ifs with empty
    · exact ⟨rfl, Nat.zero_le _, Nat.le_refl _⟩
    · have some : 0 < ring.used := Nat.pos_of_ne_zero fun zero => empty (used_eq_zero_iff.mp zero).symm
      obtain ⟨same, short, fewer⟩ := @ih ring.pop
      have popped := used_pop some
      refine ⟨?_, Nat.succ_le_succ short, Nat.le_trans fewer (Nat.le_of_succ_le (Nat.le_of_eq popped))⟩
      rw [List.cons_append, same, contents_pop ringSz_dvd some]

namespace UsbPipe

/-- The packet in the OUT buffer. -/
def arriving (pipe : UsbPipe) : List Byte :=
  if pipe.bulkOutArmed = true ∧ pipe.bulkOutDesc.finished = true then
    slice pipe.bulkOutBuf 0 pipe.bulkOutDesc.length.toNat
  else []

/-- The packet in the IN buffer. -/
def inFlight (pipe : UsbPipe) : List Byte :=
  if pipe.bulkInBusy = true ∧ pipe.bulkInDesc.owner = 0 then slice pipe.bulkInBuf 0 pipe.bulkInDesc.length.toNat
  else []

/-- Nothing is lost so far. -/
structure Lossless (pipe : UsbPipe) : Prop where
  received : pipe.handedOut ++ pipe.rx.contents ringSz ++ pipe.arriving = pipe.hostSent
  short : pipe.bulkOutDesc.length.toNat ≤ kosloadUsbMaxpkt
  sent : pipe.transferred ++ pipe.inFlight ++ pipe.tx.contents ringSz = pipe.queued
  room : pipe.tx.used ≤ ringSz

/-- The pass polls the endpoints. -/
def Polls (pipe : UsbPipe) : UsbEvent → Prop
  | .poll => True
  | .rxByte => pipe.rx.head = pipe.rx.tail
  | .txByte _ => ringSz ≤ pipe.tx.used
  | _ => False

instance (pipe : UsbPipe) (event : UsbEvent) : Decidable (pipe.Polls event) := by
  unfold Polls
  split
  · exact inferInstance
  · exact inferInstance
  · exact inferInstance
  · exact inferInstance

/-- A packet that is polled came without an error and has room in the ring. -/
def HasRoom (pipe : UsbPipe) (event : UsbEvent) : Prop :=
  pipe.Polls event → pipe.Arrived →
    pipe.bulkOutDesc.result = 0 ∧ pipe.rx.used + pipe.bulkOutDesc.length.toNat ≤ ringSz

instance (pipe : UsbPipe) (event : UsbEvent) : Decidable (pipe.HasRoom event) :=
  inferInstanceAs (Decidable (_ → _ → _))

theorem finished_iff {desc : UsbDesc} : desc.finished = true ↔ desc.owner = 2 := decide_eq_true_iff

/-- A packet in the OUT buffer is copied. -/
theorem Lossless.usbHwRx (kept : pipe.Lossless)
    (room : pipe.Arrived → pipe.bulkOutDesc.result = 0 ∧ pipe.rx.used + pipe.bulkOutDesc.length.toNat ≤ ringSz) :
    pipe.usbHwRx.Lossless := by
  rw [UsbPipe.usbHwRx]
  split_ifs with off unarmed arrived failed
  · exact kept
  · have nothing : pipe.arriving = [] := if_neg fun armed => by
      rw [unarmed] at armed
      exact Bool.false_ne_true armed.1
    refine ⟨?_, Nat.zero_le _, kept.sent, kept.room⟩
    have received := kept.received
    rw [nothing] at received
    exact received
  · have present : pipe.Arrived := ⟨Bool.eq_true_of_not_eq_false off, Bool.eq_true_of_not_eq_false unarmed, arrived⟩
    have succeeded : pipe.bulkOutDesc.succeeded = true :=
      decide_eq_true ⟨finished_iff.mp arrived.2, (room present).1⟩
    rw [succeeded] at failed
    cases failed
  · have present : pipe.Arrived := ⟨Bool.eq_true_of_not_eq_false off, Bool.eq_true_of_not_eq_false unarmed, arrived⟩
    have arriving : pipe.arriving = pipe.packet := by
      rw [UsbPipe.arriving, if_pos ⟨present.2.1, present.2.2.2⟩, packet, Nat.min_eq_left kept.short]
    have fits : pipe.rx.used + pipe.packet.length ≤ ringSz := by
      rw [packet, Nat.min_eq_left kept.short, length_slice]
      exact (room present).2
    refine ⟨?_, kept.short, kept.sent, kept.room⟩
    have received := kept.received
    rw [arriving, List.append_assoc, ← rxCopy_contents fits] at received
    exact (List.append_nil _).trans received
  · exact kept

/-- A transfer that is complete is reclaimed. -/
theorem Lossless.reclaimIn (kept : pipe.Lossless) : pipe.reclaimIn.Lossless := by
  rw [UsbPipe.reclaimIn]
  split_ifs with complete
  · have nothing : pipe.inFlight = [] := if_neg fun flying => by
      have owner := finished_iff.mp complete.2.2
      rw [flying.2] at owner
      exact absurd owner (by decide)
    refine ⟨kept.received, kept.short, ?_, kept.room⟩
    have sent := kept.sent
    rw [nothing] at sent
    exact sent
  · exact kept

/-- A packet is submitted. -/
theorem Lossless.submitIn (kept : pipe.Lossless) : pipe.submitIn.Lossless := by
  rw [UsbPipe.submitIn]
  split_ifs with waits
  · exact kept
  · obtain ⟨same, short, fewer⟩ := @txCopy_contents pipe.tx kosloadUsbMaxpkt
    have size : kosloadUsbMaxpkt = 512 := rfl
    have nothing : pipe.inFlight = [] := if_neg fun flying => waits (.inl flying.1)
    have length : (BitVec.ofNat 16 (txCopy pipe.tx kosloadUsbMaxpkt).1.length).toNat =
        (txCopy pipe.tx kosloadUsbMaxpkt).1.length := by
      rw [BitVec.toNat_ofNat, Nat.mod_eq_of_lt (by omega)]
    have payload := slice_overlay [] (txCopy pipe.tx kosloadUsbMaxpkt).1 [] pipe.bulkInBuf
    rw [List.nil_append, List.append_nil, List.length_nil] at payload
    refine ⟨kept.received, kept.short, ?_, Nat.le_trans fewer kept.room⟩
    have sent := kept.sent
    rw [nothing, List.append_nil, ← same, ← List.append_assoc] at sent
    simp only [inFlight, UsbDesc.prepare, and_self, if_true]
    rw [length, payload]
    exact sent

theorem Lossless.usbHwTx (kept : pipe.Lossless) : pipe.usbHwTx.Lossless := by
  rw [UsbPipe.usbHwTx]
  split_ifs with off
  · exact kept
  · exact kept.reclaimIn.submitIn

/-- A poll. -/
theorem Lossless.usbDevPoll (kept : pipe.Lossless)
    (room : pipe.Arrived → pipe.bulkOutDesc.result = 0 ∧ pipe.rx.used + pipe.bulkOutDesc.length.toNat ≤ ringSz) :
    pipe.usbDevPoll.Lossless := (kept.usbHwRx room).usbHwTx

/-- A byte is handed out. -/
theorem Lossless.usbDevRxByte (kept : pipe.Lossless) (room : pipe.HasRoom .rxByte) : pipe.usbDevRxByte.Lossless := by
  rw [UsbPipe.usbDevRxByte]
  split_ifs with empty
  · exact kept.usbDevPoll (room empty)
  · have some : 0 < pipe.rx.used := Nat.pos_of_ne_zero fun zero => empty (used_eq_zero_iff.mp zero)
    refine ⟨?_, kept.short, kept.sent, kept.room⟩
    have received := kept.received
    rw [contents_pop ringSz_dvd some, List.append_cons] at received
    exact received

/-- A byte is queued. -/
theorem Lossless.usbDevTxByte (kept : pipe.Lossless) {byte : Byte} (room : pipe.HasRoom (.txByte byte)) :
    (pipe.usbDevTxByte byte).Lossless := by
  rw [UsbPipe.usbDevTxByte]
  split_ifs with full
  · exact kept.usbDevPoll (room full)
  · have space : pipe.tx.used < ringSz := Nat.not_le.mp full
    have size : ringSz = 4096 := rfl
    have put : ({ pipe with tx := pipe.tx.push ringSz byte, queued := pipe.queued ++ [byte] } : UsbPipe).Lossless := by
      refine ⟨kept.received, kept.short, ?_, ?_⟩
      · rw [contents_push ringSz_dvd (by decide) space, ← List.append_assoc]
        exact congrArg (· ++ [byte]) kept.sent
      · rw [used_push (by omega)]
        exact space
    simp only
    split_ifs with packet
    · exact put.usbHwTx
    · exact put

/-- Every step loses nothing. -/
theorem Lossless.step (kept : pipe.Lossless) {event : UsbEvent} (room : pipe.HasRoom event)
    (stepped : pipe.step event = some next) : next.Lossless := by
  cases event with
  | configure =>
    cases stepped
    exact ⟨kept.received, kept.short, kept.sent, kept.room⟩
  | poll =>
    cases stepped
    exact kept.usbDevPoll (room trivial)
  | rxByte =>
    cases stepped
    exact kept.usbDevRxByte room
  | txByte byte =>
    cases stepped
    exact kept.usbDevTxByte room
  | txFlush =>
    cases stepped
    exact kept.usbHwTx
  | hostOut packet result =>
    rw [UsbPipe.step] at stepped
    split_ifs at stepped with ready
    cases stepped
    have size : kosloadUsbMaxpkt = 512 := rfl
    have short := packet.short
    have length : (BitVec.ofNat 16 packet.bytes.length).toNat = packet.bytes.length := by
      rw [BitVec.toNat_ofNat, Nat.mod_eq_of_lt (by omega)]
    have payload := slice_overlay [] packet.bytes [] pipe.bulkOutBuf
    rw [List.nil_append, List.append_nil, List.length_nil] at payload
    have nothing : pipe.arriving = [] := if_neg fun finished => by
      have owner := finished_iff.mp finished.2
      rw [ready.2] at owner
      exact absurd owner (by decide)
    have received := kept.received
    rw [nothing, List.append_nil] at received
    refine ⟨?_, ?_, kept.sent, kept.room⟩
    · simp only [arriving, UsbDesc.complete, UsbDesc.finished, ready.1, decide_true, and_self, if_true]
      rw [length, payload]
      exact congrArg (· ++ packet.bytes) received
    · exact Nat.le_trans (Nat.le_of_eq length) short
  | hostIn =>
    rw [UsbPipe.step] at stepped
    split_ifs at stepped with ready
    cases stepped
    refine ⟨kept.received, kept.short, ?_, kept.room⟩
    have sent := kept.sent
    rw [inFlight, if_pos ready] at sent
    have nothing (transferred : List Byte) : ({ pipe with
        bulkInDesc := .complete 0 pipe.bulkInDesc.length, inTdc := true, transferred := transferred } : UsbPipe).inFlight =
        [] := if_neg fun flying => absurd flying.2 (by simp only [UsbDesc.complete]; decide)
    rw [nothing, List.append_nil]
    exact sent

theorem lossless_initial (rx tx : ℕ → Byte) (bulkOutBuf bulkInBuf : Buffer) :
    (initial rx tx bulkOutBuf bulkInBuf).Lossless where
  received := by
    rw [contents_of_meet rfl]
    rfl
  short := Nat.zero_le _
  sent := by
    rw [contents_of_meet rfl]
    rfl
  room := by
    rw [show (initial rx tx bulkOutBuf bulkInBuf).tx.used = 0 from used_eq_zero_iff.mpr rfl]
    exact Nat.zero_le _

end UsbPipe

/-- In a run in which every packet that is polled came without an error and has room in the receive ring, what was
handed out is the front of what the host has sent; and what was transferred, with what is being transferred and
what waits, is what was queued. -/
theorem usb_pipe_lossless {rx tx : ℕ → Byte} {bulkOutBuf bulkInBuf : Buffer} {events : List UsbEvent}
    {target : UsbPipe}
    (room : usbPipe.Along UsbPipe.HasRoom (UsbPipe.initial rx tx bulkOutBuf bulkInBuf) events)
    (run : usbPipe.run? (UsbPipe.initial rx tx bulkOutBuf bulkInBuf) events = some target) :
    target.handedOut ++ target.rx.contents ringSz ++ target.arriving = target.hostSent ∧
      target.handedOut <+: target.hostSent ∧
      target.transferred ++ target.inFlight ++ target.tx.contents ringSz = target.queued ∧
      target.transferred <+: target.queued := by
  have kept (source : UsbPipe) (event : UsbEvent) (next : UsbPipe) (kept : source.Lossless)
      (room : source.HasRoom event) (step : usbPipe.step source event = some next) : next.Lossless :=
    kept.step room step
  have lossless := LabeledMachine.run?_invariant kept (UsbPipe.lossless_initial rx tx bulkOutBuf bulkInBuf) room run
  refine ⟨lossless.received, ⟨target.rx.contents ringSz ++ target.arriving, ?_⟩, lossless.sent,
    ⟨target.inFlight ++ target.tx.contents ringSz, ?_⟩⟩
  · rw [← List.append_assoc]
    exact lossless.received
  · rw [← List.append_assoc]
    exact lossless.sent

/-- A pipe that nothing went through. -/
def freshPipe : UsbPipe := .initial (fun _ => 0) (fun _ => 0) (fun _ => 0) fun _ => 0

/-- Two bytes each way. -/
def bothWays : List UsbEvent :=
  [.configure, .poll, .hostOut ⟨[1, 2], by decide⟩ 0, .poll, .rxByte, .txByte 3, .txFlush, .txByte 4, .hostIn, .poll]

/-- Nine whole packets, with none of their bytes read. -/
def ninePackets : List UsbEvent :=
  .configure :: .poll ::
    (List.replicate 9 [UsbEvent.hostOut ⟨List.replicate 512 0, List.length_replicate.le⟩ 0, .poll, .poll]).flatten

theorem usb_pipe_lossless_both_ways : ∃ target, usbPipe.run? freshPipe bothWays = some target ∧
    target.handedOut = [1] ∧ target.handedOut <+: target.hostSent ∧
      target.transferred ++ target.inFlight ++ target.tx.contents ringSz = target.queued := by
  have shown : (usbPipe.run? freshPipe bothWays).map UsbPipe.handedOut = some [1] := by decide +kernel
  obtain ⟨target, run, handed⟩ := Option.map_eq_some_iff.mp shown
  have lossless := usb_pipe_lossless (by decide +kernel) run
  exact ⟨target, run, handed, lossless.2.1, lossless.2.2.1⟩

/-- The ninth packet finds the ring full and is dropped. -/
theorem full_ring_drops : ¬ ∀ (rx tx : ℕ → Byte) (bulkOutBuf bulkInBuf : Buffer) (events : List UsbEvent)
    (target : UsbPipe), usbPipe.run? (UsbPipe.initial rx tx bulkOutBuf bulkInBuf) events = some target →
      target.handedOut ++ target.rx.contents ringSz ++ target.arriving = target.hostSent ∧
        target.handedOut <+: target.hostSent ∧
        target.transferred ++ target.inFlight ++ target.tx.contents ringSz = target.queued ∧
        target.transferred <+: target.queued := by
  intro lossless
  have shown : (usbPipe.run? freshPipe ninePackets).map (fun target =>
      (target.handedOut.length + target.rx.used + target.arriving.length, target.hostSent.length)) =
      some (4096, 4608) := by decide +kernel
  obtain ⟨target, run, lengths⟩ := Option.map_eq_some_iff.mp shown
  obtain ⟨held, sent⟩ := Prod.mk.inj lengths
  have all := congrArg List.length (lossless _ _ _ _ _ target run).1
  rw [List.length_append, List.length_append, length_contents, held, sent] at all
  exact absurd all (by decide)

end KosTool.Psp
