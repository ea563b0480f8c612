import KosTool.Model.Gamecube.Enc28j60

/-! # The receive ring of the ENC28J60 over its runs

The frames that are not consumed stand in the buffer one behind the other from `next_pkt_ptr` on, and the controller goes
on writing behind the last of them. This is kept as long as nothing reaches the ring while a frame is being handled: a
nested call of `enc28j60_rx` finds the frame that is handled still at `next_pkt_ptr`, and a frame that is handled across
an initialisation is consumed from a ring that no longer holds it.
-/

namespace KosTool.Gamecube

open ByteWord ByteOrder RingStore Machine

/-- What of some frames is for `process_pkt`. -/
def offered (frames : List RxFrame) : List (List Byte) := (frames.filter RxFrame.accepted).map RxFrame.payload

/-- The ring is right: each accepted frame is handed over at most once and in its order, `next_pkt_ptr` is where the
oldest frame starts, or the next one will, and the counter has gone down once for each frame that is gone. -/
structure RingRight (enc : Enc28j60) : Prop where
  once : enc.handed.Sublist (offered enc.arrived)
  oldest : enc.nextPktPtr.toNat = (enc.waiting.head?.map StoredFrame.start).getD enc.erxwrpt
  counted : enc.epktcnt = enc.waiting.length
  balanced : enc.decrements + enc.flushed + enc.waiting.length = enc.arrived.length

/-- Whether the innermost handler has restarted the adapter. -/
def Enc28j60.behindRestart (enc : Enc28j60) : Bool :=
  match enc.calls with
  | .handling _ _ .restarted :: _ => true
  | _ => false

/-- No handler reaches the ring while its frame is in it: no syscall of a handler polls the adapter, and none returns
behind a restart of the adapter. -/
def Undisturbed (enc : Enc28j60) : Enc28j60.Event → Prop
  | .poll => enc.calls = []
  | .returns => enc.behindRestart = false
  | _ => True

instance (enc : Enc28j60) : ∀ event, Decidable (Undisturbed enc event)
  | .poll => inferInstanceAs (Decidable (enc.calls = []))
  | .returns => inferInstanceAs (Decidable (enc.behindRestart = false))
  | .receive _ | .rx | .start | .stop | .init | .refuse | .execute | .programReturns =>
    inferInstanceAs (Decidable True)

section Buffer

variable {memory : Buffer} {start : ℕ} {frame : RxFrame} {waiting : List StoredFrame}

theorem RxFrame.length_image : (frame.image start).length = 6 + frame.bytes.length := by
  simp only [RxFrame.image, bytes16, List.length_append, List.length_cons, List.length_nil]

theorem RxFrame.image_mod : frame.image (start % encRxSize) = frame.image start := by
  rw [RxFrame.image, RxFrame.image, Nat.mod_add_mod]

theorem RxFrame.length_le_size (frame : RxFrame) : 6 + frame.bytes.length ≤ frame.size := by
  rw [RxFrame.size]
  omega

theorem RxFrame.size_even (frame : RxFrame) : frame.size % 2 = 0 := by
  rw [RxFrame.size]
  omega

/-- A frame as it is put into the buffer. -/
def StoredFrame.item (entry : StoredFrame) : Item where
  bytes := entry.frame.image entry.start
  size := entry.frame.size
  fits := by rw [RxFrame.length_image]; exact entry.frame.length_le_size

/-- How much of the buffer some frames take. -/
def occupied (waiting : List StoredFrame) : ℕ := taken (waiting.map StoredFrame.item)

/-- Each frame starts where the one before it ends. -/
def Chained : ℕ → List StoredFrame → Prop
  | _, [] => True
  | start, entry :: rest => entry.start = start % encRxSize ∧ Chained (start + entry.frame.size) rest

@[simp] theorem occupied_nil : occupied [] = 0 := rfl

@[simp] theorem occupied_cons (entry : StoredFrame) (rest : List StoredFrame) :
    occupied (entry :: rest) = entry.frame.size + occupied rest := by
  rw [occupied, List.map_cons, taken_cons]
  rfl

@[simp] theorem occupied_append (first second : List StoredFrame) :
    occupied (first ++ second) = occupied first + occupied second := by
  rw [occupied, List.map_append, taken_append]
  rfl

theorem Chained.of_mod_eq {other : ℕ} (chained : Chained start waiting) (same : start % encRxSize = other % encRxSize) :
    Chained other waiting := by
  induction waiting generalizing start other with
  | nil => trivial
  | cons entry rest ih =>
    refine ⟨chained.1.trans same, ih chained.2 ?_⟩
    rw [Nat.add_mod, same, ← Nat.add_mod]

theorem Chained.concat (chained : Chained start waiting) {entry : StoredFrame}
    (place : entry.start = (start + occupied waiting) % encRxSize) : Chained start (waiting ++ [entry]) := by
  induction waiting generalizing start with
  | nil => exact ⟨place, trivial⟩
  | cons first rest ih =>
    rw [occupied_cons, ← Nat.add_assoc] at place
    exact ⟨chained.1, ih chained.2 place⟩

/-- The status vector and the frame are read back. -/
theorem reads_image (holds : slice (around encRxSize memory start) 0 (frame.image start).length = frame.image start) :
    little.load16 (around encRxSize memory start) 0 = BitVec.ofNat 16 ((start + frame.size) % encRxSize) ∧
      little.load16 (around encRxSize memory start) 2 = BitVec.ofNat 16 frame.bytes.length ∧
      little.load16 (around encRxSize memory start) 4 = frame.status ∧
      slice (around encRxSize memory start) 6 frame.bytes.length = frame.bytes := by
  rw [RxFrame.length_image, RxFrame.image, slice_add _ 0 6, slice_add _ 0 4 2, slice_add _ 0 2 2] at holds
  obtain ⟨vector, bytes⟩ := List.append_inj holds (by simp [bytes16])
  obtain ⟨lengths, status⟩ := List.append_inj vector (by simp [bytes16])
  obtain ⟨next, length⟩ := List.append_inj lengths (by simp [bytes16])
  exact ⟨load16_bytes16 _ _ next, load16_bytes16 _ _ length, load16_bytes16 _ _ status, bytes⟩

end Buffer

theorem offered_append (first second : List RxFrame) : offered (first ++ second) = offered first ++ offered second := by
  simp [offered]

/-- How far the calls are with the frames behind those that are gone. -/
inductive Handles (enc : Enc28j60) (gone : List RxFrame) : List EncRxCall → Prop
  | outside (order : enc.handed.Sublist (offered gone)) : Handles enc gone []
  | looping (order : enc.handed.Sublist (offered gone)) : Handles enc gone [.loop]
  | inside (entry : StoredFrame) (rest : List StoredFrame) (handler : Handler) (oldest : enc.waiting = entry :: rest)
      (order : enc.handed.Sublist (offered (gone ++ [entry.frame]))) :
      Handles enc gone [.handling (some entry.index)
        (BitVec.ofNat 16 ((enc.nextPktPtr.toNat + entry.frame.size) % encRxSize)) handler]
  | restarted (index : Option ℕ) (pktNext : BitVec 16) (order : enc.handed.Sublist (offered gone)) :
      Handles enc gone [.handling index pktNext .restarted]

/-- The ring as the loop of `enc28j60_rx` keeps it. -/
structure Kept (enc : Enc28j60) : Prop where
  laid : Laid encRxSize enc.memory enc.nextPktPtr.toNat (enc.waiting.map StoredFrame.item)
  chained : Chained enc.nextPktPtr.toNat enc.waiting
  write : enc.erxwrpt = (enc.nextPktPtr.toNat + occupied enc.waiting) % encRxSize
  room : occupied enc.waiting ≤ encRxSize - 2
  valid : enc.nextPktPtr.toNat < encRxSize ∧ enc.nextPktPtr.toNat % 2 = 0
  read : enc.erxrdpt.toNat = (enc.nextPktPtr.toNat + (encRxSize - 1)) % encRxSize
  counted : enc.epktcnt = enc.waiting.length
  few : enc.epktcnt ≤ epktcntMax
  numbered : enc.waiting.map StoredFrame.index =
    List.range' (enc.arrived.length - enc.waiting.length) enc.waiting.length
  balanced : enc.decrements + enc.flushed + enc.waiting.length = enc.arrived.length
  handles : ∃ gone, enc.arrived = gone ++ enc.waiting.map StoredFrame.frame ∧ Handles enc gone enc.calls

section Ring

variable {enc : Enc28j60}

/-- The ring right after its pointers are programmed. -/
theorem kept_of_empty (write : enc.erxwrpt = 0) (read : enc.erxrdpt = encRxEnd) (next : enc.nextPktPtr = encRxStart)
    (empty : enc.waiting = []) (counted : enc.epktcnt = 0)
    (balanced : enc.decrements + enc.flushed = enc.arrived.length) (handles : Handles enc enc.arrived enc.calls) :
    Kept enc where
  laid := by rw [empty]; trivial
  chained := by rw [empty]; trivial
  write := by rw [write, next, empty]; rfl
  room := by rw [empty]; exact Nat.zero_le _
  valid := by rw [next]; decide
  read := by rw [read, next]; decide
  counted := by rw [counted, empty]; rfl
  few := by rw [counted]; exact Nat.zero_le _
  numbered := by rw [empty]; rfl
  balanced := by rw [empty]; exact balanced
  handles := ⟨enc.arrived, by rw [empty, List.map_nil, List.append_nil], handles⟩

theorem kept_initial (memory : Buffer) : Kept (.initial memory) :=
  kept_of_empty rfl rfl rfl rfl rfl rfl (.outside (List.Sublist.refl _))

/-- The order of what is handed over, wherever the calls are. -/
theorem Handles.order {gone : List RxFrame} {calls : List EncRxCall} (handles : Handles enc gone calls)
    (arrived : enc.arrived = gone ++ enc.waiting.map StoredFrame.frame) : enc.handed.Sublist (offered enc.arrived) := by
  rw [arrived]
  cases handles with
  | outside order | looping order | restarted _ _ order =>
    rw [offered_append]
    exact order.trans (List.sublist_append_left _ _)
  | inside entry rest handler oldest order =>
    rw [oldest, List.map_cons, List.append_cons, offered_append]
    exact order.trans (List.sublist_append_left _ _)

theorem Kept.right (kept : Kept enc) : RingRight enc := by
  obtain ⟨gone, arrived, handles⟩ := kept.handles
  refine ⟨handles.order arrived, ?_, kept.counted, kept.balanced⟩
  have write := kept.write
  have chained := kept.chained
  have valid := kept.valid.1
  cases waiting : enc.waiting with
  | nil =>
    rw [waiting, occupied_nil, Nat.add_zero, Nat.mod_eq_of_lt valid] at write
    exact write.symm
  | cons entry rest =>
    rw [waiting] at chained
    exact (chained.1.trans (Nat.mod_eq_of_lt valid)).symm

/-- The controller finds the room that the frames leave. -/
theorem Kept.free (kept : Kept enc) : enc.free = encRxSize - 2 - occupied enc.waiting := by
  have write := kept.write
  have read := kept.read
  have valid := kept.valid.1
  have room := kept.room
  simp only [encRxSize] at write read valid room
  rw [Enc28j60.free]
  simp only [encRxSize]
  split_ifs <;> omega

theorem Handles.of_same {next : Enc28j60} {gone : List RxFrame} {calls : List EncRxCall} (handles : Handles enc gone calls)
    (handed : next.handed = enc.handed) (pointer : next.nextPktPtr = enc.nextPktPtr)
    (front : ∀ entry rest, enc.waiting = entry :: rest → ∃ later, next.waiting = entry :: later) :
    Handles next gone calls := by
  cases handles with
  | outside order => exact .outside (handed ▸ order)
  | looping order => exact .looping (handed ▸ order)
  | restarted index pktNext order => exact .restarted index pktNext (handed ▸ order)
  | inside entry rest handler oldest order =>
    obtain ⟨later, there⟩ := front entry rest oldest
    rw [← pointer]
    exact .inside entry later handler there (handed ▸ order)

theorem Kept.receive (kept : Kept enc) (frame : RxFrame) : Kept (enc.receive frame) := by
  rw [Enc28j60.receive]
  split_ifs with stored
  · obtain ⟨-, few, fits⟩ := stored
    have room := kept.room
    have write := kept.write
    let entry : StoredFrame := ⟨enc.arrived.length, enc.erxwrpt, frame⟩
    have memory : put encRxSize enc.memory enc.erxwrpt (frame.image enc.erxwrpt) =
        put encRxSize enc.memory (enc.nextPktPtr.toNat + occupied enc.waiting) entry.item.bytes := by
      change _ = put _ _ _ (frame.image enc.erxwrpt)
      rw [write, put_mod]
    rw [kept.free] at fits
    have inside : occupied enc.waiting + frame.size ≤ encRxSize := by omega
    have counted := kept.counted
    have balanced := kept.balanced
    obtain ⟨gone, arrived, handles⟩ := kept.handles
    refine ⟨?_, kept.chained.concat write, ?_, ?_, kept.valid, kept.read, ?_, ?_, ?_, ?_, ?_⟩
    · change Laid encRxSize (put encRxSize enc.memory enc.erxwrpt (frame.image enc.erxwrpt)) enc.nextPktPtr.toNat
        ((enc.waiting ++ [entry]).map StoredFrame.item)
      rw [memory, List.map_append]
      exact kept.laid.put_behind inside
    · simp only [occupied_append, occupied_cons, occupied_nil, write, Nat.mod_add_mod, Nat.add_zero, Nat.add_assoc]
    · simp only [occupied_append, occupied_cons, occupied_nil]
      omega
    · simp only [List.length_append, List.length_singleton, counted]
    · exact few
    · simp only [List.map_append, List.map_cons, List.map_nil, List.length_append, List.length_singleton,
        Nat.add_sub_add_right, kept.numbered]
      rw [List.range'_concat, Nat.one_mul, Nat.sub_add_cancel (by omega)]
    · simp only [List.length_append, List.length_singleton]
      omega
    · refine ⟨gone, ?_, handles.of_same rfl rfl ?_⟩
      · simp only [arrived, List.map_append, List.map_cons, List.map_nil, List.append_assoc]
      · intro entry rest oldest
        exact ⟨rest ++ [⟨enc.arrived.length, enc.erxwrpt, frame⟩], by simp only [oldest, List.cons_append]⟩
  · exact kept

/-- Neither the switches of the adapter nor the calls are part of the ring. -/
theorem Kept.switch (kept : Kept enc) (rxen running : Bool) {handed : List (List Byte)} {calls : List EncRxCall}
    (handles : ∃ gone, enc.arrived = gone ++ enc.waiting.map StoredFrame.frame ∧
      Handles { enc with handed := handed } gone calls) :
    Kept { enc with rxen := rxen, running := running, handed := handed, calls := calls } := by
  obtain ⟨gone, arrived, handles⟩ := handles
  exact ⟨kept.laid, kept.chained, kept.write, kept.room, kept.valid, kept.read, kept.counted, kept.few, kept.numbered,
    kept.balanced, gone, arrived, handles.of_same rfl rfl fun entry rest oldest => ⟨rest, oldest⟩⟩

theorem Kept.start (kept : Kept enc) : Kept enc.start := kept.switch true enc.running kept.handles

theorem Kept.stop (kept : Kept enc) : Kept enc.stop := kept.switch false enc.running kept.handles

/-- A reset takes what is waiting off the counter. -/
theorem Kept.flushed (kept : Kept enc) : enc.decrements + (enc.flushed + enc.waiting.length) = enc.arrived.length := by
  rw [← Nat.add_assoc]
  exact kept.balanced

/-- So does the loop of `enc_rearm_rx_ring`. -/
theorem Kept.drained (kept : Kept enc) : enc.epktcnt - 255 = 0 ∧
    enc.decrements + min enc.epktcnt 255 + enc.flushed = enc.arrived.length := by
  have few := kept.few
  have counted := kept.counted
  have balanced := kept.balanced
  simp only [epktcntMax] at few
  omega

theorem encRxNextValid_ofNat {ptr : ℕ} (below : ptr < encRxSize) (even : ptr % 2 = 0) :
    encRxNextValid (BitVec.ofNat 16 ptr) = true := by
  simp only [encRxSize] at below
  have value : (BitVec.ofNat 16 ptr).toNat = ptr := by
    rw [BitVec.toNat_ofNat]
    omega
  apply decide_eq_true
  constructor
  · rw [BitVec.le_def, value]
    exact Nat.le_of_lt_succ below
  · apply BitVec.eq_of_toNat_eq
    rw [BitVec.toNat_and, value]
    exact (Nat.and_one_is_mod ptr).trans even

/-- The read pointer is the place before the next frame. -/
theorem toNat_erxrdpt {pktNext : BitVec 16} (below : pktNext.toNat < encRxSize) :
    (if pktNext = encRxStart then encRxEnd else pktNext - 1).toNat = (pktNext.toNat + (encRxSize - 1)) % encRxSize := by
  simp only [encRxSize] at below ⊢
  split_ifs with wrapped
  · rw [wrapped]
    decide
  · have inside : pktNext.toNat ≠ 0 := fun zero => wrapped (BitVec.eq_of_toNat_eq zero)
    have lower : (1 : BitVec 16) ≤ pktNext := by
      rw [BitVec.le_def]
      exact Nat.one_le_iff_ne_zero.mpr inside
    rw [BitVec.toNat_sub_of_le lower, show (1 : BitVec 16).toNat = 1 from rfl]
    omega

/-- The oldest frame is the one that starts at `next_pkt_ptr`. -/
theorem Kept.current (kept : Kept enc) {entry : StoredFrame} {rest : List StoredFrame}
    (oldest : enc.waiting = entry :: rest) : enc.current = some entry.index := by
  have chained := kept.chained
  rw [oldest] at chained
  have place : entry.start = enc.nextPktPtr.toNat := chained.1.trans (Nat.mod_eq_of_lt kept.valid.1)
  rw [Enc28j60.current, oldest, List.find?_cons_of_pos (by simp [place])]
  rfl

/-- The oldest frame alone is taken from what waits. -/
theorem Kept.filter (kept : Kept enc) {entry : StoredFrame} {rest : List StoredFrame}
    (oldest : enc.waiting = entry :: rest) :
    (enc.waiting.filter fun other => some other.index ≠ some entry.index) = rest := by
  have numbered := kept.numbered
  rw [oldest, List.map_cons, List.length_cons, List.range'_succ] at numbered
  obtain ⟨first, others⟩ := List.cons.inj numbered
  rw [oldest, List.filter_cons_of_neg (by simp), List.filter_eq_self]
  intro other member
  have later : other.index ∈ rest.map StoredFrame.index := List.mem_map_of_mem member
  rw [others, List.mem_range'_1] at later
  have distinct : other.index ≠ entry.index := by omega
  simpa using distinct

/-- The oldest frame is consumed. -/
theorem Kept.consume (kept : Kept enc) {entry : StoredFrame} {rest : List StoredFrame} {gone : List RxFrame}
    (oldest : enc.waiting = entry :: rest) (arrived : enc.arrived = gone ++ enc.waiting.map StoredFrame.frame)
    (order : enc.handed.Sublist (offered (gone ++ [entry.frame]))) :
    Kept { enc.consume (some entry.index)
      (BitVec.ofNat 16 ((enc.nextPktPtr.toNat + entry.frame.size) % encRxSize)) with calls := [.loop] } := by
  have laid := kept.laid
  have chained := kept.chained
  have write := kept.write
  have room := kept.room
  have valid := kept.valid
  have counted := kept.counted
  have few := kept.few
  have numbered := kept.numbered
  have balanced := kept.balanced
  have left := kept.filter oldest
  have even := entry.frame.size_even
  simp only [encRxSize, epktcntMax] at write room valid few
  have value : (BitVec.ofNat 16 ((enc.nextPktPtr.toNat + entry.frame.size) % encRxSize)).toNat =
      (enc.nextPktPtr.toNat + entry.frame.size) % encRxSize := by
    rw [BitVec.toNat_ofNat]
    simp only [encRxSize]
    omega
  rw [oldest] at laid chained write room counted numbered balanced arrived
  simp only [List.map_cons, List.length_cons, occupied_cons] at write room counted numbered balanced arrived
  rw [Enc28j60.consume, left]
  have next : ((enc.nextPktPtr.toNat + entry.frame.size) % encRxSize) % encRxSize =
      (enc.nextPktPtr.toNat + entry.frame.size) % encRxSize := Nat.mod_mod _ _
  refine ⟨laid.2.of_mod_eq ?_, chained.2.of_mod_eq ?_, ?_, ?_, ?_, ?_, ?_, ?_, ?_, ?_, gone ++ [entry.frame], ?_,
    .looping order⟩
  · rw [value]
    exact next.symm
  · rw [value]
    exact next.symm
  · change enc.erxwrpt = (BitVec.toNat _ + occupied rest) % encRxSize
    rw [value, Nat.mod_add_mod, Nat.add_assoc]
    exact write
  · exact Nat.le_trans (Nat.le_add_left _ _) room
  · rw [value]
    simp only [encRxSize]
    omega
  · exact toNat_erxrdpt (by rw [value]; exact Nat.mod_lt _ (by decide))
  · change enc.epktcnt - 1 = rest.length
    omega
  · change enc.epktcnt - 1 ≤ epktcntMax
    simp only [epktcntMax]
    omega
  · have later := (List.cons.inj (numbered.trans List.range'_succ)).2
    change rest.map StoredFrame.index = List.range' (enc.arrived.length - rest.length) rest.length
    rw [later]
    congr 1
    omega
  · change enc.decrements + 1 + enc.flushed + rest.length = enc.arrived.length
    omega
  · rw [List.append_cons] at arrived
    exact arrived

/-- The loop of `enc28j60_rx` keeps the ring. -/
theorem Kept.rxStep (kept : Kept enc) {outer : List EncRxCall} (calls : enc.calls = .loop :: outer) :
    Kept (enc.rxStep outer) := by
  obtain ⟨gone, arrived, handles⟩ := kept.handles
  rw [calls] at handles
  cases handles with
  | looping order =>
    rw [Enc28j60.rxStep]
    split_ifs with drained
    · exact kept.switch enc.rxen enc.running ⟨gone, arrived, .outside order⟩
    · have waits : enc.waiting ≠ [] := fun empty => drained (kept.counted.trans (by rw [empty]; rfl))
      obtain ⟨entry, rest, oldest⟩ := List.exists_cons_of_ne_nil waits
      have laid := kept.laid
      have chained := kept.chained
      have room := kept.room
      have valid := kept.valid
      rw [oldest] at laid chained room
      rw [occupied_cons] at room
      simp only [encRxSize] at room valid
      have image : entry.item.bytes = entry.frame.image enc.nextPktPtr.toNat := by
        change entry.frame.image entry.start = _
        rw [chained.1, RxFrame.image_mod]
      have holds := laid.1
      rw [image] at holds
      obtain ⟨next, length, status, bytes⟩ := reads_image holds
      have short := entry.frame.length_le_size
      have even := entry.frame.size_even
      have pointer : encRxNextValid (BitVec.ofNat 16 ((enc.nextPktPtr.toNat + entry.frame.size) % encRxSize)) = true := by
        apply encRxNextValid_ofNat (Nat.mod_lt _ (by decide))
        simp only [encRxSize]
        omega
      have count : (BitVec.ofNat 16 entry.frame.bytes.length).toNat = entry.frame.bytes.length := by
        rw [BitVec.toNat_ofNat]
        omega
      simp only [next, length, status, pointer, count, kept.current oldest, Bool.true_eq_false, false_or]
      have full : enc.handed.Sublist (offered enc.arrived) := kept.right.once
      split_ifs with oversized accepted
      · obtain ⟨empty, balanced⟩ := kept.drained
        exact kept_of_empty rfl rfl rfl rfl empty balanced (.outside full)
      · have taken : slice (around encRxSize enc.memory enc.nextPktPtr.toNat) 6 (entry.frame.bytes.length - 4) =
            entry.frame.payload := by
          have inside : 0 + (entry.frame.bytes.length - 4) ≤ entry.frame.bytes.length := by omega
          rw [slice_slice _ 6 inside, bytes, List.drop_zero]
          rfl
        have accepts : offered [entry.frame] = [entry.frame.payload] := by
          simp [offered, RxFrame.accepted, accepted]
        rw [taken]
        refine kept.switch enc.rxen enc.running ⟨gone, arrived, .inside entry rest .other oldest ?_⟩
        rw [offered_append, accepts]
        exact order.append (List.Sublist.refl _)
      · have skipped : offered (gone ++ [entry.frame]) = offered gone := by
          rw [offered_append]
          simp [offered, RxFrame.accepted, accepted]
        have consumed := kept.consume oldest arrived (by rw [skipped]; exact order)
        rw [← calls] at consumed
        exact consumed

/-- A step keeps the ring, unless a handler reaches it. -/
theorem Kept.step (kept : Kept enc) {event : Enc28j60.Event} {next : Enc28j60} (undisturbed : Undisturbed enc event)
    (step : enc.step event = some next) : Kept next := by
  obtain ⟨gone, arrived, handles⟩ := kept.handles
  cases event with
  | receive frame =>
    cases step
    exact kept.receive frame
  | poll =>
    have outside : enc.calls = [] := undisturbed
    rw [outside] at handles
    cases handles with
    | outside order =>
      simp only [Enc28j60.step, outside, Option.some.injEq] at step
      rw [← step]
      exact kept.switch enc.rxen enc.running ⟨gone, arrived, .looping order⟩
  | rx =>
    simp only [Enc28j60.step] at step
    split at step
    · rename_i outer calls
      cases step
      exact kept.rxStep calls
    · cases step
  | returns =>
    cases calls : enc.calls with
    | nil => simp [Enc28j60.step, calls] at step
    | cons call outer =>
      rw [calls] at handles
      rw [Undisturbed, Enc28j60.behindRestart, calls] at undisturbed
      cases handles with
      | looping order => simp [Enc28j60.step, calls] at step
      | restarted index pktNext order => cases undisturbed
      | inside entry rest handler oldest order =>
        cases handler with
        | program => simp [Enc28j60.step, calls] at step
        | restarted => cases undisturbed
        | other | refuses =>
          simp only [Enc28j60.step, calls, Option.some.injEq] at step
          rw [← step]
          exact kept.consume oldest arrived order
  | start =>
    simp only [Enc28j60.step] at step
    split at step
    · cases step
    · cases step
      exact kept.start
  | stop =>
    simp only [Enc28j60.step] at step
    split at step
    · cases step
    · cases step
      exact kept.stop
  | init =>
    simp only [Enc28j60.step] at step
    split at step
    · rename_i calls
      cases step
      refine kept_of_empty rfl rfl rfl rfl rfl kept.flushed ?_
      change Handles _ _ enc.calls
      rw [calls]
      exact .outside kept.right.once
    · cases step
  | refuse =>
    simp only [Enc28j60.step] at step
    split at step
    · rename_i index pktNext outer calls
      cases step
      rw [calls] at handles
      cases handles with
      | inside entry rest handler oldest order =>
        exact kept.switch enc.rxen enc.running ⟨gone, arrived, .inside entry rest .refuses oldest order⟩
    · cases step
  | execute =>
    simp only [Enc28j60.step] at step
    split at step
    · rename_i index pktNext outer calls
      split_ifs at step with running
      cases step
      rw [calls] at handles
      cases handles with
      | inside entry rest handler oldest order =>
        exact kept.switch false true ⟨gone, arrived, .inside entry rest .program oldest order⟩
    · cases step
  | programReturns =>
    simp only [Enc28j60.step] at step
    split at step
    · rename_i index pktNext outer calls
      cases step
      rw [calls] at handles
      cases handles with
      | inside entry rest handler oldest order =>
        exact kept_of_empty rfl rfl rfl rfl rfl kept.flushed (.restarted _ _ kept.right.once)
    · cases step

end Ring

/-- A run in which no handler reaches the ring while its frame is in it keeps the ring right. -/
theorem enc28j60_ring_right {memory : Buffer} {events : List Enc28j60.Event} {enc : Enc28j60}
    (undisturbed : enc28j60.Along Undisturbed (.initial memory) events)
    (run : enc28j60.run? (.initial memory) events = some enc) : RingRight enc := by
  have steps : ∀ source event next, Kept source → Undisturbed source event →
      enc28j60.step source event = some next → Kept next := fun _ _ _ kept met step => kept.step met step
  exact (LabeledMachine.run?_invariant steps (kept_initial memory) undisturbed run).right

/-- An `EXEC` command for the program at `0x80003100`, from the wire. -/
def executeFrame : RxFrame where
  bytes := [0x00, 0x09, 0xbf, 0x11, 0x22, 0x33, 0x02, 0x00, 0x00, 0x00, 0x00, 0x01, 0x08, 0x00, 0x45, 0x00,
    0x00, 0x28, 0x00, 0x01, 0x00, 0x00, 0x40, 0x11, 0xf9, 0x70, 0xc0, 0xa8, 0x00, 0x01, 0xc0, 0xa8,
    0x00, 0x02, 0x7a, 0x51, 0x7a, 0x51, 0x00, 0x14, 0x00, 0x00, 0x45, 0x58, 0x45, 0x43, 0x80, 0x00,
    0x31, 0x00, 0x00, 0x00, 0x00, 0x01, 0x00, 0x00, 0x00, 0x00, 0x00, 0x00, 0xe7, 0x56, 0xd9, 0x20]
  status := 0x0080

theorem enc28j60_ring_right_of_two :
    ∃ enc, enc28j60.run? (.initial fun _ => 0) [.start, .receive executeFrame, .receive executeFrame, .poll, .rx,
      .returns, .rx] = some enc ∧ RingRight enc := by
  have reached : (enc28j60.run? (.initial fun _ => 0) [.start, .receive executeFrame, .receive executeFrame, .poll,
      .rx, .returns, .rx]).isSome = true := by decide +kernel
  obtain ⟨enc, run⟩ := Option.isSome_iff_exists.mp reached
  exact ⟨enc, run, enc28j60_ring_right (by decide +kernel) run⟩

/-- The first syscall of a program takes the frame of its `EXEC` again, and behind a program without one `next_pkt_ptr`
is not where the next frame will start, and a frame that a reset has taken off the counter is taken off again. -/
theorem execute_disturbs_ring :
    (∃ enc, enc28j60.run? (.initial fun _ => 0) [.start, .receive executeFrame, .poll, .rx, .execute, .start, .poll,
      .rx] = some enc ∧ ¬ enc.handed.Sublist (offered enc.arrived)) ∧
    ∃ enc, enc28j60.run? (.initial fun _ => 0) [.start, .receive executeFrame, .poll, .rx, .execute, .programReturns,
      .returns] = some enc ∧
      enc.nextPktPtr.toNat ≠ (enc.waiting.head?.map StoredFrame.start).getD enc.erxwrpt ∧
      enc.decrements + enc.flushed + enc.waiting.length ≠ enc.arrived.length := by
  constructor
  · have lengths : (enc28j60.run? (.initial fun _ => 0) [.start, .receive executeFrame, .poll, .rx, .execute, .start,
        .poll, .rx]).map (fun enc => (enc.handed.length, enc.arrived.length)) = some (2, 1) := by decide +kernel
    obtain ⟨enc, run, lengths⟩ := Option.map_eq_some_iff.mp lengths
    obtain ⟨handed, arrived⟩ := Prod.mk.inj lengths
    refine ⟨enc, run, fun order => ?_⟩
    have few := order.length_le
    rw [offered, List.length_map, handed] at few
    have fewer := List.length_filter_le RxFrame.accepted enc.arrived
    omega
  · have values : (enc28j60.run? (.initial fun _ => 0) [.start, .receive executeFrame, .poll, .rx, .execute,
        .programReturns, .returns]).map (fun enc => (enc.nextPktPtr.toNat,
          (enc.waiting.head?.map StoredFrame.start).getD enc.erxwrpt,
          enc.decrements + enc.flushed + enc.waiting.length, enc.arrived.length)) = some (70, 0, 2, 1) := by decide +kernel
    obtain ⟨enc, run, values⟩ := Option.map_eq_some_iff.mp values
    simp only [Prod.mk.injEq] at values
    obtain ⟨pointer, place, gone, arrived⟩ := values
    refine ⟨enc, run, ?_, ?_⟩
    · rw [pointer, place]
      decide
    · rw [gone, arrived]
      decide

end KosTool.Gamecube
