import KosTool.Math.RingWindow
import KosTool.Model.Ps2.SmapRx
import Mathlib.Tactic.SplitIfs

/-! # What the frame pump keeps of the receive ring

The entries of the ring are the frames in the order in which the pump has put them in. Those that the pump has not got back
stand in their slots with their turns, and the slot that is being filled is none of theirs.
-/

namespace KosTool.Ps2.SmapRx

open ByteWord RingTurns

/-- The sequence number of an entry: the turn of its slot. -/
def turnSeq (j : ℕ) : Word := BitVec.ofNat 32 (j / ps2SmapRxSlots + 1)

/-- A frame stands in the slot of an entry. -/
structure Stored (rx : SmapRx) (j : ℕ) (frame : List Byte) : Prop where
  small : smapRxMinSize ≤ frame.length ∧ frame.length ≤ smapRxMaxSize
  len : (rx.rxRing (j % ps2SmapRxSlots)).len = BitVec.ofNat 32 frame.length
  seq : (rx.rxRing (j % ps2SmapRxSlots)).seq = turnSeq j
  data : slice rx.rxData (j % ps2SmapRxSlots * ps2SmapSlotSize) frame.length = frame

/-- The slot of the next entry has had its turn already. -/
def counted (rx : SmapRx) : ℕ :=
  match rx.pump with
  | .stamp | .publish => 1
  | _ => 0

/-- The frame that the pump is at is one that it takes, and the slot behind the ring is free for it. -/
structure Fills (rx : SmapRx) : Prop where
  good : rx.bd.good = true
  free : rx.delivered.length < rx.released + (ps2SmapRxSlots - 1)

/-- The bytes of the frame are in the slot. -/
def Copied (rx : SmapRx) : Prop := slice rx.rxData (rx.headSlot * ps2SmapSlotSize) rx.bd.length.toNat = rx.bd.frame

/-- How far the next entry is. -/
def Filling (rx : SmapRx) : Prop :=
  match rx.pump with
  | .idle | .scan _ | .advance => True
  | .gate | .regate => rx.bd.good = true
  | .write words => rx.Fills ∧ words ≤ rx.bd.words ∧
      slice rx.rxData (rx.headSlot * ps2SmapSlotSize) (4 * words) = slice rx.bd.bytes 0 (4 * words)
  | .describe => rx.Fills ∧ rx.Copied
  | .count | .stamp => rx.Fills ∧ rx.Copied ∧ (rx.rxRing rx.headSlot).len = rx.bd.length.setWidth 32
  | .publish => rx.Fills ∧ rx.Copied ∧ (rx.rxRing rx.headSlot).len = rx.bd.length.setWidth 32 ∧
      (rx.rxRing rx.headSlot).seq = turnSeq rx.delivered.length

/-- The ring as the pump keeps it. -/
structure Pumps (rx : SmapRx) : Prop where
  head : rx.rxHead = BitVec.ofNat 32 rx.delivered.length
  view : rx.rxTailIopView = BitVec.ofNat 32 rx.released
  behind : rx.released ≤ rx.delivered.length
  room : rx.delivered.length ≤ rx.released + (ps2SmapRxSlots - 1)
  stored : ∀ j frame, rx.released ≤ j → rx.delivered[j]? = some frame → rx.Stored j frame
  turned : ∀ cell < ps2SmapRxSlots,
    rx.rxSeq cell = BitVec.ofNat 32 (turns ps2SmapRxSlots (rx.delivered.length + rx.counted) cell)
  filling : rx.Filling

/-- The slot of a counter. -/
theorem slot_ofNat (n : ℕ) : (BitVec.ofNat 32 n).toNat % ps2SmapRxSlots = n % ps2SmapRxSlots := by
  rw [BitVec.toNat_ofNat]
  exact Nat.mod_mod_of_dvd n (by decide)

/-- Counters that are not a turn apart are known by their values. -/
theorem eq_of_ofNat {a b : ℕ} (below : b ≤ a) (near : a ≤ b + ps2SmapRxSlots) (same : BitVec.ofNat 32 a = BitVec.ofNat 32 b) :
    a = b := by
  have equal := congrArg BitVec.toNat same
  rw [BitVec.toNat_ofNat, BitVec.toNat_ofNat] at equal
  change a ≤ b + 16 at near
  omega

theorem Stored.same {rx next : SmapRx} {j : ℕ} {frame : List Byte} (stored : rx.Stored j frame)
    (ring : next.rxRing = rx.rxRing) (data : next.rxData = rx.rxData) : next.Stored j frame :=
  ⟨stored.small, ring ▸ stored.len, ring ▸ stored.seq, data ▸ stored.data⟩

section Pump

variable {rx : SmapRx} {frameCnt : Byte}

theorem Pumps.headSlot (pumps : rx.Pumps) : rx.headSlot = rx.delivered.length % ps2SmapRxSlots := by
  rw [SmapRx.headSlot, pumps.head, slot_ofNat]

/-- The slot behind the ring is none of those that the pump has not got back. -/
theorem Pumps.slot_ne (pumps : rx.Pumps) {j : ℕ} {frame : List Byte} (kept : rx.released ≤ j)
    (at_j : rx.delivered[j]? = some frame) : j % ps2SmapRxSlots ≠ rx.headSlot := by
  rw [pumps.headSlot]
  refine cell_ne kept (List.getElem?_eq_some_iff.mp at_j).1 ?_
  have room := pumps.room
  change _ ≤ _ + 15 at room
  change _ < _ + 16
  omega

/-- What is written into the slot behind the ring changes no frame in it. -/
theorem Pumps.stored_store (pumps : rx.Pumps) {offset : ℕ} {bytes : List Byte} (inside : offset + bytes.length ≤ ps2SmapSlotSize)
    {j : ℕ} {frame : List Byte} (kept : rx.released ≤ j) (at_j : rx.delivered[j]? = some frame) :
    Stored { rx with rxData := storeAt rx.rxData (rx.headSlot * ps2SmapSlotSize + offset) bytes } j frame := by
  have stored := pumps.stored j frame kept at_j
  have other := pumps.slot_ne kept at_j
  refine ⟨stored.small, stored.len, stored.seq, Eq.trans (slice_congr fun i below => ?_) stored.data⟩
  have small := stored.small.2
  change frame.length ≤ 1518 at small
  change offset + bytes.length ≤ 1536 at inside
  change storeAt rx.rxData (rx.headSlot * 1536 + offset) bytes (j % 16 * 1536 + i) = _
  change j % 16 ≠ rx.headSlot at other
  apply storeAt_outside
  omega

/-- What is written into the descriptor behind the ring changes none in it. -/
theorem Pumps.stored_desc (pumps : rx.Pumps) (desc : RxDesc) {j : ℕ} {frame : List Byte} (kept : rx.released ≤ j)
    (at_j : rx.delivered[j]? = some frame) : Stored { rx with rxRing := rx.setDesc desc } j frame := by
  have stored := pumps.stored j frame kept at_j
  have same : rx.setDesc desc (j % ps2SmapRxSlots) = rx.rxRing (j % ps2SmapRxSlots) :=
    Function.update_of_ne (pumps.slot_ne kept at_j) _ _
  exact ⟨stored.small, (congrArg RxDesc.len same).trans stored.len, (congrArg RxDesc.seq same).trans stored.seq, stored.data⟩

/-- The pump goes on without touching the ring. -/
theorem Pumps.onward (pumps : rx.Pumps) {next : SmapRx} (head : next.rxHead = rx.rxHead) (view : next.rxTailIopView = rx.rxTailIopView)
    (delivered : next.delivered = rx.delivered) (released : next.released = rx.released)
    (stored : ∀ j frame, rx.released ≤ j → rx.delivered[j]? = some frame → next.Stored j frame)
    (turned : ∀ cell < ps2SmapRxSlots,
      next.rxSeq cell = BitVec.ofNat 32 (turns ps2SmapRxSlots (rx.delivered.length + next.counted) cell))
    (filling : next.Filling) : next.Pumps where
  head := by rw [head, delivered, pumps.head]
  view := by rw [view, released, pumps.view]
  behind := by rw [delivered, released]; exact pumps.behind
  room := by rw [delivered, released]; exact pumps.room
  stored := by rw [delivered, released]; exact stored
  turned := by rw [delivered]; exact turned
  filling := filling

/-- Only where the pump is changes. -/
theorem Pumps.goto (pumps : rx.Pumps) {pump : RxPump} (counted : SmapRx.counted { rx with pump := pump } = rx.counted)
    (filling : Filling { rx with pump := pump }) : Pumps { rx with pump := pump } :=
  pumps.onward rfl rfl rfl rfl (fun j frame kept at_j => (pumps.stored j frame kept at_j).same rfl rfl)
    (by rw [counted]; exact pumps.turned) filling

theorem counted_of {pump : RxPump} (here : rx.pump = pump) : rx.counted = SmapRx.counted { rx with pump := pump } := by
  rw [SmapRx.counted, here]
  rfl

/-- The frame that the pump takes has a good length. -/
theorem small_of_good {bd : RxBd} (good : bd.good = true) :
    smapRxMinSize ≤ bd.length.toNat ∧ bd.length.toNat ≤ smapRxMaxSize := by
  rw [RxBd.good, Bool.and_eq_true, decide_eq_true_iff] at good
  exact good.2

theorem Fills.fits (fills : rx.Fills) {words : ℕ} (some : words < rx.bd.words) : 4 * words + 4 ≤ ps2SmapSlotSize := by
  have small := (small_of_good fills.good).2
  rw [RxBd.words] at some
  change rx.bd.length.toNat ≤ 1518 at small
  change 4 * words + 4 ≤ 1536
  omega

/-- A word of the frame is written into the slot. -/
theorem Pumps.write (pumps : rx.Pumps) {words : ℕ} (here : rx.pump = .write words) (more : words < rx.bd.words) :
    Pumps { rx with
      rxData := storeAt rx.rxData (rx.headSlot * ps2SmapSlotSize + 4 * words) (slice rx.bd.bytes (4 * words) 4)
      pump := .write (words + 1) } := by
  have filling := pumps.filling
  rw [Filling, here] at filling
  obtain ⟨fills, -, front⟩ := filling
  refine pumps.onward rfl rfl rfl rfl (fun j frame kept at_j => ?_) ?_ ⟨⟨fills.good, fills.free⟩, more, ?_⟩
  · exact (pumps.stored_store (by rw [length_slice]; exact fills.fits more) kept at_j).same rfl rfl
  · have turned := pumps.turned
    rwa [counted_of here] at turned
  · change slice (storeAt rx.rxData (rx.headSlot * ps2SmapSlotSize + 4 * words) (slice rx.bd.bytes (4 * words) 4))
      (rx.headSlot * ps2SmapSlotSize) (4 * (words + 1)) = slice rx.bd.bytes 0 (4 * (words + 1))
    rw [Nat.mul_add, slice_add, slice_add, Nat.zero_add, ← front]
    congr 1
    · exact slice_congr fun i below => storeAt_outside _ (by omega)
    · refine slice_congr fun i below => ?_
      rw [storeAt_slice, if_pos ⟨Nat.le_add_right _ _, Nat.add_lt_add_left below _⟩, Nat.add_sub_cancel_left]

/-- All words of the frame are in the slot. -/
theorem Pumps.written (pumps : rx.Pumps) {words : ℕ} (here : rx.pump = .write words) (all : ¬words < rx.bd.words) :
    Pumps { rx with pump := .describe } := by
  have filling := pumps.filling
  rw [Filling, here] at filling
  obtain ⟨fills, least, front⟩ := filling
  refine pumps.goto (counted_of here).symm ⟨⟨fills.good, fills.free⟩, ?_⟩
  have whole : rx.bd.length.toNat ≤ 4 * words := by
    rw [RxBd.words] at all least
    omega
  have cut (buffer : Buffer) (offset : ℕ) : slice buffer offset rx.bd.length.toNat =
      (slice buffer offset (4 * words)).take rx.bd.length.toNat := by
    have inner := slice_slice buffer offset (show 0 + rx.bd.length.toNat ≤ 4 * words by omega)
    rwa [Nat.add_zero, List.drop_zero] at inner
  change slice rx.rxData (rx.headSlot * ps2SmapSlotSize) rx.bd.length.toNat = slice rx.bd.bytes 0 rx.bd.length.toNat
  rw [cut, front, ← cut]

theorem setDesc_head (desc : RxDesc) : rx.setDesc desc rx.headSlot = desc := Function.update_self _ _ _

/-- The length is written into the descriptor. -/
theorem Pumps.describe (pumps : rx.Pumps) (here : rx.pump = .describe) :
    Pumps { rx with
      rxRing := rx.setDesc { rx.rxRing rx.headSlot with len := rx.bd.length.setWidth 32, status := 0 }, pump := .count } := by
  have filling := pumps.filling
  rw [Filling, here] at filling
  obtain ⟨fills, copied⟩ := filling
  refine pumps.onward rfl rfl rfl rfl (fun j frame kept at_j => (pumps.stored_desc _ kept at_j).same rfl rfl) ?_
    ⟨⟨fills.good, fills.free⟩, copied, ?_⟩
  · have turned := pumps.turned
    rwa [counted_of here] at turned
  · change (rx.setDesc _ rx.headSlot).len = _
    rw [setDesc_head]
    rfl

/-- The turn of the slot is counted. -/
theorem Pumps.count (pumps : rx.Pumps) (here : rx.pump = .count) :
    Pumps { rx with rxSeq := Function.update rx.rxSeq rx.headSlot (rx.rxSeq rx.headSlot + 1), pump := .stamp } := by
  have filling := pumps.filling
  rw [Filling, here] at filling
  obtain ⟨fills, copied, len⟩ := filling
  refine pumps.onward rfl rfl rfl rfl (fun j frame kept at_j => (pumps.stored j frame kept at_j).same rfl rfl) ?_
    ⟨⟨fills.good, fills.free⟩, copied, len⟩
  intro cell inside
  have before := pumps.turned cell inside
  rw [counted_of here] at before
  change rx.rxSeq cell = BitVec.ofNat 32 (turns ps2SmapRxSlots (rx.delivered.length + 0) cell) at before
  change Function.update rx.rxSeq rx.headSlot (rx.rxSeq rx.headSlot + 1) cell =
    BitVec.ofNat 32 (turns ps2SmapRxSlots (rx.delivered.length + 1) cell)
  rw [Nat.add_zero] at before
  rw [turns_succ inside, ← pumps.headSlot, BitVec.ofNat_add]
  by_cases same : cell = rx.headSlot
  · rw [if_pos same, ← before, same, Function.update_self]
    rfl
  · rw [if_neg same, ← before, Function.update_of_ne same, BitVec.add_zero]

/-- The turn is written into the descriptor. -/
theorem Pumps.stamp (pumps : rx.Pumps) (here : rx.pump = .stamp) :
    Pumps { rx with
      rxRing := rx.setDesc { rx.rxRing rx.headSlot with seq := rx.rxSeq rx.headSlot }, pump := .publish } := by
  have filling := pumps.filling
  rw [Filling, here] at filling
  obtain ⟨fills, copied, len⟩ := filling
  have turned := pumps.turned
  rw [counted_of here] at turned
  refine pumps.onward rfl rfl rfl rfl (fun j frame kept at_j => (pumps.stored_desc _ kept at_j).same rfl rfl) turned
    ⟨⟨fills.good, fills.free⟩, copied, ?_, ?_⟩
  · change (rx.setDesc _ rx.headSlot).len = _
    rw [setDesc_head]
    exact len
  · change (rx.setDesc _ rx.headSlot).seq = turnSeq rx.delivered.length
    rw [setDesc_head]
    change rx.rxSeq rx.headSlot = _
    rw [turned rx.headSlot (Nat.mod_lt _ (by decide)), pumps.headSlot]
    exact congrArg (BitVec.ofNat 32) (turns_of_live (Nat.lt_succ_self _) (Nat.add_le_add_left (show 1 ≤ 16 by decide) _))

/-- The entry is in the ring. -/
theorem Pumps.publish (pumps : rx.Pumps) (here : rx.pump = .publish) :
    Pumps { rx with rxHead := rx.rxHead + 1, delivered := rx.delivered ++ [rx.bd.frame], pump := .advance } := by
  have filling := pumps.filling
  rw [Filling, here] at filling
  obtain ⟨fills, copied, len, seq⟩ := filling
  have length : (rx.delivered ++ [rx.bd.frame]).length = rx.delivered.length + 1 := List.length_append
  refine ⟨?_, pumps.view, ?_, ?_, fun j frame kept at_j => ?_, ?_, trivial⟩
  · dsimp only
    rw [length, pumps.head, BitVec.ofNat_add]
    rfl
  · dsimp only
    rw [length]
    exact Nat.le_succ_of_le pumps.behind
  · dsimp only
    rw [length]
    exact fills.free
  · rcases Nat.lt_or_ge j rx.delivered.length with old | new
    · dsimp only at at_j
      rw [List.getElem?_append_left old] at at_j
      exact (pumps.stored j frame kept at_j).same rfl rfl
    · dsimp only at at_j
      have last : j = rx.delivered.length := by
        have inside := (List.getElem?_eq_some_iff.mp at_j).1
        rw [length] at inside
        omega
      rw [last, List.getElem?_concat_length] at at_j
      cases at_j
      rw [last]
      have slot := pumps.headSlot
      refine ⟨?_, ?_, ?_, ?_⟩
      · rw [RxBd.frame, length_slice]
        exact small_of_good fills.good
      · rw [← slot, RxBd.frame, length_slice]
        exact len.trans (BitVec.ofNat_toNat ..).symm
      · rw [← slot]
        exact seq
      · rw [← slot, RxBd.frame, length_slice]
        exact copied
  · dsimp only
    rw [length]
    have turned := pumps.turned
    rwa [counted_of here] at turned

/-- A frame that the pump takes goes into a slot that is free. -/
theorem Pumps.gate (pumps : rx.Pumps) (good : rx.bd.good = true) (resting : rx.counted = 0)
    (free : rx.delivered.length < rx.released + (ps2SmapRxSlots - 1)) : Pumps { rx with pump := .write 0 } :=
  pumps.goto resting.symm ⟨⟨good, free⟩, Nat.zero_le _, rfl⟩

/-- A step of the pump. -/
theorem Pumps.pumpStep (pumps : rx.Pumps) (frameCnt : Byte) : (rx.pumpStep frameCnt).Pumps := by
  have filling := pumps.filling
  have room := pumps.room
  change rx.delivered.length ≤ rx.released + 15 at room
  rw [Filling] at filling
  cases here : rx.pump with
  | idle =>
    rw [SmapRx.pumpStep, here]
    exact pumps.goto (counted_of here).symm trivial
  | scan emptySkips =>
    rw [SmapRx.pumpStep, here]
    dsimp only
    split_ifs with empty last good
    · exact pumps.goto (counted_of here).symm trivial
    · have turned := pumps.turned
      rw [counted_of here] at turned
      exact pumps.onward rfl rfl rfl rfl (fun j frame kept at_j => (pumps.stored j frame kept at_j).same rfl rfl) turned trivial
    · exact pumps.goto (counted_of here).symm good
    · exact pumps.goto (counted_of here).symm trivial
  | gate =>
    rw [here] at filling
    rw [SmapRx.pumpStep, here]
    dsimp only
    split_ifs with full
    · exact pumps.goto (counted_of here).symm filling
    · refine pumps.gate filling (counted_of here) ?_
      have head : (rx.rxHead + 1).toNat % ps2SmapRxSlots = (rx.delivered.length + 1) % ps2SmapRxSlots := by
        rw [pumps.head, ← slot_ofNat (rx.delivered.length + 1), BitVec.ofNat_add]
        rfl
      rw [head, pumps.view, slot_ofNat] at full
      change ¬(rx.delivered.length + 1) % 16 = rx.released % 16 at full
      change rx.delivered.length < rx.released + 15
      omega
  | regate =>
    rw [here] at filling
    rw [SmapRx.pumpStep, here]
    dsimp only
    split_ifs with apart
    · exact pumps.goto (counted_of here).symm trivial
    · rw [not_not, pumps.head, pumps.view] at apart
      have empty := eq_of_ofNat pumps.behind (Nat.le_succ_of_le room) apart
      exact pumps.gate filling (counted_of here) (empty ▸ Nat.lt_add_of_pos_right (by decide))
  | write words =>
    rw [SmapRx.pumpStep, here]
    dsimp only
    split_ifs with more
    · exact pumps.write here more
    · exact pumps.written here more
  | describe =>
    rw [SmapRx.pumpStep, here]
    exact pumps.describe here
  | count =>
    rw [SmapRx.pumpStep, here]
    exact pumps.count here
  | stamp =>
    rw [SmapRx.pumpStep, here]
    exact pumps.stamp here
  | publish =>
    rw [SmapRx.pumpStep, here]
    exact pumps.publish here
  | advance =>
    have turned := pumps.turned
    rw [counted_of here] at turned
    rw [SmapRx.pumpStep, here]
    exact pumps.onward rfl rfl rfl rfl (fun j frame kept at_j => (pumps.stored j frame kept at_j).same rfl rfl) turned trivial

/-- The next entry is as far as it was if the descriptor is the one that the pump takes the frame from, and no slot is got
back less. -/
theorem Filling.same (filling : rx.Filling) {next : SmapRx} (pump : next.pump = rx.pump) (ring : next.rxRing = rx.rxRing)
    (data : next.rxData = rx.rxData) (head : next.headSlot = rx.headSlot) (delivered : next.delivered = rx.delivered)
    (released : rx.released ≤ next.released) (bd : rx.bd.good = true → next.bd = rx.bd) : next.Filling := by
  have fills (before : rx.Fills) : next.Fills := by
    refine ⟨(congrArg RxBd.good (bd before.good)).trans before.good, ?_⟩
    rw [delivered]
    exact before.free.trans_le (Nat.add_le_add_right released _)
  have copied (good : rx.bd.good = true) (before : rx.Copied) : next.Copied := by
    rw [Copied, data, head, bd good]
    exact before
  rw [Filling] at filling ⊢
  rw [pump]
  cases here : rx.pump with
  | idle | scan | advance => trivial
  | gate | regate =>
    rw [here] at filling
    exact (congrArg RxBd.good (bd filling)).trans filling
  | write words =>
    rw [here] at filling
    obtain ⟨before, least, front⟩ := filling
    dsimp only
    rw [bd before.good, data, head]
    exact ⟨fills before, least, front⟩
  | describe =>
    rw [here] at filling
    exact ⟨fills filling.1, copied filling.1.good filling.2⟩
  | count | stamp =>
    rw [here] at filling
    obtain ⟨before, there, len⟩ := filling
    dsimp only
    rw [ring, head, bd before.good]
    exact ⟨fills before, copied before.good there, len⟩
  | publish =>
    rw [here] at filling
    obtain ⟨before, there, len, seq⟩ := filling
    dsimp only
    rw [ring, head, bd before.good, delivered]
    exact ⟨fills before, copied before.good there, len, seq⟩

/-- The adapter fills a descriptor that the pump has not looked at. -/
theorem Pumps.arrive (pumps : rx.Pumps) {idx : ℕ} {bd : RxBd} (free : (rx.bds idx).empty = true) :
    Pumps { rx with bds := Function.update rx.bds idx bd } := by
  refine pumps.onward rfl rfl rfl rfl (fun j frame kept at_j => (pumps.stored j frame kept at_j).same rfl rfl) pumps.turned ?_
  refine pumps.filling.same rfl rfl rfl rfl rfl le_rfl fun good => Function.update_of_ne (fun here => ?_) _ _
  rw [SmapRx.bd, here, RxBd.good, free] at good
  exact Bool.false_ne_true good

/-- Slots are got back. -/
theorem Pumps.release (pumps : rx.Pumps) {next : SmapRx} {n : ℕ} (inside : rx.released + n ≤ rx.delivered.length)
    (view : next.rxTailIopView = rx.rxTailIopView + BitVec.ofNat 32 n) (released : next.released = rx.released + n)
    (pump : next.pump = rx.pump) (ring : next.rxRing = rx.rxRing) (data : next.rxData = rx.rxData)
    (head : next.rxHead = rx.rxHead) (delivered : next.delivered = rx.delivered) (bds : next.bd = rx.bd)
    (seq : next.rxSeq = rx.rxSeq) : next.Pumps where
  head := by rw [head, delivered, pumps.head]
  view := by rw [view, released, pumps.view, BitVec.ofNat_add]
  behind := by rw [released, delivered]; exact inside
  room := by
    rw [released, delivered]
    exact pumps.room.trans (Nat.add_le_add_right (Nat.le_add_right _ _) _)
  stored j frame kept at_j := by
    rw [released] at kept
    rw [delivered] at at_j
    exact (pumps.stored j frame (by omega) at_j).same ring data
  turned := by
    have counted : next.counted = rx.counted := by rw [SmapRx.counted, pump, SmapRx.counted]
    rw [seq, delivered, counted]
    exact pumps.turned
  filling := pumps.filling.same pump ring data (by rw [SmapRx.headSlot, head, SmapRx.headSlot]) delivered
    (by rw [released]; exact Nat.le_add_right _ _) fun _ => bds

end Pump

end KosTool.Ps2.SmapRx
