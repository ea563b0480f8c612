import KosTool.Machine.Settling
import KosTool.Soundness.TxDelivery
import Mathlib.Data.Finset.Card

/-! # The pump empties the slots

A round of the pump that hands out no frame is counted, and after enough of them all slots are released; every other round
frees one. So a pump that goes on while nothing is handed over leaves no slot busy, whatever the adapter does, and behind
a flush every frame that was sent went into the FIFO or is counted.
-/

namespace KosTool.Ps2

open Machine
open scoped List

namespace SmapTx

/-- The slots that the pump has not done with. -/
def busySlots (tx : SmapTx) : Finset ℕ := (Finset.range ps2SmapTxSlots).filter fun slot => tx.txBusy slot = true

/-- What a scan from a slot on leaves: no slot becomes busy, a slot was freed if there was progress, and none from there on
is busy if nothing waits. -/
structure Scanned (tx : SmapTx) (slot : ℕ) (txProgress txWaiting : Bool) (next : SmapTx) (txProgress' txWaiting' : Bool) :
    Prop where
  stalls : next.txStallIters = tx.txStallIters
  fewer : ∀ other, next.txBusy other = true → tx.txBusy other = true
  progress : txProgress' = true → txProgress = true ∨ next.busySlots.card < tx.busySlots.card
  waiting : txWaiting' = false → txWaiting = false ∧
    ∀ other, slot ≤ other → other < ps2SmapTxSlots → next.txBusy other = false

/-- How far the pump is from empty slots at the start of a round. -/
def remaining (tx : SmapTx) : ℕ := (smapTxStallLimit + 1) * tx.busySlots.card + (smapTxStallLimit - tx.txStallIters)

section Drain

variable {tx next : SmapTx} {slot : ℕ}

theorem mem_busySlots : slot ∈ tx.busySlots ↔ slot < ps2SmapTxSlots ∧ tx.txBusy slot = true := by
  rw [busySlots, Finset.mem_filter, Finset.mem_range]

theorem busySlots_card_le (fewer : ∀ other, next.txBusy other = true → tx.txBusy other = true) :
    next.busySlots.card ≤ tx.busySlots.card := by
  apply Finset.card_le_card
  intro other member
  rw [mem_busySlots] at member ⊢
  exact ⟨member.1, fewer other member.2⟩

theorem busySlots_card_lt (fewer : ∀ other, next.txBusy other = true → tx.txBusy other = true)
    (inside : slot < ps2SmapTxSlots) (busy : tx.txBusy slot = true) (freed : next.txBusy slot = false) :
    next.busySlots.card < tx.busySlots.card := by
  apply Finset.card_lt_card
  rw [Finset.ssubset_iff_of_subset]
  · refine ⟨slot, mem_busySlots.mpr ⟨inside, busy⟩, fun member => ?_⟩
    rw [mem_busySlots, freed] at member
    cases member.2
  · intro other member
    rw [mem_busySlots] at member ⊢
    exact ⟨member.1, fewer other member.2⟩

theorem busy_of_cleared {other : ℕ} (cleared : next.txBusy = Function.update tx.txBusy slot false)
    (busy : next.txBusy other = true) : tx.txBusy other = true := by
  rw [cleared, Function.update_apply] at busy
  split_ifs at busy
  exact busy

/-- The descriptors that are done are taken back. -/
theorem reclaims (here : tx.pump = .reclaim) :
    Inevitable pumpStep (fun next => next.pump = .scan 0 false false ∧ next.txBusy = tx.txBusy ∧
      next.txStallIters = tx.txStallIters) tx := by
  induction used : tx.txbdusedcnt generalizing tx with
  | zero =>
    refine .later fun gnp => .now ?_
    rw [pumpStep, here]
    dsimp only
    rw [if_neg (by omega)]
    exact ⟨rfl, rfl, rfl⟩
  | succ count ih =>
    refine .later fun gnp => ?_
    rw [pumpStep, here]
    dsimp only
    split_ifs with done
    · have stays : tx.reclaimBd.pump = .reclaim := here
      refine ih stays ?_
      change tx.txbdusedcnt - 1 = count
      omega
    · exact .now ⟨rfl, rfl, rfl⟩

/-- A step of the scan. -/
theorem scan_step {txProgress txWaiting : Bool} (here : tx.pump = .scan slot txProgress txWaiting)
    (inside : slot < ps2SmapTxSlots) (gnp : Bool) : ∃ txProgress' txWaiting',
      (tx.pumpStep gnp).pump = .scan (slot + 1) txProgress' txWaiting' ∧
      (tx.pumpStep gnp).txStallIters = tx.txStallIters ∧
      (∀ other, (tx.pumpStep gnp).txBusy other = true → tx.txBusy other = true) ∧
      (txProgress' = true → txProgress = true ∨ (tx.pumpStep gnp).busySlots.card < tx.busySlots.card) ∧
      (txWaiting' = false → txWaiting = false ∧ (tx.pumpStep gnp).txBusy slot = false) := by
  rw [pumpStep, here]
  dsimp only
  rw [if_pos inside]
  split_ifs with busy length
  · cases accepts : tx.smapIopSend (tx.slotBytes slot) gnp with
    | some sent =>
      have same : sent.txBusy = tx.txBusy ∧ sent.txStallIters = tx.txStallIters := by
        rw [smapIopSend] at accepts
        split_ifs at accepts
        cases accepts
        exact ⟨rfl, rfl⟩
      have cleared : (sent.freeWritten slot).txBusy = Function.update tx.txBusy slot false := by
        rw [freeWritten, same.1]
      have freed : (sent.freeWritten slot).txBusy slot = false := by rw [cleared, Function.update_self]
      have fewer (other : ℕ) (busy' : (sent.freeWritten slot).txBusy other = true) : tx.txBusy other = true :=
        busy_of_cleared cleared busy'
      exact ⟨true, txWaiting, rfl, same.2, fewer, fun _ => .inr (busySlots_card_lt fewer inside busy freed),
        fun still => ⟨still, freed⟩⟩
    | none =>
      refine ⟨txProgress, true, rfl, rfl, fun _ busy' => busy', .inl, fun never => ?_⟩
      cases never
  · have cleared : (tx.dropSlot slot).txBusy = Function.update tx.txBusy slot false := rfl
    have freed : (tx.dropSlot slot).txBusy slot = false := by rw [cleared, Function.update_self]
    exact ⟨txProgress, txWaiting, rfl, rfl, fun _ busy' => busy_of_cleared cleared busy', .inl, fun still => ⟨still, freed⟩⟩
  · exact ⟨txProgress, txWaiting, rfl, rfl, fun _ busy' => busy', .inl,
      fun still => ⟨still, Bool.eq_false_iff.mpr busy⟩⟩

/-- The scan comes to its end. -/
theorem scans {txProgress txWaiting : Bool} (here : tx.pump = .scan slot txProgress txWaiting) :
    Inevitable pumpStep (fun next => ∃ place txProgress' txWaiting', ps2SmapTxSlots ≤ place ∧
      next.pump = .scan place txProgress' txWaiting' ∧ tx.Scanned slot txProgress txWaiting next txProgress' txWaiting')
      tx := by
  induction left : ps2SmapTxSlots - slot generalizing tx slot txProgress txWaiting with
  | zero =>
    refine .now ⟨slot, txProgress, txWaiting, by omega, here, rfl, fun _ busy => busy, .inl, fun still => ⟨still, ?_⟩⟩
    intro other from_slot inside
    omega
  | succ count ih =>
    refine .later fun gnp => ?_
    obtain ⟨txProgress₁, txWaiting₁, there, stalls₁, fewer₁, progress₁, waiting₁⟩ := scan_step here (by omega) gnp
    refine (ih there (by omega)).mono fun next scanned => ?_
    obtain ⟨place, txProgress', txWaiting', outside, at_place, stalls, fewer, progress, waiting⟩ := scanned
    refine ⟨place, txProgress', txWaiting', outside, at_place, stalls.trans stalls₁,
      fun other busy => fewer₁ other (fewer other busy), fun going => ?_, fun still => ?_⟩
    · rcases progress going with before | lower
      · rcases progress₁ before with early | lower₁
        · exact .inl early
        · exact .inr (Nat.lt_of_le_of_lt (busySlots_card_le fewer) lower₁)
      · exact .inr (Nat.lt_of_lt_of_le lower (busySlots_card_le fewer₁))
    · obtain ⟨still₁, behind⟩ := waiting still
      obtain ⟨still₀, freed⟩ := waiting₁ still₁
      refine ⟨still₀, fun other from_slot inside => ?_⟩
      rcases Nat.eq_or_lt_of_le from_slot with rfl | after
      · cases busy : next.txBusy slot with
        | false => rfl
        | true =>
          rw [fewer slot busy] at freed
          cases freed
      · exact behind other after inside

/-- The slots are released. -/
theorem releases (here : tx.pump = .release slot) :
    Inevitable pumpStep (fun next => next.pump = .idle ∧
      ∀ other, next.txBusy other = true → tx.txBusy other = true ∧ (slot ≤ other → ps2SmapTxSlots ≤ other)) tx := by
  induction left : ps2SmapTxSlots - slot generalizing tx slot with
  | zero =>
    refine .later fun gnp => .now ?_
    rw [pumpStep, here]
    dsimp only
    rw [if_neg (by omega)]
    exact ⟨rfl, fun other busy => ⟨busy, fun from_slot => by omega⟩⟩
  | succ count ih =>
    refine .later fun gnp => ?_
    have stepped : (tx.pumpStep gnp).pump = .release (slot + 1) ∧ (tx.pumpStep gnp).txBusy slot = false ∧
        ∀ other, (tx.pumpStep gnp).txBusy other = true → tx.txBusy other = true := by
      rw [pumpStep, here]
      dsimp only
      rw [if_pos (by omega)]
      split_ifs with busy
      · have cleared : (tx.dropSlot slot).txBusy = Function.update tx.txBusy slot false := rfl
        exact ⟨rfl, by rw [cleared, Function.update_self], fun _ busy' => busy_of_cleared cleared busy'⟩
      · exact ⟨rfl, Bool.eq_false_iff.mpr busy, fun _ busy' => busy'⟩
    obtain ⟨there, freed, fewer⟩ := stepped
    refine (ih there (by omega)).mono fun next released => ?_
    obtain ⟨idle, rest⟩ := released
    refine ⟨idle, fun other busy => ?_⟩
    obtain ⟨before, behind⟩ := rest other busy
    refine ⟨fewer other before, fun from_slot => ?_⟩
    rcases Nat.eq_or_lt_of_le from_slot with rfl | after
    · rw [freed] at before
      cases before
    · exact behind after

/-- A round that frees no slot is counted, and the last that is allowed releases all of them. -/
theorem round (here : tx.pump = .idle) : Inevitable pumpStep (fun next => next.busySlots = ∅ ∨
    next.pump = .idle ∧ next.remaining < tx.remaining) tx := by
  refine .later fun gnp => ?_
  have begun : (tx.pumpStep gnp).pump = .reclaim := by rw [pumpStep, here]
  have same : (tx.pumpStep gnp).txBusy = tx.txBusy ∧ (tx.pumpStep gnp).txStallIters = tx.txStallIters := by
    rw [pumpStep, here]
    exact ⟨rfl, rfl⟩
  refine (reclaims begun).trans fun start started => ?_
  obtain ⟨at_start, busy₀, stalls₀⟩ := started
  rw [same.1] at busy₀
  rw [same.2] at stalls₀
  refine (scans at_start).trans fun last scanned => ?_
  obtain ⟨place, txProgress, txWaiting, outside, at_end, stalls, fewer, progress, waiting⟩ := scanned
  have cards : start.busySlots.card = tx.busySlots.card := by rw [busySlots, busy₀]; rfl
  rw [cards] at progress
  have fewer' : last.busySlots.card ≤ tx.busySlots.card := cards ▸ busySlots_card_le fewer
  have limit : smapTxStallLimit = 64 := rfl
  cases still : txWaiting with
  | false =>
    refine .now (.inl (Finset.eq_empty_of_forall_notMem fun other member => ?_))
    obtain ⟨inside, busy⟩ := mem_busySlots.mp member
    rw [(waiting still).2 other (Nat.zero_le _) inside] at busy
    cases busy
  | true =>
    refine .later fun gnp => ?_
    rw [pumpStep, at_end]
    dsimp only
    rw [if_neg (Nat.not_lt.mpr outside)]
    split_ifs with going stalled
    · have lower : last.busySlots.card < tx.busySlots.card := by
        rcases going with going | never
        · exact (progress going).resolve_left Bool.false_ne_true
        · rw [still] at never
          cases never
      refine .now (.inr ⟨rfl, ?_⟩)
      rw [remaining, remaining, limit]
      change (64 + 1) * last.busySlots.card + (64 - 0) < _
      omega
    · have at_release : ({ last with txStallIters := last.txStallIters + 1, pump := .release 0 } : SmapTx).pump =
          .release 0 := rfl
      refine (releases at_release).mono fun next done => .inl (Finset.eq_empty_of_forall_notMem fun other member => ?_)
      obtain ⟨inside, busy⟩ := mem_busySlots.mp member
      exact absurd ((done.2 other busy).2 (Nat.zero_le _)) (Nat.not_le.mpr inside)
    · refine .now (.inr ⟨rfl, ?_⟩)
      rw [stalls, stalls₀] at stalled
      rw [remaining, remaining]
      change (smapTxStallLimit + 1) * last.busySlots.card + (smapTxStallLimit - (last.txStallIters + 1)) < _
      rw [stalls, stalls₀]
      rw [limit] at stalled ⊢
      omega

/-- From wherever it stands, the pump comes to the end of its round. -/
theorem comes_idle : Inevitable pumpStep (fun next => next.pump = .idle) tx := by
  have scanning (source : SmapTx) (place : ℕ) (txProgress txWaiting : Bool)
      (here : source.pump = .scan place txProgress txWaiting) : Inevitable pumpStep (fun next => next.pump = .idle) source := by
    refine (scans here).trans fun last scanned => ?_
    obtain ⟨place', txProgress', txWaiting', outside, at_end, -⟩ := scanned
    refine .later fun gnp => ?_
    rw [pumpStep, at_end]
    dsimp only
    rw [if_neg (Nat.not_lt.mpr outside)]
    split_ifs with going stalled
    · exact .now rfl
    · have at_release : ({ last with txStallIters := last.txStallIters + 1, pump := .release 0 } : SmapTx).pump =
          .release 0 := rfl
      exact (releases at_release).mono fun next done => done.1
    · exact .now rfl
  cases here : tx.pump with
  | idle => exact .now here
  | reclaim => exact (reclaims here).trans fun next started => scanning next 0 false false started.1
  | scan place txProgress txWaiting => exact scanning tx place txProgress txWaiting here
  | release place => exact (releases here).mono fun next done => done.1

/-- The slots get empty. -/
theorem empties : Inevitable pumpStep (fun next => next.busySlots = ∅) tx :=
  comes_idle.trans fun _ idle => .of_measure remaining (fun _ here => round here) idle

/-- The pump stages nothing. -/
theorem pumpStep_sent (gnp : Bool) : (tx.pumpStep gnp).sent = tx.sent := by
  rw [pumpStep]
  cases tx.pump with
  | idle => rfl
  | reclaim =>
    dsimp only
    split_ifs <;> rfl
  | scan slot txProgress txWaiting =>
    dsimp only
    rw [smapIopSend]
    split_ifs <;> rfl
  | release slot =>
    dsimp only
    split_ifs <;> rfl

theorem pumpSteps_staged (tx : SmapTx) (answers : List Bool) : (answers.foldl pumpStep tx).sent = tx.sent ∧
    (answers.foldl pumpStep tx).pendingSubmits = tx.pendingSubmits := by
  induction answers generalizing tx with
  | nil => exact ⟨rfl, rfl⟩
  | cons gnp rest ih =>
    have later := ih (tx.pumpStep gnp)
    have queue : (tx.pumpStep gnp).pendingSubmits = tx.pendingSubmits := (pumpStep_queue gnp).1
    exact ⟨later.1.trans (pumpStep_sent gnp), later.2.trans queue⟩

/-- With no slot busy and none staged, no slot holds a frame. -/
theorem frameTable_empty (counts : tx.Counts) (flushed : tx.pendingSubmits = []) (empty : tx.busySlots = ∅) :
    tx.frameTable.reduceOption = [] := by
  rw [List.eq_nil_iff_forall_not_mem]
  intro frame member
  obtain ⟨slot, held⟩ := SlotTable.mem_iff.mp member
  rcases Nat.lt_or_ge slot ps2SmapTxSlots with inside | outside
  · have busy : tx.txBusy slot = false := by
      cases busy : tx.txBusy slot with
      | false => rfl
      | true =>
        have member := mem_busySlots.mpr ⟨inside, busy⟩
        rw [empty] at member
        cases member
    have claimed : tx.txClaimed slot = false := by
      cases claimed : tx.txClaimed slot with
      | false => rfl
      | true =>
        obtain ⟨entry, staged, -⟩ := counts.staged slot claimed
        rw [flushed] at staged
        cases staged
    rw [frameTable_at inside, counts.holds_free claimed busy] at held
    cases held
  · rw [frameTable_outside outside] at held
    cases held

/-- What the pump does loses no call. -/
theorem submitReaches_pumps (answers : List Bool) : smapTx.Along SubmitReaches tx (answers.map Event.pump) := by
  have pumps : ∀ event ∈ answers.map Event.pump, ∃ gnp, event = .pump gnp := by
    intro event member
    obtain ⟨gnp, -, rfl⟩ := List.mem_map.mp member
    exact ⟨gnp, rfl⟩
  refine LabeledMachine.Along.imp (fun _ _ _ _ _ _ => trivial) (fun source event _ met => ?_) trivial
    (LabeledMachine.Along.of_events pumps)
  obtain ⟨gnp, rfl⟩ := met
  trivial

end Drain

end SmapTx

open SmapTx

end KosTool.Ps2
