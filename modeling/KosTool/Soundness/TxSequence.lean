import KosTool.Model.Ps2.SmapTx

/-! # The sequence numbers of the transmit slots

The other processor counts a slot when it stages it, and the handler when it takes the slot over. Of the entries that are
staged the handler has either taken over those up to where a call is, or all of them, as long as every single submit
reaches it; so behind a flush both have counted alike.
-/

namespace KosTool.Ps2

open ByteWord Machine

theorem txSlotNext_lt {slot : ℕ} (inside : slot < ps2SmapTxSlots) : txSlotNext slot < ps2SmapTxSlots := by
  rw [txSlotNext]
  split_ifs <;> omega

/-- A frame that is sent has a good length. -/
def SentLength (frame : List Byte) : Prop := 14 ≤ frame.length ∧ frame.length ≤ ps2SmapFrameMax

/-- The frame that a caller of a flush has. -/
def TxCaller.Good : TxCaller → Prop
  | .full frame | .drain frame => SentLength frame
  | .outside | .staged => True

/-- A call has a good frame, and stands at a slot. -/
def TxCall.Good : TxCall → Prop
  | .idle => True
  | .scan frame slot _ _ => SentLength frame ∧ slot < ps2SmapTxSlots
  | .flush caller | .batch caller | .fallback caller _ _ | .single caller _ _ => caller.Good

namespace SmapTx

/-- The handler has taken the slot of an entry over. -/
def Committed (tx : SmapTx) (entry : TxSubmit) : Prop := tx.txSeq entry.slot.toNat = entry.seq + 1

/-- The handler has not, and would. -/
def Open (tx : SmapTx) (entry : TxSubmit) : Prop :=
  tx.txSeq entry.slot.toNat = entry.seq ∧ tx.txBusy entry.slot.toNat = false

/-- The handler has taken the first entries of the queue over. -/
def Split (tx : SmapTx) (count : ℕ) : Prop :=
  ∀ k entry, tx.pendingSubmits[k]? = some entry → if k < count then tx.Committed entry else tx.Open entry

/-- How far the handler is with the queue. -/
def Progress (tx : SmapTx) : Prop :=
  match tx.call with
  | .batch _ => tx.pendingSubmits ≠ [] ∧
    match tx.rpc with
    | .asked batch | .checking batch _ => batch = tx.pendingSubmits ∧ tx.Split 0
    | .commit batch i => batch = tx.pendingSubmits ∧ tx.Split i
    | .answered rc => rc = .ok ∧ tx.Split tx.pendingSubmits.length
    | _ => False
  | .fallback _ i _ => tx.rpc = .idle ∧ (tx.Split i ∨ tx.Split tx.pendingSubmits.length)
  | .single _ i _ =>
    match tx.rpc with
    | .askedSingle entry =>
      tx.pendingSubmits[i]? = some entry ∧ (tx.Split i ∨ tx.Split tx.pendingSubmits.length)
    | .answered _ => tx.Split (i + 1) ∨ tx.Split tx.pendingSubmits.length
    | _ => False
  | _ => tx.rpc = .idle ∧ tx.Split 0

/-- How long the queue gets. -/
def submitLimit (tx : SmapTx) : ℕ :=
  match tx.call with
  | .idle | .scan _ _ _ _ => ps2SmapSubmitBatchMax - 1
  | _ => ps2SmapSubmitBatchMax

/-- An entry of the queue as it was staged. -/
structure StagedEntry (tx : SmapTx) (entry : TxSubmit) : Prop where
  inside : entry.slot.toNat < ps2SmapTxSlots
  length : smapRxMinSize ≤ entry.len.toNat ∧ entry.len.toNat ≤ ps2SmapFrameMax
  seq : tx.eeTxSeq entry.slot.toNat = entry.seq + 1
  claimed : tx.txClaimed entry.slot.toNat = true

/-- The queue and the sequence numbers. -/
structure Counts (tx : SmapTx) : Prop where
  next : tx.txNextSlot < ps2SmapTxSlots
  good : tx.call.Good
  short : tx.pendingSubmits.length ≤ tx.submitLimit
  entries : ∀ entry ∈ tx.pendingSubmits, tx.StagedEntry entry
  apart : (tx.pendingSubmits.map fun entry => entry.slot.toNat).Nodup
  staged : ∀ slot, tx.txClaimed slot = true → ∃ entry ∈ tx.pendingSubmits, entry.slot.toNat = slot
  alike : ∀ slot, tx.txClaimed slot = false → tx.eeTxSeq slot = tx.txSeq slot
  progress : tx.Progress

section Sequence

variable {tx next : SmapTx}

theorem initial_counts : initial.Counts where
  next := by decide
  good := trivial
  short := Nat.zero_le _
  entries := nofun
  apart := List.nodup_nil
  staged := nofun
  alike _ _ := rfl
  progress := ⟨rfl, nofun⟩

theorem StagedEntry.of_same {entry : TxSubmit} (staged : tx.StagedEntry entry) (ee : next.eeTxSeq = tx.eeTxSeq)
    (claimed : next.txClaimed = tx.txClaimed) : next.StagedEntry entry :=
  ⟨staged.inside, staged.length, by rw [ee]; exact staged.seq, by rw [claimed]; exact staged.claimed⟩

/-- An open entry is accepted. -/
theorem Counts.check_open (counts : tx.Counts) {entry : TxSubmit} (member : entry ∈ tx.pendingSubmits)
    (unseen : tx.Open entry) : tx.checkSubmit entry = .ok := by
  obtain ⟨inside, length, -, -⟩ := counts.entries entry member
  rw [checkSubmit, if_neg (Nat.not_le.mpr inside),
    if_neg (not_or.mpr ⟨Nat.not_lt.mpr length.1, Nat.not_lt.mpr length.2⟩), if_neg (not_not.mpr unseen.1.symm), unseen.2,
    if_neg Bool.false_ne_true]

/-- An entry that is taken over is refused. -/
theorem Counts.check_committed (counts : tx.Counts) {entry : TxSubmit} (member : entry ∈ tx.pendingSubmits)
    (seen : tx.Committed entry) : tx.checkSubmit entry = .badSeq := by
  obtain ⟨inside, length, -, -⟩ := counts.entries entry member
  have later : entry.seq ≠ tx.txSeq entry.slot.toNat := by
    rw [seen]
    bv_omega
  rw [checkSubmit, if_neg (Nat.not_le.mpr inside),
    if_neg (not_or.mpr ⟨Nat.not_lt.mpr length.1, Nat.not_lt.mpr length.2⟩), if_pos later]

/-- Two places of the queue have two slots. -/
theorem Counts.slot_ne (counts : tx.Counts) {i k : ℕ} {entry other : TxSubmit} (at_i : tx.pendingSubmits[i]? = some entry)
    (at_k : tx.pendingSubmits[k]? = some other) (distinct : k ≠ i) : other.slot.toNat ≠ entry.slot.toNat := by
  obtain ⟨below, rfl⟩ := List.getElem?_eq_some_iff.mp at_i
  obtain ⟨below', rfl⟩ := List.getElem?_eq_some_iff.mp at_k
  intro same
  have left : i < (tx.pendingSubmits.map fun entry => entry.slot.toNat).length := by rwa [List.length_map]
  have right : k < (tx.pendingSubmits.map fun entry => entry.slot.toNat).length := by rwa [List.length_map]
  have equal : (tx.pendingSubmits.map fun entry => entry.slot.toNat)[k] =
      (tx.pendingSubmits.map fun entry => entry.slot.toNat)[i] := by
    rw [List.getElem_map, List.getElem_map]
    exact same
  exact distinct (counts.apart.getElem_inj_iff.mp equal)

theorem Split.open_of_le {count k : ℕ} {entry : TxSubmit} (split : tx.Split count) (behind : count ≤ k)
    (at_k : tx.pendingSubmits[k]? = some entry) : tx.Open entry := by
  have here := split k entry at_k
  rwa [if_neg (Nat.not_lt.mpr behind)] at here

theorem Split.committed_of_lt {count k : ℕ} {entry : TxSubmit} (split : tx.Split count) (before : k < count)
    (at_k : tx.pendingSubmits[k]? = some entry) : tx.Committed entry := by
  have here := split k entry at_k
  rwa [if_pos before] at here

/-- Behind the end of the queue all of it is taken over. -/
theorem Split.all {count : ℕ} (split : tx.Split count) (whole : tx.pendingSubmits.length ≤ count) :
    tx.Split tx.pendingSubmits.length := by
  intro k entry at_k
  have below := (List.getElem?_eq_some_iff.mp at_k).1
  rw [if_pos below]
  exact split.committed_of_lt (Nat.lt_of_lt_of_le below whole) at_k

/-- The queue and what the handler knows of it are the same, and no slot is busy that was not. -/
theorem Split.of_same {count : ℕ} (split : tx.Split count) (pending : next.pendingSubmits = tx.pendingSubmits)
    (seq : next.txSeq = tx.txSeq) (busy : ∀ slot, tx.txBusy slot = false → next.txBusy slot = false) : next.Split count := by
  intro k entry at_k
  rw [pending] at at_k
  have here := split k entry at_k
  rw [Committed, Open, seq]
  split_ifs at here ⊢ with before
  · exact here
  · exact ⟨here.1, busy _ here.2⟩

/-- The next entry is taken over. -/
theorem Split.commit {i : ℕ} {entry : TxSubmit} (split : tx.Split i) (counts : tx.Counts)
    (at_i : tx.pendingSubmits[i]? = some entry) : (tx.commitSubmit entry).Split (i + 1) := by
  intro k other at_k
  have here := split k other at_k
  rw [Committed, Open, commitSubmit]
  rcases Nat.lt_trichotomy k i with before | rfl | behind
  · have distinct := counts.slot_ne at_i at_k (Nat.ne_of_lt before)
    rw [if_pos before] at here
    rw [if_pos (Nat.lt_succ_of_lt before)]
    exact (Function.update_of_ne distinct _ _).trans here
  · cases at_i.symm.trans at_k
    rw [if_neg (Nat.lt_irrefl _)] at here
    rw [if_pos (Nat.lt_succ_self _)]
    dsimp only
    rw [Function.update_self, here.1]
  · have distinct := counts.slot_ne at_i at_k (Nat.ne_of_gt behind)
    rw [if_neg (Nat.lt_asymm behind)] at here
    rw [if_neg (by omega)]
    exact ⟨(Function.update_of_ne distinct _ _).trans here.1, (Function.update_of_ne distinct _ _).trans here.2⟩

/-- Only where the calls are changes. -/
theorem Counts.goto (counts : tx.Counts) {call : TxCall} {rpc : SubmitRpc} (good : call.Good)
    (short : tx.pendingSubmits.length ≤ submitLimit { tx with call := call, rpc := rpc })
    (progress : Progress { tx with call := call, rpc := rpc }) : Counts { tx with call := call, rpc := rpc } :=
  ⟨counts.next, good, short, fun entry member => (counts.entries entry member).of_same rfl rfl, counts.apart,
    counts.staged, counts.alike, progress⟩

/-- What is of no matter to the sequence numbers may change, and slots may become free. -/
theorem Counts.of_same (counts : tx.Counts) (pending : next.pendingSubmits = tx.pendingSubmits)
    (claimed : next.txClaimed = tx.txClaimed) (ee : next.eeTxSeq = tx.eeTxSeq) (iop : next.txSeq = tx.txSeq)
    (slot : next.txNextSlot = tx.txNextSlot) (call : next.call = tx.call) (rpc : next.rpc = tx.rpc)
    (busy : ∀ slot, tx.txBusy slot = false → next.txBusy slot = false) : next.Counts where
  next := by rw [slot]; exact counts.next
  good := by rw [call]; exact counts.good
  short := by rw [pending, submitLimit, call]; exact counts.short
  entries entry member := by
    rw [pending] at member
    exact (counts.entries entry member).of_same ee claimed
  apart := by rw [pending]; exact counts.apart
  staged slot claims := by
    rw [claimed] at claims
    rw [pending]
    exact counts.staged slot claims
  alike slot free := by
    rw [claimed] at free
    rw [ee, iop]
    exact counts.alike slot free
  progress := by
    have progress := counts.progress
    have split {count : ℕ} (before : tx.Split count) : next.Split count := before.of_same pending iop busy
    rw [Progress] at progress ⊢
    rw [call, rpc, pending]
    cases here : tx.call with
    | batch caller =>
      rw [here] at progress
      refine ⟨progress.1, ?_⟩
      have asked := progress.2
      cases there : tx.rpc with
      | asked batch | checking batch i | commit batch i | answered rc =>
        rw [there] at asked
        exact ⟨asked.1, split asked.2⟩
      | idle | askedSingle entry =>
        rw [there] at asked
        exact asked
    | fallback caller i rc =>
      rw [here] at progress
      exact ⟨progress.1, progress.2.imp split split⟩
    | single caller i rc =>
      rw [here] at progress
      cases there : tx.rpc with
      | askedSingle entry =>
        rw [there] at progress
        exact ⟨progress.1, progress.2.imp split split⟩
      | answered rc =>
        rw [there] at progress
        exact progress.imp split split
      | idle | asked batch | checking batch i | commit batch i =>
        rw [there] at progress
        exact progress
    | idle | scan frame slot scanned waits | flush caller =>
      rw [here] at progress
      exact ⟨progress.1, split progress.2⟩

/-- The handler takes the next entry over. -/
theorem Counts.commit (counts : tx.Counts) {entry : TxSubmit} (member : entry ∈ tx.pendingSubmits) {rpc : SubmitRpc}
    (progress : Progress { tx.commitSubmit entry with rpc := rpc }) : Counts { tx.commitSubmit entry with rpc := rpc } where
  next := counts.next
  good := counts.good
  short := counts.short
  entries other member := (counts.entries other member).of_same rfl rfl
  apart := counts.apart
  staged := counts.staged
  alike slot free := by
    change tx.txClaimed slot = false at free
    have other : slot ≠ entry.slot.toNat := by
      rintro rfl
      rw [(counts.entries entry member).claimed] at free
      cases free
    change _ = Function.update tx.txSeq entry.slot.toNat _ slot
    rw [Function.update_of_ne other]
    exact counts.alike slot free
  progress := progress

/-- What the handler works on is the queue, or an entry of it. -/
theorem Counts.working (counts : tx.Counts) :
    match tx.rpc with
    | .asked batch | .checking batch _ =>
      ∃ caller, tx.call = .batch caller ∧ tx.pendingSubmits ≠ [] ∧ batch = tx.pendingSubmits ∧ tx.Split 0
    | .commit batch i =>
      ∃ caller, tx.call = .batch caller ∧ tx.pendingSubmits ≠ [] ∧ batch = tx.pendingSubmits ∧ tx.Split i
    | .askedSingle entry => ∃ caller i rc, tx.call = .single caller i rc ∧ tx.pendingSubmits[i]? = some entry ∧
        (tx.Split i ∨ tx.Split tx.pendingSubmits.length)
    | _ => True := by
  have progress := counts.progress
  rw [Progress] at progress
  cases here : tx.call with
  | batch caller =>
    rw [here] at progress
    obtain ⟨waiting, asked⟩ := progress
    cases there : tx.rpc with
    | idle | answered rc => trivial
    | askedSingle entry =>
      rw [there] at asked
      exact asked.elim
    | asked batch | checking batch i | commit batch i =>
      rw [there] at asked
      exact ⟨caller, rfl, waiting, asked⟩
  | single caller i rc =>
    rw [here] at progress
    cases there : tx.rpc with
    | idle | answered rc => trivial
    | askedSingle entry =>
      rw [there] at progress
      exact ⟨caller, i, rc, rfl, progress⟩
    | asked batch | checking batch i | commit batch i =>
      rw [there] at progress
      exact progress.elim
  | idle | scan frame slot scanned waits | flush caller | fallback caller i rc =>
    rw [here] at progress
    rw [progress.1]
    trivial

/-- A step of the handler. -/
theorem Counts.serve (counts : tx.Counts) (stepped : tx.serveStep = some next) : next.Counts := by
  have working := counts.working
  have short := counts.short
  rw [serveStep] at stepped
  cases asked : tx.rpc with
  | idle | answered rc =>
    rw [asked] at stepped
    cases stepped
  | asked batch =>
    rw [asked] at working stepped
    obtain ⟨caller, here, waiting, rfl, split⟩ := working
    rw [submitLimit, here] at short
    have fits : ¬(tx.pendingSubmits.length = 0 ∨ ps2SmapSubmitBatchMax < tx.pendingSubmits.length) := by
      rw [not_or, List.length_eq_zero_iff]
      exact ⟨waiting, Nat.not_lt.mpr short⟩
    dsimp only at stepped
    rw [if_neg fits] at stepped
    cases stepped
    refine counts.goto counts.good counts.short ?_
    rw [Progress]
    dsimp only
    rw [here]
    exact ⟨waiting, rfl, split⟩
  | checking batch i =>
    rw [asked] at working stepped
    obtain ⟨caller, here, waiting, rfl, split⟩ := working
    dsimp only at stepped
    cases at_i : tx.pendingSubmits[i]? with
    | some entry =>
      rw [at_i] at stepped
      dsimp only at stepped
      rw [counts.check_open (List.mem_of_getElem? at_i) (split.open_of_le (Nat.zero_le _) at_i)] at stepped
      cases stepped
      refine counts.goto counts.good counts.short ?_
      rw [Progress]
      dsimp only
      rw [here]
      exact ⟨waiting, rfl, split⟩
    | none =>
      rw [at_i] at stepped
      cases stepped
      refine counts.goto counts.good counts.short ?_
      rw [Progress]
      dsimp only
      rw [here]
      exact ⟨waiting, rfl, split⟩
  | commit batch i =>
    rw [asked] at working stepped
    obtain ⟨caller, here, waiting, rfl, split⟩ := working
    dsimp only at stepped
    cases at_i : tx.pendingSubmits[i]? with
    | some entry =>
      rw [at_i] at stepped
      cases stepped
      refine counts.commit (List.mem_of_getElem? at_i) ?_
      rw [Progress]
      dsimp only [commitSubmit]
      rw [here]
      exact ⟨waiting, rfl, split.commit counts at_i⟩
    | none =>
      rw [at_i] at stepped
      cases stepped
      refine counts.goto counts.good counts.short ?_
      rw [Progress]
      dsimp only
      rw [here]
      exact ⟨waiting, rfl, split.all (List.getElem?_eq_none_iff.mp at_i)⟩
  | askedSingle entry =>
    rw [asked] at working stepped
    obtain ⟨caller, i, rc, here, at_i, split⟩ := working
    have member : entry ∈ tx.pendingSubmits := List.mem_of_getElem? at_i
    dsimp only at stepped
    rcases split with split | split
    · rw [counts.check_open member (split.open_of_le le_rfl at_i)] at stepped
      cases stepped
      refine counts.commit member ?_
      rw [Progress]
      dsimp only [commitSubmit]
      rw [here]
      exact .inl (split.commit counts at_i)
    · have below := (List.getElem?_eq_some_iff.mp at_i).1
      rw [counts.check_committed member (split.committed_of_lt below at_i)] at stepped
      cases stepped
      refine counts.goto counts.good counts.short ?_
      rw [Progress]
      dsimp only
      rw [here]
      exact .inr split

/-- A call returns to where it came from, with a queue that is taken over as a whole cleared. -/
theorem Counts.cleared (counts : tx.Counts) (split : tx.Split tx.pendingSubmits.length) {call : TxCall} (good : call.Good)
    (progress : Progress { tx with pendingSubmits := [], txClaimed := fun _ => false, rpc := .idle, call := call }) :
    Counts { tx with pendingSubmits := [], txClaimed := fun _ => false, rpc := .idle, call := call } where
  next := counts.next
  good := good
  short := Nat.zero_le _
  entries := nofun
  apart := List.nodup_nil
  staged := nofun
  alike slot _ := by
    change tx.eeTxSeq slot = tx.txSeq slot
    cases claims : tx.txClaimed slot with
    | false => exact counts.alike slot claims
    | true =>
      obtain ⟨entry, member, rfl⟩ := counts.staged slot claims
      obtain ⟨k, at_k⟩ := List.mem_iff_getElem?.mp member
      have below := (List.getElem?_eq_some_iff.mp at_k).1
      rw [(counts.entries entry member).seq]
      exact (split.committed_of_lt below at_k).symm
  progress := progress

/-- A flush that has cleared the queue returns. -/
theorem Counts.flushed (counts : tx.Counts) (split : tx.Split tx.pendingSubmits.length) {caller : TxCaller}
    (good : caller.Good) (rc : ℤ) : ({ tx with rpc := .idle }.clearSubmits.flushReturns rc caller).Counts := by
  cases caller with
  | outside | staged => exact counts.cleared split trivial ⟨rfl, nofun⟩
  | full frame =>
    rw [flushReturns]
    split_ifs with failed
    · exact counts.cleared split trivial ⟨rfl, nofun⟩
    · exact counts.cleared split ⟨good, counts.next⟩ ⟨rfl, nofun⟩
  | drain frame => exact counts.cleared split ⟨good, counts.next⟩ ⟨rfl, nofun⟩

/-- `ps2_smap_send` takes a slot. -/
theorem Counts.takeSlot (counts : tx.Counts) {frame : List Byte} {slot scanned : ℕ} {waits : Bool}
    (here : tx.call = .scan frame slot scanned waits) (claimed : tx.txClaimed slot = false)
    (busy : tx.txBusy slot = false) (fails : Option ℕ) : (tx.takeSlot frame slot fails).Counts := by
  have good := counts.good
  have short := counts.short
  have progress := counts.progress
  rw [here] at good
  rw [submitLimit, here] at short
  rw [Progress, here] at progress
  obtain ⟨length, inside⟩ := good
  obtain ⟨idle, split⟩ := progress
  have wrapped := txSlotNext_lt inside
  cases fails with
  | some count =>
    exact ⟨wrapped, trivial, short, fun entry member => (counts.entries entry member).of_same rfl rfl, counts.apart,
      counts.staged, counts.alike, idle, split⟩
  | none =>
    have value : (BitVec.ofNat 32 slot).toNat = slot := by
      rw [BitVec.toNat_ofNat]
      change slot < 16 at inside
      omega
    have size : (BitVec.ofNat 32 frame.length).toNat = frame.length := by
      have small := length.2
      change frame.length ≤ 1518 at small
      rw [BitVec.toNat_ofNat]
      omega
    have other (entry : TxSubmit) (member : entry ∈ tx.pendingSubmits) : entry.slot.toNat ≠ slot := by
      intro same
      have claims := (counts.entries entry member).claimed
      rw [same, claimed] at claims
      cases claims
    have grown : (tx.pendingSubmits ++ [(⟨BitVec.ofNat 32 slot, BitVec.ofNat 32 frame.length, tx.eeTxSeq slot⟩ :
        TxSubmit)]).length = tx.pendingSubmits.length + 1 := List.length_append
    refine ⟨wrapped, ?_, ?_, ?_, ?_, ?_, ?_, ?_⟩
    · dsimp only [SmapTx.takeSlot]
      split_ifs <;> trivial
    · dsimp only [SmapTx.takeSlot, submitLimit]
      rw [grown]
      simp only [ps2SmapSubmitBatchMax] at short ⊢
      split_ifs with full
      · exact Nat.succ_le_succ short
      · exact Nat.le_of_lt_succ (Nat.lt_of_not_le full)
    · intro entry member
      rcases List.mem_append.mp member with old | new
      · obtain ⟨below, fits, seq, claims⟩ := counts.entries entry old
        refine ⟨below, fits, ?_, ?_⟩
        · exact (Function.update_of_ne (other entry old) _ _).trans seq
        · exact (Function.update_of_ne (other entry old) _ _).trans claims
      · cases List.mem_singleton.mp new
        refine ⟨?_, ?_, ?_, ?_⟩
        · exact value.trans_lt inside
        · dsimp only
          rw [size]
          exact length
        · dsimp only [SmapTx.takeSlot]
          rw [value, Function.update_self]
        · dsimp only [SmapTx.takeSlot]
          rw [value, Function.update_self]
    · dsimp only [SmapTx.takeSlot]
      rw [List.map_append, List.map_singleton, List.nodup_append]
      refine ⟨counts.apart, List.nodup_singleton _, ?_⟩
      intro old inOld new inNew
      obtain ⟨entry, member, rfl⟩ := List.mem_map.mp inOld
      cases List.mem_singleton.mp inNew
      rw [value]
      exact other entry member
    · intro held claims
      change Function.update tx.txClaimed slot true held = true at claims
      by_cases same : held = slot
      · exact ⟨_, List.mem_append_right _ (List.mem_singleton_self _), value.trans same.symm⟩
      · rw [Function.update_of_ne same] at claims
        obtain ⟨entry, member, there⟩ := counts.staged held claims
        exact ⟨entry, List.mem_append_left _ member, there⟩
    · intro held free
      change Function.update tx.txClaimed slot true held = false at free
      have apart : held ≠ slot := by
        rintro rfl
        rw [Function.update_self] at free
        cases free
      rw [Function.update_of_ne apart] at free
      exact (Function.update_of_ne apart _ _).trans (counts.alike held free)
    · have staged : (tx.takeSlot frame slot none).Split 0 := by
        intro k entry at_k
        rw [if_neg (Nat.not_lt_zero k)]
        rcases List.mem_append.mp (List.mem_of_getElem? at_k) with old | new
        · obtain ⟨place, at_place⟩ := List.mem_iff_getElem?.mp old
          exact split.open_of_le (Nat.zero_le _) at_place
        · cases List.mem_singleton.mp new
          constructor
          · exact (congrArg tx.txSeq value).trans (counts.alike slot claimed).symm
          · exact (congrArg tx.txBusy value).trans busy
      rw [Progress]
      by_cases full : ps2SmapSubmitBatchMax ≤ (tx.pendingSubmits ++ [(⟨BitVec.ofNat 32 slot, BitVec.ofNat 32 frame.length,
          tx.eeTxSeq slot⟩ : TxSubmit)]).length
      · have call : (tx.takeSlot frame slot none).call = .flush .staged := if_pos full
        rw [call]
        exact ⟨idle, staged⟩
      · have call : (tx.takeSlot frame slot none).call = .idle := if_neg full
        rw [call]
        exact ⟨idle, staged⟩

/-- A step of the other processor. -/
theorem Counts.resume (counts : tx.Counts) {elapsed : Bool} {fails : Option ℕ}
    (stepped : tx.callStep elapsed fails = some next) : next.Counts := by
  have good := counts.good
  have short := counts.short
  have progress := counts.progress
  rw [Progress] at progress
  rw [callStep] at stepped
  cases here : tx.call with
  | idle =>
    rw [here] at stepped
    cases stepped
  | scan frame slot scanned waits =>
    rw [here] at good progress stepped
    rw [submitLimit, here] at short
    have again : (tx.scanFrom frame true).Counts := counts.goto ⟨good.1, counts.next⟩ short progress
    dsimp only at stepped
    split_ifs at stepped with more free waiting late empty
    · cases stepped
      exact counts.takeSlot here free.1 free.2 fails
    · cases stepped
      exact counts.goto ⟨good.1, txSlotNext_lt good.2⟩ short progress
    · cases stepped
      exact counts.goto trivial short progress
    · cases stepped
      exact again
    · cases stepped
      exact again
    · cases stepped
      exact counts.goto good.1 (Nat.le_succ_of_le short) progress
  | flush caller =>
    rw [here] at good progress stepped
    rw [submitLimit, here] at short
    dsimp only at stepped
    split_ifs at stepped with empty
    · cases stepped
      have unclaimed : tx.txClaimed = fun _ => false := by
        funext slot
        cases claims : tx.txClaimed slot with
        | false => rfl
        | true =>
          obtain ⟨entry, member, -⟩ := counts.staged slot claims
          rw [empty] at member
          cases member
      have same : ({ tx with rpc := .idle } : SmapTx).clearSubmits = tx := by
        rw [clearSubmits, ← unclaimed, ← empty, ← progress.1]
      have flushed := counts.flushed (progress.2.all (by rw [empty]; exact Nat.zero_le _)) good 0
      rw [same] at flushed
      exact flushed
    · cases stepped
      exact counts.goto good short ⟨empty, rfl, progress.2⟩
  | batch caller =>
    rw [here] at good progress stepped
    rw [submitLimit, here] at short
    dsimp only at stepped progress
    cases asked : tx.rpc with
    | answered rc =>
      rw [asked] at progress stepped
      obtain ⟨waiting, rfl, split⟩ := progress
      cases stepped
      exact counts.flushed split good 0
    | idle | asked batch | checking batch i | commit batch i | askedSingle entry =>
      rw [asked] at stepped
      cases stepped
  | fallback caller i rcFallback =>
    rw [here] at good progress stepped
    rw [submitLimit, here] at short
    dsimp only at stepped progress
    cases at_i : tx.pendingSubmits[i]? with
    | some entry =>
      rw [at_i] at stepped
      cases stepped
      exact counts.goto good short ⟨at_i, progress.2⟩
    | none =>
      rw [at_i] at stepped
      cases stepped
      have split : tx.Split tx.pendingSubmits.length := by
        rcases progress.2 with split | split
        · exact split.all (List.getElem?_eq_none_iff.mp at_i)
        · exact split
      have flushed := counts.flushed split good rcFallback
      rw [← progress.1] at flushed
      exact flushed
  | single caller i rcFallback =>
    rw [here] at good progress stepped
    rw [submitLimit, here] at short
    dsimp only at stepped progress
    cases asked : tx.rpc with
    | answered rc =>
      rw [asked] at progress stepped
      cases stepped
      exact counts.goto good short ⟨rfl, progress⟩
    | idle | asked batch | checking batch j | commit batch j | askedSingle entry =>
      rw [asked] at stepped
      cases stepped

/-- A step of the frame pump frees slots, and touches nothing else of the queue. -/
theorem pumpStep_queue (gnp : Bool) : (tx.pumpStep gnp).pendingSubmits = tx.pendingSubmits ∧
    (tx.pumpStep gnp).txClaimed = tx.txClaimed ∧ (tx.pumpStep gnp).eeTxSeq = tx.eeTxSeq ∧
    (tx.pumpStep gnp).txSeq = tx.txSeq ∧ (tx.pumpStep gnp).txNextSlot = tx.txNextSlot ∧
    (tx.pumpStep gnp).call = tx.call ∧ (tx.pumpStep gnp).rpc = tx.rpc ∧
    ∀ slot, tx.txBusy slot = false → (tx.pumpStep gnp).txBusy slot = false := by
  have cleared (place slot : ℕ) (free : tx.txBusy slot = false) : Function.update tx.txBusy place false slot = false := by
    rw [Function.update_apply]
    split_ifs
    · rfl
    · exact free
  rw [SmapTx.pumpStep]
  cases tx.pump with
  | idle => exact ⟨rfl, rfl, rfl, rfl, rfl, rfl, rfl, fun _ free => free⟩
  | reclaim =>
    dsimp only
    split_ifs <;> exact ⟨rfl, rfl, rfl, rfl, rfl, rfl, rfl, fun _ free => free⟩
  | scan slot txProgress txWaiting =>
    dsimp only
    split_ifs with inside busy fits going stalled
    · rw [smapIopSend]
      split_ifs
      all_goals first
        | exact ⟨rfl, rfl, rfl, rfl, rfl, rfl, rfl, fun _ free => free⟩
        | exact ⟨rfl, rfl, rfl, rfl, rfl, rfl, rfl, cleared slot⟩
    · exact ⟨rfl, rfl, rfl, rfl, rfl, rfl, rfl, cleared slot⟩
    all_goals exact ⟨rfl, rfl, rfl, rfl, rfl, rfl, rfl, fun _ free => free⟩
  | release slot =>
    dsimp only
    split_ifs with inside busy
    · exact ⟨rfl, rfl, rfl, rfl, rfl, rfl, rfl, cleared slot⟩
    all_goals exact ⟨rfl, rfl, rfl, rfl, rfl, rfl, rfl, fun _ free => free⟩

/-- A call that is lost goes on with the single submits. -/
theorem Counts.lost (counts : tx.Counts) (stepped : tx.lost = some next)
    (behind : (∃ batch, tx.rpc = .asked batch) ∨ ∃ rc, tx.rpc = .answered rc) : next.Counts := by
  have good := counts.good
  have short := counts.short
  have progress := counts.progress
  rw [Progress] at progress
  rw [SmapTx.lost] at stepped
  cases here : tx.call with
  | idle | scan frame slot scanned waits | flush caller | fallback caller i rcFallback =>
    rw [here] at stepped
    cases stepped
  | batch caller =>
    rw [here] at good progress stepped
    rw [submitLimit, here] at short
    cases stepped
    refine counts.goto good short ⟨rfl, ?_⟩
    rcases behind with ⟨batch, asked⟩ | ⟨rc, answered⟩
    · rw [asked] at progress
      exact .inl progress.2.2
    · rw [answered] at progress
      exact .inr progress.2.2
  | single caller i rcFallback =>
    rw [here] at good progress stepped
    rw [submitLimit, here] at short
    cases stepped
    rcases behind with ⟨batch, asked⟩ | ⟨rc, answered⟩
    · rw [asked] at progress
      exact progress.elim
    · rw [answered] at progress
      exact counts.goto good short ⟨rfl, progress⟩

/-- An event is not the loss of a single submit. -/
def SubmitReaches (tx : SmapTx) : Event → Prop
  | .loseRequest => ∀ entry, tx.rpc ≠ .askedSingle entry
  | _ => True

/-- A step, unless it loses a single submit. -/
theorem Counts.step (counts : tx.Counts) {event : Event} (reaches : tx.SubmitReaches event)
    (stepped : tx.step event = some next) : next.Counts := by
  cases event with
  | send frame =>
    have short := counts.short
    have progress := counts.progress
    rw [Progress] at progress
    rw [SmapTx.step] at stepped
    cases here : tx.call with
    | idle =>
      rw [here] at progress stepped
      rw [submitLimit, here] at short
      dsimp only at stepped
      split_ifs at stepped with wrong full
      · cases stepped
        exact counts
      · cases stepped
        exact absurd full (Nat.not_le.mpr (Nat.lt_succ_of_le short))
      · cases stepped
        rw [not_or, Nat.not_lt, Nat.not_lt] at wrong
        exact counts.goto ⟨wrong, counts.next⟩ short progress
    | scan frame' slot scanned waits | flush caller | batch caller | fallback caller i rc | single caller i rc =>
      rw [here] at stepped
      cases stepped
  | flush =>
    have short := counts.short
    have progress := counts.progress
    rw [Progress] at progress
    rw [SmapTx.step] at stepped
    cases here : tx.call with
    | idle =>
      rw [here] at progress stepped
      rw [submitLimit, here] at short
      cases stepped
      exact counts.goto trivial (Nat.le_succ_of_le short) progress
    | scan frame' slot scanned waits | flush caller | batch caller | fallback caller i rc | single caller i rc =>
      rw [here] at stepped
      cases stepped
  | resume elapsed fails => exact counts.resume stepped
  | serve => exact counts.serve stepped
  | pump gnp =>
    cases stepped
    obtain ⟨pending, claimed, ee, iop, slot, call, rpc, busy⟩ : _ ∧ _ := @pumpStep_queue tx gnp
    exact counts.of_same pending claimed ee iop slot call rpc busy
  | complete idx status =>
    rw [SmapTx.step] at stepped
    split_ifs at stepped
    cases stepped
    exact counts.of_same rfl rfl rfl rfl rfl rfl rfl fun _ free => free
  | loseRequest =>
    rw [SmapTx.step] at stepped
    cases asked : tx.rpc with
    | asked batch =>
      rw [asked] at stepped
      exact counts.lost stepped (.inl ⟨batch, asked⟩)
    | askedSingle entry => exact absurd asked (reaches entry)
    | idle | checking batch i | commit batch i | answered rc =>
      rw [asked] at stepped
      cases stepped
  | loseReply =>
    rw [SmapTx.step] at stepped
    cases asked : tx.rpc with
    | answered rc =>
      rw [asked] at stepped
      exact counts.lost stepped (.inr ⟨rc, asked⟩)
    | idle | asked batch | checking batch i | commit batch i | askedSingle entry =>
      rw [asked] at stepped
      cases stepped

end Sequence

end SmapTx

end KosTool.Ps2
