import KosTool.Soundness.SifChain
import Mathlib.Data.List.Forall2

/-! # The order of the SIF1 queue

What holds in every state the queue reaches, whatever order requests, status queries and the channel's own
endings come in: the slots that wait are distinct, the current slot is the running one, and the accepted requests
are, in their order, the chains the channel has been started on and those that wait.
-/

namespace KosTool.Ps2

open RingWindow

/-- What happens to the queue. -/
inductive Sif1Event where
  /-- `ee_sif_set_dma`, and whether the channel's transfer ends while it is at work. -/
  | setDma (request : DmaRequest) (ends : Bool)
  /-- `ee_sif_dma_stat`. -/
  | stat (trid : Word)
  /-- The channel's transfer ends. -/
  | complete

/-- The queue, with the requests it has accepted and the names it gave them. -/
structure Sif1Run where
  sif : Sif1
  accepted : List (DmaRequest × Word)

/-- One event. -/
def Sif1Run.step (area : JobArea) (run : Sif1Run) : Sif1Event → Sif1Run
  | .setDma request ends =>
    let answered := eeSifSetDma area run.sif request ends
    { sif := answered.2
      accepted := if answered.1 = 0 then run.accepted else run.accepted ++ [(request, answered.1)] }
  | .stat trid => { run with sif := (eeSifDmaStat area run.sif trid).2 }
  | .complete => { run with sif := run.sif.complete }

/-- A run from a reset. -/
def sif1Run (area : JobArea) (streams : Slot → Buffer) (events : List Sif1Event) : Sif1Run :=
  events.foldl (Sif1Run.step area) { sif := eeSifResetState streams, accepted := [] }

/-- How many of the transfers that were started are over. -/
def Sif1.finished (sif : Sif1) : ℕ := sif.launched.length - if sif.str then 1 else 0

/-- The variables of the queue agree with each other. -/
structure Sif1.Valid (sif : Sif1) : Prop where
  head_lt : sif.head < sifDmaQueueDepth
  tail_eq : sif.tail = (sif.head + sif.count) % sifDmaQueueDepth
  distinct : sif.waiting.Nodup
  queued : ∀ slot, (sif.jobs slot).state = .queued ↔ slot ∈ sif.waiting
  running : ∀ slot, (sif.jobs slot).state = .running ↔ sif.current = some slot
  nameless : ∀ slot, (sif.jobs slot).state = .free ↔ (sif.jobs slot).id = 0
  blank : ∀ slot, (sif.jobs slot).state = .free → (sif.jobs slot).streamSize = 0
  named : sif.nextId ≠ 0
  busy : sif.str = true → sif.current ≠ none

/-- The channel was started, or is to be, on the chain of an accepted request, under the name it was given. -/
def Carries (area : JobArea) (launch : Launch) (entry : DmaRequest × Word) : Prop :=
  launch.id = entry.2 ∧ ∃ slot dmat, entry.1.dmat = some dmat ∧ launch.tadr = eePhys (area.stream slot) ∧
    ChainFor entry.1.subaddr (area.stream slot) entry.1.ram (descriptors dmat entry.1.count) launch.chain
      launch.chainSize

/-- The accepted requests are those that were started and those that wait. -/
structure Accounts (area : JobArea) (sif : Sif1) (accepted : List (DmaRequest × Word)) : Prop where
  ledger : List.Forall₂ (Carries area) (sif.launched ++ sif.waiting.map (sif.launch area)) accepted
  latest : ∀ slot, sif.current = some slot → sif.launched.getLast? = some (sif.launch area slot)

/-- The memory behind the streams is as it was. -/
def Apart (streams : Slot → Buffer) (sif : Sif1) : Prop :=
  ∀ slot offset, sifDmaJobStreamSize ≤ offset → (sif.jobs slot).stream offset = streams slot offset

variable {area : JobArea} {sif : Sif1} {accepted : List (DmaRequest × Word)} {streams : Slot → Buffer}
variable {slot other : Slot} {job : DmaJob} {request : DmaRequest}

namespace Sif1

@[simp] theorem setJob_jobs_self : (sif.setJob slot job).jobs slot = job := by
  simp only [setJob, Function.update_self]

theorem setJob_jobs_of_ne (apart : other ≠ slot) : (sif.setJob slot job).jobs other = sif.jobs other := by
  simp only [setJob, Function.update_of_ne apart]

/-- The launches of slots other than the one that is given new contents. -/
theorem map_launch_congr {after : Sif1} {slots : List Slot} (same : ∀ slot ∈ slots, after.jobs slot = sif.jobs slot) :
    slots.map (after.launch area) = slots.map (sif.launch area) := by
  apply List.map_congr_left
  intro slot waits
  rw [launch, launch, same slot waits]

/-- A slot that waits is not free. -/
theorem Valid.state_of_mem (valid : sif.Valid) (waits : slot ∈ sif.waiting) : (sif.jobs slot).state = .queued :=
  (valid.queued slot).mpr waits

theorem Valid.not_mem_of_free (valid : sif.Valid) (free : (sif.jobs slot).state = .free) : slot ∉ sif.waiting := by
  intro waits
  have queued := valid.state_of_mem waits
  rw [free] at queued
  cases queued

theorem Valid.not_mem_of_current (valid : sif.Valid) (current : sif.current = some slot) : slot ∉ sif.waiting := by
  intro waits
  have queued := valid.state_of_mem waits
  rw [(valid.running slot).mpr current] at queued
  cases queued

/-- Everything a pump that is not held up does first: the current slot becomes free. -/
theorem retire_none (none : sif.current = none) : sif.retire = sif := by
  rw [retire, none]

theorem retire_some (current : sif.current = some slot) : sif.retire =
    { sif.setJob slot { sif.jobs slot with state := .free, id := 0, streamSize := 0 } with current := none } := by
  rw [retire, current]

theorem retire_current : sif.retire.current = none := by
  cases current : sif.current with
  | none => rw [retire_none current, current]
  | some slot => rw [retire_some current]

@[simp] theorem retire_waiting : sif.retire.waiting = sif.waiting := by
  cases current : sif.current with
  | none => rw [retire_none current]
  | some slot =>
    rw [retire_some current]
    rfl

theorem retire_launched : sif.retire.launched = sif.launched := by
  cases current : sif.current with
  | none => rw [retire_none current]
  | some slot =>
    rw [retire_some current]
    rfl

theorem retire_str : sif.retire.str = sif.str := by
  cases current : sif.current with
  | none => rw [retire_none current]
  | some slot =>
    rw [retire_some current]
    rfl

/-- A freed slot leaves the queue's variables in agreement. -/
theorem Valid.retire (valid : sif.Valid) (quiet : sif.str = false) : sif.retire.Valid := by
  cases current : sif.current with
  | none =>
    rw [retire_none current]
    exact valid
  | some slot =>
    rw [retire_some current]
    refine
      { head_lt := valid.head_lt
        tail_eq := valid.tail_eq
        distinct := valid.distinct
        queued := fun other => ?_
        running := fun other => ?_
        nameless := fun other => ?_
        blank := fun other => ?_
        named := valid.named
        busy := fun held => ?_ }
    · rcases eq_or_ne other slot with rfl | apart
      · refine iff_of_false ?_ (valid.not_mem_of_current current)
        simp only [setJob_jobs_self, reduceCtorEq, not_false_eq_true]
      · simp only [setJob_jobs_of_ne apart]
        exact valid.queued other
    · rcases eq_or_ne other slot with rfl | apart
      · simp only [setJob_jobs_self, reduceCtorEq]
      · simp only [setJob_jobs_of_ne apart, reduceCtorEq, iff_false]
        intro running
        rw [valid.running, current] at running
        exact apart (Option.some.inj running).symm
    · rcases eq_or_ne other slot with rfl | apart
      · simp only [setJob_jobs_self]
      · simp only [setJob_jobs_of_ne apart]
        exact valid.nameless other
    · rcases eq_or_ne other slot with rfl | apart
      · simp only [setJob_jobs_self, implies_true]
      · simp only [setJob_jobs_of_ne apart]
        exact valid.blank other
    · exact absurd (quiet.symm.trans held) Bool.false_ne_true

end Sif1

theorem Accounts.retire (accounts : Accounts area sif accepted) (valid : sif.Valid) :
    Accounts area sif.retire accepted := by
  cases current : sif.current with
  | none =>
    rw [Sif1.retire_none current]
    exact accounts
  | some slot =>
    have kept : sif.waiting.map (sif.retire.launch area) = sif.waiting.map (sif.launch area) := by
      apply Sif1.map_launch_congr
      intro other waits
      have apart : other ≠ slot := by
        rintro rfl
        exact valid.not_mem_of_current current waits
      rw [Sif1.retire_some current]
      exact Sif1.setJob_jobs_of_ne apart
    refine ⟨?_, fun slot held => ?_⟩
    · rw [Sif1.retire_launched, Sif1.retire_waiting, kept]
      exact accounts.ledger
    · rw [Sif1.retire_current] at held
      cases held

theorem Apart.retire (apart : Apart streams sif) : Apart streams sif.retire := by
  cases current : sif.current with
  | none =>
    rw [Sif1.retire_none current]
    exact apart
  | some slot =>
    rw [Sif1.retire_some current]
    intro other offset behind
    rcases eq_or_ne other slot with rfl | distinct
    · simp only [Sif1.setJob_jobs_self]
      exact apart other offset behind
    · simp only [Sif1.setJob_jobs_of_ne distinct]
      exact apart other offset behind

section Start

/-- The queue has its first slot taken off. -/
theorem waiting_eq_cons (valid : sif.Valid) (some : 0 < sif.count) :
    sif.waiting = sif.queue sif.head ::
      window sifDmaQueueDepth sif.queue ((sif.head + 1) % sifDmaQueueDepth) (sif.count - 1) := by
  obtain ⟨rest, counted⟩ : ∃ rest, sif.count = rest + 1 := ⟨sif.count - 1, by omega⟩
  rw [Sif1.waiting, counted, window_succ, Nat.mod_eq_of_lt valid.head_lt, Nat.add_sub_cancel, window_mod]

theorem startNext_of_idle (idle : ¬ (sif.current = none ∧ 0 < sif.count ∧ sif.str = false)) :
    sif.startNext area = sif := if_neg idle

/-- What a start leaves: the first slot that waited runs, and the channel has its chain. -/
theorem startNext_starts (area : JobArea) (valid : sif.Valid) (free : sif.current = none) (some : 0 < sif.count)
    (quiet : sif.str = false) : ∃ slot rest, sif.waiting = slot :: rest ∧
      (sif.startNext area).waiting = rest ∧
      (sif.startNext area).jobs = Function.update sif.jobs slot { sif.jobs slot with state := .running } ∧
      (sif.startNext area).head = (sif.head + 1) % sifDmaQueueDepth ∧
      (sif.startNext area).tail = sif.tail ∧ (sif.startNext area).count + 1 = sif.count ∧
      (sif.startNext area).nextId = sif.nextId ∧ (sif.startNext area).current = Option.some slot ∧
      (sif.startNext area).str = true ∧ (sif.startNext area).launched = sif.launched ++ [sif.launch area slot] := by
  have starts : sif.startNext area = eeSifStartDmaJob area
      { sif with head := (sif.head + 1) % sifDmaQueueDepth, count := sif.count - 1 } (sif.queue sif.head) :=
    if_pos ⟨free, some, quiet⟩
  rw [starts]
  exact ⟨_, _, waiting_eq_cons valid some, rfl, rfl, rfl, rfl, Nat.sub_add_cancel some, rfl, rfl, rfl, rfl⟩

/-- A start leaves the queue's variables in agreement. -/
theorem Sif1.Valid.startNext (valid : sif.Valid) : (sif.startNext area).Valid := by
  rcases em (sif.current = none ∧ 0 < sif.count ∧ sif.str = false) with ⟨free, some, quiet⟩ | idle
  · obtain ⟨slot, rest, waits, rest_waits, jobs, head, tail, count, nextId, current, str, launched⟩ :=
      startNext_starts area valid free some quiet
    have distinct := valid.distinct
    rw [waits, List.nodup_cons] at distinct
    have state : (sif.jobs slot).state = .queued := valid.state_of_mem (waits ▸ List.mem_cons_self)
    have job_self : (sif.startNext area).jobs slot = { sif.jobs slot with state := .running } := by
      rw [jobs, Function.update_self]
    have job_other (other : Slot) (apart : other ≠ slot) : (sif.startNext area).jobs other = sif.jobs other := by
      rw [jobs, Function.update_of_ne apart]
    refine
      { head_lt := ?_
        tail_eq := ?_
        distinct := ?_
        queued := fun other => ?_
        running := fun other => ?_
        nameless := fun other => ?_
        blank := fun other => ?_
        named := nextId ▸ valid.named
        busy := fun _ => ?_ }
    · rw [head]
      exact Nat.mod_lt _ (by decide)
    · rw [tail, head, valid.tail_eq, ← count, Nat.mod_add_mod]
      congr 1
      omega
    · rw [rest_waits]
      exact distinct.2
    · rw [rest_waits]
      rcases eq_or_ne other slot with rfl | apart
      · rw [job_self]
        exact iff_of_false (fun queued => by cases queued) distinct.1
      · rw [job_other other apart, valid.queued, waits, List.mem_cons]
        exact or_iff_right apart
    · rw [current]
      rcases eq_or_ne other slot with rfl | apart
      · rw [job_self]
        exact iff_of_true rfl rfl
      · rw [job_other other apart, valid.running, free]
        exact iff_of_false (fun held => by cases held) fun same => apart (Option.some.inj same).symm
    · rcases eq_or_ne other slot with rfl | apart
      · have named := valid.nameless other
        rw [state] at named
        rw [job_self]
        exact iff_of_false (fun free => by cases free) fun nameless => by cases named.mpr nameless
      · rw [job_other other apart]
        exact valid.nameless other
    · rcases eq_or_ne other slot with rfl | apart
      · rw [job_self]
        intro free
        cases free
      · rw [job_other other apart]
        exact valid.blank other
    · rw [current]
      exact Option.some_ne_none slot
  · rw [startNext_of_idle idle]
    exact valid

theorem Accounts.startNext (accounts : Accounts area sif accepted) (valid : sif.Valid) :
    Accounts area (sif.startNext area) accepted := by
  rcases em (sif.current = none ∧ 0 < sif.count ∧ sif.str = false) with ⟨free, some, quiet⟩ | idle
  · obtain ⟨slot, rest, waits, rest_waits, jobs, head, tail, count, nextId, current, str, launched⟩ :=
      startNext_starts area valid free some quiet
    have distinct := valid.distinct
    rw [waits, List.nodup_cons] at distinct
    have self : (sif.startNext area).launch area slot = sif.launch area slot := by
      rw [Sif1.launch, jobs, Function.update_self]
      rfl
    have kept : rest.map ((sif.startNext area).launch area) = rest.map (sif.launch area) := by
      apply Sif1.map_launch_congr
      intro other later
      rw [jobs, Function.update_of_ne]
      rintro rfl
      exact distinct.1 later
    refine ⟨?_, fun held same => ?_⟩
    · have ledger := accounts.ledger
      rw [waits, List.map_cons] at ledger
      rw [launched, rest_waits, kept, List.append_assoc, List.singleton_append]
      exact ledger
    · rw [current] at same
      obtain rfl := Option.some.inj same
      rw [launched, List.getLast?_concat, self]
  · rw [startNext_of_idle idle]
    exact accounts

theorem Apart.startNext (apart : Apart streams sif) (valid : sif.Valid) : Apart streams (sif.startNext area) := by
  rcases em (sif.current = none ∧ 0 < sif.count ∧ sif.str = false) with ⟨free, some, quiet⟩ | idle
  · obtain ⟨slot, rest, waits, rest_waits, jobs, others⟩ := startNext_starts area valid free some quiet
    intro other offset behind
    rw [jobs]
    rcases eq_or_ne other slot with rfl | distinct
    · rw [Function.update_self]
      exact apart other offset behind
    · rw [Function.update_of_ne distinct]
      exact apart other offset behind
  · rw [startNext_of_idle idle]
    exact apart

end Start

/-- Everything that holds of the queue in every state it reaches. -/
structure Sif1.Inv (area : JobArea) (streams : Slot → Buffer) (sif : Sif1) (accepted : List (DmaRequest × Word)) :
    Prop where
  valid : sif.Valid
  accounts : Accounts area sif accepted
  apart : Apart streams sif

/-- A pump. -/
theorem Sif1.Inv.pump (inv : sif.Inv area streams accepted) : (eeSifDmaPump area sif).Inv area streams accepted := by
  rw [eeSifDmaPump]
  split_ifs with busy
  · exact inv
  · have quiet : sif.str = false := by
      rcases Bool.eq_false_or_eq_true sif.str with held | quiet
      · exact absurd ⟨Option.isSome_iff_ne_none.mpr (inv.valid.busy held), held⟩ busy
      · exact quiet
    have retired := inv.valid.retire quiet
    exact ⟨retired.startNext, (inv.accounts.retire inv.valid).startNext retired, inv.apart.retire.startNext retired⟩

/-- The end of the channel's transfer. -/
theorem Sif1.Inv.complete (inv : sif.Inv area streams accepted) : sif.complete.Inv area streams accepted :=
  ⟨{ inv.valid with busy := fun held => absurd held Bool.false_ne_true }, ⟨inv.accounts.ledger, inv.accounts.latest⟩,
    inv.apart⟩

section Accept

/-- The name that follows a name, and is never zero. -/
def nextName (id : Word) : Word := if id + 1 = 0 ∨ 0x7fffffff#32 < id + 1 then 1 else id + 1

theorem nextName_ne_zero (id : Word) : nextName id ≠ 0 := by
  rw [nextName]
  split_ifs with wraps
  · decide
  · exact fun zero => wraps (.inl zero)

/-- A slot whose descriptors were refused. -/
def Sif1.scratched (sif : Sif1) (slot : Slot) (stream : Buffer) : Sif1 :=
  { sif.setJob slot { id := 0, streamSize := 0, state := .free, stream := stream } with nextId := nextName sif.nextId }

/-- A slot that was filled, at the end of the queue. -/
def Sif1.enqueued (sif : Sif1) (slot : Slot) (stream : Buffer) (size : ℕ) : Sif1 :=
  { sif.setJob slot { id := sif.nextId, streamSize := size, state := .queued, stream := stream } with
    nextId := nextName sif.nextId
    queue := Function.update sif.queue sif.tail slot
    tail := (sif.tail + 1) % sifDmaQueueDepth
    count := sif.count + 1 }

theorem queueJob_none {dmat : ℕ → DmaTransfer} {stream : Buffer}
    (built : eeSifBuildDmaJob request.subaddr request.ram (area.stream slot) (descriptors dmat request.count)
      (sif.jobs slot).stream = (stream, none)) :
    queueJob area sif request dmat slot = (0, sif.scratched slot stream) := by
  rw [queueJob, built]
  rfl

theorem queueJob_some {dmat : ℕ → DmaTransfer} {stream : Buffer} {size : ℕ}
    (built : eeSifBuildDmaJob request.subaddr request.ram (area.stream slot) (descriptors dmat request.count)
      (sif.jobs slot).stream = (stream, some size)) :
    queueJob area sif request dmat slot = (sif.nextId, sif.enqueued slot stream size) := by
  rw [queueJob, built]
  rfl

/-- The place of a stream in physical memory. -/
theorem JobArea.stream_place (area : JobArea) (slot : Slot) :
    (area.stream slot).toNat % 64 = 0 ∧ (area.stream slot).toNat % 2 ^ 29 + sifDmaJobStreamSize ≤ 2 ^ 29 := by
  have aligned := area.aligned
  have inside := area.inside
  have few := slot.isLt
  have depth : sifDmaQueueDepth = 8 := rfl
  have room : sifDmaJobStreamSize = 1024 := rfl
  have offset : (BitVec.ofNat 32 (slot.val * 1088 + 64)).toNat = slot.val * 1088 + 64 := by
    rw [BitVec.toNat_ofNat, Nat.mod_eq_of_lt (by omega)]
  have address := area.address.isLt
  have short : area.address.toNat + (slot.val * 1088 + 64) < 2 ^ 32 := by omega
  have place : (area.address.toNat + (slot.val * 1088 + 64)) % 2 ^ 29 =
      area.address.toNat % 2 ^ 29 + (slot.val * 1088 + 64) := by
    rw [Nat.add_mod, Nat.mod_eq_of_lt (show slot.val * 1088 + 64 < 2 ^ 29 by omega), Nat.mod_eq_of_lt (by omega)]
  rw [stream, BitVec.toNat_add, offset, Nat.mod_eq_of_lt short, place]
  omega

/-- What a request can do between the two pumps of `ee_sif_set_dma`. -/
inductive Taken (area : JobArea) (sif : Sif1) (request : DmaRequest) : Word × Sif1 → Prop
  | refused : Taken area sif request (0, sif)
  | unfit (slot : Slot) (stream : Buffer) (free : (sif.jobs slot).state = .free)
    (behind : ∀ offset, sifDmaJobStreamSize ≤ offset → stream offset = (sif.jobs slot).stream offset) :
    Taken area sif request (0, sif.scratched slot stream)
  | accepted (slot : Slot) (dmat : ℕ → DmaTransfer) (stream : Buffer) (size : ℕ)
    (free : (sif.jobs slot).state = .free) (given : request.dmat = some dmat) (room : sif.count < sifDmaQueueDepth)
    (chain : ChainFor request.subaddr (area.stream slot) request.ram (descriptors dmat request.count) stream size)
    (behind : ∀ offset, sifDmaJobStreamSize ≤ offset → stream offset = (sif.jobs slot).stream offset) :
    Taken area sif request (sif.nextId, sif.enqueued slot stream size)

theorem taken_acceptDma (area : JobArea) (sif : Sif1) (request : DmaRequest) :
    Taken area sif request (acceptDma area sif request) := by
  rw [acceptDma]
  cases given : request.dmat with
  | none => exact .refused
  | some dmat =>
    simp only
    split_ifs with count full
    · exact .refused
    · exact .refused
    · cases found : eeSifFindFreeDmaJob sif with
      | none => exact .refused
      | some slot =>
        have free : (sif.jobs slot).state = .free := by
          rw [eeSifFindFreeDmaJob] at found
          simpa only [decide_eq_true_eq] using List.find?_some found
        obtain ⟨positive, bounded⟩ := not_or.mp count
        have tags : sifDmaMaxDescs = 8 := rfl
        have length : (descriptors dmat request.count).length = request.count.toNat := by
          rw [descriptors, List.length_map, List.length_range]
        have few : (descriptors dmat request.count).length ≤ sifDmaMaxDescs := by omega
        have nonempty : descriptors dmat request.count ≠ [] := by
          intro none
          rw [none, List.length_nil] at length
          omega
        obtain ⟨stream, size, built⟩ : ∃ stream size, eeSifBuildDmaJob request.subaddr request.ram
            (area.stream slot) (descriptors dmat request.count) (sif.jobs slot).stream = (stream, size) := ⟨_, _, rfl⟩
        have behind (offset : ℕ) (behind : sifDmaJobStreamSize ≤ offset) :
            stream offset = (sif.jobs slot).stream offset := by
          have kept := @eeSifBuildDmaJob_behind request.subaddr (area.stream slot) request.ram _
            (sif.jobs slot).stream few offset behind
          rwa [built] at kept
        obtain ⟨aligned, inside⟩ := area.stream_place slot
        cases size with
        | none =>
          simp only [queueJob_none built]
          exact .unfit slot stream free behind
        | some size =>
          simp only [queueJob_some built]
          exact .accepted slot dmat stream size free given (Nat.not_le.mp full)
            (eeSifBuildDmaJob_chain aligned inside nonempty few built) behind

/-- A slot whose descriptors were refused is as free as it was. -/
theorem Sif1.Inv.scratched {stream : Buffer} (inv : sif.Inv area streams accepted)
    (free : (sif.jobs slot).state = .free)
    (behind : ∀ offset, sifDmaJobStreamSize ≤ offset → stream offset = (sif.jobs slot).stream offset) :
    (sif.scratched slot stream).Inv area streams accepted := by
  have valid := inv.valid
  have job_self : (sif.scratched slot stream).jobs slot =
      { id := 0, streamSize := 0, state := .free, stream := stream } := setJob_jobs_self
  have job_other (other : Slot) (apart : other ≠ slot) : (sif.scratched slot stream).jobs other = sif.jobs other :=
    setJob_jobs_of_ne apart
  have apart_of (other : Slot) (held : (sif.jobs other).state ≠ .free) : other ≠ slot := by
    rintro rfl
    exact held free
  refine
    { valid :=
        { head_lt := valid.head_lt
          tail_eq := valid.tail_eq
          distinct := valid.distinct
          queued := fun other => ?_
          running := fun other => ?_
          nameless := fun other => ?_
          blank := fun other => ?_
          named := nextName_ne_zero _
          busy := valid.busy }
      accounts := ⟨?_, fun other held => ?_⟩
      apart := fun other offset place => ?_ }
  · rcases eq_or_ne other slot with rfl | apart
    · rw [job_self]
      exact iff_of_false (fun queued => by cases queued) (valid.not_mem_of_free free)
    · rw [job_other other apart]
      exact valid.queued other
  · rcases eq_or_ne other slot with rfl | apart
    · rw [job_self]
      refine iff_of_false (fun running => by cases running) fun current => ?_
      have running := (valid.running other).mpr current
      rw [free] at running
      cases running
    · rw [job_other other apart]
      exact valid.running other
  · rcases eq_or_ne other slot with rfl | apart
    · rw [job_self]
      exact iff_of_true rfl rfl
    · rw [job_other other apart]
      exact valid.nameless other
  · rcases eq_or_ne other slot with rfl | apart
    · rw [job_self]
      exact fun _ => rfl
    · rw [job_other other apart]
      exact valid.blank other
  · have kept : sif.waiting.map ((sif.scratched slot stream).launch area) = sif.waiting.map (sif.launch area) := by
      apply map_launch_congr
      intro other waits
      refine job_other other (apart_of other ?_)
      rw [valid.state_of_mem waits]
      exact fun queued => by cases queued
    have ledger := inv.accounts.ledger
    rw [← kept] at ledger
    exact ledger
  · have apart : other ≠ slot := by
      refine apart_of other ?_
      rw [(valid.running other).mpr held]
      exact fun running => by cases running
    rw [launch, job_other other apart]
    exact inv.accounts.latest other held
  · rcases eq_or_ne other slot with rfl | distinct
    · rw [job_self]
      exact (behind offset place).trans (inv.apart other offset place)
    · rw [job_other other distinct]
      exact inv.apart other offset place

/-- A slot that was filled waits behind the others. -/
theorem Sif1.Inv.enqueued {stream : Buffer} {size : ℕ} {dmat : ℕ → DmaTransfer} (inv : sif.Inv area streams accepted)
    (free : (sif.jobs slot).state = .free) (given : request.dmat = some dmat) (room : sif.count < sifDmaQueueDepth)
    (chain : ChainFor request.subaddr (area.stream slot) request.ram (descriptors dmat request.count) stream size)
    (behind : ∀ offset, sifDmaJobStreamSize ≤ offset → stream offset = (sif.jobs slot).stream offset) :
    (sif.enqueued slot stream size).Inv area streams (accepted ++ [(request, sif.nextId)]) := by
  have valid := inv.valid
  have waits : (sif.enqueued slot stream size).waiting = sif.waiting ++ [slot] := by
    have pushed := @window_push _ sifDmaQueueDepth sif.queue sif.head sif.count room slot
    rw [← valid.tail_eq] at pushed
    exact pushed
  have job_self : (sif.enqueued slot stream size).jobs slot =
      { id := sif.nextId, streamSize := size, state := .queued, stream := stream } := setJob_jobs_self
  have job_other (other : Slot) (apart : other ≠ slot) : (sif.enqueued slot stream size).jobs other = sif.jobs other :=
    setJob_jobs_of_ne apart
  have fresh := valid.not_mem_of_free free
  have apart_of (other : Slot) (held : (sif.jobs other).state ≠ .free) : other ≠ slot := by
    rintro rfl
    exact held free
  refine
    { valid :=
        { head_lt := valid.head_lt
          tail_eq := ?_
          distinct := ?_
          queued := fun other => ?_
          running := fun other => ?_
          nameless := fun other => ?_
          blank := fun other => ?_
          named := nextName_ne_zero _
          busy := valid.busy }
      accounts := ⟨?_, fun other held => ?_⟩
      apart := fun other offset place => ?_ }
  · change (sif.tail + 1) % sifDmaQueueDepth = (sif.head + (sif.count + 1)) % sifDmaQueueDepth
    rw [valid.tail_eq, Nat.mod_add_mod, Nat.add_assoc]
  · rw [waits, List.nodup_append_comm, List.singleton_append, List.nodup_cons]
    exact ⟨fresh, valid.distinct⟩
  · rw [waits, List.mem_append, List.mem_singleton]
    rcases eq_or_ne other slot with rfl | apart
    · rw [job_self]
      exact iff_of_true rfl (.inr rfl)
    · rw [job_other other apart, valid.queued]
      exact (or_iff_left apart).symm
  · rcases eq_or_ne other slot with rfl | apart
    · rw [job_self]
      refine iff_of_false (fun running => by cases running) fun current => ?_
      have running := (valid.running other).mpr current
      rw [free] at running
      cases running
    · rw [job_other other apart]
      exact valid.running other
  · rcases eq_or_ne other slot with rfl | apart
    · rw [job_self]
      exact iff_of_false (fun free => by cases free) valid.named
    · rw [job_other other apart]
      exact valid.nameless other
  · rcases eq_or_ne other slot with rfl | apart
    · rw [job_self]
      exact fun free => by cases free
    · rw [job_other other apart]
      exact valid.blank other
  · have kept : sif.waiting.map ((sif.enqueued slot stream size).launch area) = sif.waiting.map (sif.launch area) := by
      apply map_launch_congr
      intro other waits
      refine job_other other (apart_of other ?_)
      rw [valid.state_of_mem waits]
      exact fun queued => by cases queued
    rw [waits, List.map_append, kept, ← List.append_assoc, List.map_singleton]
    refine List.rel_append inv.accounts.ledger (.cons ⟨?_, slot, dmat, given, rfl, ?_⟩ .nil)
    · rw [launch, job_self]
    · rw [launch, job_self]
      exact chain
  · have apart : other ≠ slot := by
      refine apart_of other ?_
      rw [(valid.running other).mpr held]
      exact fun running => by cases running
    rw [launch, job_other other apart]
    exact inv.accounts.latest other held
  · rcases eq_or_ne other slot with rfl | distinct
    · rw [job_self]
      exact (behind offset place).trans (inv.apart other offset place)
    · rw [job_other other distinct]
      exact inv.apart other offset place

end Accept

section Run

/-- A request. -/
theorem Sif1.Inv.setDma (inv : sif.Inv area streams accepted) (request : DmaRequest) (ends : Bool) :
    (eeSifSetDma area sif request ends).2.Inv area streams
      (if (eeSifSetDma area sif request ends).1 = 0 then accepted
        else accepted ++ [(request, (eeSifSetDma area sif request ends).1)]) := by
  have pumped := inv.pump
  have taken := taken_acceptDma area (eeSifDmaPump area sif) request
  rw [eeSifSetDma]
  generalize acceptDma area (eeSifDmaPump area sif) request = answered at taken
  cases taken with
  | refused => simpa only [if_true] using pumped
  | unfit slot stream free behind => simpa only [if_true] using pumped.scratched free behind
  | accepted slot dmat stream size free given room chain behind =>
    have queued := pumped.enqueued free given room chain behind
    simp only [if_neg pumped.valid.named]
    cases ends with
    | false => exact queued.pump
    | true => exact queued.complete.pump

/-- A status query. -/
theorem Sif1.Inv.stat (inv : sif.Inv area streams accepted) (trid : Word) :
    (eeSifDmaStat area sif trid).2.Inv area streams accepted := by
  have pumped := inv.pump
  rw [eeSifDmaStat]
  split_ifs with zero
  · exact inv
  · simp only
    split
    · exact pumped
    · split
      · exact pumped
      · exact pumped
      · exact pumped

/-- One event. -/
theorem Sif1.Inv.step {run : Sif1Run} (inv : run.sif.Inv area streams run.accepted) (event : Sif1Event) :
    (run.step area event).sif.Inv area streams (run.step area event).accepted := by
  cases event with
  | setDma request ends => exact inv.setDma request ends
  | stat trid => exact inv.stat trid
  | complete => exact inv.complete

/-- A reset. -/
theorem inv_eeSifResetState : (eeSifResetState streams).Inv area streams [] where
  valid :=
    { head_lt := (by decide : 0 < sifDmaQueueDepth)
      tail_eq := rfl
      distinct := List.nodup_nil
      queued := fun slot => iff_of_false (fun queued => by cases queued) List.not_mem_nil
      running := fun slot => iff_of_false (fun running => by cases running) fun held => by cases held
      nameless := fun slot => iff_of_true rfl rfl
      blank := fun slot _ => rfl
      named := (by decide : (1 : Word) ≠ 0)
      busy := fun held => by cases held }
  accounts := ⟨.nil, fun slot held => by cases held⟩
  apart := fun slot offset _ => rfl

/-- Every state a run reaches. -/
theorem inv_sif1Run (area : JobArea) (streams : Slot → Buffer) (events : List Sif1Event) :
    (sif1Run area streams events).sif.Inv area streams (sif1Run area streams events).accepted := by
  induction events using List.reverseRecOn with
  | nil => exact inv_eeSifResetState
  | append_singleton events event ih =>
    rw [sif1Run, List.foldl_concat]
    exact ih.step event

end Run

section Completion

/-- A pump ends no transfer. -/
theorem finished_pump (area : JobArea) (valid : sif.Valid) : (eeSifDmaPump area sif).finished = sif.finished := by
  rw [eeSifDmaPump]
  split_ifs with busy
  · rfl
  · have quiet : sif.str = false := by
      rcases Bool.eq_false_or_eq_true sif.str with held | quiet
      · exact absurd ⟨Option.isSome_iff_ne_none.mpr (valid.busy held), held⟩ busy
      · exact quiet
    have retired := valid.retire quiet
    rcases em (sif.retire.current = none ∧ 0 < sif.retire.count ∧ sif.retire.str = false) with ⟨free, some, still⟩ | idle
    · obtain ⟨slot, rest, waits, rest_waits, jobs, head, tail, count, nextId, current, str, launched⟩ :=
        startNext_starts area retired free some still
      rw [Sif1.finished, Sif1.finished, str, launched, Sif1.retire_launched, List.length_append, quiet]
      rfl
    · rw [startNext_of_idle idle, Sif1.finished, Sif1.finished, Sif1.retire_launched, Sif1.retire_str]

/-- A transfer that is not over is the chain of a slot. -/
theorem Accounts.unfinished (accounts : Accounts area sif accepted) (valid : sif.Valid) {launch : Launch}
    (unfinished : launch ∈ (sif.launched ++ sif.waiting.map (sif.launch area)).drop sif.finished) :
    ∃ slot, launch = sif.launch area slot := by
  have started : sif.finished ≤ sif.launched.length := Nat.sub_le _ _
  rw [List.drop_append_of_le_length started, List.mem_append] at unfinished
  rcases unfinished with last | waits
  · cases held : sif.str with
    | false =>
      rw [Sif1.finished, held, if_neg Bool.false_ne_true, Nat.sub_zero, List.drop_length] at last
      cases last
    | true =>
      obtain ⟨slot, current⟩ := Option.ne_none_iff_exists'.mp (valid.busy held)
      have latest := accounts.latest slot current
      obtain ⟨earlier, launched⟩ := List.getLast?_eq_some_iff.mp latest
      rw [Sif1.finished, held, if_pos rfl, launched, List.length_append, List.length_singleton, Nat.add_sub_cancel,
        List.drop_left, List.mem_singleton] at last
      exact ⟨slot, last⟩
  · obtain ⟨slot, _, same⟩ := List.mem_map.mp waits
    exact ⟨slot, same.symm⟩

/-- The query answers that a transfer is over only when no slot has its name. -/
theorem stat_over {trid : Word} (valid : (eeSifDmaPump area sif).Valid) (given : trid ≠ 0)
    (ended : (eeSifDmaStat area sif trid).1 = -1) (slot : Slot) : ((eeSifDmaPump area sif).jobs slot).id ≠ trid := by
  rw [eeSifDmaStat, if_neg given] at ended
  simp only at ended
  intro named
  split at ended
  · rename_i absent
    have other := List.find?_eq_none.mp absent slot (List.mem_finRange slot)
    exact other (decide_eq_true named)
  · rename_i found present
    have same : ((eeSifDmaPump area sif).jobs found).id = trid := by
      simpa only [decide_eq_true_eq] using List.find?_some present
    split at ended
    · cases ended
    · cases ended
    · rename_i free
      exact given (same.symm.trans ((valid.nameless found).mp free))

/-- An accepted request of a name that is answered to be over is not among those that are not. -/
theorem Sif1.Inv.stat_over {trid : Word} (inv : sif.Inv area streams accepted) (given : trid ≠ 0)
    (ended : (eeSifDmaStat area sif trid).1 = -1) {entry : DmaRequest × Word}
    (unfinished : entry ∈ accepted.drop sif.finished) : entry.2 ≠ trid := by
  have pumped := inv.pump
  have matched := List.forall₂_drop sif.finished pumped.accounts.ledger
  obtain ⟨launch, waits, carried⟩ : ∃ launch ∈ ((eeSifDmaPump area sif).launched ++
      (eeSifDmaPump area sif).waiting.map ((eeSifDmaPump area sif).launch area)).drop sif.finished,
      Carries area launch entry := by
    obtain ⟨i, inside, rfl⟩ := List.getElem_of_mem unfinished
    have inside' := inside
    rw [← matched.length_eq] at inside'
    exact ⟨_, List.getElem_mem inside', matched.get inside' inside⟩
  rw [← finished_pump area inv.valid] at waits
  obtain ⟨slot, rfl⟩ := pumped.accounts.unfinished pumped.valid waits
  rw [← carried.1]
  exact Ps2.stat_over pumped.valid given ended slot

/-- The end of a transfer and a query start the next one that waits. -/
theorem waiting_round {trid : Word} (valid : sif.Valid) (given : trid ≠ 0) :
    (eeSifDmaStat area sif.complete trid).2.waiting = sif.waiting.tail := by
  have stat : (eeSifDmaStat area sif.complete trid).2 = eeSifDmaPump area sif.complete := by
    rw [eeSifDmaStat, if_neg given]
    simp only
    split
    · rfl
    · split <;> rfl
  have quiet : sif.complete.str = false := rfl
  have ended : sif.complete.Valid := { valid with busy := fun held => absurd held Bool.false_ne_true }
  have retired := ended.retire quiet
  have pump : eeSifDmaPump area sif.complete = sif.complete.retire.startNext area :=
    if_neg fun busy => Bool.false_ne_true busy.2
  have waiting : sif.complete.retire.waiting = sif.waiting := Sif1.retire_waiting
  rw [stat, pump]
  rcases Nat.eq_zero_or_pos sif.complete.retire.count with empty | some
  · rw [startNext_of_idle fun starts => Nat.ne_of_gt starts.2.1 empty]
    have none : sif.complete.retire.waiting = [] := by rw [Sif1.waiting, empty, window_zero]
    rw [none, ← waiting, none, List.tail_nil]
  · obtain ⟨slot, rest, waits, rest_waits, others⟩ :=
      startNext_starts area retired Sif1.retire_current some (Sif1.retire_str.trans quiet)
    rw [rest_waits, ← waiting, waits, List.tail_cons]

/-- The events after which nothing waits. -/
def rounds (count : ℕ) (trid : Word) : List Sif1Event := (List.replicate count [.complete, .stat trid]).flatten

/-- With as many ends and queries as transfers wait, all are started. -/
theorem waiting_rounds {trid : Word} (given : trid ≠ 0) {events : List Sif1Event} {count : ℕ}
    (enough : (sif1Run area streams events).sif.waiting.length ≤ count) :
    (sif1Run area streams (events ++ rounds count trid)).sif.waiting = [] := by
  induction count generalizing events with
  | zero =>
    rw [rounds, List.replicate_zero, List.flatten_nil, List.append_nil]
    exact List.length_eq_zero_iff.mp (Nat.le_zero.mp enough)
  | succ count ih =>
    have split : events ++ rounds (count + 1) trid = (events ++ [.complete, .stat trid]) ++ rounds count trid := by
      rw [rounds, List.replicate_succ, List.flatten_cons, List.append_assoc]
      rfl
    have round : (sif1Run area streams (events ++ [.complete, .stat trid])).sif.waiting =
        (sif1Run area streams events).sif.waiting.tail := by
      rw [sif1Run, List.foldl_append]
      exact waiting_round (inv_sif1Run area streams events).valid given
    rw [split]
    apply ih
    rw [round, List.length_tail]
    omega

/-- Ends and queries accept nothing. -/
theorem accepted_rounds (count : ℕ) (trid : Word) (run : Sif1Run) :
    ((rounds count trid).foldl (Sif1Run.step area) run).accepted = run.accepted := by
  induction count generalizing run with
  | zero => rfl
  | succ count ih =>
    rw [rounds, List.replicate_succ, List.flatten_cons, List.foldl_append]
    exact ih _

end Completion

/-- The queue and the slots are the same, but for the bytes in the streams of free slots. -/
structure SameQueue (before after : Sif1) : Prop where
  waiting : after.waiting = before.waiting
  current : after.current = before.current
  taken : ∀ slot, (before.jobs slot).state ≠ .free → after.jobs slot = before.jobs slot
  slots : ∀ slot, { after.jobs slot with stream := (before.jobs slot).stream } = before.jobs slot
  launched : after.launched = before.launched
  str : after.str = before.str

/-- A request that is refused does no more than the pump it begins with. -/
theorem refused_same (inv : sif.Inv area streams accepted) {ends : Bool}
    (refused : (eeSifSetDma area sif request ends).1 = 0) :
    SameQueue (eeSifDmaPump area sif) (eeSifSetDma area sif request ends).2 := by
  have pumped := inv.pump
  have taken := taken_acceptDma area (eeSifDmaPump area sif) request
  rw [eeSifSetDma] at refused ⊢
  generalize acceptDma area (eeSifDmaPump area sif) request = answered at taken refused
  cases taken with
  | refused => simpa only [if_true] using ⟨rfl, rfl, fun _ _ => rfl, fun _ => rfl, rfl, rfl⟩
  | unfit slot stream free behind =>
    have blank := pumped.valid.blank slot free
    have nameless := (pumped.valid.nameless slot).mp free
    simp only [if_true]
    refine ⟨rfl, rfl, fun other held => ?_, fun other => ?_, rfl, rfl⟩
    · refine Sif1.setJob_jobs_of_ne ?_
      rintro rfl
      exact held free
    · rcases eq_or_ne other slot with rfl | apart
      · simp only [Sif1.scratched, Sif1.setJob_jobs_self]
        rw [← free, ← nameless, ← blank]
      · simp only [Sif1.scratched, Sif1.setJob_jobs_of_ne apart]
  | accepted slot dmat stream size free given room chain behind =>
    simp only [if_neg pumped.valid.named] at refused
    exact absurd refused pumped.valid.named

/-- In every state of every run: the slots that wait are distinct and the current slot is the one that runs; the
accepted requests are, in their order, the chains the channel was started on and those that wait, each inside its
stream and with the packets of its descriptors, and all are started once the channel's transfers end and it is
polled; a transfer is answered to be over only when it is; and a refused request does no more than poll. -/
theorem sif1_queue_in_order (area : JobArea) (streams : Slot → Buffer) (events : List Sif1Event) :
    let run := sif1Run area streams events
    run.sif.waiting.Nodup ∧
    (∀ slot, (run.sif.jobs slot).state = .running ↔ run.sif.current = some slot) ∧
    List.Forall₂ (Carries area) (run.sif.launched ++ run.sif.waiting.map (run.sif.launch area)) run.accepted ∧
    (∀ slot offset, sifDmaJobStreamSize ≤ offset → (run.sif.jobs slot).stream offset = streams slot offset) ∧
    (∀ trid ≠ 0, ∀ count ≥ run.sif.waiting.length,
      let later := sif1Run area streams (events ++ rounds count trid)
      later.accepted = run.accepted ∧ List.Forall₂ (Carries area) later.sif.launched run.accepted) ∧
    (∀ trid ≠ 0, (eeSifDmaStat area run.sif trid).1 = -1 →
      ∀ entry ∈ run.accepted.drop run.sif.finished, entry.2 ≠ trid) ∧
    (∀ request ends, (eeSifSetDma area run.sif request ends).1 = 0 →
      SameQueue (eeSifDmaPump area run.sif) (eeSifSetDma area run.sif request ends).2) := by
  intro run
  have inv := inv_sif1Run area streams events
  refine ⟨inv.valid.distinct, inv.valid.running, inv.accounts.ledger, inv.apart, fun trid given count enough => ?_,
    fun trid given ended entry unfinished => inv.stat_over given ended unfinished,
    fun request ends refused => refused_same inv refused⟩
  have kept : (sif1Run area streams (events ++ rounds count trid)).accepted = run.accepted := by
    rw [sif1Run, List.foldl_append]
    exact accepted_rounds count trid run
  have ledger := (inv_sif1Run area streams (events ++ rounds count trid)).accounts.ledger
  rw [waiting_rounds given enough, List.map_nil, List.append_nil, kept] at ledger
  exact ⟨kept, ledger⟩

/-- A request without descriptors, which is refused, frees the slot of a transfer that has ended. -/
theorem refused_frees_slot : ¬ ∀ (area : JobArea) (streams : Slot → Buffer) (events : List Sif1Event)
    (request : DmaRequest) (ends : Bool),
    (eeSifSetDma area (sif1Run area streams events).sif request ends).1 = 0 →
      ∀ slot, ((eeSifSetDma area (sif1Run area streams events).sif request ends).2.jobs slot).state =
        ((sif1Run area streams events).sif.jobs slot).state := by
  intro unchanged
  have freed := unchanged { address := 0x00100000, aligned := by decide, inside := by decide } (fun _ _ => 0)
    [.setDma { dmat := some fun _ => ⟨0, 0, 0, 0⟩, count := 1, subaddr := 0, ram := fun _ => 0 } false, .complete]
    { dmat := none, count := 1, subaddr := 0, ram := fun _ => 0 } false (by decide +kernel) 0
  revert freed
  decide +kernel

end KosTool.Ps2
