import Mathlib.Algebra.Order.Group.Multiset
import Mathlib.Tactic.Abel
import KosTool.Soundness.SlotOwners

/-! # Every block of the other processor's heap

What the broker has been handed is what it has freed, what it records and what its steps have let go of: the count of
a drain that is reset over a block that the handler has put into the list, a session that is reset over its blocks or
over a load that is in flight, and a block whose release is refused where nobody looks at the answer. Nothing is freed
twice.
-/

namespace KosTool.Ps2

open ByteWord Machine

/-- The block that a call has in its hands. -/
def Task.held : Task → List Word
  | .scan _ request | .track _ request | .flag _ request | .stage _ request => request.staging.toList
  | .push block => [block]
  | _ => []

namespace SifBroker

variable {broker next : SifBroker} {request : Submission} {slot : ℕ} {client : Word}

/-- The entries of the list of blocks to free. -/
def pending (table : List (Option Word)) (count : ℕ) : List Word := (table.take count).reduceOption

/-- The list as it is recorded: an entry whose block has been freed is about to be cleared. -/
def listed (broker : SifBroker) : List Word :=
  match broker.task with
  | .drain (.clear i _) _ => pending (broker.pendingFree.set i none) broker.pendingFreeCount
  | _ => pending broker.pendingFree broker.pendingFreeCount

/-- The block of the load in flight, as the two variables have it. -/
def inLoad (broker : SifBroker) : List Word :=
  if broker.lmbInFlight then broker.lmbInFlightStaging.toList else []

/-- The block of the load in flight, once the variable is set for it. -/
def loading (broker : SifBroker) : List Word :=
  match broker.task with
  | .stage _ _ => []
  | _ => broker.inLoad

/-- The blocks that are recorded. -/
def recorded (broker : SifBroker) : Multiset Word :=
  ↑broker.iopAddrs.reduceOption + ↑broker.listed + ↑broker.loading + ↑broker.task.held

/-- The blocks that a step lets go of without freeing them. -/
def letGo (broker : SifBroker) : BrokerEvent → List Word
  | .call .sessionOpen => broker.iopAddrs.reduceOption
  | .thread answer =>
    match broker.task with
    | .drain (.look i n) _ =>
      if i < n ∧ answer.freed = false then broker.pendingFree[i]?.join.toList else []
    | .drain .reset _ => pending broker.pendingFree broker.pendingFreeCount
    | .resume (.submit request) =>
      if (request.call = .loadModuleBuffer ∧ (broker.brokerLoadfileBound = true ∨ answer.bound = true) ∧
          answer.sent = false) ∧ answer.freed = false then
        answer.block.toList
      else []
    | .resume .iopAlloc =>
      if broker.iopAddrs.findIdx? (·.isNone) = none ∧ answer.freed = false then answer.block.toList else []
    | .scan slot request => if brokerPktCount ≤ slot ∧ answer.freed = false then request.staging.toList else []
    | .freeBlocks slot =>
      if slot < brokerMaxIopAllocs ∧ answer.freed = false then broker.iopAddrs[slot]?.join.toList else []
    | .clearSlots _ slot =>
      if brokerPktCount ≤ slot ∧ broker.lmbInFlight = true then broker.lmbInFlightStaging.toList else []
    | _ => []
  | _ => []

/-- What holds of the list and of the load in flight at each step. -/
def ListSound (broker : SifBroker) : Task → Prop
  | .drain (.look _ n) _ => n ≤ broker.pendingFreeCount
  | .drain (.clear i n) _ => i < n ∧ n ≤ broker.pendingFreeCount
  | .resume (.submit request) => request.call.loads = true → broker.pendingFreeCount = 0
  | .scan _ request | .track _ request =>
    (request.call.loads = true → broker.pendingFreeCount = 0) ∧ (request.call.loads = false → request.staging = none)
  | .flag _ _ => broker.pendingFreeCount = 0
  | .send _ request | .unsend _ request =>
    request.call.loads = true → broker.lmbInFlightStaging = request.staging
  | .unflag request => broker.lmbInFlightStaging = request.staging
  | .push _ => broker.pendingFreeCount = 0 ∧ broker.lmbInFlight = false
  | _ => True

/-- What holds of the list in every run: there is one entry at most, and none while a load is in flight. -/
structure Listed (broker : SifBroker) : Prop where
  size : broker.pendingFree.length = brokerPendingFreeMax
  few : broker.pendingFreeCount ≤ 1
  quiet : broker.lmbInFlight = true → broker.pendingFreeCount = 0
  task : broker.ListSound broker.task

/-- A step that keeps what holds of the list, and what it does to the books. -/
structure Balances (broker next : SifBroker) (gone : List Word) : Prop where
  listed : next.Listed
  books : (↑next.freed + next.recorded + ↑gone + ↑broker.allocated : Multiset Word) =
    ↑broker.freed + broker.recorded + ↑next.allocated

/-- A block that is put into an empty list is what the list holds. -/
theorem pending_push {table : List (Option Word)} (size : table.length = brokerPendingFreeMax) (block : Word) :
    pending (table.set 0 (some block)) 1 = [block] := by
  cases table with
  | nil => cases size
  | cons head rest => rfl

/-- An entry that is cleared takes its block out of the list. -/
theorem pending_clear {table : List (Option Word)} {i count : ℕ} {block : Word} (inside : i < count)
    (held : table[i]? = some (some block)) :
    (pending table count).Perm (block :: pending (table.set i none) count) := by
  rw [pending, pending, List.take_set]
  refine SlotTable.clear ?_
  rw [List.getElem?_take_of_lt inside]
  exact held

theorem cons_eq_add (block : Word) (rest : List Word) : (↑(block :: rest) : Multiset Word) = ↑[block] + ↑rest := rfl

/-- The books of a step that frees some blocks and is granted some. -/
theorem Balances.of_recorded {released granted gone : List Word} (listed : next.Listed)
    (freed : next.freed = released ++ broker.freed) (allocated : next.allocated = granted ++ broker.allocated)
    (recorded : (↑released + next.recorded + ↑gone : Multiset Word) = broker.recorded + ↑granted) :
    broker.Balances next gone := by
  refine ⟨listed, ?_⟩
  rw [freed, allocated, ← Multiset.coe_add, ← Multiset.coe_add]
  calc (↑released + ↑broker.freed + next.recorded + ↑gone + ↑broker.allocated : Multiset Word)
      = (↑released + next.recorded + ↑gone) + (↑broker.freed + ↑broker.allocated) := by abel
    _ = broker.recorded + ↑granted + (↑broker.freed + ↑broker.allocated) := by rw [recorded]
    _ = ↑broker.freed + broker.recorded + (↑granted + ↑broker.allocated) := by abel

/-- The books of a step that changes none of them. -/
theorem Balances.of_same (listed : next.Listed) (freed : next.freed = broker.freed)
    (allocated : next.allocated = broker.allocated) (recorded : next.recorded = broker.recorded) :
    broker.Balances next [] := by
  have books : (↑([] : List Word) + next.recorded + ↑([] : List Word) : Multiset Word) =
      broker.recorded + ↑([] : List Word) := by
    rw [recorded, Multiset.coe_nil, zero_add]
  exact @Balances.of_recorded broker next [] [] [] listed freed allocated books

/-- The books of a step that gives one block back: it is freed, or let go of if that is refused. -/
theorem Balances.of_release {granted : List Word} {block : Word} {answered : Bool} (listed : next.Listed)
    (freed : next.freed = if answered then block :: broker.freed else broker.freed)
    (allocated : next.allocated = granted ++ broker.allocated)
    (recorded : (↑[block] + next.recorded : Multiset Word) = broker.recorded + ↑granted) :
    broker.Balances next (if answered = false then [block] else []) := by
  cases answered with
  | true =>
    have books : (↑[block] + next.recorded + ↑([] : List Word) : Multiset Word) = broker.recorded + ↑granted := by
      rw [recorded, Multiset.coe_nil, add_zero]
    exact .of_recorded listed freed allocated books
  | false =>
    have books : (↑([] : List Word) + next.recorded + ↑[block] : Multiset Word) = broker.recorded + ↑granted := by
      rw [← recorded, Multiset.coe_nil, zero_add, add_comm]
    exact .of_recorded listed freed allocated books

/-- One step of the drain. -/
theorem Listed.drain {answer : SifAnswer} {stage : DrainStage} {after : AfterDrain} (kept : broker.Listed)
    (task : broker.task = .drain stage after) (stepped : broker.thread answer = some next) :
    broker.Balances next (broker.letGo (.thread answer)) := by
  have holds := kept.task
  rw [SifBroker.thread, task] at stepped
  rw [task] at holds
  cases stage with
  | read =>
    cases stepped
    have gone : broker.letGo (.thread answer) = [] := by simp only [letGo, task]
    have before : broker.recorded = ↑broker.iopAddrs.reduceOption +
        ↑(pending broker.pendingFree broker.pendingFreeCount) + ↑broker.inLoad + ↑([] : List Word) := by
      simp only [recorded, listed, loading, task, Task.held]
    rw [gone]
    exact .of_same ⟨kept.size, kept.few, kept.quiet, Nat.min_le_left _ _⟩ rfl rfl before.symm
  | look i n =>
    have before : broker.recorded = ↑broker.iopAddrs.reduceOption +
        ↑(pending broker.pendingFree broker.pendingFreeCount) + ↑broker.inLoad + ↑([] : List Word) := by
      simp only [recorded, listed, loading, task, Task.held]
    dsimp only at stepped
    split_ifs at stepped with inside
    · cases entry : broker.pendingFree[i]?.join with
      | some block =>
        have held := Option.join_eq_some_iff.mp entry
        rw [held] at stepped
        cases stepped
        have gone : broker.letGo (.thread answer) = if answer.freed = false then [block] else [] := by
          simp only [letGo, task, inside, true_and, entry, Option.toList_some]
        have perm := pending_clear (Nat.lt_of_lt_of_le inside holds) held
        rw [gone]
        refine .of_release ⟨kept.size, kept.few, kept.quiet, inside, holds⟩ rfl (List.nil_append _).symm ?_
        have split := Multiset.coe_eq_coe.mpr perm
        rw [cons_eq_add block] at split
        rw [before, split]
        change (↑[block] + (↑broker.iopAddrs.reduceOption +
          ↑(pending (broker.pendingFree.set i none) broker.pendingFreeCount) + ↑broker.inLoad +
          ↑([] : List Word)) : Multiset Word) = _
        rw [Multiset.coe_nil]
        abel
      | none =>
        have gone : broker.letGo (.thread answer) = [] := by
          simp only [letGo, task, entry, Option.toList_none, ite_self]
        have skipped : next = { broker with task := .drain (.look (i + 1) n) after } := by
          split at stepped
          · rename_i block held
            rw [held] at entry
            cases entry
          · exact (Option.some.inj stepped).symm
        rw [gone, skipped]
        exact .of_same ⟨kept.size, kept.few, kept.quiet, holds⟩ rfl rfl before.symm
    · cases stepped
      have gone : broker.letGo (.thread answer) = [] := by
        simp only [letGo, task, inside, false_and, if_false]
      rw [gone]
      exact .of_same ⟨kept.size, kept.few, kept.quiet, trivial⟩ rfl rfl before.symm
  | clear i n =>
    cases stepped
    have gone : broker.letGo (.thread answer) = [] := by simp only [letGo, task]
    have before : broker.recorded = ↑broker.iopAddrs.reduceOption +
        ↑(pending (broker.pendingFree.set i none) broker.pendingFreeCount) + ↑broker.inLoad + ↑([] : List Word) := by
      simp only [recorded, listed, loading, task, Task.held]
    have size : (broker.pendingFree.set i none).length = brokerPendingFreeMax := by
      rw [List.length_set]
      exact kept.size
    rw [gone]
    exact .of_same ⟨size, kept.few, kept.quiet, holds.2⟩ rfl rfl before.symm
  | reset =>
    cases stepped
    have gone : broker.letGo (.thread answer) = pending broker.pendingFree broker.pendingFreeCount := by
      simp only [letGo, task]
    have before : broker.recorded = ↑broker.iopAddrs.reduceOption +
        ↑(pending broker.pendingFree broker.pendingFreeCount) + ↑broker.inLoad + ↑([] : List Word) := by
      simp only [recorded, listed, loading, task, Task.held]
    have listed : Listed { broker with pendingFreeCount := 0, task := .resume after } := by
      refine ⟨kept.size, Nat.zero_le _, fun _ => rfl, ?_⟩
      cases after with
      | submit request => exact fun _ => rfl
      | _ => trivial
    have books : (↑([] : List Word) + recorded { broker with pendingFreeCount := 0, task := .resume after } +
        ↑(pending broker.pendingFree broker.pendingFreeCount) : Multiset Word) =
          broker.recorded + ↑([] : List Word) := by
      rw [before]
      change 0 + (↑broker.iopAddrs.reduceOption + 0 + ↑broker.inLoad + 0) + _ = _ + _ + _ + 0 + (0 : Multiset Word)
      abel
    rw [gone]
    exact .of_recorded listed rfl rfl books

/-- What is recorded where a call has nothing in its hands. -/
theorem recorded_resume {after : AfterDrain} (task : broker.task = .resume after) :
    broker.recorded = ↑broker.iopAddrs.reduceOption + ↑(pending broker.pendingFree broker.pendingFreeCount) +
      ↑broker.inLoad + ↑([] : List Word) := by
  simp only [recorded, listed, loading, task, Task.held]

/-- What is done for a load before it needs a slot. -/
theorem Listed.prepare {answer : SifAnswer} (kept : broker.Listed) (task : broker.task = .resume (.submit request))
    (empty : request.staging = none) :
    broker.Balances (broker.prepare request answer) (broker.letGo (.thread answer)) := by
  have before := recorded_resume task
  have quiet := kept.task
  rw [task] at quiet
  have nothing : request.staging.toList = [] := by rw [empty, Option.toList_none]
  have scanned : broker.recorded = ↑broker.iopAddrs.reduceOption +
      ↑(pending broker.pendingFree broker.pendingFreeCount) + ↑broker.inLoad + ↑request.staging.toList := by
    rw [nothing, before]
  rw [SifBroker.prepare]
  split_ifs with idle unbound buffer
  · have other : request.call ≠ .loadModuleBuffer := fun same => by
      rw [same] at idle
      cases idle
    have gone : broker.letGo (.thread answer) = [] := by
      simp only [letGo, task, other, false_and, if_false]
    rw [gone]
    exact .of_same ⟨kept.size, kept.few, kept.quiet, quiet, fun _ => empty⟩ rfl rfl scanned.symm
  · have gone : broker.letGo (.thread answer) = [] := by
      simp only [letGo, task, unbound.1, unbound.2, Bool.false_eq_true, or_self, false_and, and_false, if_false]
    rw [gone]
    exact .of_same ⟨kept.size, kept.few, kept.quiet, trivial⟩ rfl rfl before.symm
  · have bound : broker.brokerLoadfileBound = true ∨ answer.bound = true := by
      rcases not_and_or.mp unbound with on | on
      · exact .inl (Bool.eq_true_of_not_eq_false on)
      · exact .inr (Bool.eq_true_of_not_eq_false on)
    rw [stageBuffer]
    cases granted : answer.block with
    | none =>
      have gone : broker.letGo (.thread answer) = [] := by
        simp only [letGo, task, granted, Option.toList_none, ite_self]
      rw [gone]
      exact .of_same ⟨kept.size, kept.few, kept.quiet, trivial⟩ rfl rfl before.symm
    | some block =>
      dsimp only
      split_ifs with sent
      · have gone : broker.letGo (.thread answer) = [] := by
          simp only [letGo, task, sent, Bool.true_eq_false, false_and, and_false, if_false]
        rw [gone]
        refine @Balances.of_recorded broker _ [] [block] [] ⟨kept.size, kept.few, kept.quiet, quiet, fun other => ?_⟩
          rfl rfl ?_
        · exact absurd other idle
        · rw [before, Multiset.coe_nil, zero_add, add_zero, add_zero]
          rfl
      · have gone : broker.letGo (.thread answer) = if answer.freed = false then [block] else [] := by
          have unsent : answer.sent = false := Bool.eq_false_of_not_eq_true sent
          simp only [letGo, task, buffer, bound, unsent, granted, true_and, Option.toList_some]
        rw [gone]
        refine @Balances.of_release broker _ [block] block answer.freed ⟨kept.size, kept.few, kept.quiet, trivial⟩
          rfl rfl ?_
        rw [before, add_comm]
        rfl
  · have gone : broker.letGo (.thread answer) = [] := by
      simp only [letGo, task, buffer, false_and, if_false]
    rw [gone]
    exact .of_same ⟨kept.size, kept.few, kept.quiet, quiet, fun other => absurd other idle⟩ rfl rfl scanned.symm

/-- What a call does after the drain. -/
theorem Listed.resumed {answer : SifAnswer} {after : AfterDrain} (kept : broker.Listed)
    (task : broker.task = .resume after) (awaits : broker.Awaits after) :
    broker.Balances (broker.resumed answer after) (broker.letGo (.thread answer)) := by
  have before := recorded_resume task
  cases after with
  | submit request => exact kept.prepare task awaits.2
  | transfer =>
    have gone : broker.letGo (.thread answer) = [] := by simp only [letGo, task]
    rw [gone]
    exact .of_same ⟨kept.size, kept.few, kept.quiet, trivial⟩ rfl rfl before.symm
  | iopAlloc =>
    change broker.Balances (broker.iopAlloc answer) _
    rw [SifBroker.iopAlloc]
    cases granted : answer.block with
    | none =>
      have gone : broker.letGo (.thread answer) = [] := by
        simp only [letGo, task, granted, Option.toList_none, ite_self]
      rw [gone]
      exact .of_same ⟨kept.size, kept.few, kept.quiet, trivial⟩ rfl rfl before.symm
    | some block =>
      dsimp only
      cases found : broker.iopAddrs.findIdx? (·.isNone) with
      | some slot =>
        obtain ⟨inside, empty, -⟩ := List.findIdx?_eq_some_iff_getElem.mp found
        have free : broker.iopAddrs[slot]? = some none := by
          rw [List.getElem?_eq_getElem inside, Option.isNone_iff_eq_none.mp empty]
        have gone : broker.letGo (.thread answer) = [] := by
          simp only [letGo, task, found, reduceCtorEq, false_and, if_false]
        have filled := Multiset.coe_eq_coe.mpr (SlotTable.fill free block)
        rw [cons_eq_add block] at filled
        rw [gone]
        refine @Balances.of_recorded broker _ [] [block] [] ⟨kept.size, kept.few, kept.quiet, trivial⟩ rfl rfl ?_
        change (↑([] : List Word) + (↑(broker.iopAddrs.set slot (some block)).reduceOption +
          ↑(pending broker.pendingFree broker.pendingFreeCount) + ↑broker.inLoad + ↑([] : List Word)) +
          ↑([] : List Word) : Multiset Word) = _
        rw [before, filled, Multiset.coe_nil]
        abel
      | none =>
        have gone : broker.letGo (.thread answer) = if answer.freed = false then [block] else [] := by
          simp only [letGo, task, granted, found, true_and, Option.toList_some]
        rw [gone]
        refine @Balances.of_release broker _ [block] block answer.freed ⟨kept.size, kept.few, kept.quiet, trivial⟩
          rfl rfl ?_
        rw [before, add_comm]
        rfl
  | iopFree address slot =>
    have gone : broker.letGo (.thread answer) = [] := by simp only [letGo, task]
    rw [SifBroker.resumed, gone]
    split_ifs
    · have taken := Multiset.coe_eq_coe.mpr (SlotTable.clear awaits)
      rw [cons_eq_add address] at taken
      refine @Balances.of_recorded broker _ [address] [] [] ⟨kept.size, kept.few, kept.quiet, trivial⟩ rfl rfl ?_
      change (↑[address] + (↑(broker.iopAddrs.set slot none).reduceOption +
        ↑(pending broker.pendingFree broker.pendingFreeCount) + ↑broker.inLoad + ↑([] : List Word)) +
        ↑([] : List Word) : Multiset Word) = _
      rw [before, taken, Multiset.coe_nil]
      abel
    · exact .of_same ⟨kept.size, kept.few, kept.quiet, trivial⟩ rfl rfl before.symm
  | close =>
    have gone : broker.letGo (.thread answer) = [] := by simp only [letGo, task]
    rw [gone]
    exact .of_same ⟨kept.size, kept.few, kept.quiet, trivial⟩ rfl rfl before.symm

/-- A request that has a slot and loads is the load that the flag counts. -/
theorem LoadsAgree.flag_of_load (agree : broker.LoadsAgree) (submitted : broker.Submitted slot request)
    (loads : request.call.loads = true) : broker.lmbInFlight = true := by
  refine Bool.eq_true_of_not_eq_false fun off => ?_
  have some := countLoads_pos submitted.held (submitted.op.trans (of_decide_eq_true loads))
  have count : countLoads broker.brokerActive broker.priv = broker.lmbInFlight.toNat := agree
  rw [count, off] at some
  cases some

/-- One step of a request that looks for a slot. -/
theorem Listed.scan {answer : SifAnswer} (kept : broker.Listed) (task : broker.task = .scan slot request)
    (stepped : broker.thread answer = some next) : broker.Balances next (broker.letGo (.thread answer)) := by
  have before : broker.recorded = ↑broker.iopAddrs.reduceOption +
      ↑(pending broker.pendingFree broker.pendingFreeCount) + ↑broker.inLoad + ↑request.staging.toList := by
    simp only [recorded, listed, loading, task, Task.held]
  have holds := kept.task
  rw [task] at holds
  rw [SifBroker.thread, task] at stepped
  dsimp only at stepped
  split_ifs at stepped with inside free
  · have gone : broker.letGo (.thread answer) = [] := by
      simp only [letGo, task, Nat.not_le.mpr inside, false_and, if_false]
    cases stepped
    rw [gone]
    exact .of_same ⟨kept.size, kept.few, kept.quiet, holds⟩ rfl rfl before.symm
  · have gone : broker.letGo (.thread answer) = [] := by
      simp only [letGo, task, Nat.not_le.mpr inside, false_and, if_false]
    cases stepped
    rw [gone]
    exact .of_same ⟨kept.size, kept.few, kept.quiet, holds⟩ rfl rfl before.symm
  · have past : brokerPktCount ≤ slot := Nat.le_of_not_lt inside
    cases stepped
    rw [noSlot]
    cases staging : request.staging with
    | some block =>
      have gone : broker.letGo (.thread answer) = if answer.freed = false then [block] else [] := by
        simp only [letGo, task, past, true_and, staging, Option.toList_some]
      rw [gone]
      refine .of_release ⟨kept.size, kept.few, kept.quiet, trivial⟩ rfl (List.nil_append _).symm ?_
      change (↑[block] + (↑broker.iopAddrs.reduceOption + ↑(pending broker.pendingFree broker.pendingFreeCount) +
        ↑broker.inLoad + ↑([] : List Word)) : Multiset Word) = _
      rw [before, staging, Option.toList_some, Multiset.coe_nil]
      abel
    | none =>
      have gone : broker.letGo (.thread answer) = [] := by
        simp only [letGo, task, staging, Option.toList_none, ite_self]
      rw [gone]
      rw [staging] at before
      exact .of_same ⟨kept.size, kept.few, kept.quiet, trivial⟩ rfl rfl before.symm

/-- One step of a request from its slot to its end. -/
theorem Listed.submit {answer : SifAnswer} (kept : broker.Listed) (sound : broker.Sound)
    (stepped : broker.thread answer = some next)
    (task : broker.task = .track slot request ∨ broker.task = .flag slot request ∨ broker.task = .stage slot request ∨
      broker.task = .send slot request ∨ broker.task = .unsend slot request) :
    broker.Balances next (broker.letGo (.thread answer)) := by
  have holds := kept.task
  have relies := sound.task
  rcases task with task | task | task | task | task
  · have gone : broker.letGo (.thread answer) = [] := by simp only [letGo, task]
    have before : broker.recorded = ↑broker.iopAddrs.reduceOption +
        ↑(pending broker.pendingFree broker.pendingFreeCount) + ↑broker.inLoad + ↑request.staging.toList := by
      simp only [recorded, listed, loading, task, Task.held]
    rw [task] at holds
    rw [SifBroker.thread, task] at stepped
    cases stepped
    rw [gone]
    cases loads : request.call.loads with
    | true => exact .of_same ⟨kept.size, kept.few, kept.quiet, holds.1 loads⟩ rfl rfl before.symm
    | false =>
      rw [holds.2 loads] at before
      refine .of_same ⟨kept.size, kept.few, kept.quiet, fun other => ?_⟩ rfl rfl before.symm
      rw [loads] at other
      cases other
  · have gone : broker.letGo (.thread answer) = [] := by simp only [letGo, task]
    rw [task] at holds relies
    have off : broker.inLoad = [] := by rw [inLoad, relies.2.2.2]; rfl
    have before : broker.recorded = ↑broker.iopAddrs.reduceOption +
        ↑(pending broker.pendingFree broker.pendingFreeCount) + ↑([] : List Word) + ↑request.staging.toList := by
      simp only [recorded, listed, loading, task, Task.held, off]
    rw [SifBroker.thread, task] at stepped
    cases stepped
    rw [gone]
    exact .of_same ⟨kept.size, kept.few, fun _ => holds, trivial⟩ rfl rfl before.symm
  · have gone : broker.letGo (.thread answer) = [] := by simp only [letGo, task]
    rw [task] at relies
    have on : broker.lmbInFlight = true := LoadsAgree.flag_of_load relies.2.2 relies.1 relies.2.1
    have before : broker.recorded = ↑broker.iopAddrs.reduceOption +
        ↑(pending broker.pendingFree broker.pendingFreeCount) + ↑([] : List Word) + ↑request.staging.toList := by
      simp only [recorded, listed, loading, task, Task.held]
    rw [SifBroker.thread, task] at stepped
    cases stepped
    rw [gone]
    refine .of_same ⟨kept.size, kept.few, kept.quiet, fun _ => rfl⟩ rfl rfl ?_
    rw [before, Multiset.coe_nil, add_zero]
    change (↑broker.iopAddrs.reduceOption + ↑(pending broker.pendingFree broker.pendingFreeCount) +
      ↑(if broker.lmbInFlight then request.staging.toList else []) + ↑([] : List Word) : Multiset Word) = _
    rw [if_pos on, Multiset.coe_nil, add_zero]
  · have gone : broker.letGo (.thread answer) = [] := by simp only [letGo, task]
    have before : broker.recorded = ↑broker.iopAddrs.reduceOption +
        ↑(pending broker.pendingFree broker.pendingFreeCount) + ↑broker.inLoad + ↑([] : List Word) := by
      simp only [recorded, listed, loading, task, Task.held]
    rw [task] at holds
    rw [SifBroker.thread, task] at stepped
    rw [gone]
    dsimp only at stepped
    split_ifs at stepped
    · cases stepped
      exact .of_same ⟨kept.size, kept.few, kept.quiet, trivial⟩ rfl rfl before.symm
    · cases stepped
      exact .of_same ⟨kept.size, kept.few, kept.quiet, holds⟩ rfl rfl before.symm
  · have gone : broker.letGo (.thread answer) = [] := by simp only [letGo, task]
    have before : broker.recorded = ↑broker.iopAddrs.reduceOption +
        ↑(pending broker.pendingFree broker.pendingFreeCount) + ↑broker.inLoad + ↑([] : List Word) := by
      simp only [recorded, listed, loading, task, Task.held]
    rw [task] at holds
    rw [SifBroker.thread, task] at stepped
    cases stepped
    rw [gone]
    cases loads : request.call.loads with
    | true => exact .of_same ⟨kept.size, kept.few, kept.quiet, holds loads⟩ rfl rfl before.symm
    | false => exact .of_same ⟨kept.size, kept.few, kept.quiet, trivial⟩ rfl rfl before.symm

/-- The end of a load that could not be sent: its block goes from the variable into the list. -/
theorem Listed.giveUp {answer : SifAnswer} {block : Word} (kept : broker.Listed) (sound : broker.Sound)
    (stepped : broker.thread answer = some next)
    (task : broker.task = .unflag request ∨ broker.task = .push block) :
    broker.Balances next (broker.letGo (.thread answer)) := by
  have holds := kept.task
  have relies := sound.task
  rcases task with task | task
  · have gone : broker.letGo (.thread answer) = [] := by simp only [letGo, task]
    rw [task] at holds relies
    have own : broker.inLoad = request.staging.toList := by
      have staged : broker.lmbInFlightStaging = request.staging := holds
      rw [inLoad, if_pos relies.2, staged]
    have before : broker.recorded = ↑broker.iopAddrs.reduceOption +
        ↑(pending broker.pendingFree broker.pendingFreeCount) + ↑request.staging.toList + ↑([] : List Word) := by
      simp only [recorded, listed, loading, task, Task.held, own]
    rw [SifBroker.thread, task] at stepped
    cases stepped
    rw [gone]
    cases staging : request.staging with
    | some block =>
      refine .of_same ⟨kept.size, kept.few, fun on => absurd on Bool.false_ne_true, kept.quiet relies.2, rfl⟩ rfl rfl ?_
      rw [before, staging, Option.toList_some, add_right_comm]
      rfl
    | none =>
      rw [staging] at before
      exact .of_same ⟨kept.size, kept.few, fun on => absurd on Bool.false_ne_true, trivial⟩ rfl rfl before.symm
  · have gone : broker.letGo (.thread answer) = [] := by simp only [letGo, task]
    rw [task] at holds
    have none : pending broker.pendingFree broker.pendingFreeCount = [] := by rw [holds.1]; rfl
    have before : broker.recorded = ↑broker.iopAddrs.reduceOption + ↑([] : List Word) + ↑broker.inLoad +
        ↑[block] := by
      simp only [recorded, listed, loading, task, Task.held, none]
    rw [SifBroker.thread, task] at stepped
    cases stepped
    rw [gone]
    have pushed : pending (broker.pendingFreePush block).pendingFree (broker.pendingFreePush block).pendingFreeCount =
        [block] := by
      rw [pendingFreePush, holds.1]
      exact pending_push kept.size block
    have size : (broker.pendingFreePush block).pendingFree.length = brokerPendingFreeMax := by
      rw [pendingFreePush, holds.1]
      exact (List.length_set ..).trans kept.size
    have few : (broker.pendingFreePush block).pendingFreeCount ≤ 1 := by
      rw [pendingFreePush, holds.1]
    refine .of_same ⟨size, few, fun on => ?_, trivial⟩ rfl rfl ?_
    · change broker.lmbInFlight = true at on
      rw [holds.2] at on
      cases on
    · change (↑broker.iopAddrs.reduceOption + ↑(pending (broker.pendingFreePush block).pendingFree
        (broker.pendingFreePush block).pendingFreeCount) + ↑broker.inLoad + ↑([] : List Word) : Multiset Word) = _
      rw [before, pushed, Multiset.coe_nil]
      abel

/-- One step of a session that is reset. -/
theorem Listed.reset {answer : SifAnswer} {opening : Bool} (kept : broker.Listed) (sound : broker.Sound)
    (stepped : broker.thread answer = some next)
    (task : broker.task = .freeBlocks slot ∨ broker.task = .clearSlots opening slot ∨
      broker.task = .clearStaging opening) :
    broker.Balances next (broker.letGo (.thread answer)) := by
  have relies := sound.task
  have before (idle : broker.task.held = []) (listed : broker.listed = pending broker.pendingFree broker.pendingFreeCount)
      (loading : broker.loading = broker.inLoad) : broker.recorded = ↑broker.iopAddrs.reduceOption +
        ↑(pending broker.pendingFree broker.pendingFreeCount) + ↑broker.inLoad + ↑([] : List Word) := by
    rw [recorded, idle, listed, loading]
  rcases task with task | task | task
  · have before := before (by rw [task]; rfl) (by simp only [listed, task]) (by simp only [loading, task])
    rw [SifBroker.thread, task] at stepped
    dsimp only at stepped
    split_ifs at stepped with inside
    · cases entry : broker.iopAddrs[slot]?.join with
      | some block =>
        have held := Option.join_eq_some_iff.mp entry
        rw [held] at stepped
        cases stepped
        have gone : broker.letGo (.thread answer) = if answer.freed = false then [block] else [] := by
          simp only [letGo, task, inside, true_and, entry, Option.toList_some]
        have taken := Multiset.coe_eq_coe.mpr (SlotTable.clear held)
        rw [cons_eq_add block] at taken
        rw [gone]
        refine .of_release ⟨kept.size, kept.few, kept.quiet, trivial⟩ rfl (List.nil_append _).symm ?_
        change (↑[block] + (↑(broker.iopAddrs.set slot none).reduceOption +
          ↑(pending broker.pendingFree broker.pendingFreeCount) + ↑broker.inLoad + ↑([] : List Word)) :
          Multiset Word) = _
        rw [before, taken, Multiset.coe_nil]
        abel
      | none =>
        have gone : broker.letGo (.thread answer) = [] := by
          simp only [letGo, task, entry, Option.toList_none, ite_self]
        have skipped : next = { broker with task := .freeBlocks (slot + 1) } := by
          split at stepped
          · rename_i block held
            rw [held] at entry
            cases entry
          · exact (Option.some.inj stepped).symm
        rw [gone, skipped]
        exact .of_same ⟨kept.size, kept.few, kept.quiet, trivial⟩ rfl rfl before.symm
    · cases stepped
      have gone : broker.letGo (.thread answer) = [] := by
        simp only [letGo, task, inside, false_and, if_false]
      rw [gone]
      exact .of_same ⟨kept.size, kept.few, kept.quiet, trivial⟩ rfl rfl before.symm
  · have before := before (by rw [task]; rfl) (by simp only [listed, task]) (by simp only [loading, task])
    rw [SifBroker.thread, task] at stepped
    dsimp only at stepped
    split_ifs at stepped with inside
    · cases stepped
      have gone : broker.letGo (.thread answer) = [] := by
        simp only [letGo, task, Nat.not_le.mpr inside, false_and, if_false]
      rw [gone]
      exact .of_same ⟨kept.size, kept.few, kept.quiet, trivial⟩ rfl rfl before.symm
    · cases stepped
      have gone : broker.letGo (.thread answer) = broker.inLoad := by
        simp only [letGo, task, Nat.le_of_not_lt inside, true_and, inLoad]
      rw [gone]
      refine @Balances.of_recorded broker _ [] [] _
        ⟨kept.size, kept.few, fun on => absurd on Bool.false_ne_true, trivial⟩ rfl rfl ?_
      change (↑([] : List Word) + (↑broker.iopAddrs.reduceOption +
        ↑(pending broker.pendingFree broker.pendingFreeCount) + ↑([] : List Word) + ↑([] : List Word)) +
        ↑broker.inLoad : Multiset Word) = _
      rw [before, Multiset.coe_nil]
      abel
  · have before := before (by rw [task]; rfl) (by simp only [listed, task]) (by simp only [loading, task])
    have gone : broker.letGo (.thread answer) = [] := by simp only [letGo, task]
    rw [task] at relies
    rw [SifBroker.thread, task] at stepped
    cases stepped
    have off : broker.inLoad = [] := by rw [inLoad, relies.2]; rfl
    rw [gone]
    refine .of_same ⟨kept.size, kept.few, kept.quiet, trivial⟩ rfl rfl ?_
    rw [before, off]
    change (↑broker.iopAddrs.reduceOption + ↑(pending broker.pendingFree broker.pendingFreeCount) +
      ↑(if broker.lmbInFlight then (none : Option Word).toList else []) + ↑([] : List Word) : Multiset Word) = _
    rw [relies.2]
    rfl

/-- Every step of the code outside the handler balances the books. -/
theorem Listed.thread {answer : SifAnswer} (kept : broker.Listed) (sound : broker.Sound)
    (stepped : broker.thread answer = some next) : broker.Balances next (broker.letGo (.thread answer)) := by
  cases task : broker.task with
  | idle returned =>
    rw [SifBroker.thread, task] at stepped
    cases stepped
  | drain stage after => exact kept.drain task stepped
  | resume after =>
    have relies := sound.task
    rw [task] at relies
    rw [SifBroker.thread, task] at stepped
    cases stepped
    exact kept.resumed task relies.2
  | scan slot request => exact kept.scan task stepped
  | track slot request => exact kept.submit sound stepped (.inl task)
  | flag slot request => exact kept.submit sound stepped (.inr (.inl task))
  | stage slot request => exact kept.submit sound stepped (.inr (.inr (.inl task)))
  | send slot request => exact kept.submit sound stepped (.inr (.inr (.inr (.inl task))))
  | unsend slot request => exact kept.submit sound stepped (.inr (.inr (.inr (.inr task))))
  | unflag request => exact @Listed.giveUp broker next request answer 0 kept sound stepped (.inl task)
  | push block => exact @Listed.giveUp broker next ⟨0, .rpcBind, none⟩ answer block kept sound stepped (.inr task)
  | freeBlocks slot => exact @Listed.reset broker next slot answer false kept sound stepped (.inl task)
  | clearSlots opening slot => exact kept.reset sound stepped (.inr (.inl task))
  | clearStaging opening => exact @Listed.reset broker next 0 answer opening kept sound stepped (.inr (.inr task))

/-- The steps that the completion of a load can interrupt. -/
def Task.Beside : Task → Prop
  | .flag _ _ | .stage _ _ | .unflag _ | .clearStaging _ => False
  | .scan _ request | .track _ request | .send _ request | .unsend _ request | .resume (.submit request) =>
    request.call.loads = false
  | _ => True

/-- A load that can complete is the one that the flag is set for, and no other is on its way. -/
theorem Sound.load_sent (sound : broker.Sound) (sent : client ∈ broker.outstanding)
    (member : client ∈ broker.tracked) (loads : (broker.priv client).op = .lmb) :
    broker.lmbInFlight = true ∧ Task.Beside broker.task := by
  obtain ⟨own, held⟩ := SlotTable.mem_iff.mp member
  have counted : 0 < broker.loadCount := countLoads_pos held loads
  have relies := sound.task
  have flagged (most : broker.loadCount ≤ broker.lmbInFlight.toNat) : broker.lmbInFlight = true := by
    refine Bool.eq_true_of_not_eq_false fun off => ?_
    rw [off, Bool.toNat_false] at most
    omega
  have alone {slot : ℕ} {request : Submission} (submitted : broker.Submitted slot request)
      (single : broker.loadCount ≤ 1) : request.call.loads = false := by
    refine Bool.eq_false_of_not_eq_true fun also => ?_
    have apart : client ≠ request.client := fun same => submitted.unsent (same ▸ sent)
    have two : 2 ≤ broker.loadCount :=
      two_le_countLoads submitted.held (submitted.op.trans (of_decide_eq_true also)) member loads apart
    omega
  have single (agree : broker.LoadsAgree) : broker.loadCount ≤ 1 := by
    rw [agree]
    exact Bool.toNat_le _
  have waiting {request : Submission} (agree : broker.LoadsAgree) (waits : broker.Waiting request) :
      request.call.loads = false := by
    refine Bool.eq_false_of_not_eq_true fun also => ?_
    have off := waits.2 also
    rw [flagged (Nat.le_of_eq agree)] at off
    cases off
  cases task : broker.task with
  | idle returned =>
    rw [task] at relies
    exact ⟨flagged (Nat.le_of_eq relies), trivial⟩
  | freeBlocks slot =>
    rw [task] at relies
    exact ⟨flagged (Nat.le_of_eq relies), trivial⟩
  | push block =>
    rw [task] at relies
    exact ⟨flagged (Nat.le_of_eq relies), trivial⟩
  | drain stage after =>
    rw [task] at relies
    exact ⟨flagged (Nat.le_of_eq relies.1), trivial⟩
  | resume after =>
    rw [task] at relies
    refine ⟨flagged (Nat.le_of_eq relies.1), ?_⟩
    cases after with
    | submit request => exact waiting relies.1 relies.2.1
    | transfer => trivial
    | iopAlloc => trivial
    | iopFree address slot => trivial
    | close => trivial
  | scan slot request =>
    rw [task] at relies
    exact ⟨flagged (Nat.le_of_eq relies.1), waiting relies.1 relies.2⟩
  | track slot request =>
    rw [task] at relies
    exact ⟨flagged (Nat.le_of_eq relies.1), waiting relies.1 relies.2.1⟩
  | flag slot request =>
    rw [task] at relies
    have other := alone relies.1 (Nat.le_of_eq relies.2.2.1)
    rw [relies.2.1] at other
    cases other
  | stage slot request =>
    rw [task] at relies
    have other := alone relies.1 (single relies.2.2)
    rw [relies.2.1] at other
    cases other
  | send slot request =>
    rw [task] at relies
    exact ⟨flagged (Nat.le_of_eq relies.2), alone relies.1 (single relies.2)⟩
  | unsend slot request =>
    rw [task] at relies
    exact ⟨flagged (Nat.le_of_eq relies.2), alone relies.1 (single relies.2)⟩
  | unflag request =>
    rw [task] at relies
    exact absurd relies.1 (Nat.ne_of_gt counted)
  | clearSlots opening slot =>
    rw [task] at relies
    exact ⟨flagged relies.1, trivial⟩
  | clearStaging opening =>
    rw [task] at relies
    rw [relies.1] at member
    cases member

/-- Two brokers have the same books, and the same step to go on with. -/
structure SameBooks (broker next : SifBroker) : Prop where
  iopAddrs : next.iopAddrs = broker.iopAddrs
  pendingFree : next.pendingFree = broker.pendingFree
  pendingFreeCount : next.pendingFreeCount = broker.pendingFreeCount
  lmbInFlight : next.lmbInFlight = broker.lmbInFlight
  lmbInFlightStaging : next.lmbInFlightStaging = broker.lmbInFlightStaging
  task : next.task = broker.task
  allocated : next.allocated = broker.allocated
  freed : next.freed = broker.freed

/-- What balances the books balances them for every broker that has the same. -/
theorem SameBooks.balances {middle : SifBroker} {gone : List Word} (same : middle.SameBooks next)
    (balances : broker.Balances middle gone) : broker.Balances next gone := by
  obtain ⟨listed, books⟩ := balances
  obtain ⟨active, iopAddrs, handlers, brokerActive, priv, pendingFree, pendingFreeCount, lmbInFlight,
    lmbInFlightStaging, brokerLoadfileBound, lmbResult, task, outstanding, allocated, freed⟩ := next
  obtain ⟨rfl, rfl, rfl, rfl, rfl, rfl, rfl, rfl⟩ := same
  exact ⟨⟨listed.size, listed.few, listed.quiet, listed.task⟩, books⟩

/-- The handler does to the books what `releaseLoad` does, if the client loads, and else nothing. -/
theorem isr_books (member : client ∈ broker.tracked) (reply : RpcEnd) (left : List Word) :
    SameBooks (if (broker.priv client).op = .lmb then broker.releaseLoad else broker)
      { broker.isr client reply with outstanding := left } := by
  rw [isr]
  cases found : broker.brokerActive.findIdx? (· = some client) with
  | none =>
    have absent := List.findIdx?_eq_none_iff.mp found
    exact absurd rfl (of_decide_eq_false (absent _ (List.reduceOption_mem_iff.mp member)))
  | some slot =>
    dsimp only
    rw [brokerComplete]
    split_ifs with loads
    · rw [releaseLoad, releaseLoad]
      cases broker.lmbInFlightStaging <;> exact ⟨rfl, rfl, rfl, rfl, rfl, rfl, rfl, rfl⟩
    · exact ⟨rfl, rfl, rfl, rfl, rfl, rfl, rfl, rfl⟩

theorem listed_eq (other : ∀ i n after, broker.task ≠ .drain (.clear i n) after) :
    broker.listed = pending broker.pendingFree broker.pendingFreeCount := by
  rw [listed]
  split
  · rename_i i n after task
    exact absurd task (other i n after)
  · rfl

theorem loading_eq (other : ∀ slot request, broker.task ≠ .stage slot request) : broker.loading = broker.inLoad := by
  rw [loading]
  split
  · rename_i slot request task
    exact absurd task (other slot request)
  · rfl

/-- A step that a completed load interrupts can go on: there is one more block in the list at most, and the load it
might still start is not the one that is over. -/
theorem ListSound.released (kept : broker.Listed) (on : broker.lmbInFlight = true)
    (beside : Task.Beside broker.task) (task : next.task = broker.task)
    (more : broker.pendingFreeCount ≤ next.pendingFreeCount) : next.ListSound next.task := by
  have holds := kept.task
  rw [task]
  cases at_ : broker.task with
  | idle returned => trivial
  | drain stage after =>
    rw [at_] at holds
    cases stage with
    | look i n => exact Nat.le_trans holds more
    | clear i n => exact ⟨holds.1, Nat.le_trans holds.2 more⟩
    | read => trivial
    | reset => trivial
  | resume after =>
    rw [at_] at beside
    cases after with
    | submit request =>
      refine fun loads => ?_
      rw [show request.call.loads = false from beside] at loads
      cases loads
    | transfer => trivial
    | iopAlloc => trivial
    | iopFree address slot => trivial
    | close => trivial
  | scan slot request =>
    rw [at_] at holds beside
    refine ⟨fun loads => ?_, holds.2⟩
    rw [show request.call.loads = false from beside] at loads
    cases loads
  | track slot request =>
    rw [at_] at holds beside
    refine ⟨fun loads => ?_, holds.2⟩
    rw [show request.call.loads = false from beside] at loads
    cases loads
  | flag slot request =>
    rw [at_] at beside
    cases beside
  | stage slot request =>
    rw [at_] at beside
    cases beside
  | send slot request =>
    rw [at_] at beside
    refine fun loads => ?_
    rw [show request.call.loads = false from beside] at loads
    cases loads
  | unsend slot request =>
    rw [at_] at beside
    refine fun loads => ?_
    rw [show request.call.loads = false from beside] at loads
    cases loads
  | unflag request =>
    rw [at_] at beside
    cases beside
  | push block =>
    rw [at_] at holds
    rw [holds.2] at on
    cases on
  | freeBlocks slot => trivial
  | clearSlots opening slot => trivial
  | clearStaging opening => trivial

/-- What `releaseLoad` does to an empty list. -/
structure Released (broker next : SifBroker) : Prop where
  iopAddrs : next.iopAddrs = broker.iopAddrs
  lmbInFlight : next.lmbInFlight = false
  task : next.task = broker.task
  allocated : next.allocated = broker.allocated
  freed : next.freed = broker.freed
  size : next.pendingFree.length = brokerPendingFreeMax
  few : next.pendingFreeCount ≤ 1
  list : pending next.pendingFree next.pendingFreeCount = broker.lmbInFlightStaging.toList

theorem Listed.released (kept : broker.Listed) (empty : broker.pendingFreeCount = 0) :
    broker.Released broker.releaseLoad := by
  rw [SifBroker.releaseLoad]
  split
  · rename_i block staging
    rw [pendingFreePush, empty]
    have list := pending_push kept.size block
    have size : (broker.pendingFree.set 0 (some block)).length = brokerPendingFreeMax := by
      rw [List.length_set]
      exact kept.size
    refine ⟨rfl, rfl, rfl, rfl, rfl, size, Nat.le_refl _, ?_⟩
    rw [staging]
    exact list
  · rename_i staging
    refine ⟨rfl, rfl, rfl, rfl, rfl, kept.size, kept.few, ?_⟩
    rw [staging, empty]
    rfl

/-- A load that completes moves its block from the variable into the list. -/
theorem Released.balances (released : broker.Released next) (kept : broker.Listed)
    (on : broker.lmbInFlight = true) (beside : Task.Beside broker.task) : broker.Balances next [] := by
  have empty := kept.quiet on
  have steady : ∀ i n after, broker.task ≠ .drain (.clear i n) after := fun i n after task => by
    have holds := kept.task
    rw [task] at holds
    have inside : i < n ∧ n ≤ broker.pendingFreeCount := holds
    omega
  have unstaged : ∀ slot request, broker.task ≠ .stage slot request := fun slot request task => by
    rw [task] at beside
    cases beside
  have before : broker.recorded = ↑broker.iopAddrs.reduceOption + ↑([] : List Word) +
      ↑broker.lmbInFlightStaging.toList + ↑broker.task.held := by
    rw [recorded, listed_eq steady, loading_eq unstaged, inLoad, if_pos on, empty]
    rfl
  have after : next.recorded = ↑broker.iopAddrs.reduceOption + ↑broker.lmbInFlightStaging.toList +
      ↑([] : List Word) + ↑broker.task.held := by
    have list : next.listed = broker.lmbInFlightStaging.toList := by
      rw [listed_eq (released.task ▸ steady), released.list]
    have load : next.loading = [] := by
      rw [loading_eq (released.task ▸ unstaged), inLoad, released.lmbInFlight]
      rfl
    rw [recorded, list, load, released.task, released.iopAddrs]
  have more : broker.pendingFreeCount ≤ next.pendingFreeCount := empty ▸ Nat.zero_le _
  have off : next.lmbInFlight = true → next.pendingFreeCount = 0 := fun other => by
    rw [released.lmbInFlight] at other
    cases other
  refine .of_same ⟨released.size, released.few, off, ListSound.released kept on beside released.task more⟩
    released.freed released.allocated ?_
  rw [after, before, Multiset.coe_nil, add_zero, add_zero]

/-- An `RPC_END` balances the books. -/
theorem Listed.rpcEnd (kept : broker.Listed) (sound : broker.Sound) (sent : client ∈ broker.outstanding)
    (reply : RpcEnd) (left : List Word) : broker.Balances { broker.isr client reply with outstanding := left } [] := by
  have steady : broker.Balances broker [] := .of_same kept rfl rfl rfl
  by_cases member : client ∈ broker.tracked
  · refine (isr_books member reply left).balances ?_
    split_ifs with loads
    · obtain ⟨on, beside⟩ := sound.load_sent sent member loads
      exact (kept.released (kept.quiet on)).balances kept on beside
    · exact steady
  · rw [isr_drops member]
    have same : broker.SameBooks { broker with outstanding := left } := ⟨rfl, rfl, rfl, rfl, rfl, rfl, rfl, rfl⟩
    exact same.balances steady

/-- The call of a guest lets go of what an opened session has recorded, and else of nothing. -/
theorem Listed.call {returned : SifErr} (kept : broker.Listed) (idle : broker.task = .idle returned)
    (request : BrokerCall) : broker.Balances (broker.call request) (broker.letGo (.call request)) := by
  have before : broker.recorded = ↑broker.iopAddrs.reduceOption +
      ↑(pending broker.pendingFree broker.pendingFreeCount) + ↑broker.inLoad + ↑([] : List Word) := by
    simp only [recorded, listed, loading, idle, Task.held]
  by_cases opens : request = .sessionOpen
  · subst opens
    have opened : broker.call .sessionOpen = broker.resetSession := by
      rw [SifBroker.call]
      split_ifs <;> rfl
    rw [opened]
    have books : (↑([] : List Word) + broker.resetSession.recorded + ↑broker.iopAddrs.reduceOption : Multiset Word) =
        broker.recorded + ↑([] : List Word) := by
      change (↑([] : List Word) + (↑([] : List Word) + ↑(pending broker.pendingFree broker.pendingFreeCount) +
        ↑broker.inLoad + ↑([] : List Word)) + ↑broker.iopAddrs.reduceOption : Multiset Word) = _
      rw [before, Multiset.coe_nil]
      abel
    exact .of_recorded ⟨kept.size, kept.few, kept.quiet, trivial⟩ rfl rfl books
  · have gone : broker.letGo (.call request) = [] := by
      cases request with
      | sessionOpen => exact absurd rfl opens
      | _ => rfl
    have outcome : CallOutcome broker request (broker.call request) := call_outcome request
    generalize broker.call request = next at outcome
    rw [gone]
    cases outcome with
    | returns handlers err => exact .of_same ⟨kept.size, kept.few, kept.quiet, trivial⟩ rfl rfl before.symm
    | resets other => exact absurd other opens
    | drains after awaits => exact .of_same ⟨kept.size, kept.few, kept.quiet, trivial⟩ rfl rfl before.symm

/-- Every event balances the books. -/
theorem Listed.step {event : BrokerEvent} (kept : broker.Listed) (sound : broker.Sound)
    (stepped : broker.step event = some next) : broker.Balances next (broker.letGo event) := by
  cases event with
  | call request =>
    rw [SifBroker.step] at stepped
    split at stepped
    · rename_i returned idle
      cases stepped
      exact kept.call idle request
    · cases stepped
  | thread answer => exact kept.thread sound stepped
  | rpcEnd cd reply =>
    obtain ⟨sent, equal⟩ := Option.ite_none_right_eq_some.mp stepped
    cases equal
    exact kept.rpcEnd sound (List.contains_iff_mem.mp sent) reply _

/-- What the steps of a run have let go of. -/
def lostBlocks : SifBroker → List BrokerEvent → List Word
  | _, [] => []
  | broker, event :: rest =>
    broker.letGo event ++
      match broker.step event with
      | some next => lostBlocks next rest
      | none => []

/-- A run balances the books but for what its steps let go of. -/
theorem Listed.run {events : List BrokerEvent} {source target : SifBroker} (kept : source.Listed)
    (sound : source.Sound) (run : sifBroker.run? source events = some target) :
    (↑target.freed + target.recorded + ↑(source.lostBlocks events) + ↑source.allocated : Multiset Word) =
      ↑source.freed + source.recorded + ↑target.allocated := by
  induction events generalizing source with
  | nil =>
    cases run
    rw [lostBlocks, Multiset.coe_nil, add_zero]
  | cons event rest ih =>
    obtain ⟨middle, step, suffix⟩ := LabeledMachine.run?_cons_eq_some.mp run
    have balances := kept.step sound step
    have later := ih balances.listed (sound.step step).1 suffix
    have first := balances.books
    have stepped : source.step event = some middle := step
    rw [lostBlocks, stepped, ← Multiset.coe_add]
    have total : (↑target.freed + target.recorded + (↑(source.letGo event) + ↑(middle.lostBlocks rest)) +
        ↑source.allocated + ↑middle.allocated : Multiset Word) =
          ↑source.freed + source.recorded + ↑target.allocated + ↑middle.allocated := by
      calc (↑target.freed + target.recorded + (↑(source.letGo event) + ↑(middle.lostBlocks rest)) +
            ↑source.allocated + ↑middle.allocated : Multiset Word)
          = (↑target.freed + target.recorded + ↑(middle.lostBlocks rest) + ↑middle.allocated) +
              (↑(source.letGo event) + ↑source.allocated) := by abel
        _ = ↑middle.freed + middle.recorded + ↑target.allocated +
              (↑(source.letGo event) + ↑source.allocated) := by rw [later]
        _ = (↑middle.freed + middle.recorded + ↑(source.letGo event) + ↑source.allocated) + ↑target.allocated := by
              abel
        _ = ↑source.freed + source.recorded + ↑middle.allocated + ↑target.allocated := by rw [first]
        _ = ↑source.freed + source.recorded + ↑target.allocated + ↑middle.allocated := by abel
    exact add_right_cancel total

/-- Every block that was handed out is freed once, or recorded once and not freed. -/
def Conserved (broker : SifBroker) : Prop :=
  (↑broker.allocated : Multiset Word) = ↑broker.freed + broker.recorded

/-- The step lets go of no block: a session is opened with none recorded, and is reset with no staged load in flight;
nothing was put into the list since a drain read its count; and the other processor frees what it is given back where
the answer is not looked at. -/
def Careful (broker : SifBroker) : BrokerEvent → Prop
  | .call .sessionOpen => broker.iopAddrs.reduceOption = []
  | .thread answer =>
    match broker.task with
    | .drain (.look i n) _ => i < n → broker.pendingFree[i]?.join ≠ none → answer.freed = true
    | .drain .reset _ => pending broker.pendingFree broker.pendingFreeCount = []
    | .resume (.submit request) =>
      request.call = .loadModuleBuffer ∧ (broker.brokerLoadfileBound = true ∨ answer.bound = true) ∧
        answer.sent = false → answer.block ≠ none → answer.freed = true
    | .resume .iopAlloc =>
      broker.iopAddrs.findIdx? (·.isNone) = none → answer.block ≠ none → answer.freed = true
    | .scan slot request => brokerPktCount ≤ slot → request.staging ≠ none → answer.freed = true
    | .freeBlocks slot => slot < brokerMaxIopAllocs → broker.iopAddrs[slot]?.join ≠ none → answer.freed = true
    | .clearSlots _ slot => brokerPktCount ≤ slot → broker.lmbInFlight = true → broker.lmbInFlightStaging = none
    | _ => True
  | _ => True

/-- A block that is given back under a condition is let go of exactly if the answer is no. -/
theorem toList_ite_eq_nil {condition : Prop} [Decidable condition] {block : Option Word} {freed : Bool} :
    (if condition ∧ freed = false then block.toList else []) = [] ↔ (condition → block ≠ none → freed = true) := by
  cases block with
  | none => simp
  | some block => cases freed <;> simp

/-- The condition names exactly the steps that let go of a block. -/
theorem letGo_eq_nil_iff (broker : SifBroker) (event : BrokerEvent) :
    broker.letGo event = [] ↔ broker.Careful event := by
  cases event with
  | call request => cases request <;> simp only [letGo, Careful]
  | rpcEnd cd reply => simp only [letGo, Careful]
  | thread answer =>
    simp only [letGo, Careful]
    split
    · exact toList_ite_eq_nil
    · exact Iff.rfl
    · exact toList_ite_eq_nil
    · exact toList_ite_eq_nil
    · exact toList_ite_eq_nil
    · exact toList_ite_eq_nil
    · split_ifs with clears
      · exact Option.toList_eq_nil_iff.trans ⟨fun none _ _ => none, fun careful => careful clears.1 clears.2⟩
      · exact iff_of_true rfl fun past on => absurd ⟨past, on⟩ clears
    · exact iff_of_true rfl trivial

/-- A run lets go of nothing exactly if every step is careful. -/
theorem lostBlocks_eq_nil_iff (broker : SifBroker) (events : List BrokerEvent) :
    broker.lostBlocks events = [] ↔ sifBroker.Along Careful broker events := by
  induction events generalizing broker with
  | nil => exact iff_of_true rfl trivial
  | cons event rest ih =>
    rw [lostBlocks, List.append_eq_nil_iff, letGo_eq_nil_iff, LabeledMachine.Along]
    refine and_congr_right fun _ => ?_
    have same : sifBroker.step broker event = broker.step event := rfl
    rw [same]
    cases broker.step event with
    | none => exact iff_of_true rfl trivial
    | some next => exact ih next

/-- A broker that is started has nothing in its books. -/
theorem listed_initial (lmbResult : Word) : (initial lmbResult).Listed := ⟨rfl, Nat.zero_le _, nofun, trivial⟩

theorem recorded_initial (lmbResult : Word) : (initial lmbResult).recorded = 0 := rfl

/-- In every run each block that was handed out is freed exactly once or still recorded, exactly if every step was
careful. -/
theorem heap_conserved {lmbResult : Word} {events : List BrokerEvent}
    (run : sifBroker.run? (initial lmbResult) events = some broker) :
    broker.Conserved ↔ sifBroker.Along Careful (initial lmbResult) events := by
  have books := (listed_initial lmbResult).run (sound_initial lmbResult) run
  have allocated : (↑broker.allocated : Multiset Word) =
      ↑broker.freed + broker.recorded + ↑((initial lmbResult).lostBlocks events) := by
    rw [recorded_initial] at books
    simpa [initial] using books.symm
  rw [Conserved, allocated, add_eq_left, Multiset.coe_eq_zero, lostBlocks_eq_nil_iff]

/-- Every call to `ee_sif.c` succeeds, and the heap hands out one block. -/
def grantedAt (heap : Word) : SifAnswer := ⟨true, heap, true, true⟩

/-- A session is opened, and the load of a buffer is sent. -/
def loadEvents : List BrokerEvent :=
  .call .sessionOpen :: .replicate 10 (.thread (grantedAt 0x1000)) ++
    .call (.loadModuleBuffer 1 1 1 16 0 0) :: .replicate 9 (.thread (grantedAt 0x1000))

/-- The load completes, and the next call frees its block before it allocates its own. -/
def drainEvents : List BrokerEvent :=
  loadEvents ++ .rpcEnd 1 ⟨0, 0, 0, 5⟩ :: .call (.iopAlloc 16 1) :: .replicate 6 (.thread (grantedAt 0x2000))

theorem heap_conserved_drain :
    ∃ broker, sifBroker.run? (initial 0) drainEvents = some broker ∧ broker.freed = [0x1000] ∧
      (broker.Conserved ↔ sifBroker.Along Careful (initial 0) drainEvents) := by
  have facts : (sifBroker.run? (initial 0) drainEvents).map (·.freed) = some [0x1000] := by decide +kernel
  obtain ⟨broker, run, freed⟩ := Option.map_eq_some_iff.mp facts
  exact ⟨broker, run, freed, heap_conserved run⟩

/-- The load completes after the next call has read the count of the list, and before it resets it. -/
def windowEvents : List BrokerEvent :=
  loadEvents ++ .call (.iopAlloc 16 1) :: .thread (grantedAt 0x2000) :: .rpcEnd 1 ⟨0, 0, 0, 5⟩ ::
    .replicate 3 (.thread (grantedAt 0x2000))

/-- A block that is put into the list in the window of a drain is neither freed nor recorded. -/
theorem drain_loses_push :
    ∃ broker, sifBroker.run? (initial 0) windowEvents = some broker ∧ broker.task.returned = some .ok ∧
      0x1000 ∈ broker.allocated ∧ 0x1000 ∉ broker.freed ∧ 0x1000 ∉ broker.recorded ∧ ¬broker.Conserved := by
  have facts : (sifBroker.run? (initial 0) windowEvents).map (fun broker =>
      (broker.task.returned, broker.allocated, broker.freed, broker.iopAddrs.reduceOption,
        broker.listed ++ broker.loading ++ broker.task.held)) =
        some (some .ok, [0x2000, 0x1000], [], [0x2000], []) := by decide +kernel
  obtain ⟨broker, run, same⟩ := Option.map_eq_some_iff.mp facts
  simp only [Prod.mk.injEq, List.append_eq_nil_iff] at same
  obtain ⟨returned, allocated, freed, recorded, ⟨listed, loading⟩, held⟩ := same
  have left : broker.recorded = ↑[(0x2000 : Word)] := by
    rw [SifBroker.recorded, recorded, listed, loading, held]
    rfl
  refine ⟨broker, run, returned, ?_, ?_, ?_, ?_⟩
  · rw [allocated]
    decide
  · rw [freed]
    decide
  · rw [left]
    decide
  · rw [Conserved, allocated, freed, left]
    decide

end SifBroker

end KosTool.Ps2
