import KosTool.Model.Ps2.SmapTx
import KosTool.Soundness.RxRing
import KosTool.Soundness.TxSequence

/-! # What a failed call leaves behind

A call whose answer is lost has been executed, and both sides find together again. A batch of releases that the handler
never sees is not sent again, and neither is the second attempt of a submit: then slots of the receive ring are lost, or
the numbers of a transmit slot differ for good.
-/

namespace KosTool.Ps2

open Machine

namespace SmapDriver

/-- A batch of releases, and the second attempt of a submit, get to the handler. -/
def Executed (driver : SmapDriver) : Event → Prop
  | .rx event => event.Reaches
  | .tx event => driver.tx.SubmitReaches event

/-- Whether an event loses a request. -/
def Event.lost : Event → Bool
  | .rx .loseRequest | .tx .loseRequest => true
  | _ => false

/-- Both sides agree as soon as nothing is under way: the pump's view of the tail is the head when all frames are polled
and released, the numbers of a slot that is not staged are alike, and a batch of submits is accepted. -/
structure Agrees (driver : SmapDriver) : Prop where
  view : driver.rx.call = .idle → driver.rx.pendingReleases = [] → driver.rx.rxTail = driver.rx.rxHead →
    driver.rx.rxTailIopView = driver.rx.rxHead
  numbers : driver.tx.call = .idle → ∀ slot, driver.tx.txClaimed slot = false →
    driver.tx.eeTxSeq slot = driver.tx.txSeq slot
  accepted : ∀ caller rc, driver.tx.call = .batch caller → driver.tx.rpc = .answered rc → rc = .ok

/-- What both sides keep. -/
structure Keeps (driver : SmapDriver) : Prop where
  pumps : driver.rx.Pumps
  polls : driver.rx.Polls
  counts : driver.tx.Counts

theorem Keeps.agrees {driver : SmapDriver} (keeps : driver.Keeps) : driver.Agrees where
  view idle flushed polled := by
    have batched := keeps.polls.batched
    obtain ⟨front, -, count⟩ := SmapRx.quiet_iff (show driver.rx.call.quiet = true by rw [idle]; rfl)
    obtain ⟨-, released⟩ := count.mp batched
    rw [flushed, List.length_nil, Nat.add_zero] at released
    rw [← polled, keeps.pumps.view, keeps.polls.tail, released]
  numbers _ slot free := keeps.counts.alike slot free
  accepted caller rc here answered := by
    have progress := keeps.counts.progress
    rw [SmapTx.Progress, here, answered] at progress
    exact progress.2.1

theorem Keeps.step {driver next : SmapDriver} (keeps : driver.Keeps) {event : Event} (executed : driver.Executed event)
    (stepped : driver.step event = some next) : next.Keeps := by
  unfold SmapDriver.step at stepped
  split_ifs at stepped
  cases event with
  | rx event =>
    obtain ⟨rx, received, rfl⟩ := Option.map_eq_some_iff.mp stepped
    obtain ⟨pumps, polls⟩ := SmapRx.keeps_step ⟨keeps.pumps, keeps.polls⟩ executed received
    exact ⟨pumps, polls, keeps.counts⟩
  | tx event =>
    obtain ⟨tx, transmitted, rfl⟩ := Option.map_eq_some_iff.mp stepped
    exact ⟨keeps.pumps, keeps.polls, keeps.counts.step executed transmitted⟩

theorem initial_keeps (bds : ℕ → RxBd) : (initial bds).Keeps :=
  ⟨(SmapRx.initial_keeps bds).1, (SmapRx.initial_keeps bds).2, SmapTx.initial_counts⟩

end SmapDriver

/-- A frame of fourteen bytes arrives, is drained and polled, and the release of its slot is asked for. -/
def polledFrame (idx : ℕ) : List SmapDriver.Event :=
  .rx (.arrive idx ⟨0, 14, fun _ => 7⟩) :: List.replicate 13 (.rx (.pump 1)) ++ .rx (.poll 1518) ::
    List.replicate 19 (.rx .resume) ++ [.rx .releasePending, .rx .resume]

/-- A frame of fourteen bytes is sent, and the batch with it is asked for. -/
def sentFrame : List SmapDriver.Event :=
  [.tx (.send (List.replicate 14 7)), .tx (.resume false none), .rx .releasePending, .rx .resume, .tx .flush,
    .tx (.resume false none)]

/-- The handler takes a batch of one release, or of one submit, and the call returns. -/
def releaseSucceeds : List SmapDriver.Event := List.replicate 3 (.rx .serve) ++ [.rx .resume, .rx (.flushedTx 0)]
def submitSucceeds : List SmapDriver.Event :=
  List.replicate 5 (.tx .serve) ++ [.tx (.resume false none), .rx (.flushedTx 0)]

/-- A run without a lost request. -/
theorem executed_of_forall {source : SmapDriver} {events : List SmapDriver.Event}
    (unlost : ∀ event ∈ events, event.lost = false) : smapDriver.Along SmapDriver.Executed source events := by
  refine LabeledMachine.Along.imp (fun _ _ _ _ _ _ => trivial) (fun driver event _ kept => ?_) trivial
    (LabeledMachine.Along.of_events unlost)
  cases event with
  | rx event =>
    cases event with
    | loseRequest => cases kept
    | _ => trivial
  | tx event =>
    cases event with
    | loseRequest => cases kept
    | _ => trivial

theorem call_of_rxIdle {driver : SmapDriver} (idle : driver.rxIdle = true) : driver.rx.call = .idle := by
  rw [SmapDriver.rxIdle] at idle
  cases here : driver.rx.call with
  | idle => rfl
  | _ =>
    rw [here] at idle
    cases idle

theorem call_of_txIdle {driver : SmapDriver} (idle : driver.txIdle = true) : driver.tx.call = .idle := by
  rw [SmapDriver.txIdle] at idle
  cases here : driver.tx.call with
  | idle => rfl
  | _ =>
    rw [here] at idle
    cases idle

end KosTool.Ps2
