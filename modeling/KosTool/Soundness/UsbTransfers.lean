import KosTool.Model.Psp.UsbControl

/-! # The transfers of the control endpoint

A descriptor of endpoint 0 is with the controller only in the phase that waits for it. So a SETUP packet that is taken
leaves nothing of the transfer before it, and what remains is the two gates of the code: the latched error, which
keeps a data stage from releasing the status stage, and the type of a request, of which only "vendor" is looked at.
-/

namespace KosTool.Psp

open ByteWord Machine

namespace SetupPacket

/-- The number and the descriptor type of the packet are those of a standard request that the device serves. -/
def namesStandard (setup : SetupPacket) : Bool :=
  setup.bRequest ∈ [0, 5, 8, 9, 10, 11] ∨ (setup.bRequest = 6 ∧ setup.descriptorType ∈ [1, 2, 6, 0x0f])

theorem isClass_not_vendor {setup : SetupPacket} (isClass : setup.isClass = true) : setup.isVendor = false := by
  have kind : setup.bmRequestType &&& 0x60 = 0x20 := of_decide_eq_true isClass
  rw [isVendor, kind]
  rfl

end SetupPacket

/-- Only the vendor type keeps a packet from being run as the standard request with its number. -/
theorem dispatch_standard (setup : SetupPacket) :
    (dispatch setup).standard = (!setup.isVendor && setup.namesStandard) := by
  rw [dispatch]
  cases vendor : setup.isVendor with
  | true =>
    rw [if_pos rfl]
    split_ifs <;> rfl
  | false =>
    simp only [Bool.false_eq_true, if_false, Bool.not_false, Bool.true_and, SetupPacket.namesStandard, List.mem_cons,
      List.not_mem_nil, or_false]
    split_ifs <;> simp_all [ControlRequest.standard]

namespace UsbDevice

variable {device next : UsbDevice}

/-- The next poll takes the SETUP packet; one that waits while the status stage is over is left to the poll after. -/
def TakesSetup (device : UsbDevice) : Prop :=
  device.setupPending = true ∧ ¬(device.phase = .waitOutStatus ∧ device.outDone = true)

/-- An IN data stage is over and came to a good end. -/
def DataDone (device : UsbDevice) : Prop :=
  device.phase = .waitInData ∧ device.setupPending = false ∧ device.inDone = true ∧ device.inDesc.succeeded = true

/-- Nothing of a transfer is left: the packet is consumed, the IN side is empty, and the OUT side is either free or
prepared for the status stage of the transfer that begins. -/
structure Aborted (device : UsbDevice) : Prop where
  taken : device.setupPending = false
  flushed : device.inLoaded = false
  inFree : device.inDesc.owner = 3
  fresh : (device.phase = .waitSetup ∧ device.outDesc.owner = 3) ∨
    (device.phase = .waitInToken ∧ device.outDesc = .prepare 0)

/-- What the next poll does is right. -/
structure PollRight (device : UsbDevice) : Prop where
  /-- A data stage that succeeded releases the status stage. -/
  releases : device.DataDone →
    device.usbDevPoll.phase = .waitOutStatus ∧ device.usbDevPoll.outReleased = true
  /-- A SETUP packet aborts the transfer before it. -/
  aborts : device.TakesSetup → device.usbDevPoll.Aborted
  /-- One that waits while the status stage is over waits no longer than that, and nothing else is pending then. -/
  completes : device.setupPending = true → ¬device.TakesSetup →
    device.usbDevPoll.TakesSetup ∧ device.usbDevPoll.inDesc.owner = 3 ∧ device.usbDevPoll.outDesc.owner = 3
  /-- A class or vendor request is not run as a standard one. -/
  refuses : device.TakesSetup → device.setup.isClass = true ∨ device.setup.isVendor = true →
    (dispatch device.setup).standard = false

/-- A data stage that succeeded finds no error latched, and has the expected length if it is tracked; a class request
does not have the number of a standard one. -/
structure PollFine (device : UsbDevice) : Prop where
  clean : device.DataDone →
    device.pipe.diagError = none ∧ (device.diagTrackFirstData = true → device.inDesc.length = device.inExpected)
  distinct : device.TakesSetup → device.setup.isClass = true → device.setup.namesStandard = false

/-- The descriptors of endpoint 0 are with the controller only in the phases that wait for them. -/
structure Owned (device : UsbDevice) : Prop where
  inFree : device.phase ≠ .waitInData → device.inDesc.owner = 3
  outFree : device.phase = .waitSetup → device.outDesc.owner = 3

theorem Owned.of_aborted (aborted : device.Aborted) : device.Owned := by
  refine ⟨fun _ => aborted.inFree, fun phase => ?_⟩
  rcases aborted.fresh with ⟨-, free⟩ | ⟨other, -⟩
  · exact free
  · rw [phase] at other
    cases other

/-- What is left when the pending transfer is dropped. -/
theorem Owned.abort (owned : device.Owned) :
    device.abort.Aborted ∧ device.abort.phase = .waitSetup ∧ device.abort.outDesc.owner = 3 := by
  rw [UsbDevice.abort]
  split_ifs with pending
  · exact ⟨⟨rfl, rfl, rfl, .inl ⟨rfl, rfl⟩⟩, rfl, rfl⟩
  · have idle : device.phase = .waitSetup := not_not.mp pending
    have inFree : device.inDesc.owner = 3 := owned.inFree fun data => by
      rw [idle] at data
      cases data
    exact ⟨⟨rfl, rfl, inFree, .inl ⟨idle, owned.outFree idle⟩⟩, idle, owned.outFree idle⟩

/-- A request that is served leaves nothing of the transfer before it. -/
theorem Aborted.serve (aborted : device.Aborted) (free : device.outDesc.owner = 3) (setup : SetupPacket)
    (request : ControlRequest) : (device.serve setup request).Aborted := by
  have sent (data : List Byte) (wLength : BitVec 16) : (device.ep0Send data wLength).Aborted :=
    ⟨aborted.taken, aborted.flushed, aborted.inFree, .inr ⟨rfl, rfl⟩⟩
  have status : device.ep0SendStatus.Aborted := ⟨aborted.taken, aborted.flushed, aborted.inFree, .inl ⟨rfl, free⟩⟩
  cases request with
  | getDescriptor kind => cases kind <;> exact sent _ _
  | setAddress => exact status
  | setConfiguration =>
    have configured : (device.applyConfiguration (setup.wValue &&& 0xff)).ep0SendStatus.Aborted := by
      rw [applyConfiguration]
      split_ifs <;> exact ⟨aborted.taken, aborted.flushed, aborted.inFree, .inl ⟨rfl, free⟩⟩
    exact configured
  | getStatus => exact sent _ _
  | getConfiguration => exact sent _ _
  | getInterface => exact sent _ _
  | setInterface => exact status
  | msos2 => exact sent _ _
  | stall => exact ⟨aborted.taken, rfl, aborted.inFree, .inl ⟨rfl, free⟩⟩

/-- A SETUP packet that is taken aborts the transfer before it. -/
theorem Owned.takeSetup (owned : device.Owned) (pending : device.setupPending = true) :
    device.takeSetup.Aborted := by
  obtain ⟨aborted, -, free⟩ := owned.abort
  rw [UsbDevice.takeSetup, if_pos pending, handleSetup]
  split_ifs
  · exact aborted.serve free _ _
  · have tracked : ({ device.abort with
        diagSetup := true
        diagTrackFirstData := decide (device.setup.bmRequestType = 0x80 ∧ device.setup.bRequest = 6 ∧
          device.setup.wValue = 0x0100 ∧ device.setup.wLength ≠ 0) } : UsbDevice).Aborted :=
      ⟨aborted.taken, aborted.flushed, aborted.inFree, aborted.fresh⟩
    exact tracked.serve free _ _

theorem TakesSetup.usbEp0Poll (takes : device.TakesSetup) : device.usbEp0Poll = device.takeSetup := by
  rw [UsbDevice.usbEp0Poll]
  cases phase : device.phase with
  | waitSetup => rfl
  | waitInToken => exact if_pos takes.1
  | waitInData => exact if_pos takes.1
  | waitOutStatus =>
    have waits : ¬device.outDone = true := fun done => takes.2 ⟨phase, done⟩
    exact (if_neg waits).trans (if_pos takes.1)

theorem usbEp0Poll_dataDone (done : device.DataDone) : device.usbEp0Poll = device.finishIn := by
  have idle : ¬device.setupPending = true := by rw [done.2.1]; exact Bool.false_ne_true
  rw [UsbDevice.usbEp0Poll, done.1]
  exact (if_neg idle).trans (if_pos done.2.2.1)

theorem Owned.usbEp0Poll (owned : device.Owned) : device.usbEp0Poll.Owned := by
  rw [UsbDevice.usbEp0Poll]
  cases phase : device.phase with
  | waitSetup =>
    change device.takeSetup.Owned
    by_cases pending : device.setupPending = true
    · exact .of_aborted (owned.takeSetup pending)
    · rw [UsbDevice.takeSetup, if_neg pending]
      exact owned
  | waitInToken =>
    change (if device.setupPending = true then _ else _ : UsbDevice).Owned
    split_ifs with pending token
    · exact .of_aborted (owned.takeSetup pending)
    · exact ⟨fun other => absurd rfl other, nofun⟩
    · exact owned
  | waitInData =>
    change (if device.setupPending = true then _ else _ : UsbDevice).Owned
    split_ifs with pending done
    · exact .of_aborted (owned.takeSetup pending)
    · rw [finishIn]
      split_ifs with clean
      · exact ⟨fun _ => rfl, nofun⟩
      · have busy : device.phase ≠ .waitSetup := fun idle => by
          rw [phase] at idle
          cases idle
        exact ⟨fun _ => rfl, fun idle => absurd idle busy⟩
    · exact owned
  | waitOutStatus =>
    change (if device.outDone = true then _ else _ : UsbDevice).Owned
    split_ifs with done pending
    · have other : device.phase ≠ .waitInData := fun data => by
        rw [phase] at data
        cases data
      exact ⟨fun _ => owned.inFree other, fun _ => rfl⟩
    · exact .of_aborted (owned.takeSetup pending)
    · exact owned

/-- Whatever happens, the descriptors are where the phase says. -/
theorem Owned.step {event : UsbDeviceEvent} (owned : device.Owned) (stepped : device.step event = some next) :
    next.Owned := by
  cases event with
  | poll =>
    cases stepped
    exact ⟨owned.usbEp0Poll.inFree, owned.usbEp0Poll.outFree⟩
  | rxByte =>
    cases stepped
    rw [UsbDevice.usbDevRxByte]
    split_ifs
    · exact ⟨owned.usbEp0Poll.inFree, owned.usbEp0Poll.outFree⟩
    · exact ⟨owned.inFree, owned.outFree⟩
  | txByte byte =>
    cases stepped
    rw [UsbDevice.usbDevTxByte]
    split_ifs
    · exact ⟨owned.usbEp0Poll.inFree, owned.usbEp0Poll.outFree⟩
    · exact ⟨owned.inFree, owned.outFree⟩
  | txFlush =>
    cases stepped
    exact ⟨owned.inFree, owned.outFree⟩
  | setConfig value =>
    cases stepped
    rw [applyConfiguration]
    split_ifs <;> exact ⟨owned.inFree, owned.outFree⟩
  | reset speed =>
    cases stepped
    exact ⟨fun _ => rfl, fun _ => rfl⟩
  | hostOut packet result =>
    obtain ⟨pipe, -, rfl⟩ := Option.map_eq_some_iff.mp stepped
    exact ⟨owned.inFree, owned.outFree⟩
  | hostIn =>
    obtain ⟨pipe, -, rfl⟩ := Option.map_eq_some_iff.mp stepped
    exact ⟨owned.inFree, owned.outFree⟩
  | setup packet =>
    obtain ⟨-, equal⟩ := Option.ite_none_right_eq_some.mp stepped
    cases equal
    exact ⟨owned.inFree, owned.outFree⟩
  | token =>
    cases stepped
    exact ⟨owned.inFree, owned.outFree⟩
  | dataDone result length =>
    obtain ⟨held, equal⟩ := Option.ite_none_right_eq_some.mp stepped
    cases equal
    refine ⟨fun other => absurd held ?_, owned.outFree⟩
    rw [owned.inFree other]
    decide
  | statusDone result length =>
    obtain ⟨held, equal⟩ := Option.ite_none_right_eq_some.mp stepped
    cases equal
    refine ⟨owned.inFree, fun idle => absurd held.1 ?_⟩
    rw [owned.outFree idle]
    decide

/-- The descriptors are where the phase says in every state that is reached. -/
theorem Owned.run {events : List UsbDeviceEvent} {source target : UsbDevice} (owned : source.Owned)
    (run : usbDevice.run? source events = some target) : target.Owned := by
  have kept (source : UsbDevice) (event : UsbDeviceEvent) (next : UsbDevice) (owned : source.Owned) (_ : True)
      (stepped : source.step event = some next) : next.Owned := owned.step stepped
  exact LabeledMachine.run?_invariant kept owned (LabeledMachine.Along.of_forall (fun _ _ => trivial) events) run

/-- A device that is initialized holds both descriptors. -/
theorem owned_initial (pipe : UsbPipe) (setup : SetupPacket) (ep0Buf : Buffer) :
    (initial pipe setup ep0Buf).Owned := ⟨fun _ => rfl, fun _ => rfl⟩

/-- A data stage that succeeded releases the status stage exactly if it leaves no error latched. -/
theorem releases_iff (done : device.DataDone) :
    (device.usbDevPoll.phase = .waitOutStatus ∧ device.usbDevPoll.outReleased = true) ↔ device.inError = none := by
  change (device.usbEp0Poll.phase = .waitOutStatus ∧ device.usbEp0Poll.outReleased = true) ↔ _
  rw [usbEp0Poll_dataDone done, finishIn]
  split_ifs with clean
  · exact ⟨fun _ => clean, fun _ => ⟨rfl, rfl⟩⟩
  · refine ⟨fun right => absurd right.1 fun waits => ?_, fun other => absurd other clean⟩
    have phase := done.1.symm.trans waits
    cases phase

/-- A stage that succeeded leaves no error latched exactly if there was none and its length is the expected one, as
far as that is tracked. -/
theorem inError_eq_none_iff (succeeded : device.inDesc.succeeded = true) :
    device.inError = none ↔ device.pipe.diagError = none ∧
      (device.diagTrackFirstData = true → device.inDesc.length = device.inExpected) := by
  have latches (latched : Option UsbDiagError) (error : UsbDiagError) : diagFail latched error ≠ none := by
    cases latched <;> nofun
  have came : ¬device.inDesc.succeeded = false := by
    rw [succeeded]
    exact Bool.noConfusion
  rw [inError, if_neg came]
  split_ifs with tracked wrong
  · exact ⟨fun clean => absurd clean (latches _ _), fun right => absurd (right.2 tracked) wrong⟩
  · exact ⟨fun clean => ⟨clean, fun _ => not_not.mp wrong⟩, fun right => right.1⟩
  · exact ⟨fun clean => ⟨clean, fun other => absurd other tracked⟩, fun right => right.1⟩

/-- A SETUP packet that is not taken waits for the status stage that is over, and is taken by the poll after. -/
theorem Owned.completes (owned : device.Owned) (pending : device.setupPending = true) (left : ¬device.TakesSetup) :
    device.usbDevPoll.TakesSetup ∧ device.usbDevPoll.inDesc.owner = 3 ∧ device.usbDevPoll.outDesc.owner = 3 := by
  obtain ⟨phase, done⟩ : device.phase = .waitOutStatus ∧ device.outDone = true :=
    not_not.mp fun other => left ⟨pending, other⟩
  have polled : device.usbEp0Poll = device.finishOut := by
    rw [UsbDevice.usbEp0Poll, phase]
    exact if_pos done
  have free : device.inDesc.owner = 3 := owned.inFree fun data => by
    rw [phase] at data
    cases data
  rw [UsbDevice.usbDevPoll, polled]
  exact ⟨⟨pending, fun waits => nomatch waits.1⟩, free, rfl⟩

/-- In every state that is reached the next poll releases the status stage after a data stage that succeeded, aborts
what was pending when it takes a SETUP packet, and refuses the requests of a class and of a vendor, exactly if no
error is latched at such a data stage and no class request has the number of a standard one. -/
theorem control_endpoint_right {pipe : UsbPipe} {setup : SetupPacket} {ep0Buf : Buffer}
    {events : List UsbDeviceEvent} (run : usbDevice.run? (initial pipe setup ep0Buf) events = some device) :
    device.PollRight ↔ device.PollFine := by
  have owned : device.Owned := (owned_initial pipe setup ep0Buf).run run
  constructor
  · intro right
    refine ⟨fun done => ?_, fun takes isClass => ?_⟩
    · exact (inError_eq_none_iff done.2.2.2).mp ((releases_iff done).mp (right.releases done))
    · have refused := right.refuses takes (.inl isClass)
      have other : device.setup.isVendor = false := SetupPacket.isClass_not_vendor isClass
      rw [dispatch_standard, other] at refused
      exact refused
  · intro fine
    refine ⟨fun done => ?_, fun takes => ?_, owned.completes, fun takes foreign => ?_⟩
    · exact (releases_iff done).mpr ((inError_eq_none_iff done.2.2.2).mpr (fine.clean done))
    · have aborted : device.usbEp0Poll.Aborted := by
        rw [takes.usbEp0Poll]
        exact owned.takeSetup takes.1
      exact ⟨aborted.taken, aborted.flushed, aborted.inFree, aborted.fresh⟩
    · rw [dispatch_standard]
      rcases foreign with isClass | isVendor
      · rw [fine.distinct takes isClass, Bool.and_false]
      · rw [isVendor, Bool.not_true, Bool.false_and]

/-- A device after `usb_dev_init`, with nothing in its buffers. -/
def fresh : UsbDevice :=
  initial (.initial (fun _ => 0) (fun _ => 0) (fun _ => 0) (fun _ => 0)) ⟨0, 0, 0, 0, 0⟩ (fun _ => 0)

/-- `GET_DESCRIPTOR` for the device descriptor. -/
def getDevice : SetupPacket := ⟨0x80, 6, 0x0100, 0, 18⟩

/-- The data stage of a first transfer is over. -/
theorem control_endpoint_right_first :
    ∃ device, usbDevice.run? fresh [.setup getDevice, .poll, .token, .poll, .dataDone 0 18] = some device ∧
      device.DataDone ∧ (device.PollRight ↔ device.PollFine) := by
  obtain ⟨device, run, done⟩ : ∃ device,
      usbDevice.run? fresh [.setup getDevice, .poll, .token, .poll, .dataDone 0 18] = some device ∧
        device.DataDone := ⟨_, rfl, rfl, rfl, rfl, rfl⟩
  exact ⟨device, run, done, control_endpoint_right run⟩

/-- A bulk packet that came with an error keeps the next data stage from releasing its status stage, and a class
request is run as the standard request with its number. -/
theorem error_blocks_status :
    (∃ device,
      usbDevice.run? fresh [.setConfig 1, .poll, .hostOut ⟨[], Nat.zero_le _⟩ 1, .poll, .setup getDevice, .poll, .token,
        .poll, .dataDone 0 18] = some device ∧
      device.DataDone ∧ device.usbDevPoll.phase = .waitInData ∧ ¬device.PollRight) ∧
      ∃ device, usbDevice.run? fresh [.setup ⟨0x21, 9, 1, 0, 0⟩] = some device ∧ device.TakesSetup ∧
        device.setup.isClass = true ∧ device.usbDevPoll.pipe.configured = true ∧ ¬device.PollRight := by
  refine ⟨⟨_, rfl, ⟨rfl, rfl, rfl, rfl⟩, rfl, fun right => ?_⟩,
    ⟨_, rfl, ⟨rfl, fun waits => nomatch waits.1⟩, rfl, rfl, fun right => ?_⟩⟩
  · exact nomatch (right.releases ⟨rfl, rfl, rfl, rfl⟩).1
  · exact nomatch right.refuses ⟨rfl, fun waits => nomatch waits.1⟩ (.inl rfl)

end UsbDevice

end KosTool.Psp
