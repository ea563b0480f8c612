import KosTool.Soundness.UploadInvariant

/-! # No success for an incomplete image

`network_send_data_once` returns 0 in three places: on an answer to `DBIN` with size zero, on one whose
range is not inside the image, and after the recovery loop has announced the range again. The first two
are right if the answer was given after the console accepted the upload; the third one is wrong, for the
bitmap has just been cleared.
-/

namespace KosTool.Host

open ByteWord Client Client.Loader Protocol

variable {target : Target} {upload : Upload}

/-- What holds in every state of an upload. -/
structure UploadInv (target : Target) (upload : Upload) (system : UploadSystem) : Prop where
  agreed : ChunkSizeAgreed upload.legacyMode system.loader
  announced : system.accepted = true →
    upload.Announced system.loader ∧ upload.size.toNat ≤ upload.limit target
  sends : ∀ datagram ∈ system.toConsole, datagram.leftOver = false → upload.Sends datagram.payload
  answers : ∀ datagram ∈ system.toHost, datagram.current = true →
    system.accepted = true ∧ upload.TrueAnswer system.loader datagram.payload
  stream : ∀ retry offset, system.sender.pc = .stream retry offset →
    ∃ k ≤ upload.chunks, offset = BitVec.ofNat 32 (k * upload.chunk)
  stored : system.sender.pc = .returned 0 → system.accepted = true ∧ upload.ImageStored system.loader

/-- The call is still to come, and everything on its way is left over from before. -/
structure UploadSystem.Initial (upload : Upload) (system : UploadSystem) : Prop where
  pc : system.sender.pc = .idle
  accepted : system.accepted = false
  toConsole : ∀ datagram ∈ system.toConsole, datagram.leftOver = true
  toHost : ∀ datagram ∈ system.toHost, datagram.current = false
  agreed : ChunkSizeAgreed upload.legacyMode system.loader

theorem UploadSystem.Initial.inv {system : UploadSystem} (initial : system.Initial upload) :
    UploadInv target upload system where
  agreed := initial.agreed
  announced accepted := absurd (initial.accepted.symm.trans accepted) (by decide)
  sends datagram on_way own := absurd ((initial.toConsole datagram on_way).symm.trans own) (by decide)
  answers datagram on_way current := absurd ((initial.toHost datagram on_way).symm.trans current) (by decide)
  stream retry offset pc := by rw [initial.pc] at pc; cases pc
  stored pc := by rw [initial.pc] at pc; cases pc

/-- A reply that may be taken: to `DBIN` only one given after the console accepted the upload, and none to
the `LBIN` of the recovery loop. -/
def FreshReply (current : Bool) : UploadStage → Prop
  | .loadbin | .loadbinRetry => True
  | .donebin | .donebinRetry | .recoverDonebin => current = true
  | .recoverLoadbin => False

instance (current : Bool) : (stage : UploadStage) → Decidable (FreshReply current stage)
  | .loadbin | .loadbinRetry => isTrue trivial
  | .donebin | .donebinRetry | .recoverDonebin => inferInstanceAs (Decidable (_ = _))
  | .recoverLoadbin => isFalse id

section Sender

variable {system : UploadSystem} {moved : Sender × List (List Byte)}

/-- The sender moves on as it should. -/
structure Moves (upload : Upload) (system : UploadSystem) (moved : Sender × List (List Byte)) : Prop where
  sends : ∀ payload ∈ moved.2, upload.Sends payload
  stream : ∀ retry offset, moved.1.pc = .stream retry offset →
    ∃ k ≤ upload.chunks, offset = BitVec.ofNat 32 (k * upload.chunk)
  stored : moved.1.pc = .returned 0 → system.accepted = true ∧ upload.ImageStored system.loader

theorem UploadInv.advance (inv : UploadInv target upload system) (moves : Moves upload system moved) :
    UploadInv target upload (system.advance moved) where
  agreed := inv.agreed
  announced := inv.announced
  sends datagram on_way own := by
    rcases List.mem_append.mp on_way with earlier | sent
    · exact inv.sends datagram earlier own
    · obtain ⟨payload, among, rfl⟩ := List.mem_map.mp sent
      exact moves.sends payload among
  answers := inv.answers
  stream := moves.stream
  stored := moves.stored

variable (sender : Sender) (stage : UploadStage)

theorem moves_wait (attempt : ℕ) :
    Moves upload system ({ sender with pc := .sendAndWait stage attempt }, [upload.stageDatagram stage]) where
  sends payload among := Or.inl ⟨stage, List.mem_singleton.mp among⟩
  stream retry offset pc := by cases pc
  stored pc := by cases pc

theorem moves_fail : Moves upload system ({ sender with pc := .returned (-1) }, []) where
  sends payload among := absurd among List.not_mem_nil
  stream retry offset pc := by cases pc
  stored pc := by cases pc

theorem moves_done (accepted : system.accepted = true) (stored : upload.ImageStored system.loader) :
    Moves upload system ({ sender with pc := .returned 0 }, []) where
  sends payload among := absurd among List.not_mem_nil
  stream retry offset pc := by cases pc
  stored _ := ⟨accepted, stored⟩

theorem moves_call : Moves upload system (upload.call sender) := by
  unfold Upload.call
  split
  · exact moves_fail sender
  · exact moves_wait _ _ 0

theorem moves_windowElapsed (attempt : ℕ) : Moves upload system (upload.windowElapsed sender stage attempt) := by
  unfold Upload.windowElapsed
  split
  · exact moves_wait sender stage (attempt + 1)
  · cases stage with
    | loadbin | loadbinRetry | donebinRetry | recoverLoadbin => exact moves_fail sender
    | donebin => exact moves_wait _ _ 0
    | recoverDonebin =>
      simp only [Upload.exhausted]
      split
      · exact moves_fail { sender with loadbinRetries := sender.loadbinRetries + 1 }
      · exact moves_wait _ _ 0

/-- A loop that streams the chunks sends the chunk at its offset and goes on to the next one. -/
theorem moves_streamNext (small : upload.size.toNat + 2880 ≤ 2 ^ 32) (retry : Bool) {k : ℕ}
    (inside : k ≤ upload.chunks) :
    Moves upload system (upload.streamNext sender retry (BitVec.ofNat 32 (k * upload.chunk))) := by
  have chunkSize : upload.chunkSize = BitVec.ofNat 32 upload.chunk := by
    unfold Upload.chunkSize Upload.chunk Client.chunkSize
    split <;> rfl
  have full : upload.chunk ≤ 1440 := chunkSize_le upload.legacyMode
  have near : k * upload.chunk ≤ upload.size.toNat + upload.chunk - 1 :=
    (Nat.mul_le_mul_right _ inside).trans (Nat.div_mul_le_self _ _)
  have start : (BitVec.ofNat 32 (k * upload.chunk)).toNat = k * upload.chunk :=
    (BitVec.toNat_ofNat _ _).trans (Nat.mod_eq_of_lt (by omega))
  unfold Upload.streamNext
  split
  · rename_i below
    rw [BitVec.lt_def, start] at below
    have chunk : k < upload.chunks := (lt_chunksOf_iff _ _ _).mpr below
    refine ⟨fun payload among => Or.inr ⟨k, chunk, ?_⟩, fun again offset pc => ?_, fun pc => by cases pc⟩
    · have length : (if upload.chunkSize ≤ upload.size - BitVec.ofNat 32 (k * upload.chunk) then upload.chunkSize
          else upload.size - BitVec.ofNat 32 (k * upload.chunk)) =
            BitVec.ofNat 32 (lengthOf upload.legacyMode upload.size k) := by
        have same : lengthOf upload.legacyMode upload.size k =
          min (upload.size.toNat - k * upload.chunk) upload.chunk := rfl
        rw [same, chunkSize]
        generalize upload.chunk = size at *
        generalize k * size = offset at *
        split <;> bv_omega
      rw [List.mem_singleton.mp among, length]
    · cases pc
      refine ⟨k + 1, chunk, ?_⟩
      rw [Nat.add_mul, Nat.one_mul, BitVec.ofNat_add, chunkSize]
  · exact moves_wait _ _ 0

/-- The recovery loop resends the chunk a true answer names, and ends only when the image is stored. -/
theorem moves_recover (accepted : system.accepted = true) {address size : Word}
    (answer : upload.TrueAnswer system.loader (netCommand netCmdDonebin address size []))
    (heldAddress : commandAddress sender.buffer 0 = address) (heldSize : commandSize sender.buffer 0 = size) :
    Moves upload system (upload.recover sender) := by
  obtain ⟨address', size', same, cases⟩ := answer
  obtain ⟨-, rfl, rfl, -⟩ := netCommand_inj.mp same
  simp only [Upload.recover, heldAddress, heldSize]
  rcases cases with ⟨k, inside, rfl, rfl⟩ | ⟨stored, empty⟩
  · have chunk := Upload.mul_chunk_lt inside
    have positive : 0 < lengthOf upload.legacyMode upload.size k := lengthOf_pos chunk
    have short : lengthOf upload.legacyMode upload.size k ≤ upload.size.toNat - k * upload.chunk :=
      Nat.min_le_left _ _
    have bound := upload.size.isLt
    have named : upload.destAddr + BitVec.ofNat 32 (k * upload.chunk) - upload.destAddr =
        BitVec.ofNat 32 (k * upload.chunk) := by
      rw [BitVec.add_comm, BitVec.add_sub_cancel]
    have sends : upload.Sends (upload.partbinDatagram (upload.destAddr + BitVec.ofNat 32 (k * upload.chunk))
        (BitVec.ofNat 32 (k * upload.chunk)) (BitVec.ofNat 32 (lengthOf upload.legacyMode upload.size k))) :=
      Or.inr ⟨k, inside, rfl⟩
    rw [named]
    generalize lengthOf upload.legacyMode upload.size k = length at *
    generalize k * upload.chunk = start at *
    have nonempty : BitVec.ofNat 32 length ≠ 0#32 := by bv_omega
    have within : ¬ upload.size < BitVec.ofNat 32 start + BitVec.ofNat 32 length := by bv_omega
    rw [if_neg nonempty, if_neg within]
    have resumes := @moves_wait upload system sender .recoverDonebin 0
    refine ⟨fun payload among => ?_, resumes.stream, resumes.stored⟩
    rcases List.mem_cons.mp among with rfl | again
    · exact sends
    · exact resumes.sends payload again
  · rcases empty with rfl | outside
    · rw [if_pos rfl]
      exact moves_done sender accepted stored
    · rw [if_pos outside]
      split <;> exact moves_done sender accepted stored

theorem moves_receive (inv : UploadInv target upload system) {attempt : ℕ} {datagram : ToHost}
    (pc : sender.pc = .sendAndWait stage attempt) (on_way : datagram ∈ system.toHost)
    (fresh : upload.isReply sender stage datagram.payload = true → FreshReply datagram.current stage) :
    Moves upload system (upload.receive sender stage datagram.payload) := by
  unfold Upload.receive
  split
  · rename_i reply
    have fresh := fresh reply
    cases stage with
    | loadbin | loadbinRetry =>
      refine ⟨fun payload among => absurd among List.not_mem_nil, fun retry offset begun => ?_, fun done => by cases done⟩
      cases begun
      exact ⟨0, Nat.zero_le _, by rw [Nat.zero_mul]; rfl⟩
    | donebin | donebinRetry | recoverDonebin =>
      obtain ⟨accepted, answer⟩ := inv.answers datagram on_way fresh
      obtain ⟨address, size, wire, -⟩ := id answer
      rw [wire] at answer ⊢
      refine moves_recover _ accepted answer ?_ ?_
      · exact commandAddress_storeAt _ _ _ _ _ _
      · exact commandSize_storeAt _ _ _ _ _ _
    | recoverLoadbin => exact absurd fresh id
  · refine ⟨fun payload among => absurd among List.not_mem_nil, fun retry offset begun => ?_, fun done => ?_⟩
    · cases pc.symm.trans begun
    · cases pc.symm.trans done

end Sender

section Console

variable {system : UploadSystem} {payload : List Byte} {frame now : ℕ}

/-- Accepting a `LBIN` announces the upload. -/
theorem announced_of_accepts (agreed : ChunkSizeAgreed upload.legacyMode system.loader)
    (accepts : system.accepts target upload payload frame = true) :
    upload.Announced (processed target system.loader payload frame now).1 ∧ upload.size.toNat ≤ upload.limit target := by
  simp only [UploadSystem.accepts, isCommand, Bool.and_eq_true, decide_eq_true_eq] at accepts
  obtain ⟨⟨⟨takes, address⟩, size⟩, fits⟩ := accepts
  rw [Upload.loadLimit_eq target agreed] at fits
  refine ⟨?_, fits⟩
  rw [processed, processUdp_loadbin takes]
  exact Upload.announced_loadbin agreed fits address size

/-- A datagram that harms neither what the console has announced nor the agreed chunk size is processed. -/
theorem UploadInv.consoleReceive (inv : UploadInv target upload system)
    (keeps : KeepsChunkSize upload.legacyMode (system.loader.receive frame payload) (wireUdp frame payload))
    (benign : system.accepted = true → upload.Benign (system.loader.receive frame payload)
      (wireUdp frame payload))
    (small : upload.size.toNat + 2880 ≤ 2 ^ 32) :
    UploadInv target upload (system.consoleReceive target upload payload frame now) := by
  have harmless (accepted : system.accepted = true) :
      upload.Harmless (system.loader.receive frame payload) (processed target system.loader payload frame now).1 := by
    obtain ⟨announced, fits⟩ := inv.announced accepted
    exact (benign accepted).harmless announced.receive inv.agreed fits
  have remains (accepted : system.accepted = true) :
      (system.consoleReceive target upload payload frame now).accepted = true := by
    simp only [UploadSystem.consoleReceive, accepted, Bool.true_or]
  refine ⟨chunkSizeAgreed_processUdp inv.agreed keeps, fun accepted => ?_, inv.sends,
    fun datagram on_way current => ?_, inv.stream, fun pc => ?_⟩
  · rcases (Bool.or_eq_true _ _).mp accepted with before | now_accepted
    · obtain ⟨announced, fits⟩ := inv.announced before
      exact ⟨(harmless before).announced announced.receive, fits⟩
    · exact announced_of_accepts inv.agreed now_accepted
  · simp only [UploadSystem.consoleReceive] at on_way
    rcases List.mem_append.mp on_way with earlier | sent
    · obtain ⟨accepted, answer⟩ := inv.answers datagram earlier current
      exact ⟨remains accepted, answer.mono (harmless accepted).image⟩
    · obtain ⟨reply, among, rfl⟩ := List.mem_map.mp sent
      simp only [isCommand, Bool.and_eq_true, decide_eq_true_eq] at current
      obtain ⟨accepted, takes⟩ := current
      -- What takes a `DBIN` accepts no `LBIN`.
      have before : system.accepted = true := by
        refine ((Bool.or_eq_true _ _).mp accepted).resolve_right fun accepts => ?_
        simp only [UploadSystem.accepts, isCommand, Bool.and_eq_true, decide_eq_true_eq] at accepts
        exact absurd (accepts.1.1.1.2.2.symm.trans takes.2.2) (by decide)
      obtain ⟨announced, fits⟩ := inv.announced before
      refine ⟨remains before, ?_⟩
      have answers : (processed target system.loader payload frame now).2 =
          [.tx (netCommand netCmdDonebin (donebinAnswer system.loader.toolVersion system.loader.binInfo).1
            (donebinAnswer system.loader.toolVersion system.loader.binInfo).2 [])] := by
        rw [processed, processUdp_donebin takes]
        simp only [cmdDonebin, netBumpSyscallDeadline_toolVersion, netBumpSyscallDeadline_binInfo,
          netBumpSyscallDeadline_rx, takes.2.2]
        rfl
      rw [answers] at among
      rw [List.mem_singleton.mp among]
      exact (announced.trueAnswer inv.agreed small).mono (harmless before).image
  · obtain ⟨accepted, stored⟩ := inv.stored pc
    exact ⟨remains accepted, fun offset inside => (harmless accepted).image offset inside (stored offset inside)⟩

end Console

/-- A datagram that the host takes for a reply is a fresh one. -/
def TakesFresh (upload : Upload) (sender : Sender) : UploadPc → Option ToHost → Prop
  | .sendAndWait stage _, some datagram =>
    upload.isReply sender stage datagram.payload = true → FreshReply datagram.current stage
  | _, _ => True

/-- A datagram left over from before leaves the chunk size as agreed and is benign once the console has
accepted the upload. -/
def ArrivesBenign (upload : Upload) (system : UploadSystem) (frame : ℕ) : Option ToConsole → Prop
  | some datagram => datagram.leftOver = true →
      KeepsChunkSize upload.legacyMode (system.loader.receive frame datagram.payload)
        (wireUdp frame datagram.payload) ∧
      (system.accepted = true → upload.Benign (system.loader.receive frame datagram.payload)
        (wireUdp frame datagram.payload))
  | none => True

/-- The step delivers nothing that breaks the upload. -/
def UploadGuard (upload : Upload) (system : UploadSystem) : UploadEvent → Prop
  | .hostReceive index => TakesFresh upload system.sender system.sender.pc system.toHost[index]?
  | .consoleReceive index frame _ => ArrivesBenign upload system frame system.toConsole[index]?
  | _ => True

instance (upload : Upload) (sender : Sender) : (pc : UploadPc) → (datagram : Option ToHost) →
    Decidable (TakesFresh upload sender pc datagram)
  | .sendAndWait _ _, some _ => inferInstanceAs (Decidable (_ → _))
  | .sendAndWait _ _, none | .idle, _ | .stream _ _, _ | .returned _, _ => isTrue trivial

instance (upload : Upload) (system : UploadSystem) (frame : ℕ) : (datagram : Option ToConsole) →
    Decidable (ArrivesBenign upload system frame datagram)
  | some _ => inferInstanceAs (Decidable (_ → _ ∧ (_ → _)))
  | none => isTrue trivial

instance (upload : Upload) (system : UploadSystem) : (event : UploadEvent) →
    Decidable (UploadGuard upload system event)
  | .hostReceive index =>
    inferInstanceAs (Decidable (TakesFresh upload system.sender system.sender.pc system.toHost[index]?))
  | .consoleReceive index frame _ =>
    inferInstanceAs (Decidable (ArrivesBenign upload system frame system.toConsole[index]?))
  | .call | .streamNext | .windowElapsed => isTrue trivial

/-- A guarded step keeps the invariant. -/
theorem UploadInv.step (small : upload.size.toNat + 2880 ≤ 2 ^ 32) (system : UploadSystem) (event : UploadEvent)
    (next : UploadSystem) (inv : UploadInv target upload system) (guard : UploadGuard upload system event)
    (step : (uploadMachine target upload).step system event = some next) : UploadInv target upload next := by
  cases event with
  | call =>
    simp only [uploadMachine] at step
    split at step
    · cases step
      exact inv.advance (moves_call _)
    · cases step
  | streamNext =>
    simp only [uploadMachine] at step
    split at step
    · rename_i retry offset pc
      cases step
      obtain ⟨k, inside, rfl⟩ := inv.stream retry offset pc
      exact inv.advance (moves_streamNext _ small retry inside)
    · cases step
  | windowElapsed =>
    simp only [uploadMachine] at step
    split at step
    · cases step
      exact inv.advance (moves_windowElapsed _ _ _)
    · cases step
  | hostReceive index =>
    simp only [uploadMachine] at step
    split at step
    · rename_i stage attempt datagram pc at_index
      cases step
      simp only [UploadGuard, pc, at_index, TakesFresh] at guard
      exact inv.advance (moves_receive _ _ inv pc (List.mem_of_getElem? at_index) guard)
    · cases step
  | consoleReceive index frame now =>
    simp only [uploadMachine] at step
    split at step
    · rename_i datagram at_index
      split at step
      · cases step
      · cases step
        simp only [UploadGuard, at_index, ArrivesBenign] at guard
        cases leftOver : datagram.leftOver with
        | true => exact inv.consoleReceive (guard leftOver).1 (guard leftOver).2 small
        | false =>
          have sends := inv.sends datagram (List.mem_of_getElem? at_index) leftOver
          exact inv.consoleReceive (sends.keepsChunkSize frame)
            (fun accepted => sends.benign frame (inv.announced accepted).1) small
    · cases step

/-- In every run whose steps are guarded, a success is reported only when the whole image is in guest
memory. -/
theorem upload_success_complete (target : Target) (upload : Upload) (source final : UploadSystem)
    (events : List UploadEvent) (fits : upload.size.toNat ≤ target.platform.maxRamBytes)
    (initial : source.Initial upload) (guarded : (uploadMachine target upload).Along (UploadGuard upload) source events)
    (run : (uploadMachine target upload).run? source events = some final)
    (success : final.sender.pc = .returned 0) (offset : ℕ) (inside : offset < upload.size.toNat) :
    final.loader.memory (upload.destAddr + BitVec.ofNat 32 offset) = upload.data offset :=
  ((Machine.LabeledMachine.run?_invariant (UploadInv.step (Upload.size_small fits)) initial.inv guarded run).stored
    success).2 offset inside

/-- One byte for the start of a Dreamcast program. -/
def oneByte : Upload where
  data := fun _ => 0x61
  destAddr := 0x8c010000
  size := 1
  legacyMode := false
  isWiiLoader := false

/-- Before that upload; a `PBIN` of an earlier upload of the same byte is still on its way. -/
def oneByteIdle : UploadSystem where
  sender := { pc := .idle, buffer := fun _ => 0, loadbinRetries := 0 }
  loader := { Loader.start (fun _ => 0) (fun _ => 0) with toolVersion := 0x00030000 }
  toConsole := [{ payload := netCommand netCmdPartbin 0x8c010000 1 [0x61], leftOver := true }]
  toHost := []
  accepted := false

theorem oneByteIdle_initial : oneByteIdle.Initial oneByte where
  pc := rfl
  accepted := rfl
  toConsole := by decide +kernel
  toHost := by decide +kernel
  agreed := by decide +kernel

/-- The `PBIN` of the upload is lost, the one of the earlier upload arrives in its place. -/
def replacedRun : List UploadEvent :=
  [.call, .consoleReceive 1 64 0, .hostReceive 0, .streamNext, .consoleReceive 0 64 0, .streamNext,
    .consoleReceive 3 64 0, .hostReceive 1]

theorem replacedRun_completes :
    ((uploadMachine .dreamcast oneByte).run? oneByteIdle replacedRun).isSome = true := by
  decide +kernel

theorem upload_success_complete_replaced :
    ∃ final, (uploadMachine .dreamcast oneByte).run? oneByteIdle replacedRun = some final ∧
      final.loader.memory (oneByte.destAddr + BitVec.ofNat 32 0) = oneByte.data 0 := by
  refine ⟨_, (Option.some_get replacedRun_completes).symm, ?_⟩
  exact upload_success_complete .dreamcast oneByte oneByteIdle _ replacedRun (by decide +kernel) oneByteIdle_initial
    (by decide +kernel) (Option.some_get replacedRun_completes).symm (by decide +kernel) 0 (by decide)

/-- Every `PBIN` is lost and then every answer to `DBIN`, until the recovery loop announces the range again. -/
def restartRun : List UploadEvent :=
  [.call, .consoleReceive 1 64 0, .hostReceive 0, .streamNext, .streamNext, .consoleReceive 3 64 0,
    .hostReceive 1] ++ List.replicate 20 .windowElapsed ++ [.consoleReceive 25 64 0, .hostReceive 2]

theorem restartRun_completes :
    ((uploadMachine .dreamcast oneByte).run? oneByteIdle restartRun).isSome = true := by
  decide +kernel

/-- Not every success means that the image is in guest memory. -/
theorem upload_success_incomplete :
    ¬ ∀ (target : Target) (upload : Upload) (source final : UploadSystem) (events : List UploadEvent),
      upload.size.toNat ≤ target.platform.maxRamBytes → source.Initial upload →
        (uploadMachine target upload).run? source events = some final → final.sender.pc = .returned 0 →
          ∀ offset < upload.size.toNat,
            final.loader.memory (upload.destAddr + BitVec.ofNat 32 offset) = upload.data offset := by
  intro safe
  have stored := safe .dreamcast oneByte oneByteIdle _ restartRun (by decide +kernel) oneByteIdle_initial
    (Option.some_get restartRun_completes).symm (by decide +kernel) 0 (by decide)
  revert stored
  decide +kernel

end KosTool.Host
