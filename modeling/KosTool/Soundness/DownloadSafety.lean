import KosTool.Soundness.DownloadInvariant

/-! # A download that succeeds is complete

`network_recv_data` returns 0 when every chunk is marked. A packet left over from an earlier request marks
a chunk too: one that is too short, that does not start at a chunk, or that carries old bytes marks a chunk
it does not fill.
-/

namespace KosTool.Host

open ByteWord Client Client.Loader Protocol

variable {target : Target} {download : Download}

/-- What holds in every state of a download. -/
structure DownloadInv (download : Download) (system : DownloadSystem) : Prop where
  agreed : ChunkSizeAgreed download.legacyMode system.loader
  requests : ∀ datagram ∈ system.toConsole, datagram.leftOver = false → download.Requests datagram.payload
  answers : ∀ datagram ∈ system.toHost, datagram.current = true →
    download.Answers system.served datagram.payload
  marked : system.receiver.pc ≠ .idle → download.Marked system.served system.receiver
  complete : system.receiver.pc = .returned 0 → ∀ k < download.chunks, system.receiver.map k = true

/-- The call is still to come, and everything on its way is left over from before. -/
structure DownloadSystem.Initial (download : Download) (system : DownloadSystem) : Prop where
  pc : system.receiver.pc = .idle
  toConsole : ∀ datagram ∈ system.toConsole, datagram.leftOver = true
  toHost : ∀ datagram ∈ system.toHost, datagram.current = false
  served : system.served = []
  agreed : ChunkSizeAgreed download.legacyMode system.loader

theorem DownloadSystem.Initial.inv {system : DownloadSystem} (initial : system.Initial download) :
    DownloadInv download system where
  agreed := initial.agreed
  requests datagram on_way own := absurd ((initial.toConsole datagram on_way).symm.trans own) (by decide)
  answers datagram on_way current := absurd ((initial.toHost datagram on_way).symm.trans current) (by decide)
  marked begun := absurd initial.pc begun
  complete pc := by rw [initial.pc] at pc; cases pc

section Receiver

variable {served : List Served} {moved : Receiver × List (List Byte)}

/-- The receiver moves on as it should. -/
structure Progresses (download : Download) (served : List Served) (moved : Receiver × List (List Byte)) : Prop where
  requests : ∀ payload ∈ moved.2, download.Requests payload
  marked : download.Marked served moved.1
  complete : moved.1.pc = .returned 0 → ∀ k < download.chunks, moved.1.map k = true

theorem DownloadInv.advance {system : DownloadSystem} (inv : DownloadInv download system)
    (progresses : Progresses download system.served moved) : DownloadInv download (system.advance moved) where
  agreed := inv.agreed
  requests datagram on_way own := by
    rcases List.mem_append.mp on_way with earlier | sent
    · exact inv.requests datagram earlier own
    · obtain ⟨payload, among, rfl⟩ := List.mem_map.mp sent
      exact progresses.requests payload among
  answers := inv.answers
  marked _ := progresses.marked
  complete := progresses.complete

variable {receiver : Receiver}

theorem progresses_call : Progresses download served (download.call receiver) where
  requests payload among := Or.inl (List.mem_singleton.mp among)
  marked _ _ bit := absurd bit Bool.false_ne_true
  complete pc := by cases pc

/-- The receiver goes on without sending. -/
theorem progresses_wait (marked : download.Marked served receiver) {pc : DownloadPc} (waits : pc ≠ .returned 0) :
    Progresses download served ({ receiver with pc }, []) where
  requests _ among := absurd among List.not_mem_nil
  marked := marked
  complete done := absurd done waits

theorem progresses_nextPass (counts : download.size.toNat + download.chunk ≤ 2 ^ 32)
    (marked : download.Marked served receiver) (passes stalled : ℕ) :
    Progresses download served (download.nextPass receiver passes stalled) := by
  obtain ⟨upper, set, -⟩ := (mapScan_eq_iff receiver.map download.chunks _).mp rfl
  simp only [Download.nextPass, Download.toNat_numChunks counts]
  split
  · rename_i all
    rw [all] at set
    exact ⟨fun payload among => absurd among List.not_mem_nil, marked, fun _ => set⟩
  · rename_i missing
    refine ⟨fun payload among => Or.inr ⟨_, ?_, List.mem_singleton.mp among⟩, marked, fun pc => by cases pc⟩
    omega

theorem progresses_passOver (counts : download.size.toNat + download.chunk ≤ 2 ^ 32)
    (marked : download.Marked served receiver) (c passes stalled : ℕ) :
    Progresses download served (download.passOver receiver c passes stalled) := by
  simp only [Download.passOver]
  generalize (if receiver.map c = true then 0 else stalled + 1) = count
  split
  · exact progresses_wait marked (by decide)
  · exact progresses_nextPass counts marked _ _

theorem progresses_streamed (counts : download.size.toNat + download.chunk ≤ 2 ^ 32)
    (marked : download.Marked served receiver) (packets : ℕ) :
    Progresses download served (download.streamed receiver packets) := by
  unfold Download.streamed
  split
  · exact progresses_wait marked (by simp)
  · exact progresses_nextPass counts marked _ _

/-- A faithful datagram is received in the stream loop. -/
theorem progresses_streamReceive (counts : download.size.toNat + download.chunk ≤ 2 ^ 32)
    (marked : download.Marked served receiver) {packets : ℕ} (pc : receiver.pc = .stream packets)
    (payload : List Byte) (faithful : payload ≠ [] → download.Faithful served
      { receiver with buffer := storeAt (fun _ => 0) 0 (payload.take receiveBufferLen) }) :
    Progresses download served (download.streamReceive receiver packets payload) := by
  have waits : receiver.pc ≠ .returned 0 := by rw [pc]; simp
  have received : download.Marked served
      { receiver with buffer := storeAt (fun _ => 0) 0 (payload.take receiveBufferLen) } := marked
  simp only [Download.streamReceive]
  split_ifs with empty sendbin inTransfer donebin
  · exact progresses_wait received waits
  · exact progresses_streamed counts (Download.marked_copyPacket received (faithful empty) sendbin inTransfer) _
  · exact progresses_wait received waits
  · exact progresses_streamed counts received _
  · exact progresses_wait received waits

/-- A faithful datagram is received in a pass. -/
theorem progresses_passReceive (counts : download.size.toNat + download.chunk ≤ 2 ^ 32)
    (marked : download.Marked served receiver) {c passes stalled : ℕ} (pc : receiver.pc = .pass c passes stalled)
    (payload : List Byte) (faithful : payload ≠ [] → download.Faithful served
      { receiver with buffer := storeAt receiver.buffer 0 (payload.take receiveBufferLen) }) :
    Progresses download served (download.passReceive receiver c passes stalled payload) := by
  have waits : receiver.pc ≠ .returned 0 := by rw [pc]; simp
  have received : download.Marked served
      { receiver with buffer := storeAt receiver.buffer 0 (payload.take receiveBufferLen) } := marked
  simp only [Download.passReceive]
  split_ifs with empty sendbin inTransfer landed donebin landed
  · exact progresses_passOver counts marked _ _ _
  · exact progresses_passOver counts
      (Download.marked_copyPacket received (faithful empty) sendbin inTransfer) _ _ _
  · exact progresses_wait (Download.marked_copyPacket received (faithful empty) sendbin inTransfer) waits
  · exact progresses_wait received waits
  · exact progresses_passOver counts received _ _ _
  · exact progresses_wait received waits
  · exact progresses_wait received waits

end Receiver

section Console

variable {system : DownloadSystem} {datagram : ToConsole} {frame now : ℕ}

/-- A request of the transfer is serviced, or a datagram that keeps the agreed chunk size is processed. -/
theorem DownloadInv.consoleReceive (inv : DownloadInv download system)
    (keeps : KeepsChunkSize download.legacyMode (system.loader.receive frame datagram.payload)
      (wireUdp frame datagram.payload))
    (requests : datagram.leftOver = false → download.Requests datagram.payload) :
    DownloadInv download (system.consoleReceive target datagram frame now) := by
  have grows : ∃ more, (system.consoleReceive target datagram frame now).served = system.served ++ more := by
    simp only [DownloadSystem.consoleReceive]
    split
    · exact ⟨_, rfl⟩
    · exact ⟨[], (List.append_nil _).symm⟩
  refine ⟨chunkSizeAgreed_processUdp inv.agreed keeps, inv.requests, fun reply on_way current => ?_,
    fun begun => ?_, inv.complete⟩
  · rcases List.mem_append.mp on_way with earlier | sent
    · obtain ⟨more, served⟩ := grows
      rw [served]
      exact (inv.answers reply earlier current).mono
    · obtain ⟨payload, among, rfl⟩ := List.mem_map.mp sent
      simp only at current
      have own : datagram.leftOver = false := by
        simp only [DownloadSystem.serves, Bool.and_eq_true, Bool.not_eq_true'] at current
        exact current.1
      simp only [DownloadSystem.consoleReceive, current, if_true]
      exact (requests own).answers inv.agreed among
  · obtain ⟨more, served⟩ := grows
    rw [served]
    exact (inv.marked begun).mono

end Console

/-- A datagram left over from before is faithful where the receiver stores it. -/
def StoresFaithful (download : Download) (system : DownloadSystem) : DownloadPc → Option ToHost → Prop
  | .stream _, some datagram => datagram.current = false → datagram.payload ≠ [] →
      download.Faithful system.served
        { system.receiver with buffer := storeAt (fun _ => 0) 0 (datagram.payload.take receiveBufferLen) }
  | .pass _ _ _, some datagram => datagram.current = false → datagram.payload ≠ [] →
      download.Faithful system.served
        { system.receiver with
          buffer := storeAt system.receiver.buffer 0 (datagram.payload.take receiveBufferLen) }
  | _, _ => True

/-- A datagram left over from before leaves the chunk size as agreed. -/
def ArrivesAgreed (download : Download) (loader : Loader) (frame : ℕ) : Option ToConsole → Prop
  | some datagram => datagram.leftOver = true →
      KeepsChunkSize download.legacyMode (loader.receive frame datagram.payload) (wireUdp frame datagram.payload)
  | none => True

/-- The step delivers nothing that breaks the download. -/
def DownloadGuard (download : Download) (system : DownloadSystem) : DownloadEvent → Prop
  | .hostReceive index => StoresFaithful download system system.receiver.pc system.toHost[index]?
  | .consoleReceive index frame _ => ArrivesAgreed download system.loader frame system.toConsole[index]?
  | _ => True

instance (download : Download) (system : DownloadSystem) : (pc : DownloadPc) → (datagram : Option ToHost) →
    Decidable (StoresFaithful download system pc datagram)
  | .stream _, some _ | .pass _ _ _, some _ => inferInstanceAs (Decidable (_ → _ → _))
  | .stream _, none | .pass _ _ _, none | .idle, _ | .returned _, _ => isTrue trivial

instance (download : Download) (loader : Loader) (frame : ℕ) : (datagram : Option ToConsole) →
    Decidable (ArrivesAgreed download loader frame datagram)
  | some _ => inferInstanceAs (Decidable (_ → _))
  | none => isTrue trivial

instance (download : Download) (system : DownloadSystem) : (event : DownloadEvent) →
    Decidable (DownloadGuard download system event)
  | .hostReceive index =>
    inferInstanceAs (Decidable (StoresFaithful download system system.receiver.pc system.toHost[index]?))
  | .consoleReceive index frame _ =>
    inferInstanceAs (Decidable (ArrivesAgreed download system.loader frame system.toConsole[index]?))
  | .call | .windowElapsed => isTrue trivial

/-- A guarded step keeps the invariant. -/
theorem DownloadInv.step (counts : download.size.toNat + download.chunk ≤ 2 ^ 32) (system : DownloadSystem)
    (event : DownloadEvent) (next : DownloadSystem) (inv : DownloadInv download system)
    (guard : DownloadGuard download system event)
    (step : (downloadMachine target download).step system event = some next) : DownloadInv download next := by
  cases event with
  | call =>
    simp only [downloadMachine] at step
    split at step
    · cases step
      exact inv.advance progresses_call
    · cases step
  | windowElapsed =>
    simp only [downloadMachine] at step
    split at step
    · rename_i packets pc
      cases step
      exact inv.advance (progresses_nextPass counts (inv.marked (by rw [pc]; simp)) _ _)
    · rename_i c passes stalled pc
      cases step
      exact inv.advance (progresses_passOver counts (inv.marked (by rw [pc]; simp)) _ _ _)
    · cases step
  | hostReceive index =>
    simp only [downloadMachine] at step
    split at step
    · rename_i packets datagram pc at_index
      cases step
      simp only [DownloadGuard, pc, at_index, StoresFaithful] at guard
      refine inv.advance (progresses_streamReceive counts (inv.marked (by rw [pc]; simp)) pc _ fun nonempty => ?_)
      cases current : datagram.current with
      | true => exact (inv.answers datagram (List.mem_of_getElem? at_index) current).faithful _ rfl
      | false => exact guard current nonempty
    · rename_i c passes stalled datagram pc at_index
      cases step
      simp only [DownloadGuard, pc, at_index, StoresFaithful] at guard
      refine inv.advance (progresses_passReceive counts (inv.marked (by rw [pc]; simp)) pc _ fun nonempty => ?_)
      cases current : datagram.current with
      | true => exact (inv.answers datagram (List.mem_of_getElem? at_index) current).faithful _ rfl
      | false => exact guard current nonempty
    · cases step
  | consoleReceive index frame now =>
    simp only [downloadMachine] at step
    split at step
    · rename_i datagram at_index
      split at step
      · cases step
      · cases step
        simp only [DownloadGuard, at_index, ArrivesAgreed] at guard
        have requests := inv.requests datagram (List.mem_of_getElem? at_index)
        refine inv.consoleReceive ?_ requests
        cases leftOver : datagram.leftOver with
        | true => exact guard leftOver
        | false => exact (requests leftOver).keepsChunkSize _ _
    · cases step

/-- In every run whose steps are guarded, a success is reported only when every byte of the range is one
that the console read from guest memory while it serviced this transfer. -/
theorem download_success_genuine (target : Target) (download : Download) (source final : DownloadSystem)
    (events : List DownloadEvent) (counts : download.size.toNat + download.chunk ≤ 2 ^ 32)
    (initial : source.Initial download)
    (guarded : (downloadMachine target download).Along (DownloadGuard download) source events)
    (run : (downloadMachine target download).run? source events = some final)
    (success : final.receiver.pc = .returned 0) (offset : ℕ) (inside : offset < download.size.toNat) :
    download.Genuine final.served offset (final.receiver.data offset) := by
  have inv := Machine.LabeledMachine.run?_invariant (DownloadInv.step counts) initial.inv guarded run
  have positive := download.chunk_pos
  have start : offset / download.chunk * download.chunk ≤ offset := Nat.div_mul_le_self _ _
  have upper : offset < (offset / download.chunk + 1) * download.chunk :=
    Nat.lt_mul_of_div_lt (Nat.lt_succ_self _) positive
  have chunk : offset / download.chunk < download.chunks :=
    (lt_chunksOf_iff _ _ _).mpr (Nat.lt_of_le_of_lt start inside)
  exact inv.marked (by rw [success]; simp) _ chunk (inv.complete success _ chunk) offset inside start upper

/-- One byte from the start of a Dreamcast program. -/
def oneByteBack : Download where
  srcAddr := 0x8c010000
  size := 1
  quiet := true
  legacyMode := false
  isWiiLoader := false

/-- Before that download; one datagram of an earlier request is still on its way to the host. -/
def oneByteBackIdle (leftOver : List Byte) : DownloadSystem where
  receiver := { pc := .idle, buffer := fun _ => 0, data := fun _ => 0, map := fun _ => false }
  loader := { Loader.start (fun _ => 0x61) (fun _ => 0) with toolVersion := 0x00030000 }
  toConsole := []
  toHost := [{ payload := leftOver, current := false }]
  served := []

theorem oneByteBackIdle_initial (leftOver : List Byte) : (oneByteBackIdle leftOver).Initial oneByteBack where
  pc := rfl
  toConsole := by simp [oneByteBackIdle]
  toHost := by simp [oneByteBackIdle]
  served := rfl
  agreed := by
    change ChunkSizeAgreed false { Loader.start (fun _ => 0x61) (fun _ => 0) with toolVersion := 0x00030000 }
    decide +kernel

/-- A packet of another range, which the host drops. -/
def foreignPacket : List Byte := netCommand netCmdSendbin 0x8c020000 1 [0x62]

/-- The packet of another range, the packet of the byte and the end of the stream arrive. -/
def answeredRun : List DownloadEvent :=
  [.call, .consoleReceive 0 64 0, .hostReceive 0, .hostReceive 1, .hostReceive 2]

theorem answeredRun_completes :
    ((downloadMachine .dreamcast oneByteBack).run? (oneByteBackIdle foreignPacket) answeredRun).isSome = true := by
  decide +kernel

theorem download_success_genuine_foreign :
    ∃ final, (downloadMachine .dreamcast oneByteBack).run? (oneByteBackIdle foreignPacket) answeredRun = some final ∧
      oneByteBack.Genuine final.served 0 (final.receiver.data 0) := by
  refine ⟨_, (Option.some_get answeredRun_completes).symm, ?_⟩
  exact download_success_genuine .dreamcast oneByteBack (oneByteBackIdle foreignPacket) _ answeredRun
    (by decide +kernel) (oneByteBackIdle_initial _) (by decide +kernel)
    (Option.some_get answeredRun_completes).symm (by decide +kernel) 0 (by decide)

/-- A packet at the address asked for that announces no bytes. -/
def emptyPacket : List Byte := netCommand netCmdSendbin 0x8c010000 0 []

/-- The request is lost, the empty packet arrives, and the window is over. -/
def emptyPacketRun : List DownloadEvent := [.call, .hostReceive 0, .windowElapsed]

theorem emptyPacketRun_completes :
    ((downloadMachine .dreamcast oneByteBack).run? (oneByteBackIdle emptyPacket) emptyPacketRun).isSome = true := by
  decide +kernel

/-- Not every success means that the range was read from guest memory. -/
theorem download_success_hollow :
    ¬ ∀ (target : Target) (download : Download) (source final : DownloadSystem) (events : List DownloadEvent),
      download.srcAddr.toNat + download.size.toNat < 2 ^ 32 → source.Initial download →
        (downloadMachine target download).run? source events = some final → final.receiver.pc = .returned 0 →
          ∀ offset < download.size.toNat, download.Genuine final.served offset (final.receiver.data offset) := by
  intro safe
  have genuine := safe .dreamcast oneByteBack (oneByteBackIdle emptyPacket) _ emptyPacketRun (by decide +kernel)
    (oneByteBackIdle_initial _) (Option.some_get emptyPacketRun_completes).symm (by decide +kernel) 0 (by decide)
  revert genuine
  decide +kernel

end KosTool.Host
