import KosTool.Model.Host.NetConsole
import KosTool.Soundness.SendDataRuns

/-! # What a `read` of the guest gets

`net_syscall_read` uploads as many bytes as were asked for, of memory in which only those are the file's that `read` has given, and
reports how many these are whatever has come of the upload. So the guest gets what it should if the file has that many bytes and the
upload goes through, or if nothing is reported and nothing is sent.
-/

namespace KosTool.Host

open ByteWord Protocol

namespace Upload

variable {upload : Upload}

/-- The sender behind the first `LBIN`. -/
def begun : Sender := { pc := .sendAndWait .loadbin 0, buffer := fun _ => 0, loadbinRetries := 0 }

/-- The console does not answer the `LBIN` of an upload. -/
def Unacknowledged (upload : Upload) (events : List SendEvent) : Prop :=
  upload.Along (fun sender event => ¬upload.Acknowledges sender event) begun events

/-- The upload gets its last answer, and can serve every one of the recovery loop. -/
def Served (upload : Upload) (events : List SendEvent) : Prop :=
  Answered events ∧ upload.Along upload.AnswerHolds begun events

section Once

theorem once_eq (nonempty : upload.size ≠ 0#32) (events : List SendEvent) : upload.networkSendDataOnce events =
    (upload.reactAll begun events).map fun sent => { sent with wire := upload.stageDatagram .loadbin :: sent.wire } := by
  rw [networkSendDataOnce, call, if_neg nonempty]
  rfl

variable {events : List SendEvent} {sent : Sent} (nonempty : upload.size ≠ 0#32)
  (sends : upload.networkSendDataOnce events = some sent)

include nonempty sends

theorem once_run : ∃ run, upload.reactAll begun events = some run ∧ run.partbins = sent.partbins ∧ run.code = sent.code := by
  rw [once_eq nonempty] at sends
  obtain ⟨run, went, rfl⟩ := Option.map_eq_some_iff.mp sends
  exact ⟨run, went, rfl, rfl⟩

theorem once_code : (sent.code = 0 ∧ Answered events) ∨ (sent.code = -1 ∧ ¬Answered events) := by
  obtain ⟨run, went, -, code⟩ := once_run nonempty sends
  rw [← code]
  exact reactAll_code (fun code (pc : UploadPc.sendAndWait .loadbin 0 = .returned code) => nomatch pc) went

theorem once_cases (fits : upload.size.toNat + 1440 ≤ 2 ^ 32) :
    (upload.Unacknowledged events ∧ sent.partbins = [] ∧ sent.code = -1) ∨
      (¬upload.Unacknowledged events ∧ upload.Covers 0 sent.partbins) := by
  obtain ⟨run, went, partbins, code⟩ := once_run nonempty sends
  rw [← partbins, ← code]
  exact loadbin_cases fits rfl went

theorem once_served (base length : ℕ) (addr : Word) (large : base + upload.size.toNat ≤ length) (small : length + 2033 < 2 ^ 32)
    (window : upload.destAddr = addr + BitVec.ofNat 32 base) :
    (sent.code = 0 ∧ ∀ part ∈ sent.partbins, (part.inWhole base).Exact addr length) ↔ upload.Served events := by
  obtain ⟨run, went, partbins, -⟩ := once_run nonempty sends
  rw [Served, ← all_exact_iff large small window went, partbins]
  obtain ⟨code, answered⟩ | ⟨code, unanswered⟩ := once_code nonempty sends
  · rw [and_iff_right code, and_iff_right answered]
  · refine iff_of_false (fun good => ?_) fun good => unanswered good.1
    rw [code] at good
    exact absurd good.1 (by decide)

theorem once_congr (other : Buffer) (agree : ∀ part ∈ sent.partbins, ∀ k, part.Has k → upload.data k = other k) :
    networkSendDataOnce { upload with data := other } events = some sent := by
  rw [once_eq nonempty] at sends
  obtain ⟨run, went, rfl⟩ := Option.map_eq_some_iff.mp sends
  rw [once_eq (by exact nonempty), reactAll_congr went agree]
  rfl

end Once

section Windows

/-- How much of the data the window at an offset has. -/
def chunkAt (upload : Upload) (offset : ℕ) : ℕ := min (upload.size.toNat - offset) w5500UploadWindowSize

/-- The windows from an offset on are served. -/
def WindowsServed (upload : Upload) : ℕ → List (List SendEvent) → Prop
  | _, [] => True
  | offset, events :: rest =>
    if upload.size.toNat ≤ offset then True
    else (upload.window offset (upload.chunkAt offset)).Served events ∧ upload.WindowsServed (offset + upload.chunkAt offset) rest

theorem window_size (upload : Upload) (offset : ℕ) :
    (upload.window offset (upload.chunkAt offset)).size.toNat = upload.chunkAt offset := by
  have small : upload.chunkAt offset ≤ 32 * 1024 := Nat.min_le_right _ _
  rw [window, BitVec.toNat_ofNat, Nat.mod_eq_of_lt]
  omega

theorem window_nonempty {offset : ℕ} (inside : ¬upload.size.toNat ≤ offset) :
    (upload.window offset (upload.chunkAt offset)).size ≠ 0#32 := by
  intro zero
  have none_left := (upload.window_size offset).symm.trans (congrArg BitVec.toNat zero)
  rw [chunkAt, w5500UploadWindowSize] at none_left
  simp only [BitVec.toNat_ofNat, Nat.zero_mod] at none_left
  omega

/-- A window is sent, and the windows behind it if it went through. -/
theorem sendWindows_cons {offset : ℕ} {events : List SendEvent} {rest : List (List SendEvent)} {sent : Sent}
    (inside : ¬upload.size.toNat ≤ offset) (sends : upload.sendWindows offset (events :: rest) = some sent) :
    ∃ once, (upload.window offset (upload.chunkAt offset)).networkSendDataOnce events = some once ∧
      ((once.code ≠ 0 ∧ sent = ⟨once.wire, once.partbins.map (.inWhole offset), -1⟩) ∨
        (once.code = 0 ∧ ∃ others, upload.sendWindows (offset + upload.chunkAt offset) rest = some others ∧
          sent = ⟨once.wire ++ others.wire, once.partbins.map (.inWhole offset) ++ others.partbins, others.code⟩)) := by
  rw [sendWindows, if_neg inside] at sends
  dsimp only at sends
  rw [← chunkAt] at sends
  split at sends
  · nomatch sends
  · rename_i once went
    refine ⟨once, went, ?_⟩
    split_ifs at sends with failed
    · exact .inl ⟨failed, (Option.some.inj sends).symm⟩
    · obtain ⟨others, after, rfl⟩ := Option.map_eq_some_iff.mp sends
      exact .inr ⟨not_not.mp failed, others, after, rfl⟩

variable {offset : ℕ} {events : List (List SendEvent)} {sent : Sent}

/-- Windows that go through have everything. -/
theorem windows_cover (sends : upload.sendWindows offset events = some sent) (code : sent.code = 0) :
    upload.Covers offset sent.partbins := by
  induction events generalizing offset sent with
  | nil =>
    rw [sendWindows] at sends
    split_ifs at sends with behind
    intro k lower upper
    omega
  | cons events rest ih =>
    intro k lower upper
    have inside : ¬upload.size.toNat ≤ offset := by omega
    obtain ⟨once, went, ⟨failed, rfl⟩ | ⟨ended, others, after, rfl⟩⟩ := sendWindows_cons inside sends
    · exact absurd code (by decide : (-1 : ℤ) ≠ 0)
    · have size := upload.window_size offset
      have small : upload.chunkAt offset ≤ 32 * 1024 := Nat.min_le_right _ _
      by_cases here : k < offset + upload.chunkAt offset
      · obtain ⟨never, nothing, failed⟩ | ⟨-, covers⟩ := once_cases (window_nonempty inside) went (by omega)
        · rw [failed] at ended
          exact absurd ended (by decide)
        · obtain ⟨part, member, first, last⟩ := covers (k - offset) (Nat.zero_le _) (by omega)
          refine ⟨part.inWhole offset, List.mem_append_left _ (List.mem_map_of_mem member), ?_, ?_⟩
          · rw [MissPartbin.inWhole]
            dsimp only
            omega
          · rw [MissPartbin.inWhole]
            dsimp only
            omega
      · obtain ⟨part, member, has⟩ := ih after code k (by omega) upper
        exact ⟨part, List.mem_append_right _ member, has⟩

/-- The windows go through with the right `PBIN`s exactly if each is served. -/
theorem windows_served (small : upload.size.toNat + 2033 < 2 ^ 32) (sends : upload.sendWindows offset events = some sent) :
    (sent.code = 0 ∧ ∀ part ∈ sent.partbins, part.Exact upload.destAddr upload.size.toNat) ↔
      upload.WindowsServed offset events := by
  induction events generalizing offset sent with
  | nil =>
    rw [sendWindows] at sends
    split_ifs at sends with behind
    cases sends
    exact iff_of_true ⟨rfl, fun part member => nomatch member⟩ trivial
  | cons events rest ih =>
    rw [WindowsServed]
    by_cases inside : upload.size.toNat ≤ offset
    · rw [sendWindows, if_pos inside] at sends
      cases sends
      rw [if_pos inside]
      exact iff_of_true ⟨rfl, fun part member => nomatch member⟩ trivial
    · rw [if_neg inside]
      have size := upload.window_size offset
      have chunk : upload.chunkAt offset ≤ upload.size.toNat - offset := Nat.min_le_left _ _
      obtain ⟨once, went, ⟨failed, rfl⟩ | ⟨ended, others, after, rfl⟩⟩ := sendWindows_cons inside sends
      · refine iff_of_false (fun good => absurd good.1 (by decide : (-1 : ℤ) ≠ 0)) fun served => failed ?_
        exact ((once_served (window_nonempty inside) went offset _ upload.destAddr (by omega) small rfl).mpr
          served.1).1
      · rw [← ih after, ← once_served (window_nonempty inside) went offset _ upload.destAddr (by omega) small rfl,
          List.forall_mem_append, List.forall_mem_map]
        constructor
        · rintro ⟨code, here, later⟩
          exact ⟨⟨ended, here⟩, code, later⟩
        · rintro ⟨⟨-, here⟩, code, later⟩
          exact ⟨code, here, later⟩

/-- Where another data has the bytes of the `PBIN`s, the windows are the same. -/
theorem windows_congr {other : Buffer} (sends : upload.sendWindows offset events = some sent)
    (agree : ∀ part ∈ sent.partbins, ∀ k, part.Has k → upload.data k = other k) :
    sendWindows { upload with data := other } offset events = some sent := by
  induction events generalizing offset sent with
  | nil =>
    rw [sendWindows] at sends ⊢
    exact sends
  | cons events rest ih =>
    by_cases inside : upload.size.toNat ≤ offset
    · rw [sendWindows, if_pos inside] at sends ⊢
      exact sends
    · obtain ⟨once, went, outcome⟩ := sendWindows_cons inside sends
      have here : ∀ part ∈ once.partbins, ∀ k, part.Has k → upload.data (offset + k) = other (offset + k) := by
        intro part member k has
        have whole : part.inWhole offset ∈ sent.partbins := by
          obtain ⟨-, rfl⟩ | ⟨-, others, -, rfl⟩ := outcome
          · exact List.mem_map_of_mem member
          · exact List.mem_append_left _ (List.mem_map_of_mem member)
        refine agree _ whole _ ⟨Nat.add_le_add_left has.1 _, ?_⟩
        rw [MissPartbin.inWhole, Nat.add_assoc]
        exact Nat.add_lt_add_left has.2 _
      have again := once_congr (window_nonempty inside) went (fun i => other (offset + i)) here
      rw [sendWindows, if_neg inside]
      dsimp only
      rw [← chunkAt]
      have same : window { upload with data := other } offset (upload.chunkAt offset) =
          { upload.window offset (upload.chunkAt offset) with data := fun i => other (offset + i) } := rfl
      rw [same, again]
      dsimp only
      obtain ⟨failed, rfl⟩ | ⟨ended, others, after, rfl⟩ := outcome
      · rw [if_pos failed]
      · rw [if_neg (not_not.mpr ended), ih after fun part member => agree part (List.mem_append_right _ member)]
        rfl

end Windows

section Whole

/-- The uploads of the data are windows of it. -/
def Windowed (upload : Upload) (isW5500 : Bool) : Prop := isW5500 ∧ w5500UploadWindowSize < upload.size.toNat

instance (isW5500 : Bool) : Decidable (upload.Windowed isW5500) := inferInstanceAs (Decidable (_ ∧ _))

/-- The console does not answer the first `LBIN`. -/
def Unanswered (upload : Upload) (isW5500 : Bool) (events : List (List SendEvent)) : Prop :=
  if upload.Windowed isW5500 then (upload.window 0 (upload.chunkAt 0)).Unacknowledged (events.headD [])
  else upload.Unacknowledged (events.headD [])

/-- Every upload gets its last answer, and can serve every one of its recovery loop. -/
def AllServed (upload : Upload) (isW5500 : Bool) (events : List (List SendEvent)) : Prop :=
  if upload.Windowed isW5500 then upload.WindowsServed 0 events else upload.Served (events.headD [])

variable {isW5500 : Bool} {events : List (List SendEvent)} {sent : Sent}

theorem networkSendData_unprepared (upload : Upload) (isW5500 : Bool) (events : List (List SendEvent)) :
    upload.networkSendData false isW5500 events = some ⟨[], [], -1⟩ := by
  rw [networkSendData.eq_def]
  by_cases empty : upload.size = 0#32
  · rw [if_pos empty]
  · rw [if_neg empty, if_pos Bool.false_ne_true]

variable (nonempty : upload.size ≠ 0#32)

include nonempty

/-- A session that can be opened sends the data at once or in windows. -/
theorem networkSendData_cases (sends : upload.networkSendData true isW5500 events = some sent) :
    (¬upload.Windowed isW5500 ∧ upload.networkSendDataOnce (events.headD []) = some sent) ∨
      (upload.Windowed isW5500 ∧ upload.sendWindows 0 events = some sent) := by
  rw [networkSendData.eq_def, if_neg nonempty, if_neg (not_not.mpr rfl)] at sends
  split_ifs at sends with once
  · refine .inl ⟨fun windowed => ?_, ?_⟩
    · obtain plain | short := once
      · exact plain windowed.1
      · exact absurd windowed.2 (Nat.not_lt.mpr short)
    · cases events with
      | nil => nomatch sends
      | cons events rest => exact sends
  · obtain ⟨w5500, long⟩ := not_or.mp once
    exact .inr ⟨⟨not_not.mp w5500, Nat.not_le.mp long⟩, sends⟩

/-- Without an answer to the first `LBIN` the data stays away; with one its first byte is sent. -/
theorem networkSendData_answer (fits : upload.size.toNat + 1440 ≤ 2 ^ 32)
    (sends : upload.networkSendData true isW5500 events = some sent) :
    (upload.Unanswered isW5500 events ∧ sent.partbins = [] ∧ sent.code = -1) ∨
      (¬upload.Unanswered isW5500 events ∧ ∃ part ∈ sent.partbins, part.Has 0) := by
  have positive : upload.size.toNat ≠ 0 := fun zero => nonempty (BitVec.eq_of_toNat_eq zero)
  obtain ⟨plain, once⟩ | ⟨windowed, windows⟩ := networkSendData_cases nonempty sends
  · rw [Unanswered, if_neg plain]
    refine (once_cases nonempty once fits).imp_right ?_
    exact fun answered => ⟨answered.1, answered.2 0 le_rfl (by omega)⟩
  · rw [Unanswered, if_pos windowed]
    have inside : ¬upload.size.toNat ≤ 0 := by omega
    have size := upload.window_size 0
    have small : upload.chunkAt 0 ≤ 32 * 1024 := Nat.min_le_right _ _
    cases events with
    | nil =>
      rw [sendWindows, if_neg inside] at windows
      nomatch windows
    | cons events rest =>
      rw [List.headD_cons]
      obtain ⟨first, went, outcome⟩ := sendWindows_cons inside windows
      obtain ⟨never, nothing, failed⟩ | ⟨answered, covers⟩ := once_cases (window_nonempty inside) went (by omega)
      · refine .inl ⟨never, ?_⟩
        obtain ⟨-, rfl⟩ | ⟨ended, -⟩ := outcome
        · rw [nothing]
          exact ⟨rfl, rfl⟩
        · rw [failed] at ended
          exact absurd ended (by decide)
      · refine .inr ⟨answered, ?_⟩
        have chunk : 0 < upload.chunkAt 0 := lt_min (by omega) (by decide)
        obtain ⟨part, member, low, high⟩ := covers 0 le_rfl (by omega)
        have whole : (part.inWhole 0).Has 0 := by
          rw [MissPartbin.inWhole, MissPartbin.Has]
          dsimp only
          omega
        obtain ⟨-, rfl⟩ | ⟨-, others, -, rfl⟩ := outcome
        · exact ⟨_, List.mem_map_of_mem member, whole⟩
        · exact ⟨_, List.mem_append_left _ (List.mem_map_of_mem member), whole⟩

/-- An upload that returns 0 has sent every byte. -/
theorem networkSendData_covers (fits : upload.size.toNat + 1440 ≤ 2 ^ 32)
    (sends : upload.networkSendData true isW5500 events = some sent) (code : sent.code = 0) : upload.Covers 0 sent.partbins := by
  obtain ⟨-, once⟩ | ⟨-, windows⟩ := networkSendData_cases nonempty sends
  · obtain ⟨-, -, failed⟩ | ⟨-, covers⟩ := once_cases nonempty once fits
    · rw [failed] at code
      exact absurd code (by decide)
    · exact covers
  · exact windows_cover windows code

/-- An upload returns 0 with the right `PBIN`s exactly if it is served. -/
theorem networkSendData_served (small : upload.size.toNat + 2033 < 2 ^ 32)
    (sends : upload.networkSendData true isW5500 events = some sent) :
    (sent.code = 0 ∧ ∀ part ∈ sent.partbins, part.Exact upload.destAddr upload.size.toNat) ↔ upload.AllServed isW5500 events := by
  obtain ⟨plain, once⟩ | ⟨windowed, windows⟩ := networkSendData_cases nonempty sends
  · rw [AllServed, if_neg plain]
    have served := once_served nonempty once 0 upload.size.toNat upload.destAddr (by omega) small
      (BitVec.add_zero _).symm
    have same : ∀ part : MissPartbin, part.inWhole 0 = part := fun part => by rw [MissPartbin.inWhole, Nat.zero_add]
    simp only [same] at served
    exact served
  · rw [AllServed, if_pos windowed]
    exact windows_served small windows

/-- Where another data has the bytes of the `PBIN`s, the upload is the same. -/
theorem networkSendData_congr (sends : upload.networkSendData true isW5500 events = some sent) (other : Buffer)
    (agree : ∀ part ∈ sent.partbins, ∀ k, part.Has k → upload.data k = other k) :
    networkSendData { upload with data := other } true isW5500 events = some sent := by
  rw [networkSendData.eq_def, if_neg (by exact nonempty), if_neg (not_not.mpr rfl)] at sends ⊢
  dsimp only
  split_ifs at sends ⊢ with once
  · cases events with
    | nil => nomatch sends
    | cons events rest => exact once_congr nonempty sends other agree
  · exact windows_congr sends agree

end Whole

end Upload

/-- A request that `net_syscall_read` does not serve. -/
def ReadRefused (world : ReadWorld) (count : Word) : Prop :=
  count.toNat = 0 ∨ Serial.maxSyscallSize < count.toNat ∨ world.allocates = false

/-- Whatever the memory of the handler holds, it makes one upload and reports one result; the upload has bytes of the file only, at
their places; and a positive result is that of an upload which has them all and went through. -/
def ReadDelivers (world : ReadWorld) (pkt : Buffer) : Prop :=
  ∃ made ret, (∀ heap, netSyscallRead world pkt heap = some (made, ret)) ∧ ∀ sent : Sent, made = some sent →
    (∀ part ∈ sent.partbins, part.Exact (commandSize pkt 0) (world.bytes (readBe32 pkt netCommandLen)).length) ∧
      (0 < ret → sent.code = 0 ∧
        ∀ k < (world.bytes (readBe32 pkt netCommandLen)).length, ∃ part ∈ sent.partbins, part.Has k)

section Read

variable {world : ReadWorld} {pkt heap : Buffer}

theorem netSyscallRead_refused (refused : ReadRefused world (readBe32 pkt netCommandLen)) (heap : Buffer) :
    netSyscallRead world pkt heap = some (none, -1) := by
  rw [netSyscallRead]
  by_cases large : (readBe32 pkt netCommandLen).toNat = 0 ∨ Serial.maxSyscallSize < (readBe32 pkt netCommandLen).toNat
  · rw [if_pos large]
  · obtain empty | long | without := refused
    · exact absurd (.inl empty) large
    · exact absurd (.inr long) large
    · rw [if_neg large, without, if_pos Bool.false_ne_true]

theorem netSyscallRead_served (served : ¬ReadRefused world (readBe32 pkt netCommandLen)) (heap : Buffer) :
    netSyscallRead world pkt heap =
      ((world.upload (commandSize pkt 0) (readBe32 pkt netCommandLen) heap).networkSendData world.prepared world.isW5500
        world.events).map fun sent => (some sent, world.ret (readBe32 pkt netCommandLen)) := by
  obtain ⟨positive, rest⟩ := not_or.mp served
  obtain ⟨short, allocates⟩ := not_or.mp rest
  rw [netSyscallRead, if_neg (not_or.mpr ⟨positive, short⟩), if_neg (not_not.mpr (Bool.eq_true_of_not_eq_false allocates))]

/-- A positive result is the number of bytes there are. -/
theorem ret_pos_iff (world : ReadWorld) (count : Word) : 0 < world.ret count ↔ 0 < (world.bytes count).length := by
  rw [ReadWorld.ret, ReadWorld.bytes]
  cases world.found with
  | none =>
    rw [Option.getD_none, List.take_nil]
    exact iff_of_false (by decide : ¬(0 : ℤ) < -1) (Nat.lt_irrefl 0)
  | some found => exact Int.natCast_pos

/-- The memory of the handler does not matter where the upload has bytes of the file only. -/
theorem upload_congr {addr count : Word} {sent : Sent} (nonempty : count ≠ 0#32)
    (sends : (world.upload addr count heap).networkSendData true world.isW5500 world.events = some sent)
    (exact_ : ∀ part ∈ sent.partbins, part.Exact addr (world.bytes count).length) (other : Buffer) :
    (world.upload addr count other).networkSendData true world.isW5500 world.events = some sent := by
  refine Upload.networkSendData_congr nonempty sends (overlay (world.bytes count) other) fun part member k has => ?_
  have inside : k < (world.bytes count).length := has.2.trans_le (exact_ part member).2.1
  exact (overlay_of_lt inside heap).trans (overlay_of_lt inside other).symm

/-- The console takes a short upload and misses nothing. -/
def shortUpload (address size : Word) : List SendEvent :=
  [.receive (netCommand netCmdLoadbin address size []), .streamNext, .streamNext, .receive (netCommand netCmdDonebin 0 0 [])]

end Read

end KosTool.Host
