import KosTool.Model.Host.NetConsole
import KosTool.Soundness.DownloadInvariant

/-! # What a `write` over the network reports

The bytes of a guest buffer come behind the request or are downloaded. The handler does not look at what the download returns:
it writes the buffer of an incomplete one out like a complete one.
-/

namespace KosTool.Host

open ByteWord Protocol Client Client.Loader

section Full

variable {count : ℕ} {outcomes : List WriteOutcome}

/-- The host's `write` fails before it has taken anything. -/
def FailsAtOnce (outcomes : List WriteOutcome) : Prop :=
  (outcomes.dropWhile fun outcome => outcome = .interrupted).head? = some .failed

theorem writeFull_cons (outcome : WriteOutcome) (rest : List WriteOutcome) (off : ℕ) :
    writeFull count (outcome :: rest) off =
      if count ≤ off then some ((off : ℤ), off)
      else match outcome with
        | .failed => some (-1, off)
        | .interrupted => writeFull count rest off
        | .wrote n =>
          if min n (count - off) = 0 then some ((off : ℤ), off)
          else writeFull count rest (off + min n (count - off)) := by
  cases outcome <;> rfl

/-- What has been written is a front of the data, and the result is its length or −1. -/
theorem writeFull_front {off stop : ℕ} {ret : ℤ} (inside : off ≤ count)
    (written : writeFull count outcomes off = some (ret, stop)) : off ≤ stop ∧ stop ≤ count ∧ (ret = stop ∨ ret = -1) := by
  induction outcomes generalizing off with
  | nil =>
    rw [writeFull] at written
    split_ifs at written
    cases written
    exact ⟨le_rfl, inside, .inl rfl⟩
  | cons outcome rest ih =>
    rw [writeFull_cons] at written
    split_ifs at written with all
    · cases written
      exact ⟨le_rfl, inside, .inl rfl⟩
    · cases outcome with
      | failed =>
        cases written
        exact ⟨le_rfl, inside, .inr rfl⟩
      | interrupted => exact ih inside written
      | wrote n =>
        dsimp only at written
        split_ifs at written with nothing
        · cases written
          exact ⟨le_rfl, inside, .inl rfl⟩
        · obtain ⟨later, bound, result⟩ := ih (by omega) written
          exact ⟨by omega, bound, result⟩

/-- Nothing is written and −1 returned exactly if the first outcome that counts is a failure. -/
theorem writeFull_fails_iff {off stop : ℕ} {ret : ℤ} (inside : off < count)
    (written : writeFull count outcomes off = some (ret, stop)) : ret = -1 ∧ stop = off ↔ FailsAtOnce outcomes := by
  induction outcomes with
  | nil =>
    rw [writeFull, if_neg (by omega)] at written
    nomatch written
  | cons outcome rest ih =>
    rw [writeFull_cons, if_neg (by omega)] at written
    cases outcome with
    | failed =>
      cases written
      exact iff_of_true ⟨rfl, rfl⟩ rfl
    | interrupted => exact ih written
    | wrote n =>
      have other : ¬FailsAtOnce (.wrote n :: rest) := fun fails => WriteOutcome.noConfusion (Option.some.inj fails)
      refine iff_of_false ?_ other
      dsimp only at written
      rintro ⟨failed, stays⟩
      split_ifs at written with nothing
      · cases written
        omega
      · have later := (writeFull_front (by omega) written).1
        omega

end Full

section Request

variable (buffer : Buffer) (loader : Loader) (fd buf count : Word)

/-- A request is dispatched as its sender made it, without the trailer. -/
theorem dispatched_append {request : List Byte} (seq : Word) (short : request.length < receiveBufferLen) :
    (dispatched (storeAt buffer 0 (request ++ seqTrailer seq)) (request ++ seqTrailer seq).length).2 = request.length ∧
      ∀ i < request.length, (dispatched (storeAt buffer 0 (request ++ seqTrailer seq)) (request ++ seqTrailer seq).length).1 i =
        storeAt buffer 0 request i := by
  have length : (request ++ seqTrailer seq).length = request.length + netSeqTrailerLen := by
    rw [List.length_append, length_seqTrailer]
  rw [dispatched, Dedup.extractSeq_append]
  simp only [Option.isSome_some, if_true, length, Nat.add_sub_cancel]
  refine ⟨trivial, fun i inside => ?_⟩
  rw [Function.update_of_ne (by omega)]
  have place := storeAt_add buffer 0 (request ++ seqTrailer seq) i
  have alone := storeAt_add buffer 0 request i
  rw [Nat.zero_add] at place alone
  rw [place, alone, overlay_append_left inside, overlay_of_lt inside]

theorem length_inlineWrite : (loader.inlineWrite buf count).length ≤ netWriteInlineMax := by
  rw [inlineWrite]
  split_ifs with inlined
  · rw [Memory.length_copyOut]
    exact inlined.2.2.1
  · exact Nat.zero_le _

theorem length_writeRequest : (loader.writeRequest fd buf count).length =
    netCommand3intLen + (loader.inlineWrite buf count).length := by
  rw [writeRequest, length_netCommand, List.length_append, length_be32, ← Nat.add_assoc]
  rfl

/-- The request as the handler sees it. -/
structure Delivered (pkt : Buffer) (pktLen : ℕ) : Prop where
  fd_eq : commandAddress pkt 0 = fd
  buf_eq : commandSize pkt 0 = buf
  count_eq : readBe32 pkt netCommandLen = count
  inline : slice pkt netCommand3intLen (loader.inlineWrite buf count).length = loader.inlineWrite buf count
  length : pktLen = netCommand3intLen + (loader.inlineWrite buf count).length

/-- What the host dispatches is what `write` has asked for. -/
theorem delivered_writeRequest (seq : Word) : Delivered loader fd buf count
    (dispatched (storeAt buffer 0 (loader.writeRequest fd buf count ++ seqTrailer seq))
      (loader.writeRequest fd buf count ++ seqTrailer seq).length).1
    (dispatched (storeAt buffer 0 (loader.writeRequest fd buf count ++ seqTrailer seq))
      (loader.writeRequest fd buf count ++ seqTrailer seq).length).2 := by
  have length := length_writeRequest loader fd buf count
  have short := length_inlineWrite loader buf count
  obtain ⟨stripped, same⟩ := dispatched_append buffer seq (by
    rw [length]
    simp only [netCommand3intLen, receiveBufferLen, netWriteInlineMax] at short ⊢
    omega : (loader.writeRequest fd buf count).length < receiveBufferLen)
  rw [length] at stripped same
  simp only [netCommand3intLen] at same
  have word {k : ℕ} (inside : k + 4 ≤ 16) := readBe32_congr fun i bound => same (k + i) (by omega)
  refine ⟨(word (by omega)).trans (commandAddress_storeAt ..), (word (by omega)).trans (commandSize_storeAt ..), ?_, ?_, stripped⟩
  · have read := readBe32_overlay (be32 (if dctoolMajor loader.toolVersion < 2#32 then netSyscallWriteOld
      else Client.Loader.netSyscallWrite) ++ be32 fd ++ be32 buf) (loader.inlineWrite buf count) count fun j => buffer (0 + j)
    have place := readBe32_storeAt buffer 0 (loader.writeRequest fd buf count) netCommandLen
    rw [Nat.zero_add] at place
    refine (word (by decide)).trans (place.trans ?_)
    rw [writeRequest, netCommand, ← List.append_assoc]
    exact read
  · apply List.ext_getElem
    · exact length_slice _ _ _
    · intro i left right
      have place := commandData_storeAt buffer 0 (if dctoolMajor loader.toolVersion < 2#32 then netSyscallWriteOld
        else Client.Loader.netSyscallWrite) fd buf (be32 count ++ loader.inlineWrite buf count)
        (by rw [List.length_append, length_be32]; omega : 4 + i < (be32 count ++ loader.inlineWrite buf count).length)
      rw [List.getElem_append_right (by rw [length_be32]; omega)] at place
      simp only [length_be32, Nat.add_sub_cancel_left, commandData, netCommandLen, Nat.zero_add] at place
      rw [getElem_slice, netCommand3intLen, same (16 + i) (by omega), ← place, writeRequest]
      congr 1
      omega

end Request

section Pull

open Download

variable {download : Download} {served : List Served} {receiver : Receiver} {payload : List Byte}

/-- A datagram of the console: an answer to the transfer, or none that is stored. -/
def Honest (download : Download) (served : List Served) (payload : List Byte) : Prop :=
  download.Answers served payload ∨
    ∀ buffer, commandId (storeAt buffer 0 (payload.take receiveBufferLen)) 0 ≠ netCmdSendbin

theorem Honest.faithful (honest : Honest download served payload) (receiver : Receiver) (buffer : Buffer)
    (received : receiver.buffer = storeAt buffer 0 (payload.take receiveBufferLen)) : download.Faithful served receiver := by
  rcases honest with answers | other
  · exact answers.faithful buffer received
  · intro id
    rw [received] at id
    exact absurd id (other buffer)

theorem marked_takeReply (marked : download.Marked served receiver) (honest : Honest download served payload) (c : ℕ) :
    download.Marked served (download.takeReply receiver c payload).1 := by
  have faithful := honest.faithful { receiver with buffer := storeAt receiver.buffer 0 (payload.take receiveBufferLen) }
    receiver.buffer rfl
  have received : download.Marked served { receiver with buffer := storeAt receiver.buffer 0 (payload.take receiveBufferLen) } := marked
  simp only [takeReply]
  split_ifs with empty sendbin inside donebin
  · exact marked
  · exact marked_copyPacket received faithful sendbin inside
  · exact received
  · exact received
  · exact received

theorem marked_takeStreamed (marked : download.Marked served receiver) (honest : Honest download served payload) :
    download.Marked served (download.takeStreamed receiver payload).1 := by
  have faithful := honest.faithful { receiver with buffer := storeAt (fun _ => 0) 0 (payload.take receiveBufferLen) }
    (fun _ => 0) rfl
  have received : download.Marked served { receiver with buffer := storeAt (fun _ => 0) 0 (payload.take receiveBufferLen) } := marked
  simp only [takeStreamed]
  split_ifs with empty sendbin inside donebin
  · exact received
  · exact marked_copyPacket received faithful sendbin inside
  · exact received
  · exact received
  · exact received

theorem marked_takeReplies {c : ℕ} {payloads : List (List Byte)} (marked : download.Marked served receiver)
    (honest : ∀ payload ∈ payloads, Honest download served payload) :
    download.Marked served (download.takeReplies receiver c payloads) := by
  induction payloads generalizing receiver with
  | nil => exact marked
  | cons payload rest ih =>
    have taken := marked_takeReply marked (honest payload List.mem_cons_self) c
    rw [takeReplies]
    split_ifs
    · exact taken
    · exact ih taken fun other member => honest other (List.mem_cons_of_mem _ member)

theorem marked_streamLoop {packets : ℕ} {payloads : List (List Byte)} (marked : download.Marked served receiver)
    (honest : ∀ payload ∈ payloads, Honest download served payload) :
    download.Marked served (download.streamLoop receiver packets payloads) := by
  induction payloads generalizing receiver packets with
  | nil => exact marked
  | cons payload rest ih =>
    have taken := marked_takeStreamed marked (honest payload List.mem_cons_self)
    rw [streamLoop]
    generalize (if (download.takeStreamed receiver payload).2 = true then packets + 1 else packets) = counted
    split_ifs
    · exact ih taken fun other member => honest other (List.mem_cons_of_mem _ member)
    · exact taken

theorem marked_rerequestLoop {maxRerequests turns passes stalled : ℕ} {replies : ℕ → List (List Byte)} {stopped : Stopped}
    (marked : download.Marked served receiver) (honest : ∀ n, ∀ payload ∈ replies n, Honest download served payload)
    (result : download.rerequestLoop maxRerequests replies turns receiver passes stalled = some stopped) :
    download.Marked served stopped.receiver := by
  induction turns generalizing receiver passes stalled with
  | zero => nomatch result
  | succ turns ih =>
    have taken := marked_takeReplies marked (honest passes) (c := mapScan receiver.map 0 download.numChunks.toNat)
    rw [rerequestLoop] at result
    dsimp only at result
    generalize (if (download.takeReplies receiver (mapScan receiver.map 0 download.numChunks.toNat) (replies passes)).map
      (mapScan receiver.map 0 download.numChunks.toNat) = true then 0 else stalled + 1) = counted at result
    split_ifs at result
    · cases result
      exact marked
    · cases result
      exact taken
    · exact ih taken result

/-- A download of honest datagrams that has every chunk has the bytes of the console's memory. -/
theorem pulled_eq {addr size : Word} {memory : Memory} (counts : size.toNat + download.chunk ≤ 2 ^ 32)
    (range : download.srcAddr = addr ∧ download.size = size) (marked : download.Marked [⟨addr, size, memory⟩] receiver)
    (all : ∀ k < download.numChunks.toNat, receiver.map k = true) :
    slice receiver.data 0 size.toNat = memory.copyOut addr size.toNat := by
  obtain ⟨start, whole⟩ := range
  have positive := download.chunk_pos
  apply List.ext_getElem
  · rw [length_slice, Memory.length_copyOut]
  · intro i left right
    rw [length_slice] at left
    rw [getElem_slice, Memory.getElem_copyOut, Nat.zero_add]
    have below : i / download.chunk < download.chunks :=
      (lt_chunksOf_iff _ _ _).mpr (by
        rw [whole]
        exact lt_of_le_of_lt (Nat.div_mul_le_self i download.chunk) left)
    have bit := all (i / download.chunk) (by rwa [toNat_numChunks (by rw [whole]; exact counts)])
    obtain ⟨record, member, -, same⟩ := marked _ below bit i (by rw [whole]; exact left) (Nat.div_mul_le_self i download.chunk)
      (by rw [Nat.mul_comm]; exact Nat.lt_mul_div_succ i positive)
    cases List.mem_singleton.mp member
    rw [← same, start]

end Pull

section Report

variable {world : WriteWorld} {loader : Loader} {fd buf count : Word}

/-- The console sends what answers the download of its buffer. -/
def WriteWorld.Honest (world : WriteWorld) (memory : Memory) (buf count : Word) : Prop :=
  (∀ payload ∈ world.stream, Host.Honest (world.download buf count) [⟨buf, count, memory⟩] payload) ∧
    ∀ n, ∀ payload ∈ world.replies n, Host.Honest (world.download buf count) [⟨buf, count, memory⟩] payload

/-- The bytes came behind the request, or every chunk of the download arrived. -/
def WriteWorld.Fetched (world : WriteWorld) (loader : Loader) (buf count : Word) : Prop :=
  loader.inlineWrite buf count ≠ [] ∨ ∃ heap receiver, world.heap = some heap ∧ world.pulled buf count heap = some receiver ∧
    ∀ k < (world.download buf count).numChunks.toNat, receiver.map k = true

/-- The handler refuses the count, or has no memory for it. -/
def WriteWorld.Refuses (world : WriteWorld) (count : Word) : Prop :=
  (count.toNat = 0 ∨ Serial.maxSyscallSize < count.toNat) ∨ world.heap = none

/-- The host's answer to a `write` of the console. -/
def servedWrite (world : WriteWorld) (loader : Loader) (buffer : Buffer) (fd buf count : Word) : Option (ℤ × List Byte) :=
  let payload := loader.writeRequest fd buf count ++ seqTrailer loader.kosSyscallNextSeq
  let request := dispatched (storeAt buffer 0 payload) payload.length
  netSyscallWrite world request.1 request.2

/-- What a result says is what has been written of the buffer, and a buffer that was not fetched leaves the file as it is. -/
structure Reports (fetched : Prop) (guest : List Byte) (ret : ℤ) (written : List Byte) : Prop where
  front : 0 ≤ ret → ret.toNat ≤ guest.length ∧ written = guest.take ret.toNat
  unfetched : ¬fetched → ret = -1 ∧ written = []

theorem reports_refused (fetched : Prop) (guest : List Byte) : Reports fetched guest (-1) [] :=
  ⟨fun nonneg => absurd nonneg (by decide), fun _ => ⟨rfl, rfl⟩⟩

/-- The buffer itself has been written out. -/
theorem reports_of_fetched {fetched : Prop} (is : fetched) {guest : List Byte} {outcomes : List WriteOutcome} {ret : ℤ} {stop : ℕ}
    (written : writeFull guest.length outcomes 0 = some (ret, stop)) : Reports fetched guest ret (guest.take stop) := by
  obtain ⟨-, inside, result⟩ := writeFull_front (Nat.zero_le _) written
  refine ⟨fun nonneg => ?_, fun not => absurd is not⟩
  rcases result with rfl | rfl
  · exact ⟨inside, rfl⟩
  · exact absurd nonneg (by decide)

/-- Something else has been written out. -/
theorem reports_unfetched_iff {fetched : Prop} (not : ¬fetched) {guest data : List Byte} {outcomes : List WriteOutcome} {ret : ℤ}
    {stop : ℕ} (positive : 0 < data.length) (written : writeFull data.length outcomes 0 = some (ret, stop)) :
    Reports fetched guest ret (data.take stop) ↔ FailsAtOnce outcomes := by
  rw [← writeFull_fails_iff positive written]
  have inside := (writeFull_front (Nat.zero_le _) written).2.1
  constructor
  · rintro ⟨-, unfetched⟩
    obtain ⟨failed, nothing⟩ := unfetched not
    have length := congrArg List.length nothing
    rw [List.length_take, List.length_nil] at length
    exact ⟨failed, by omega⟩
  · rintro ⟨rfl, rfl⟩
    exact reports_refused fetched guest

theorem inlineWrite_cases (loader : Loader) (buf count : Word) : loader.inlineWrite buf count = [] ∨
    loader.inlineWrite buf count = loader.memory.copyOut buf count.toNat ∧ count.toNat ≤ netPayloadSize - netCommand3intLen := by
  rw [inlineWrite]
  split_ifs with inlined
  · exact .inr ⟨rfl, inlined.2.2.2⟩
  · exact .inl rfl

/-- The handler on a request that `write` has made: what the file gets is a front of the data it has. -/
theorem servedWrite_cases (buffer : Buffer) (file : fd ≠ 1#32 ∧ fd ≠ 2#32) {ret : ℤ} {written : List Byte}
    (served : servedWrite world loader buffer fd buf count = some (ret, written)) :
    (world.Refuses count ∧ ret = -1 ∧ written = []) ∨
      (¬world.Refuses count ∧ ∃ data stop, data.length = count.toNat ∧ written = data.take stop ∧
        writeFull count.toNat world.outcomes 0 = some (ret, stop) ∧
        ((loader.inlineWrite buf count ≠ [] ∧ data = loader.memory.copyOut buf count.toNat) ∨
          loader.inlineWrite buf count = [] ∧ ∃ heap receiver, world.heap = some heap ∧
            world.pulled buf count heap = some receiver ∧ data = slice receiver.data 0 count.toNat)) := by
  obtain ⟨fdEq, bufEq, countEq, inline, length⟩ := delivered_writeRequest buffer loader fd buf count loader.kosSyscallNextSeq
  rw [servedWrite] at served
  generalize dispatched (storeAt buffer 0 (loader.writeRequest fd buf count ++ seqTrailer loader.kosSyscallNextSeq))
    (loader.writeRequest fd buf count ++ seqTrailer loader.kosSyscallNextSeq).length = request at *
  rw [netSyscallWrite, fdEq, bufEq, countEq, length] at served
  by_cases bad : count.toNat = 0 ∨ Serial.maxSyscallSize < count.toNat
  · rw [if_pos bad] at served
    cases served
    exact .inl ⟨.inl bad, rfl, rfl⟩
  rw [if_neg bad] at served
  cases heap : world.heap with
  | none =>
    rw [heap] at served
    cases served
    exact .inl ⟨.inr heap, rfl, rfl⟩
  | some memory =>
    have accepted : ¬world.Refuses count := by
      rintro (refused | none)
      · exact bad refused
      · rw [heap] at none
        nomatch none
    rw [heap] at served
    obtain ⟨data, got, rest⟩ := Option.bind_eq_some_iff.mp served
    rw [if_neg (not_or.mpr file)] at rest
    obtain ⟨⟨ret', stop⟩, full, same⟩ := Option.map_eq_some_iff.mp rest
    cases same
    have positive : 0 < count.toNat := by omega
    rw [WriteWorld.fetched] at got
    rcases inlineWrite_cases loader buf count with outside | ⟨inlined, small⟩
    · have apart : ¬HaveInline (netCommand3intLen + (loader.inlineWrite buf count).length) count := by
        rintro ⟨inside, -⟩
        rw [outside, List.length_nil] at inside
        omega
      rw [if_neg apart] at got
      obtain ⟨receiver, pulled, rfl⟩ := Option.map_eq_some_iff.mp got
      exact .inr ⟨accepted, _, stop, length_slice _ _ _, rfl, full, .inr ⟨outside, memory, receiver, rfl, pulled, rfl⟩⟩
    · have whole : (loader.inlineWrite buf count).length = count.toNat := by rw [inlined, Memory.length_copyOut]
      rw [whole] at inline got
      rw [if_pos ⟨le_rfl, small⟩] at got
      cases got
      refine .inr ⟨accepted, _, stop, length_slice _ _ _, rfl, full, .inl ⟨fun none => ?_, inline.trans inlined⟩⟩
      rw [none, List.length_nil] at whole
      omega

/-- What a complete download leaves in the memory of the handler. -/
theorem pulled_fetched {heap : Buffer} {receiver : Receiver} (honest : world.Honest loader.memory buf count)
    (accepted : ¬world.Refuses count) (pulled : world.pulled buf count heap = some receiver)
    (all : ∀ k < (world.download buf count).numChunks.toNat, receiver.map k = true) :
    slice receiver.data 0 count.toNat = loader.memory.copyOut buf count.toNat := by
  have full := (world.download buf count).chunk_le
  have counts : count.toNat + (world.download buf count).chunk ≤ 2 ^ 32 := by
    have small := mt Or.inr (mt Or.inl accepted)
    simp only [Serial.maxSyscallSize] at small
    omega
  refine pulled_eq counts ⟨rfl, rfl⟩ ?_ all
  have nothing (receiver : Receiver) (clear : ∀ k, receiver.map k = false) :
      (world.download buf count).Marked [⟨buf, count, loader.memory⟩] receiver := by
    intro k _ bit
    rw [clear k] at bit
    nomatch bit
  rw [WriteWorld.pulled] at pulled
  split_ifs at pulled
  · obtain ⟨stopped, result, rfl⟩ := Option.map_eq_some_iff.mp pulled
    exact marked_rerequestLoop (marked_streamLoop (nothing _ fun _ => rfl) honest.1) honest.2 result
  · cases pulled
    exact nothing _ fun _ => rfl

/-- What a `write` to a host file reports is what has been written of the guest's buffer, and an incomplete buffer leaves the file
as it is, exactly if the buffer was fetched or nothing of it can be written. -/
theorem write_reports_iff {world : WriteWorld} {loader : Loader} {fd buf count : Word} (buffer : Buffer)
    (file : fd ≠ 1#32 ∧ fd ≠ 2#32) (honest : world.Honest loader.memory buf count) {ret : ℤ} {written : List Byte}
    (served : servedWrite world loader buffer fd buf count = some (ret, written)) :
    Reports (world.Fetched loader buf count) (loader.memory.copyOut buf count.toNat) ret written ↔
      world.Fetched loader buf count ∨ world.Refuses count ∨ FailsAtOnce world.outcomes := by
  rcases servedWrite_cases buffer file served with ⟨refused, rfl, rfl⟩ | ⟨accepted, data, stop, length, rfl, full, source⟩
  · exact iff_of_true (reports_refused _ _) (.inr (.inl refused))
  · have guest : (loader.memory.copyOut buf count.toNat).length = count.toNat := Memory.length_copyOut _ _ _
    have positive : 0 < data.length := by
      have nonzero := mt Or.inl (mt Or.inl accepted)
      omega
    by_cases fetched : world.Fetched loader buf count
    · refine iff_of_true ?_ (.inl fetched)
      have same : data = loader.memory.copyOut buf count.toNat := by
        rcases source with ⟨-, inlined⟩ | ⟨outside, heap, receiver, there, pulled, rfl⟩
        · exact inlined
        · obtain ⟨heap', receiver', there', pulled', all⟩ := fetched.resolve_left fun inside => inside outside
          rw [there] at there'
          cases there'
          rw [pulled] at pulled'
          cases pulled'
          exact pulled_fetched honest accepted pulled all
      rw [← guest] at full
      rw [same]
      exact reports_of_fetched fetched full
    · rw [← length] at full
      rw [reports_unfetched_iff fetched positive full]
      refine ⟨fun fails => .inr (.inr fails), ?_⟩
      rintro (is | refused | fails)
      · exact absurd is fetched
      · exact absurd refused accepted
      · exact fails

end Report

section Runs

/-- A host whose console does not answer, with sevens in its memory. -/
def silentWorld : WriteWorld where
  legacyMode := false
  isWiiLoader := false
  maxRerequests := 1
  heap := some fun _ => 7
  opened := true
  stream := []
  replies _ := []
  outcomes := [.wrote 600]
  consoleWrite _ := 0

/-- A console of version 3 with zeros in its memory. -/
def zeroLoader : Loader := { Loader.start (fun _ => 0) fun _ => 0 with toolVersion := 0x00030000 }

theorem servedWrite_silent (count : Word) (outcome : ℤ × Option Byte)
    (evaluated : (servedWrite silentWorld zeroLoader (fun _ => 0) 3 0x8c020000 count).map
      (fun answer => (answer.1, answer.2.head?)) = some outcome) :
    ∃ written, servedWrite silentWorld zeroLoader (fun _ => 0) 3 0x8c020000 count = some (outcome.1, written) ∧
      written.head? = outcome.2 := by
  obtain ⟨⟨ret, written⟩, served, same⟩ := Option.map_eq_some_iff.mp evaluated
  cases same
  exact ⟨written, served, rfl⟩

theorem write_reports_inline : ∃ ret written,
    servedWrite silentWorld zeroLoader (fun _ => 0) 3 0x8c020000 4 = some (ret, written) ∧
    (Reports (silentWorld.Fetched zeroLoader 0x8c020000 4) (zeroLoader.memory.copyOut 0x8c020000 4) ret written ↔
      silentWorld.Fetched zeroLoader 0x8c020000 4 ∨ silentWorld.Refuses 4 ∨ FailsAtOnce silentWorld.outcomes) := by
  obtain ⟨written, served, -⟩ := servedWrite_silent 4 (4, some 0) rfl
  have honest : silentWorld.Honest zeroLoader.memory 0x8c020000 4 :=
    ⟨fun payload member => (nomatch member), fun n payload member => (nomatch member)⟩
  exact ⟨4, written, served, write_reports_iff (fun _ => 0) (by decide) honest served⟩

set_option maxRecDepth 4000 in
/-- Of a buffer that the console does not send the host writes what was in its own memory, and reports it as written. -/
theorem write_of_silent_console : ∃ ret written,
    servedWrite silentWorld zeroLoader (fun _ => 0) 3 0x8c020000 600 = some (ret, written) ∧
    ¬Reports (silentWorld.Fetched zeroLoader 0x8c020000 600) (zeroLoader.memory.copyOut 0x8c020000 600) ret written := by
  obtain ⟨written, served, head⟩ := servedWrite_silent 600 (600, some 7) rfl
  refine ⟨600, written, served, fun reports => ?_⟩
  obtain ⟨-, same⟩ := reports.front (by decide)
  rw [same] at head
  exact absurd head (by decide)

end Runs

end KosTool.Host
