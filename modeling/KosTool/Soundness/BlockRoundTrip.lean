import KosTool.Model.SerialBlocks

/-! # When a data block transfer comes out right

No checksum is tested, and a compressed block that is refused is sent again without its header, which the receiver
reads first. So a transfer of accepted blocks comes out right exactly if the blocks, as the line hands them on, are
the bytes that were sent, one block after the other.
-/

namespace KosTool.Serial

open ByteWord Machine Machine.Duplex

section Exchanges

variable {Loop Done Head Result : Type} {leftBody : Loop × ℕ → Talk Byte (Loop × ℕ) Done}
  {rightBody : Head → Talk Byte Head Result} {carry : ℕ → List Byte → List Byte} {n : ℕ}

theorem reaches_leftWrites {right : Talk Byte Head Result} {toRight toLeft : List Byte} (symbols others : List Byte)
    (next : Talk Byte (Loop × ℕ) Done) :
    Reaches (Step leftBody rightBody) ⟨.write symbols (.write others next), right, toRight, toLeft⟩
      ⟨next, right, toRight ++ symbols ++ others, toLeft⟩ :=
  (reaches_leftWrite _ _).trans (reaches_leftWrite _ _)

/-- Type and size of a block on the way to a console, which echoes the size. -/
theorem reaches_echoedHeader (type : Byte) (size : Word) (next : Talk Byte Loop Done)
    (onward : Byte → Word → Talk Byte Head Result) :
    Reaches (Step leftBody rightBody)
      ⟨(Talk.write [type] (sendUint size next)).overLine carry n, .read fun type => clientGetUint (onward type), [], []⟩
      ⟨next.overLine carry n, onward type size, [], []⟩ := by
  refine (reaches_leftWrite _ _).trans ?_
  refine (reaches_rightRead _ _).trans ?_
  refine (reaches_leftWrite _ _).trans ?_
  refine (reaches_rightReadAll (uintBytes size) _).trans ?_
  rw [bytesUint_uintBytes, Talk.overLine_readMany]
  refine (reaches_rightWrite _ _).trans ?_
  exact reaches_leftReadAll (uintBytes size) _

/-- Type and size of a block on the way to a host. -/
theorem reaches_header (type : Byte) (size : Word) (next : Talk Byte Loop Done)
    (onward : Byte → Word → Talk Byte Head Result) :
    Reaches (Step leftBody rightBody)
      ⟨(Talk.write [type] (clientPutUint size next)).overLine carry n, .read fun type => recvUint (onward type), [], []⟩
      ⟨next.overLine carry n, onward type size, [], []⟩ := by
  refine (reaches_leftWrite _ _).trans ?_
  refine (reaches_rightRead _ _).trans ?_
  refine (reaches_leftWrite _ _).trans ?_
  refine (reaches_rightReadAll (uintBytes size) _).trans ?_
  rw [bytesUint_uintBytes]
  exact .refl _

/-- The data of a block and its checksum, up to the acknowledgement. -/
theorem reaches_blockData {data : List Byte} {count : ℕ} (whole : count = (carry n data).length)
    (next : Byte → Talk Byte Loop Done) (onward : List Byte → Talk Byte Head Result) :
    Reaches (Step leftBody rightBody)
      ⟨(sendBlockData data next).overLine carry n, recvBlockData count onward, [], []⟩
      ⟨.read fun ack => (next ack).overLine carry (n + 1), onward (carry n data), [], []⟩ := by
  subst whole
  refine (reaches_leftWrite _ _).trans ?_
  refine (reaches_rightReadAll (carry n data) _).trans ?_
  refine (reaches_leftWrite _ _).trans ?_
  exact reaches_rightRead _ _

/-- The acknowledgement of a block; the receiver goes on. -/
theorem reaches_acknowledged (ack : Byte) (next : Byte → Talk Byte (Loop × ℕ) Done) (head : Head) :
    Reaches (Step leftBody rightBody) ⟨.read next, .write [ack] (.again head), [], []⟩
      ⟨next ack, rightBody head, [], []⟩ := by
  refine (reaches_rightWrite _ _).trans ?_
  refine (reaches_leftRead _ _).trans ?_
  exact reaches_rightAgain head

end Exchanges

section Delivery

variable (lzo : Lzo) (line : BlockLine)

/-- What the receiver stores for a chunk whose block is the `n`th payload, unless it refuses it. -/
def delivered (n : ℕ) (chunk : List Byte) : Option (List Byte) :=
  if (lzo.compress chunk).length < chunk.length then lzo.decompress (line.carry n (lzo.compress chunk))
  else some (line.carry n chunk)

/-- The blocks from the `n`th payload on, for a rest that is sent in chunks of a size, are accepted and make up the
bytes that are owed; the receiver never has them all before the last block. -/
inductive Arrives (size : ℕ) : ℕ → List Byte → List Byte → Prop
  | done (n : ℕ) : Arrives size n [] []
  | next {n : ℕ} {rest block owed : List Byte} (more : rest ≠ [])
    (accepted : delivered lzo line n (rest.take size) = some block) (wanted : block ++ owed ≠ [])
    (onward : Arrives size (n + 1) (rest.drop size) owed) : Arrives size n rest (block ++ owed)

/-- No block of a rest that is sent in chunks of a size is refused. -/
def Accepted (size n : ℕ) (rest : List Byte) : Prop :=
  ∀ k, k * size < rest.length → delivered lzo line (n + k) ((rest.drop (k * size)).take size) ≠ none

/-- The line harms no block: what the receiver stores is the chunk. -/
def Harmless (size n : ℕ) (rest : List Byte) : Prop :=
  ∀ k, k * size < rest.length →
    delivered lzo line (n + k) ((rest.drop (k * size)).take size) = some ((rest.drop (k * size)).take size)

variable {lzo line} {size n : ℕ} {rest : List Byte}

theorem Accepted.head (accepted : Accepted lzo line size n rest) (more : rest ≠ []) :
    ∃ block, delivered lzo line n (rest.take size) = some block := by
  have first := accepted 0 (by rw [Nat.zero_mul]; exact List.length_pos_iff.mpr more)
  rw [Nat.zero_mul, List.drop_zero, Nat.add_zero] at first
  exact Option.ne_none_iff_exists'.mp first

theorem Accepted.tail (accepted : Accepted lzo line size n rest) : Accepted lzo line size (n + 1) (rest.drop size) := by
  intro k inside
  rw [List.length_drop] at inside
  have later := accepted (k + 1) (by rw [Nat.succ_mul]; omega)
  rwa [Nat.succ_mul, Nat.add_comm _ size, Nat.add_comm k 1, ← Nat.add_assoc, ← List.drop_drop] at later

theorem Harmless.head (harmless : Harmless lzo line size n rest) (more : rest ≠ []) :
    delivered lzo line n (rest.take size) = some (rest.take size) := by
  have first := harmless 0 (by rw [Nat.zero_mul]; exact List.length_pos_iff.mpr more)
  rwa [Nat.zero_mul, List.drop_zero, Nat.add_zero] at first

theorem Harmless.tail (harmless : Harmless lzo line size n rest) : Harmless lzo line size (n + 1) (rest.drop size) := by
  intro k inside
  rw [List.length_drop] at inside
  have later := harmless (k + 1) (by rw [Nat.succ_mul]; omega)
  rwa [Nat.succ_mul, Nat.add_comm _ size, Nat.add_comm k 1, ← Nat.add_assoc, ← List.drop_drop] at later

/-- Unharmed blocks arrive. -/
theorem Harmless.arrives (positive : 0 < size) (harmless : Harmless lzo line size n rest) :
    Arrives lzo line size n rest rest := by
  induction length : rest.length using Nat.strong_induction_on generalizing n rest with
  | _ count ih =>
    by_cases more : rest = []
    · subst more
      exact .done n
    · have pending := List.length_pos_iff.mpr more
      have shorter : (rest.drop size).length < count := by rw [List.length_drop]; omega
      have onward := ih _ shorter harmless.tail rfl
      have arrives := Arrives.next more (harmless.head more) (by rwa [List.take_append_drop]) onward
      rwa [List.take_append_drop] at arrives

/-- A rest of one chunk arrives exactly as it is delivered. -/
theorem Arrives.single {owed : List Byte} (arrives : Arrives lzo line size n rest owed) (short : rest.length ≤ size)
    (more : rest ≠ []) : delivered lzo line n rest = some owed := by
  cases arrives with
  | done => exact absurd rfl more
  | @next _ _ block owed _ accepted _ onward =>
    rw [List.take_of_length_le short] at accepted
    rw [List.drop_eq_nil_of_le short] at onward
    cases onward with
    | done => rwa [List.append_nil]
    | next more => exact absurd rfl more

theorem delivered_of_incompressible {chunk : List Byte} (long : ¬ (lzo.compress chunk).length < chunk.length) :
    delivered lzo line n chunk = some (line.carry n chunk) := if_neg long

theorem delivered_of_compressible {chunk : List Byte} (short : (lzo.compress chunk).length < chunk.length) :
    delivered lzo line n chunk = lzo.decompress (line.carry n (lzo.compress chunk)) := if_pos short

end Delivery

section HostToConsole

variable {lzo : Lzo} {line : BlockLine} {n : ℕ} {rest block got data : List Byte} {remaining : ℕ}

/-- How the console goes on behind type and size of a block. -/
def storeBlock (lzo : Lzo) (load : ClientLoad) (type : Byte) (size : Word) : Talk Byte ClientLoad (List Byte) :=
  if type = serialDataUncompressed then
    recvBlockData size.toNat fun data =>
      .write [serialDataGood] (.again
        { total := if load.total ≤ size then 0 else load.total - size
          data := load.data ++ data })
  else if type = serialDataCompressed then
    recvBlockData size.toNat fun tmp =>
      match lzo.decompress tmp with
      | some data =>
        .write [serialDataGood] (.again
          { total := if load.total.toNat ≤ data.length then 0 else load.total - BitVec.ofNat 32 data.length
            data := load.data ++ data })
      | none => .write [serialDataBad] (.again load)
  else .again load

theorem loadDataBlockGeneral_pending {load : ClientLoad} (pending : load.total ≠ 0) :
    loadDataBlockGeneral lzo load = .read fun type => clientGetUint (storeBlock lzo load type) := if_neg pending

theorem lzoSendData_compressed (more : rest ≠ [])
    (compressed : (lzo.compress (rest.take serialBufferSize)).length < (rest.take serialBufferSize).length) :
    lzoSendData lzo (.chunk rest) = .write [serialDataCompressed]
      (sendUint (BitVec.ofNat 32 (lzo.compress (rest.take serialBufferSize)).length)
        (.again (.attempt (rest.drop serialBufferSize) (lzo.compress (rest.take serialBufferSize))))) :=
  (if_neg more).trans (if_pos compressed)

theorem lzoSendData_uncompressed (more : rest ≠ [])
    (plain : ¬ (lzo.compress (rest.take serialBufferSize)).length < (rest.take serialBufferSize).length) :
    lzoSendData lzo (.chunk rest) = .write [serialDataUncompressed]
      (sendUint (BitVec.ofNat 32 (rest.take serialBufferSize).length)
        (sendBlockData (rest.take serialBufferSize) fun _ => .again (.chunk (rest.drop serialBufferSize)))) :=
  (if_neg more).trans (if_neg plain)

/-- The console's counter as a number that stops at zero. -/
def owing (remaining : ℕ) (got : List Byte) : ClientLoad := { total := BitVec.ofNat 32 remaining, data := got }

theorem owing_pending (small : remaining < 2 ^ 32) (pending : remaining ≠ 0) (got : List Byte) :
    (owing remaining got).total ≠ 0 := by
  intro zero
  have value := congrArg BitVec.toNat zero
  rw [owing, BitVec.toNat_ofNat, Nat.mod_eq_of_lt small] at value
  exact pending value

theorem total_less (small : remaining < 2 ^ 32) (count : ℕ) :
    (if (BitVec.ofNat 32 remaining).toNat ≤ count then 0 else BitVec.ofNat 32 remaining - BitVec.ofNat 32 count) =
      BitVec.ofNat 32 (remaining - count) := by
  rw [BitVec.toNat_ofNat, Nat.mod_eq_of_lt small]
  split_ifs with more
  · rw [Nat.sub_eq_zero_of_le more]
    rfl
  · rw [BitVec.ofNat_sub_ofNat_of_le remaining count (by omega) (by omega)]

theorem total_at_most (small : remaining < 2 ^ 32) {count : ℕ} (short : count < 2 ^ 32) :
    (if BitVec.ofNat 32 remaining ≤ BitVec.ofNat 32 count then 0
      else BitVec.ofNat 32 remaining - BitVec.ofNat 32 count) = BitVec.ofNat 32 (remaining - count) := by
  have less := total_less small count
  rw [← less]
  congr 1
  rw [BitVec.le_def, BitVec.toNat_ofNat count, Nat.mod_eq_of_lt short]

/-- An accepted block: both sides go on behind it, and the console has what was delivered. -/
theorem ToConsole.reaches_accepted (small : remaining < 2 ^ 32) (pending : remaining ≠ 0) (more : rest ≠ [])
    (accepted : delivered lzo line n (rest.take serialBufferSize) = some block) :
    Reaches (Step lzo line)
      ⟨hostSender lzo line (.chunk rest, n), loadDataBlockGeneral lzo (owing remaining got), [], []⟩
      ⟨hostSender lzo line (.chunk (rest.drop serialBufferSize), n + 1),
        loadDataBlockGeneral lzo (owing (remaining - block.length) (got ++ block)), [], []⟩ := by
  have chunked : (rest.take serialBufferSize).length < 2 ^ 31 := by
    rw [List.length_take, serialBufferSize]
    omega
  rw [loadDataBlockGeneral_pending (owing_pending small pending got)]
  by_cases compressed : (lzo.compress (rest.take serialBufferSize)).length < (rest.take serialBufferSize).length
  · rw [delivered_of_compressible compressed] at accepted
    rw [hostSender, lzoSendData_compressed more compressed]
    refine (reaches_echoedHeader _ _ _ _).trans ?_
    refine (reaches_leftAgain _).trans ?_
    refine (reaches_blockData ?_ _ _).trans ?_
    · rw [BitVec.toNat_ofNat, line.length_carry]
      exact Nat.mod_eq_of_lt (by omega)
    · simp only [accepted]
      refine (reaches_acknowledged serialDataGood _ _).trans ?_
      rw [if_pos rfl, owing, total_less small]
      exact reaches_leftAgain _
  · rw [delivered_of_incompressible compressed] at accepted
    cases accepted
    rw [hostSender, lzoSendData_uncompressed more compressed]
    refine (reaches_echoedHeader _ _ _ _).trans ?_
    refine (reaches_blockData ?_ _ _).trans ?_
    · rw [BitVec.toNat_ofNat, line.length_carry]
      exact Nat.mod_eq_of_lt (by omega)
    · refine (reaches_acknowledged serialDataGood _ _).trans ?_
      rw [owing, total_at_most small (by omega), line.length_carry]
      exact reaches_leftAgain _

/-- A refused block: the host sends the data again, and the console reads them as the header of a block. -/
theorem ToConsole.reaches_refused (small : remaining < 2 ^ 32) (pending : remaining ≠ 0) (more : rest ≠ [])
    (compressed : (lzo.compress (rest.take serialBufferSize)).length < (rest.take serialBufferSize).length)
    (refused : lzo.decompress (line.carry n (lzo.compress (rest.take serialBufferSize))) = none) :
    Reaches (Step lzo line)
      ⟨hostSender lzo line (.chunk rest, n), loadDataBlockGeneral lzo (owing remaining got), [], []⟩
      ⟨hostSender lzo line (.attempt (rest.drop serialBufferSize) (lzo.compress (rest.take serialBufferSize)), n + 1),
        loadDataBlockGeneral lzo (owing remaining got), [], []⟩ := by
  have chunked : (rest.take serialBufferSize).length < 2 ^ 31 := by
    rw [List.length_take, serialBufferSize]
    omega
  have header := @loadDataBlockGeneral_pending lzo _ (owing_pending small pending got)
  rw [hostSender, lzoSendData_compressed more compressed]
  nth_rewrite 1 [header]
  refine (reaches_echoedHeader _ _ _ _).trans ?_
  refine (reaches_leftAgain _).trans ?_
  refine (reaches_blockData ?_ _ _).trans ?_
  · rw [BitVec.toNat_ofNat, line.length_carry]
    exact Nat.mod_eq_of_lt (by omega)
  · simp only [refused]
    refine (reaches_acknowledged serialDataBad _ _).trans ?_
    exact reaches_leftAgain _

/-- Blocks that arrive leave both sides aligned. -/
theorem ToConsole.reaches_aligned {owed : List Byte} (arrives : Arrives lzo line serialBufferSize n rest owed)
    (small : owed.length < 2 ^ 32) (got : List Byte) :
    Reaches (Step lzo line)
      ⟨hostSender lzo line (.chunk rest, n), loadDataBlockGeneral lzo (owing owed.length got), [], []⟩
      (aligned (got ++ owed)) := by
  induction arrives generalizing got with
  | done n =>
    rw [List.append_nil]
    exact .refl _
  | @next n rest block owed more accepted wanted onward ih =>
    have pending : (block ++ owed).length ≠ 0 := fun none => wanted (List.length_eq_zero_iff.mp none)
    refine (reaches_accepted small pending more accepted).trans ?_
    rw [List.length_append] at small
    rw [List.length_append, Nat.add_sub_cancel_left, ← List.append_assoc]
    exact ih (by omega) (got ++ block)

/-- A console that has all it asked for leaves the host waiting for the echo of the next size. -/
theorem ToConsole.reaches_unanswered (more : rest ≠ []) (got : List Byte) :
    ∃ next toRight, Reaches (Step lzo line) ⟨hostSender lzo line (.chunk rest, n), .done got, [], []⟩
      ⟨.read next, .done got, toRight, []⟩ := by
  by_cases compressed : (lzo.compress (rest.take serialBufferSize)).length < (rest.take serialBufferSize).length
  · rw [hostSender, lzoSendData_compressed more compressed]
    exact ⟨_, _, reaches_leftWrites _ _ _⟩
  · rw [hostSender, lzoSendData_uncompressed more compressed]
    exact ⟨_, _, reaches_leftWrites _ _ _⟩

/-- A transfer of accepted blocks that ends aligned is one whose blocks arrive. -/
theorem ToConsole.arrives_of_settles (small : remaining < 2 ^ 32) (accepted : Accepted lzo line serialBufferSize n rest)
    (settles : Settles (Step lzo line)
      ⟨hostSender lzo line (.chunk rest, n), loadDataBlockGeneral lzo (owing remaining got), [], []⟩ (aligned data)) :
    ∃ owed, data = got ++ owed ∧ (remaining ≠ 0 → owed ≠ []) ∧ Arrives lzo line serialBufferSize n rest owed := by
  induction length : rest.length using Nat.strong_induction_on generalizing n rest remaining got with
  | _ count ih =>
    by_cases more : rest = []
    · subst more
      by_cases pending : remaining = 0
      · subst pending
        have ended := settles.eq_of_terminal (.refl _) (terminal_done () got [] [])
        cases ended
        exact ⟨[], (List.append_nil _).symm, fun owes => absurd rfl owes, .done n⟩
      · rw [loadDataBlockGeneral_pending (owing_pending small pending got)] at settles
        have ended := settles.eq_of_terminal (.refl _) (terminal_rightWaiting () _ [])
        cases ended
    · by_cases pending : remaining = 0
      · subst pending
        obtain ⟨next, toRight, stuck⟩ := @reaches_unanswered lzo line n _ more got
        have ended := settles.eq_of_terminal stuck (terminal_leftWaiting next got toRight)
        cases ended
      · obtain ⟨block, stored⟩ := accepted.head more
        have later := settles.onward (reaches_accepted small pending more stored)
        have shorter : (rest.drop serialBufferSize).length < count := by
          have some_left := List.length_pos_iff.mpr more
          rw [List.length_drop, serialBufferSize]
          omega
        obtain ⟨owed, rfl, owes, arrives⟩ := ih _ shorter (by omega) accepted.tail later rfl
        have wanted : block ++ owed ≠ [] := by
          rintro nothing
          obtain ⟨rfl, rfl⟩ := List.append_eq_nil_iff.mp nothing
          exact owes (by simpa using pending) rfl
        exact ⟨block ++ owed, List.append_assoc _ _ _, fun _ => wanted, .next more stored wanted arrives⟩

/-- A transfer to a console comes out right if its blocks arrive. -/
theorem ToConsole.roundTrip_of_arrives (small : data.length < 2 ^ 32)
    (arrives : Arrives lzo line serialBufferSize 0 data data) : RoundTrip lzo line data :=
  settles_of_reaches diamond (terminal_done () data [] []) (reaches_aligned arrives small [])

/-- A transfer of accepted blocks to a console comes out right only if they arrive. -/
theorem ToConsole.arrives_of_roundTrip (small : data.length < 2 ^ 32)
    (accepted : Accepted lzo line serialBufferSize 0 data) (settles : RoundTrip lzo line data) :
    Arrives lzo line serialBufferSize 0 data data := by
  obtain ⟨owed, rfl, -, arrives⟩ := arrives_of_settles small accepted settles
  exact arrives

end HostToConsole

section ConsoleToHost

variable {lzo : Lzo} {line : BlockLine} {n : ℕ} {rest block data : List Byte} {recv : HostRecv}

/-- How the host goes on behind type and size of a block. -/
def takeBlock (lzo : Lzo) (recv : HostRecv) (type : Byte) (size : Word) : Talk Byte HostRecv (List Byte × Bool) :=
  if type = serialDataUncompressed then
    recvBlockData (blreadCount size) fun data =>
      .write [serialDataGood] (.again
        { total := recv.total - size
          out := recv.out ++ data
          wrapped := recv.wrapped || decide (recv.total < size) })
  else if type = serialDataCompressed then
    recvBlockData (blreadCount size) fun tmp =>
      match lzo.decompress tmp with
      | some data =>
        .write [serialDataGood] (.again
          { total := recv.total - BitVec.ofNat 32 data.length
            out := recv.out ++ data
            wrapped := recv.wrapped || decide (recv.total.toNat < data.length) })
      | none => .write [serialDataBad] (.again recv)
  else .again recv

theorem lzoRecvData_done (complete : recv.total = 0) :
    lzoRecvData lzo recv = .done (recv.out, recv.wrapped) := if_pos complete

theorem lzoRecvData_pending (pending : recv.total ≠ 0) :
    lzoRecvData lzo recv = .read fun type => recvUint (takeBlock lzo recv type) := if_neg pending

theorem sendDataBlocks_compressed (more : rest ≠ [])
    (compressed : (lzo.compress (rest.take clientChunkSize)).length < (rest.take clientChunkSize).length) :
    sendDataBlocks lzo (.chunk rest) = .write [serialDataCompressed]
      (clientPutUint (BitVec.ofNat 32 (lzo.compress (rest.take clientChunkSize)).length)
        (.again (.attempt (rest.drop clientChunkSize) (lzo.compress (rest.take clientChunkSize))))) :=
  (if_neg more).trans (if_pos compressed)

theorem sendDataBlocks_uncompressed (more : rest ≠ [])
    (plain : ¬ (lzo.compress (rest.take clientChunkSize)).length < (rest.take clientChunkSize).length) :
    sendDataBlocks lzo (.chunk rest) = .again (.plain (rest.drop clientChunkSize) (rest.take clientChunkSize)) :=
  (if_neg more).trans (if_neg plain)

/-- The host's loop behind a block. -/
def HostRecv.take (recv : HostRecv) (block : List Byte) : HostRecv where
  total := recv.total - BitVec.ofNat 32 block.length
  out := recv.out ++ block
  wrapped := recv.wrapped || decide (recv.total.toNat < block.length)

theorem blreadCount_ofNat {count : ℕ} (short : count < 2 ^ 31) : blreadCount (BitVec.ofNat 32 count) = count := by
  rw [blreadCount, BitVec.toInt_eq_toNat_of_lt (by rw [BitVec.toNat_ofNat]; omega), BitVec.toNat_ofNat, Int.toNat_natCast]
  exact Nat.mod_eq_of_lt (by omega)

/-- An uncompressed block that `blread` reads whole. -/
theorem ToHost.reaches_uncompressed (pending : recv.total ≠ 0) (short : data.length < 2 ^ 31)
    (next : Byte → Talk Byte ClientSend Unit) :
    Reaches (Step lzo line)
      ⟨(sendDataBlockUncompressed data next).overLine line.carry n, lzoRecvData lzo recv, [], []⟩
      ⟨(next serialDataGood).overLine line.carry (n + 1), lzoRecvData lzo (recv.take (line.carry n data)), [], []⟩ := by
  rw [lzoRecvData_pending pending]
  refine (reaches_header _ _ _ _).trans ?_
  refine (reaches_blockData ?_ _ _).trans ?_
  · rw [blreadCount_ofNat short, line.length_carry]
  · refine (reaches_acknowledged serialDataGood _ _).trans ?_
    have small : (BitVec.ofNat 32 data.length).toNat = data.length := by
      rw [BitVec.toNat_ofNat]
      exact Nat.mod_eq_of_lt (by omega)
    rw [HostRecv.take, line.length_carry]
    simp only [BitVec.lt_def, small]
    exact .refl _

/-- An accepted block: both sides go on behind it, and the host has what was delivered. -/
theorem ToHost.reaches_accepted (pending : recv.total ≠ 0) (more : rest ≠ [])
    (accepted : delivered lzo line n (rest.take clientChunkSize) = some block) :
    Reaches (Step lzo line) ⟨clientSender lzo line (.chunk rest, n), lzoRecvData lzo recv, [], []⟩
      ⟨clientSender lzo line (.chunk (rest.drop clientChunkSize), n + 1), lzoRecvData lzo (recv.take block), [], []⟩ := by
  have chunked : (rest.take clientChunkSize).length < 2 ^ 31 := by
    rw [List.length_take, clientChunkSize]
    omega
  by_cases compressed : (lzo.compress (rest.take clientChunkSize)).length < (rest.take clientChunkSize).length
  · rw [delivered_of_compressible compressed] at accepted
    rw [lzoRecvData_pending pending, clientSender, sendDataBlocks_compressed more compressed]
    refine (reaches_header _ _ _ _).trans ?_
    refine (reaches_leftAgain _).trans ?_
    refine (reaches_blockData ?_ _ _).trans ?_
    · rw [blreadCount_ofNat (by omega), line.length_carry]
    · simp only [accepted]
      refine (reaches_acknowledged serialDataGood _ _).trans ?_
      rw [if_pos rfl]
      exact reaches_leftAgain _
  · rw [delivered_of_incompressible compressed] at accepted
    cases accepted
    rw [clientSender, sendDataBlocks_uncompressed more compressed]
    refine (reaches_leftAgain _).trans ?_
    refine (reaches_uncompressed pending chunked _).trans ?_
    rw [if_pos rfl]
    exact reaches_leftAgain _

/-- A refused block: the console sends the data again, and the host reads them as the header of a block. -/
theorem ToHost.reaches_refused (pending : recv.total ≠ 0) (more : rest ≠ [])
    (compressed : (lzo.compress (rest.take clientChunkSize)).length < (rest.take clientChunkSize).length)
    (refused : lzo.decompress (line.carry n (lzo.compress (rest.take clientChunkSize))) = none) :
    Reaches (Step lzo line) ⟨clientSender lzo line (.chunk rest, n), lzoRecvData lzo recv, [], []⟩
      ⟨clientSender lzo line (.attempt (rest.drop clientChunkSize) (lzo.compress (rest.take clientChunkSize)), n + 1),
        lzoRecvData lzo recv, [], []⟩ := by
  have chunked : (rest.take clientChunkSize).length < 2 ^ 31 := by
    rw [List.length_take, clientChunkSize]
    omega
  have header := @lzoRecvData_pending lzo _ pending
  rw [clientSender, sendDataBlocks_compressed more compressed]
  nth_rewrite 1 [header]
  refine (reaches_header _ _ _ _).trans ?_
  refine (reaches_leftAgain _).trans ?_
  refine (reaches_blockData ?_ _ _).trans ?_
  · rw [blreadCount_ofNat (by omega), line.length_carry]
  · simp only [refused]
    refine (reaches_acknowledged serialDataBad _ _).trans ?_
    exact reaches_leftAgain _

/-- Blocks that arrive leave both sides aligned. -/
theorem ToHost.reaches_aligned {owed : List Byte} (arrives : Arrives lzo line clientChunkSize n rest owed)
    (small : owed.length < 2 ^ 32) (got : List Byte) :
    Reaches (Step lzo line)
      ⟨clientSender lzo line (.chunk rest, n),
        lzoRecvData lzo { total := BitVec.ofNat 32 owed.length, out := got, wrapped := false }, [], []⟩
      (aligned (got ++ owed)) := by
  induction arrives generalizing got with
  | done n =>
    rw [List.append_nil]
    exact .refl _
  | @next n rest block owed more accepted wanted onward ih =>
    have whole : (BitVec.ofNat 32 (block ++ owed).length).toNat = (block ++ owed).length := by
      rw [BitVec.toNat_ofNat]
      exact Nat.mod_eq_of_lt small
    have pending : BitVec.ofNat 32 (block ++ owed).length ≠ 0 := by
      intro none
      rw [none] at whole
      exact wanted (List.length_eq_zero_iff.mp whole.symm)
    refine (reaches_accepted pending more accepted).trans ?_
    rw [List.length_append] at small whole
    rw [HostRecv.take, List.length_append, whole, ← List.append_assoc,
      BitVec.ofNat_sub_ofNat_of_le _ _ (by omega) (by omega), Nat.add_sub_cancel_left,
      decide_eq_false (by omega), Bool.or_false]
    exact ih (by omega) (got ++ block)

/-- A host that has all it asked for leaves the console waiting for its acknowledgement. -/
theorem ToHost.reaches_unanswered (more : rest ≠ []) (got : List Byte × Bool) :
    ∃ next toRight, Reaches (Step lzo line) ⟨clientSender lzo line (.chunk rest, n), .done got, [], []⟩
      ⟨.read next, .done got, toRight, []⟩ := by
  by_cases compressed : (lzo.compress (rest.take clientChunkSize)).length < (rest.take clientChunkSize).length
  · rw [clientSender, sendDataBlocks_compressed more compressed]
    exact ⟨_, _, (reaches_leftWrites _ _ _).trans ((reaches_leftAgain _).trans (reaches_leftWrites _ _ _))⟩
  · rw [clientSender, sendDataBlocks_uncompressed more compressed]
    exact ⟨_, _, (reaches_leftAgain _).trans ((reaches_leftWrites _ _ _).trans (reaches_leftWrites _ _ _))⟩

/-- A transfer of accepted blocks that ends aligned is one whose blocks arrive. -/
theorem ToHost.arrives_of_settles (accepted : Accepted lzo line clientChunkSize n rest)
    (settles : Settles (Step lzo line) ⟨clientSender lzo line (.chunk rest, n), lzoRecvData lzo recv, [], []⟩
      (aligned data)) :
    ∃ owed, data = recv.out ++ owed ∧ (recv.total ≠ 0 → owed ≠ []) ∧ Arrives lzo line clientChunkSize n rest owed := by
  induction length : rest.length using Nat.strong_induction_on generalizing n rest recv with
  | _ count ih =>
    by_cases more : rest = []
    · subst more
      by_cases pending : recv.total = 0
      · rw [lzoRecvData_done pending] at settles
        have ended := settles.eq_of_terminal (.refl _) (terminal_done () (recv.out, recv.wrapped) [] [])
        simp only [aligned, Duplex.mk.injEq, Talk.done.injEq, Prod.mk.injEq] at ended
        exact ⟨[], by rw [List.append_nil]; exact ended.2.1.1.symm, fun owes => absurd pending owes, .done n⟩
      · rw [lzoRecvData_pending pending] at settles
        have ended := settles.eq_of_terminal (.refl _) (terminal_rightWaiting () _ [])
        cases ended
    · by_cases pending : recv.total = 0
      · rw [lzoRecvData_done pending] at settles
        obtain ⟨next, toRight, stuck⟩ := @reaches_unanswered lzo line n _ more (recv.out, recv.wrapped)
        have ended := settles.eq_of_terminal stuck (terminal_leftWaiting next _ toRight)
        cases ended
      · obtain ⟨block, stored⟩ := accepted.head more
        have later := settles.onward (reaches_accepted pending more stored)
        have shorter : (rest.drop clientChunkSize).length < count := by
          have some_left := List.length_pos_iff.mpr more
          rw [List.length_drop, clientChunkSize]
          omega
        obtain ⟨owed, rfl, owes, arrives⟩ := ih _ shorter accepted.tail later rfl
        have wanted : block ++ owed ≠ [] := by
          rintro nothing
          obtain ⟨rfl, rfl⟩ := List.append_eq_nil_iff.mp nothing
          exact owes (by simpa [HostRecv.take] using pending) rfl
        exact ⟨block ++ owed, List.append_assoc _ _ _, fun _ => wanted, .next more stored wanted arrives⟩

/-- A transfer to a host comes out right if its blocks arrive. -/
theorem ToHost.settles_of_arrives (small : data.length < 2 ^ 32)
    (arrives : Arrives lzo line clientChunkSize 0 data data) :
    Settles (Step lzo line)
      ⟨clientSender lzo line (.chunk data, 0),
        lzoRecvData lzo { total := BitVec.ofNat 32 data.length, out := [], wrapped := false }, [], []⟩ (aligned data) :=
  settles_of_reaches diamond (terminal_done () (data, false) [] []) (reaches_aligned arrives small [])

/-- A transfer of accepted blocks to a host comes out right only if they arrive. -/
theorem ToHost.arrives_of_aligned (accepted : Accepted lzo line clientChunkSize 0 data)
    (settles : Settles (Step lzo line)
      ⟨clientSender lzo line (.chunk data, 0),
        lzoRecvData lzo { total := BitVec.ofNat 32 data.length, out := [], wrapped := false }, [], []⟩
      (aligned data)) :
    Arrives lzo line clientChunkSize 0 data data := by
  obtain ⟨owed, rfl, -, arrives⟩ := arrives_of_settles accepted settles
  exact arrives

/-- A host that is asked for no bytes never answers the block of none. -/
theorem ToHost.reaches_unasked : ∃ next toRight,
    Reaches (Step lzo line) ⟨clientSender lzo line (.once [], 0), .done ([], false), [], []⟩
      ⟨.read next, .done ([], false), toRight, []⟩ :=
  ⟨_, _, (reaches_leftWrites _ _ _).trans (reaches_leftWrites _ _ _)⟩

/-- A count that is negative for `blread` reads nothing: the first byte is taken for the checksum. -/
theorem ToHost.reaches_unread (long : ¬ data.length < 2 ^ 31) (small : data.length < 2 ^ 32) :
    ∃ wrapped toRight, Reaches (Step lzo line)
      ⟨clientSender lzo line (.once data, 0),
        lzoRecvData lzo { total := BitVec.ofNat 32 data.length, out := [], wrapped := false }, [], []⟩
      ⟨.done (), .done ([], wrapped), toRight, []⟩ := by
  have value : (BitVec.ofNat 32 data.length).toNat = data.length := by
    rw [BitVec.toNat_ofNat]
    exact Nat.mod_eq_of_lt small
  have pending : BitVec.ofNat 32 data.length ≠ 0 := by
    intro none
    rw [none] at value
    have zero : (0 : Word).toNat = 0 := rfl
    omega
  have unread : blreadCount (BitVec.ofNat 32 data.length) = 0 := by
    rw [blreadCount, Int.toNat_eq_zero, BitVec.toInt_eq_toNat_cond, value]
    split_ifs <;> omega
  obtain ⟨first, others, carried⟩ : ∃ first others, line.carry 0 data = first :: others :=
    List.exists_cons_of_length_pos (by rw [line.length_carry]; omega)
  refine ⟨false, others ++ [xorSum data], ?_⟩
  rw [lzoRecvData_pending pending]
  refine (reaches_header _ _ _ _).trans ?_
  simp only [takeBlock, if_pos, recvBlockData, unread, Talk.readMany]
  refine (reaches_leftWrites _ _ _).trans ?_
  rw [carried, BitVec.sub_self, decide_eq_false (BitVec.lt_irrefl _)]
  refine (reaches_rightRead _ _).trans ?_
  refine (reaches_rightWrite _ _).trans ?_
  refine (reaches_rightAgain _).trans ?_
  exact reaches_leftRead _ _

/-- One uncompressed block comes out right exactly if there is something in it, its size is not negative for `blread`,
and the line leaves it alone. -/
theorem ToHost.once_roundTrip_iff (small : data.length < 2 ^ 32) :
    Settles (Step lzo line)
      ⟨clientSender lzo line (.once data, 0),
        lzoRecvData lzo { total := BitVec.ofNat 32 data.length, out := [], wrapped := false }, [], []⟩ (aligned data) ↔
      data ≠ [] ∧ data.length < 2 ^ 31 ∧ line.carry 0 data = data := by
  have value : (BitVec.ofNat 32 data.length).toNat = data.length := by
    rw [BitVec.toNat_ofNat]
    exact Nat.mod_eq_of_lt small
  by_cases empty : data = []
  · subst empty
    refine iff_of_false (fun settles => ?_) (fun arrives => arrives.1 rfl)
    obtain ⟨next, toRight, stuck⟩ := @reaches_unasked lzo line
    have ended := settles.eq_of_terminal stuck (terminal_leftWaiting next _ toRight)
    cases ended
  have pending : BitVec.ofNat 32 data.length ≠ 0 := by
    intro none
    rw [none] at value
    exact empty (List.length_eq_zero_iff.mp value.symm)
  by_cases short : data.length < 2 ^ 31
  · have run := @reaches_uncompressed lzo line 0 data
      { total := BitVec.ofNat 32 data.length, out := [], wrapped := false } pending short fun _ => .done ()
    have taken : HostRecv.take { total := BitVec.ofNat 32 data.length, out := [], wrapped := false } (line.carry 0 data) =
        { total := 0, out := line.carry 0 data, wrapped := false } := by
      rw [HostRecv.take, line.length_carry, value, decide_eq_false (Nat.lt_irrefl _)]
      exact congrArg (HostRecv.mk · _ _) (BitVec.sub_self _)
    have complete := @lzoRecvData_done lzo { total := 0, out := line.carry 0 data, wrapped := false } rfl
    rw [taken, complete] at run
    constructor
    · intro settles
      have ended := settles.eq_of_terminal run (terminal_done () _ [] [])
      simp only [aligned, Duplex.mk.injEq, Talk.done.injEq, Prod.mk.injEq] at ended
      exact ⟨empty, short, ended.2.1.1⟩
    · rintro ⟨-, -, unharmed⟩
      rw [unharmed] at run
      exact settles_of_reaches diamond (terminal_done () (data, false) [] []) run
  · refine iff_of_false (fun settles => ?_) (fun arrives => short arrives.2.1)
    obtain ⟨wrapped, toRight, ends⟩ := @reaches_unread lzo line data short small
    have ended := settles.eq_of_terminal ends (terminal_done () _ toRight [])
    simp only [aligned, Duplex.mk.injEq, Talk.done.injEq, Prod.mk.injEq] at ended
    exact empty ended.2.1.1.symm

end ConsoleToHost

section RoundTrips

variable {lzo : Lzo} {line : BlockLine}

/-- A line that changes nothing harms nothing. -/
theorem harmless_of_clean (clean : ∀ n data, line.carry n data = data) (size n : ℕ) (rest : List Byte) :
    Harmless lzo line size n rest := by
  intro k _
  rw [delivered]
  split_ifs
  · rw [clean, lzo.decompress_compress]
  · rw [clean]

/-- No compressed block is too long for the console's buffer, whoever sends it. -/
theorem length_compress_le {chunk : List Byte} (chunked : chunk.length ≤ serialBufferSize) :
    (lzo.compress chunk).length ≤ compressBufferSize := by
  have expansion := lzo.length_compress chunk
  rw [serialBufferSize] at chunked
  rw [compressBufferSize]
  omega

variable (lzo line)

/-- The bytes arrive at a host: in one uncompressed block, or chunk by chunk. -/
def ToHost.Intact (wrkmem : Bool) (data : List Byte) : Prop :=
  if wrkmem = false ∨ data.length < 19 then data ≠ [] ∧ data.length < 2 ^ 31 ∧ line.carry 0 data = data
  else Arrives lzo line clientChunkSize 0 data data

/-- No block is refused; one that is not compressed never is. -/
def ToHost.Unrefused (wrkmem : Bool) (data : List Byte) : Prop :=
  wrkmem = false ∨ data.length < 19 ∨ Accepted lzo line clientChunkSize 0 data

/-- A transfer comes out right if its blocks arrive, and if none of them is refused only then. -/
theorem block_round_trip (data : List Byte) (fits : data.length < 2 ^ 32) :
    ((Arrives lzo line serialBufferSize 0 data data → ToConsole.RoundTrip lzo line data) ∧
      (Accepted lzo line serialBufferSize 0 data → ToConsole.RoundTrip lzo line data →
        Arrives lzo line serialBufferSize 0 data data)) ∧
    ∀ wrkmem, (ToHost.Intact lzo line wrkmem data → ToHost.RoundTrip lzo line wrkmem data) ∧
      (ToHost.Unrefused lzo line wrkmem data → ToHost.RoundTrip lzo line wrkmem data →
        ToHost.Intact lzo line wrkmem data) := by
  refine ⟨⟨ToConsole.roundTrip_of_arrives fits, ToConsole.arrives_of_roundTrip fits⟩,
    fun wrkmem => ?_⟩
  rw [ToHost.Intact, ToHost.Unrefused, ToHost.RoundTrip, ToHost.start, sendDataBlockCompressed]
  split_ifs with once
  · exact ⟨(ToHost.once_roundTrip_iff fits).mpr, fun _ => (ToHost.once_roundTrip_iff fits).mp⟩
  · push Not at once
    refine ⟨ToHost.settles_of_arrives fits, fun accepted => ?_⟩
    rcases accepted with plain | short | accepted
    · exact absurd plain once.1
    · exact absurd short (by omega)
    · exact ToHost.arrives_of_aligned accepted

end RoundTrips

section Instances

/-- The tag of a literal run, as `lzo1x_1_compress` has it for a few bytes. -/
def literalTag (data : List Byte) : Byte := if data.length ≤ 238 then BitVec.ofNat 8 (17 + data.length) else 0

/-- The stream of a literal run and nothing else. -/
def literalStream (data : List Byte) : List Byte := literalTag data :: (data ++ [17, 0, 0])

/-- The data of such a stream. -/
def literalData (stream : List Byte) : Option (List Byte) :=
  let data := (stream.drop 1).take (stream.length - 4)
  if stream = literalStream data then some data else none

theorem literalData_literalStream (data : List Byte) : literalData (literalStream data) = some data := by
  have body : ((literalStream data).drop 1).take ((literalStream data).length - 4) = data := by
    rw [literalStream, List.drop_one, List.tail_cons, List.length_cons, List.length_append]
    exact List.take_left' (by simp only [List.length_cons, List.length_nil]; omega)
  simp only [literalData, body, if_true]

theorem length_literalStream (data : List Byte) : (literalStream data).length = data.length + 4 := by
  simp only [literalStream, List.length_cons, List.length_append, List.length_nil]

theorem length_literalStream_le (data : List Byte) :
    (literalStream data).length ≤ data.length + data.length / 64 + 19 := by
  rw [length_literalStream]
  omega

def literalLzo : Lzo where
  compress := literalStream
  decompress := literalData
  decompress_compress := literalData_literalStream
  length_compress := length_literalStream_le

/-- A line that changes nothing. -/
def cleanLine : BlockLine where
  carry _ data := data
  length_carry _ _ := rfl

/-- A line that flips a bit of the first byte of the first payload. -/
def flippingLine : BlockLine where
  carry n data := if n = 0 then data.modifyHead (· ^^^ 1) else data
  length_carry n data := by
    split_ifs
    · exact List.length_modifyHead
    · rfl

theorem block_round_trip_clean :
    ToConsole.RoundTrip literalLzo cleanLine [1, 2, 3] ∧ ToHost.RoundTrip literalLzo cleanLine true [1, 2, 3] := by
  have trips := block_round_trip literalLzo cleanLine [1, 2, 3] (by decide)
  refine ⟨trips.1.1 ?_, (trips.2 true).1 ?_⟩
  · exact (harmless_of_clean (fun _ _ => rfl) _ _ _).arrives (by decide)
  · exact (if_pos (Or.inr (by decide))).mpr ⟨by decide, by decide, rfl⟩

/-- Neither receiver tests the checksum, so a flipped bit goes through as it is. -/
theorem flipped_bit_stored :
    ¬ ToConsole.RoundTrip literalLzo flippingLine [1, 2, 3] ∧
      ∀ wrkmem, ¬ ToHost.RoundTrip literalLzo flippingLine wrkmem [1, 2, 3] := by
  refine ⟨fun settles => ?_, fun wrkmem settles => ?_⟩
  · have accepted : Accepted literalLzo flippingLine serialBufferSize 0 [1, 2, 3] := by
      intro k inside
      rw [delivered_of_incompressible]
      · exact Option.some_ne_none _
      · rw [literalLzo, length_literalStream]
        exact Nat.not_lt.mpr (Nat.le_add_right _ 4)
    have stored := (ToConsole.arrives_of_roundTrip (by decide) accepted settles).single (by decide) (by decide)
    exact absurd stored (by decide)
  · rw [ToHost.RoundTrip, ToHost.start, sendDataBlockCompressed, if_pos (Or.inr (by decide))] at settles
    have stored := ((ToHost.once_roundTrip_iff (by decide)).mp settles).2.2
    exact absurd stored (by decide)

end Instances

end KosTool.Serial
