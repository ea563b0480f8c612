import KosTool.Math.RingWindow
import KosTool.Model.KosloadTypes

/-! # The SIF1 transfer queue

`client/playstation2/ee_sif.c`: the chain that `ee_sif_build_dma_job` writes into a job's stream, and the queue
of jobs. No interrupt advances the queue: `ee_sif_set_dma` and `ee_sif_dma_stat` look at the channel's `STR` bit
when they are called, and the channel clears it whenever its transfer is over.
-/

namespace KosTool.Ps2

open ByteWord RingWindow

/-- `SIF_DMA_QUEUE_DEPTH`. -/
abbrev sifDmaQueueDepth : ℕ := 8
/-- `SIF_DMA_MAX_DESCS`. -/
abbrev sifDmaMaxDescs : ℕ := 8
/-- `SIF_DMA_JOB_STREAM_SIZE`. -/
abbrev sifDmaJobStreamSize : ℕ := 1024
/-- `SIF_CMD_RECV_BLOCK`. -/
abbrev sifCmdRecvBlock : ℕ := 128

/-- `EE_SIF_DMA_ATTR_INT_O` and the flag of the header it becomes. -/
abbrev attrIntO : Word := 0x04
abbrev flagIntO : Word := 0x40000000
/-- `EE_SIF_DMA_ATTR_ERT` and the flag of the header it becomes. -/
abbrev attrErt : Word := 0x40
abbrev flagErt : Word := 0x80000000

/-- `DMA_TAG_REFE` and `DMA_TAG_REF`. -/
abbrev dmaTagRefe : Word := 0
abbrev dmaTagRef : Word := 3

/-- The mask of `EE_PHYS`. -/
abbrev physMask : Word := 0x1fffffff

/-- `EE_PHYS`. -/
def eePhys (address : Word) : Word := address &&& physMask

/-- `ee_sif_dma_transfer_t`. -/
structure DmaTransfer where
  src : Word
  dest : Word
  size : Word
  attr : Word
deriving DecidableEq, Repr

/-- The slot of a job. -/
abbrev Slot := Fin sifDmaQueueDepth

/-- Where the linker puts `sif1_dma_jobs`, which is `aligned(64)` and lies in the main memory of 32 MiB. -/
structure JobArea where
  address : Word
  aligned : address.toNat % 64 = 0
  inside : address.toNat % 2 ^ 29 + sifDmaQueueDepth * 1088 ≤ 32 * 1024 * 1024

/-- `sif1_dma_jobs[slot].stream`: a job is 1088 bytes and its stream begins at its next multiple of 64. -/
def JobArea.stream (area : JobArea) (slot : Slot) : Word := area.address + BitVec.ofNat 32 (slot.val * 1088 + 64)

section Chain

variable (subaddr : Word) (ram : Memory) (stream : Word)

/-- `dest` of `ee_sif_build_dma_job`. -/
def DmaTransfer.target (desc : DmaTransfer) : Word := desc.dest &&& physMask

/-- `block_bytes`. -/
def DmaTransfer.blockBytes (desc : DmaTransfer) : ℕ :=
  if subaddr ≠ 0 ∧ desc.target = subaddr then sifCmdRecvBlock else desc.size.toNat

/-- `qbytes`, which cannot wrap for a size that is not negative. -/
def DmaTransfer.qbytes (desc : DmaTransfer) : ℕ := (desc.blockBytes subaddr + 15) / 16 * 16

/-- `flags`. -/
def DmaTransfer.flags (desc : DmaTransfer) : Word :=
  (if desc.attr &&& attrIntO ≠ 0 then flagIntO else 0) ||| (if desc.attr &&& attrErt ≠ 0 then flagErt else 0)

/-- The checks of one descriptor, at the place its data is to have. -/
def DmaTransfer.Fits (desc : DmaTransfer) (scratchOff : ℕ) : Prop :=
  0 ≤ desc.size.toInt ∧ ¬ (0 < desc.size.toNat ∧ desc.src = 0) ∧ desc.size.toNat ≤ desc.blockBytes subaddr ∧
    scratchOff + 16 + desc.qbytes subaddr ≤ sifDmaJobStreamSize

instance (desc : DmaTransfer) (scratchOff : ℕ) : Decidable (desc.Fits subaddr scratchOff) :=
  inferInstanceAs (Decidable (_ ∧ _))

/-- The two words of `header`. -/
def DmaTransfer.header (desc : DmaTransfer) : List Byte :=
  ByteOrder.little.bytes32 (desc.target ||| desc.flags) ++
    ByteOrder.little.bytes32 (BitVec.ofNat 32 (desc.qbytes subaddr / 4))

/-- The four words of `tag`. -/
def DmaTransfer.tag (desc : DmaTransfer) (last : Bool) (scratchOff : ℕ) : List Byte :=
  ByteOrder.little.bytes32
      ((if last then dmaTagRefe else dmaTagRef) <<< 28 ||| BitVec.ofNat 32 (desc.qbytes subaddr / 16 + 1)) ++
    ByteOrder.little.bytes32 (eePhys (stream + BitVec.ofNat 32 scratchOff)) ++
    ByteOrder.little.bytes32 0 ++ ByteOrder.little.bytes32 0

/-- What one pass of the loop writes. -/
def DmaTransfer.place (desc : DmaTransfer) (last : Bool) (i scratchOff : ℕ) (buffer : Buffer) : Buffer :=
  storeAt
    (storeAt (storeAt buffer (scratchOff + 16) (ram.copyOut desc.src desc.size.toNat)) scratchOff (desc.header subaddr))
    (i * 16) (desc.tag subaddr stream last scratchOff)

/-- The loop of `ee_sif_build_dma_job` from descriptor `i` on: the stream it leaves, and where the scratch ends
if no descriptor was refused. -/
def buildLoop : List DmaTransfer → ℕ → ℕ → Buffer → Buffer × Option ℕ
  | [], _, scratchOff, buffer => (buffer, some scratchOff)
  | desc :: rest, i, scratchOff, buffer =>
    if desc.Fits subaddr scratchOff then
      buildLoop rest (i + 1) (scratchOff + 16 + desc.qbytes subaddr)
        (desc.place subaddr ram stream rest.isEmpty i scratchOff buffer)
    else (buffer, none)

/-- `memset(stream, 0, sizeof(job->stream))`. -/
def clearStream (buffer : Buffer) : Buffer := fun offset => if offset < sifDmaJobStreamSize then 0 else buffer offset

/-- `ee_sif_build_dma_job`, of the descriptors of a count that has been checked. -/
def eeSifBuildDmaJob (descs : List DmaTransfer) (buffer : Buffer) : Buffer × Option ℕ :=
  buildLoop subaddr ram stream descs 0 (16 * descs.length) (clearStream buffer)

end Chain

/-- The `state` of a job. -/
inductive JobState where
  | free
  | queued
  | running
deriving DecidableEq, Repr

/-- `ee_sif_dma_job_t`; what lies behind the stream's 1024 bytes is the memory that follows. -/
structure DmaJob where
  id : Word
  streamSize : ℕ
  state : JobState
  stream : Buffer

/-- What the channel is started on: the chain at `D6_TADR`, with the name of its job. -/
structure Launch where
  id : Word
  tadr : Word
  chain : Buffer
  chainSize : ℕ

/-- The variables of the queue, the `STR` bit of `D6_CHCR`, and what the channel has been started on so far. -/
structure Sif1 where
  jobs : Slot → DmaJob
  queue : ℕ → Slot
  head : ℕ
  tail : ℕ
  count : ℕ
  nextId : Word
  current : Option Slot
  str : Bool
  launched : List Launch

namespace Sif1

/-- The slots that wait, in the order of the queue. -/
def waiting (sif : Sif1) : List Slot := window sifDmaQueueDepth sif.queue sif.head sif.count

/-- A job is given other contents. -/
def setJob (sif : Sif1) (slot : Slot) (job : DmaJob) : Sif1 := { sif with jobs := Function.update sif.jobs slot job }

end Sif1

/-- `ee_sif_reset_state`, with the channel quiet and any bytes in the streams. -/
def eeSifResetState (streams : Slot → Buffer) : Sif1 where
  jobs slot := { id := 0, streamSize := 0, state := .free, stream := streams slot }
  queue _ := 0
  head := 0
  tail := 0
  count := 0
  nextId := 1
  current := none
  str := false
  launched := []

/-- `ee_sif_next_dma_id`. -/
def eeSifNextDmaId (sif : Sif1) : Word × Sif1 :=
  (sif.nextId, { sif with
    nextId := if sif.nextId + 1 = 0 ∨ 0x7fffffff#32 < sif.nextId + 1 then 1 else sif.nextId + 1 })

/-- `ee_sif_find_free_dma_job`. -/
def eeSifFindFreeDmaJob (sif : Sif1) : Option Slot :=
  (List.finRange sifDmaQueueDepth).find? fun slot => (sif.jobs slot).state = .free

section Queue

variable (area : JobArea)

/-- What the channel would be started on for a job. -/
def Sif1.launch (sif : Sif1) (slot : Slot) : Launch where
  id := (sif.jobs slot).id
  tadr := eePhys (area.stream slot)
  chain := (sif.jobs slot).stream
  chainSize := (sif.jobs slot).streamSize

/-- `ee_sif_start_dma_job`. -/
def eeSifStartDmaJob (sif : Sif1) (slot : Slot) : Sif1 :=
  { sif.setJob slot { sif.jobs slot with state := .running } with
    str := true
    launched := sif.launched ++ [sif.launch area slot]
    current := some slot }

/-- The first half of `ee_sif_dma_pump`: the job whose transfer is over is freed. -/
def Sif1.retire (sif : Sif1) : Sif1 :=
  match sif.current with
  | some slot =>
    { sif.setJob slot { sif.jobs slot with state := .free, id := 0, streamSize := 0 } with current := none }
  | none => sif

/-- The second half of `ee_sif_dma_pump`: the job at the head of the queue is started. -/
def Sif1.startNext (sif : Sif1) : Sif1 :=
  if sif.current = none ∧ 0 < sif.count ∧ sif.str = false then
    eeSifStartDmaJob area
      { sif with head := (sif.head + 1) % sifDmaQueueDepth, count := sif.count - 1 } (sif.queue sif.head)
  else sif

/-- `ee_sif_dma_pump`. -/
def eeSifDmaPump (sif : Sif1) : Sif1 :=
  if sif.current.isSome ∧ sif.str = true then sif else sif.retire.startNext area

/-- The arguments of `ee_sif_set_dma`, with the memory and the `sif_subaddr` it finds. -/
structure DmaRequest where
  dmat : Option (ℕ → DmaTransfer)
  count : ℤ
  subaddr : Word
  ram : Memory

/-- The descriptors a count covers. -/
def descriptors (dmat : ℕ → DmaTransfer) (count : ℤ) : List DmaTransfer := (List.range count.toNat).map dmat

/-- A slot is filled and put into the queue: what `ee_sif_set_dma` does once it has a slot. -/
def queueJob (sif : Sif1) (request : DmaRequest) (dmat : ℕ → DmaTransfer) (slot : Slot) : Word × Sif1 :=
  let (id, named) := eeSifNextDmaId sif
  let (stream, size) := eeSifBuildDmaJob request.subaddr request.ram (area.stream slot)
    (descriptors dmat request.count) (sif.jobs slot).stream
  match size with
  | none => (0, named.setJob slot { id := 0, streamSize := 0, state := .free, stream := stream })
  | some size =>
    (id, { named.setJob slot { id := id, streamSize := size, state := .queued, stream := stream } with
      queue := Function.update sif.queue sif.tail slot
      tail := (sif.tail + 1) % sifDmaQueueDepth
      count := sif.count + 1 })

/-- `ee_sif_set_dma` between its two pumps: zero is the answer to a request that is refused. -/
def acceptDma (sif : Sif1) (request : DmaRequest) : Word × Sif1 :=
  match request.dmat with
  | none => (0, sif)
  | some dmat =>
    if request.count ≤ 0 ∨ (sifDmaMaxDescs : ℤ) < request.count then (0, sif)
    else if sifDmaQueueDepth ≤ sif.count then (0, sif)
    else
      match eeSifFindFreeDmaJob sif with
      | none => (0, sif)
      | some slot => queueJob area sif request dmat slot

/-- The channel's transfer ends. -/
def Sif1.complete (sif : Sif1) : Sif1 := { sif with str := false }

/-- `ee_sif_set_dma`; a transfer may end between its two pumps. -/
def eeSifSetDma (sif : Sif1) (request : DmaRequest) (ends : Bool) : Word × Sif1 :=
  let accepted := acceptDma area (eeSifDmaPump area sif) request
  if accepted.1 = 0 then accepted
  else (accepted.1, eeSifDmaPump area (if ends then accepted.2.complete else accepted.2))

/-- `ee_sif_dma_stat`. -/
def eeSifDmaStat (sif : Sif1) (trid : Word) : ℤ × Sif1 :=
  if trid = 0 then (-1, sif)
  else
    let pumped := eeSifDmaPump area sif
    match (List.finRange sifDmaQueueDepth).find? fun slot => (pumped.jobs slot).id = trid with
    | none => (-1, pumped)
    | some slot =>
      match (pumped.jobs slot).state with
      | .queued => (1, pumped)
      | .running => (0, pumped)
      | .free => (-1, pumped)

end Queue

end KosTool.Ps2
