import KosTool.Math.BlockCopy
import KosTool.Model.Firmware.Ppc
import KosTool.Model.Firmware.Update

/-! # The trampolines of the GameCube and the Wii

Both trampolines have the same instructions but for the place of their constants. The copy goes word by word, then every
line of the copy is flushed from the data cache, and then every line is dropped from the instruction cache.
-/

namespace KosTool.Firmware

open ByteWord Machine BlockCopy

/-- The consoles with a PowerPC. -/
inductive PpcBoard where
  | gamecube
  | wii

namespace PpcBoard

def params : PpcBoard → ArchUpdateParams
  | gamecube => ppcParams
  | wii => ppcWiiParams

/-- `GC_LOADER_SIZE` and `WII_LOADER_SIZE`. -/
def loaderSize : PpcBoard → ℕ
  | gamecube => 0x14000
  | wii => 0x40000

/-- The displacement of the constants from `0x80000000`. -/
def pool : PpcBoard → BitVec 16
  | gamecube => 0x3190
  | wii => 0x4090

/-- The instructions of the trampoline. -/
def instrs (board : PpcBoard) : List PpcInstr :=
  [.addis 7 0 0x8000, .addi 0 0 0x2030, .mtmsr 0, .isync, .addis 1 0 0x8020, .ori 1 1 0, .stwu 0 1 0xfff0,
    .lwz 4 7 board.pool, .lwz 5 7 (board.pool + 4), .lwz 6 7 (board.pool + 8), .lwz 3 7 (board.pool + 12), .mr 9 5,
    .mr 10 6, .srwi 6 6 2, .mtctr 6,
    -- copy_loop, 15
    .lwz 0 4 0, .stw 0 5 0, .addi 4 4 4, .addi 5 5 4, .bdnz (-16), .mr 4 9, .add 5 9 10,
    -- dcbf_loop, 22
    .dcbf 0 4, .addi 4 4 32, .cmplw 4 5, .blt (-12), .sync, .mr 4 9,
    -- icbi_loop, 28
    .icbi 0 4, .addi 4 4 32, .cmplw 4 5, .blt (-12), .sync, .isync, .mtctr 3, .bctr]

/-- The bytes of the trampoline are these instructions. -/
theorem decode_trampoline (board : PpcBoard) : ∀ k < 36,
    decodePpc (readBe32 (overlay board.params.trampoline fun _ => 0) (4 * k)) = board.instrs[k]? := by
  cases board <;> decide +kernel

variable (board : PpcBoard)

/-- Where the blob is uploaded. -/
def load : ℕ := board.params.loadAddr.toNat

/-- Where the loader runs. -/
def dest : ℕ := board.params.loaderBase.toNat

/-- The address of an instruction. -/
def place (k : ℕ) : Word := board.params.loadAddr + BitVec.ofNat 32 (4 * k)

/-- The instruction at an address. -/
def code (a : ℕ) : Option PpcInstr :=
  if board.load ≤ a ∧ a % 4 = 0 then board.instrs[(a - board.load) / 4]? else none

/-- The trampoline is not to be written. -/
def writable (a : ℕ) : Bool := decide (a < board.load ∨ board.load + 256 ≤ a)

theorem load_bounds : board.load % 4 = 0 ∧ 0x80003000 < board.load ∧ board.load ≤ 0x80004000 := by
  cases board <;> decide

theorem dest_bounds : board.dest % 32 = 0 ∧ 0x81330000 ≤ board.dest ∧ board.dest + board.loaderSize ≤ 0x81800000 ∧
    board.loaderSize ≤ 0x40000 := by
  cases board <;> decide

theorem length_trampoline : board.params.trampoline.length = 256 := by cases board <;> decide +kernel

theorem sizePatchOffset_eq : board.params.sizePatchOffset = 0x98 := by cases board <;> rfl

theorem place_add_four (k : ℕ) : board.place k + 4#32 = board.place (k + 1) := by
  rw [place, place, BitVec.add_assoc, Nat.mul_add, BitVec.ofNat_add]

theorem toNat_place {k : ℕ} (inside : k < 64) : (board.place k).toNat = board.load + 4 * k := by
  have bounds := board.load_bounds
  rw [load] at *
  rw [place, BitVec.toNat_add, BitVec.toNat_ofNat]
  omega

theorem code_place {k : ℕ} (inside : k < 64) : board.code (board.place k).toNat = board.instrs[k]? := by
  have bounds := board.load_bounds
  rw [code, board.toNat_place inside, if_pos (by omega), Nat.add_sub_cancel_left, Nat.mul_div_cancel_left k (by decide)]

/-- The trampoline with the size in it, where it is uploaded. -/
def listing (image : Buffer) (fwSize : ℕ) : Listing ppc where
  code := board.code
  writable := board.writable
  image a := updateBlob board.params image fwSize (a - board.load)
  decodes := by
    intro memory kept a instr listed
    rw [code] at listed
    split_ifs at listed with inside
    have short : (a - board.load) / 4 < 36 := (List.getElem?_eq_some_iff.mp listed).1
    have whole : a = board.load + 4 * ((a - board.load) / 4) := by
      have bounds := board.load_bounds
      omega
    rw [← listed, ← board.decode_trampoline _ short]
    change decodePpc (readBe32 memory a) = _
    congr 1
    rw [whole, Nat.add_sub_cancel_left, Nat.mul_div_cancel_left _ (by decide)]
    refine readBe32_code image fwSize (by rw [length_trampoline]; omega) (fun j below => ?_) (by rw [sizePatchOffset_eq]; omega)
    rw [kept _ (by rw [writable, decide_eq_false_iff_not]; omega), Nat.add_assoc, Nat.add_sub_cancel_left]

variable {board} {image : Buffer} {fwSize : ℕ}

/-- At the places of the trampoline its instructions are executed. -/
theorem step_place (gpr : Gpr → Word) (ctr msr : Word) (lt : Bool) (mem : Buffer) (bus : List PpcBus) {k : ℕ}
    (inside : k < 64) : (board.listing image fwSize).step ⟨gpr, ctr, lt, msr, board.place k, mem, bus⟩ =
      board.instrs[k]?.bind fun instr =>
        Ppc.exec board.writable instr ⟨gpr, ctr, lt, msr, board.place k, mem, bus⟩ := by
  change (board.code (board.place k).toNat).bind _ = _
  rw [board.code_place inside]
  rfl

/-- The memory with the word that is pushed onto the new stack. -/
def stacked (mem : Buffer) : Buffer := storeAt mem 0x801ffff0 (be32 0x2030#32)

/-- What the instructions before the copy have set up. -/
structure Ready (board : PpcBoard) (fwSize : ℕ) (s : Ppc) : Prop where
  entry : s.gpr 3 = board.params.loaderBase
  base : s.gpr 9 = board.params.loaderBase
  size : s.gpr 10 = BitVec.ofNat 32 fwSize
  msr : s.msr = 0x2030

/-- The addresses of the constants. -/
theorem pool_place (board : PpcBoard) :
    0x80000000#32 + board.pool.signExtend 32 = board.place 36 ∧
      0x80000000#32 + (board.pool + 4#16).signExtend 32 = board.place 37 ∧
      0x80000000#32 + (board.pool + 8#16).signExtend 32 = board.place 38 ∧
      0x80000000#32 + (board.pool + 12#16).signExtend 32 = board.place 39 := by
  cases board <;> decide

/-- The constants. -/
theorem readBe32_place {mem : Buffer} (uploaded : ∀ i < 256, mem (board.load + i) = updateBlob board.params image fwSize i) :
    readBe32 mem (board.place 36).toNat = board.params.loadAddr + 0x100 ∧
      readBe32 mem (board.place 37).toNat = board.params.loaderBase ∧
      readBe32 mem (board.place 38).toNat = BitVec.ofNat 32 fwSize ∧
      readBe32 mem (board.place 39).toNat = board.params.loaderBase := by
  have constant {k : ℕ} (inside : k < 64) (apart : k ≠ 38) : readBe32 mem (board.place k).toNat =
      readBe32 (overlay board.params.trampoline fun _ => 0) (4 * k) := by
    rw [toNat_place board inside]
    refine readBe32_code image fwSize (by rw [length_trampoline]; omega) (fun j below => ?_) (by rw [sizePatchOffset_eq]; omega)
    rw [Nat.add_assoc]
    exact uploaded _ (by omega)
  refine ⟨?_, ?_, ?_, ?_⟩
  · rw [constant (by decide) (by decide)]
    cases board <;> decide +kernel
  · rw [constant (by decide) (by decide)]
    cases board <;> decide +kernel
  · have size : board.params.order.load32 mem (board.load + board.params.sizePatchOffset) = BitVec.ofNat 32 fwSize :=
      load32_size image fwSize (by rw [length_trampoline]; exact uploaded)
    rw [sizePatchOffset_eq] at size
    rw [toNat_place board (by decide), ← size]
    cases board <;> rfl
  · rw [constant (by decide) (by decide)]
    cases board <;> decide +kernel

/-- The instructions up to the copy. -/
theorem prologue {s : Ppc} (starts : s.pc = board.place 0)
    (uploaded : ∀ i < 256, s.mem (board.load + i) = updateBlob board.params image fwSize i) :
    ∃ t, (board.listing image fwSize).run 15 s = some t ∧ t.pc = board.place 15 ∧
      t.gpr 4 = board.params.loadAddr + 0x100#32 ∧ t.gpr 5 = board.params.loaderBase ∧
      t.ctr = BitVec.ofNat 32 fwSize >>> 2 ∧ Ready board fwSize t ∧ t.mem = stacked s.mem ∧
      t.bus = s.bus ++ [.store 0x801ffff0] := by
  obtain ⟨gpr, ctr, lt, msr, pc, mem, bus⟩ := s
  subst starts
  have free : ∀ x < 4, board.writable (0x801ffff0 + x) = true := by cases board <;> decide
  have bounds := board.load_bounds
  have pushed : ∀ i < 256, storeAt mem 0x801ffff0 (be32 0x2030#32) (board.load + i) =
      updateBlob board.params image fwSize i := by
    intro i below
    rw [storeAt_outside _ (by omega)]
    exact uploaded i below
  obtain ⟨source, dest, size, entry⟩ := readBe32_place pushed
  obtain ⟨first, second, third, fourth⟩ := pool_place board
  simp [Listing.run, step_place, instrs, Ppc.exec, Ppc.set, Ppc.next, Ppc.base, place_add_four, Ppc.store, if_pos free,
    first, second, third, fourth, source, dest, size, entry, stacked, -BitVec.toNat_add]
  constructor <;> simp

/-- The words of the source and of the copy. -/
theorem toNat_src {i : ℕ} (inside : i ≤ board.loaderSize) :
    (board.params.loadAddr + 0x100#32 + BitVec.ofNat 32 i).toNat = board.load + 256 + i := by
  have loads := board.load_bounds
  have dests := board.dest_bounds
  rw [load] at *
  simp only [BitVec.toNat_add, BitVec.toNat_ofNat]
  omega

theorem toNat_dst {i : ℕ} (inside : i ≤ board.loaderSize + 32) :
    (board.params.loaderBase + BitVec.ofNat 32 i).toNat = board.dest + i := by
  have dests := board.dest_bounds
  rw [dest] at *
  simp only [BitVec.toNat_add, BitVec.toNat_ofNat]
  omega

theorem writable_dst (i : ℕ) : board.writable (board.dest + i) = true := by
  have loads := board.load_bounds
  have dests := board.dest_bounds
  rw [writable, decide_eq_true_eq]
  omega

/-- The copy after some words. -/
structure Copying (board : PpcBoard) (fwSize : ℕ) (start : Ppc) (k : ℕ) (s : Ppc) : Prop extends
    Ready board fwSize s where
  pc : s.pc = if k < fwSize / 4 then board.place 15 else board.place 20
  src : s.gpr 4 = board.params.loadAddr + 0x100#32 + BitVec.ofNat 32 (4 * k)
  dst : s.gpr 5 = board.params.loaderBase + BitVec.ofNat 32 (4 * k)
  left : s.ctr = BitVec.ofNat 32 (fwSize / 4 - k)
  mem : s.mem = storeAt start.mem board.dest (slice start.mem (board.load + 256) (4 * k))
  bus : s.bus = start.bus ++ (List.range k).map fun i => .store (board.params.loaderBase + BitVec.ofNat 32 (4 * i))

theorem Copying.first {start : Ppc} (ready : Ready board fwSize start) (some_word : 0 < fwSize / 4)
    (fits : fwSize ≤ board.loaderSize) (pc : start.pc = board.place 15)
    (src : start.gpr 4 = board.params.loadAddr + 0x100#32) (dst : start.gpr 5 = board.params.loaderBase)
    (left : start.ctr = BitVec.ofNat 32 fwSize >>> 2) : Copying board fwSize start 0 start := by
  refine ⟨ready, ?_, ?_, ?_, ?_, ?_, ?_⟩
  · rw [pc, if_pos some_word]
  · rw [src, Nat.mul_zero, BitVec.add_zero]
  · rw [dst, Nat.mul_zero, BitVec.add_zero]
  · have dests := board.dest_bounds
    rw [left]
    apply BitVec.eq_of_toNat_eq
    rw [BitVec.toNat_ushiftRight, BitVec.toNat_ofNat, BitVec.toNat_ofNat, Nat.shiftRight_eq_div_pow]
    omega
  · funext i
    rw [storeAt_slice, if_neg (by omega)]
  · rw [List.range_zero, List.map_nil, List.append_nil]

theorem copy_round {start s : Ppc} {k : ℕ} (fits : fwSize ≤ board.loaderSize) (more : k < fwSize / 4)
    (copying : Copying board fwSize start k s) :
    ∃ t, (board.listing image fwSize).run 5 s = some t ∧ Copying board fwSize start (k + 1) t := by
  obtain ⟨⟨entry, base, size, msr⟩, pc, src, dst, left, mem, bus⟩ := copying
  rw [if_pos more] at pc
  have loads := board.load_bounds
  have dests := board.dest_bounds
  obtain ⟨gpr, ctr, lt, msr', pc', mem', bus'⟩ := s
  dsimp only at *
  subst pc left mem bus msr
  have from_src := board.toNat_src (show 4 * k ≤ _ by omega)
  have to_dst := board.toNat_dst (show 4 * k ≤ _ by omega)
  have free : ∀ x < 4, board.writable (board.dest + 4 * k + x) = true := fun x _ => by
    rw [Nat.add_assoc]
    exact board.writable_dst _
  have one_less : BitVec.ofNat 32 (fwSize / 4 - k) - 1#32 = BitVec.ofNat 32 (fwSize / 4 - (k + 1)) := by
    apply BitVec.eq_of_toNat_eq
    simp only [BitVec.toNat_sub, BitVec.toNat_ofNat]
    omega
  have last : BitVec.ofNat 32 (fwSize / 4 - (k + 1)) = 0#32 ↔ fwSize / 4 ≤ k + 1 := by
    rw [BitVec.toNat_inj.symm, BitVec.toNat_ofNat, BitVec.toNat_ofNat]
    omega
  have again : board.place 19 + 4294967280#32 = board.place 15 := by cases board <;> decide
  have apart : board.dest ≤ board.load + 256 ∨ board.load + 256 + 4 * k + 4 ≤ board.dest := .inr (by omega)
  have copied := storeAt_slice_extend start.mem apart
  have four : 4 * (k + 1) = 4 * k + 4 := rfl
  simp [Listing.run, step_place, instrs, Ppc.exec, Ppc.set, Ppc.next, Ppc.base, place_add_four, Ppc.store, src, dst,
    from_src, to_dst, if_pos free, be32_readBe32_slice, copied, one_less, last, again, -BitVec.toNat_add]
  split_ifs with done
  · constructor
    · constructor <;> simp [entry, base, size]
    all_goals simp [four, BitVec.ofNat_add, BitVec.add_assoc, List.range_succ, done]
  · constructor
    · constructor <;> simp [entry, base, size]
    all_goals simp [four, BitVec.ofNat_add, BitVec.add_assoc, List.range_succ, Nat.lt_of_not_le done]

/-- The copy. -/
theorem copies (image : Buffer) {start : Ppc} (fits : fwSize ≤ board.loaderSize) (begins : Copying board fwSize start 0 start) :
    ∃ t, Reaches (board.listing image fwSize).Step start t ∧ Copying board fwSize start (fwSize / 4) t := by
  refine Reaches.loop (fun k more s copying => ?_) begins
  obtain ⟨t, ran, copying⟩ := copy_round fits more copying
  exact ⟨t, Listing.reaches_of_run ran, copying⟩

/-- The two instructions between the copy and the caches. -/
theorem aims (image : Buffer) {start s : Ppc} (copied : Copying board fwSize start (fwSize / 4) s) :
    ∃ t, (board.listing image fwSize).run 2 s = some t ∧ t.pc = board.place 22 ∧ 
      t.gpr 4 = board.params.loaderBase ∧ t.gpr 5 = board.params.loaderBase + BitVec.ofNat 32 fwSize ∧
      Ready board fwSize t ∧ t.mem = s.mem ∧ t.bus = s.bus := by
  obtain ⟨⟨entry, base, size, msr⟩, pc, -, -, -, -, -⟩ := copied
  rw [if_neg (Nat.lt_irrefl _)] at pc
  obtain ⟨gpr, ctr, lt, msr', pc', mem, bus⟩ := s
  dsimp only at *
  subst pc msr
  simp [Listing.run, step_place, instrs, Ppc.exec, Ppc.set, Ppc.next, place_add_four, base, size]
  constructor <;> simp [entry, base, size]

/-- The lines of the copy. -/
def lines (fwSize : ℕ) : ℕ := (fwSize + 31) / 32

/-- The loops over the lines of the copy: where one begins, and what it does to a line. -/
inductive Sweep where
  | dcbf
  | icbi

def Sweep.head : Sweep → ℕ
  | dcbf => 22
  | icbi => 28

def Sweep.note : Sweep → Word → PpcBus
  | dcbf => .dcbf
  | icbi => .icbi

/-- A loop over the lines, after some of them. -/
structure Sweeping (board : PpcBoard) (fwSize : ℕ) (sweep : Sweep) (start : Ppc) (k : ℕ) (s : Ppc) : Prop extends
    Ready board fwSize s where
  pc : s.pc = if k < lines fwSize then board.place sweep.head else board.place (sweep.head + 4)
  line : s.gpr 4 = board.params.loaderBase + BitVec.ofNat 32 (32 * k)
  bound : s.gpr 5 = board.params.loaderBase + BitVec.ofNat 32 fwSize
  mem : s.mem = start.mem
  bus : s.bus = start.bus ++ (List.range k).map fun i => sweep.note (board.params.loaderBase + BitVec.ofNat 32 (32 * i))

theorem Sweeping.first {start : Ppc} {sweep : Sweep} (ready : Ready board fwSize start) (some_line : 0 < fwSize)
    (pc : start.pc = board.place sweep.head) (line : start.gpr 4 = board.params.loaderBase)
    (bound : start.gpr 5 = board.params.loaderBase + BitVec.ofNat 32 fwSize) :
    Sweeping board fwSize sweep start 0 start := by
  refine ⟨ready, ?_, ?_, bound, rfl, ?_⟩
  · rw [pc, if_pos (by rw [lines]; omega)]
  · rw [line, Nat.mul_zero, BitVec.add_zero]
  · rw [List.range_zero, List.map_nil, List.append_nil]

theorem sweep_round {start s : Ppc} {k : ℕ} {sweep : Sweep} (fits : fwSize ≤ board.loaderSize) (more : k < lines fwSize)
    (sweeping : Sweeping board fwSize sweep start k s) :
    ∃ t, (board.listing image fwSize).run 4 s = some t ∧ Sweeping board fwSize sweep start (k + 1) t := by
  obtain ⟨⟨entry, base, size, msr⟩, pc, line, bound, mem, bus⟩ := sweeping
  rw [if_pos more] at pc
  obtain ⟨gpr, ctr, lt, msr', pc', mem', bus'⟩ := s
  dsimp only at *
  subst pc msr mem bus
  have below : (board.params.loaderBase + BitVec.ofNat 32 (32 * k) + 32#32).ult
      (board.params.loaderBase + BitVec.ofNat 32 fwSize) = decide (k + 1 < lines fwSize) := by
    rw [lines] at *
    rw [BitVec.ult_eq_decide, BitVec.add_assoc, ← BitVec.ofNat_add, board.toNat_dst (by omega),
      board.toNat_dst (by omega)]
    apply decide_eq_decide.mpr
    omega
  have again : board.place 25 + 4294967284#32 = board.place 22 ∧ board.place 31 + 4294967284#32 = board.place 28 := by
    cases board <;> decide
  have next : 32 * (k + 1) = 32 * k + 32 := rfl
  cases sweep with
  | dcbf =>
    simp [Listing.run, step_place, instrs, Sweep.head, Ppc.exec, Ppc.set, Ppc.next, Ppc.base, place_add_four, line, bound,
      below, again]
    split_ifs with onward
    all_goals
      constructor
      · constructor <;> simp [entry, base, size]
      all_goals simp [next, BitVec.ofNat_add, BitVec.add_assoc, List.range_succ, bound, onward, Sweep.head, Sweep.note]
  | icbi =>
    simp [Listing.run, step_place, instrs, Sweep.head, Ppc.exec, Ppc.set, Ppc.next, Ppc.base, place_add_four, line, bound,
      below, again]
    split_ifs with onward
    all_goals
      constructor
      · constructor <;> simp [entry, base, size]
      all_goals simp [next, BitVec.ofNat_add, BitVec.add_assoc, List.range_succ, bound, onward, Sweep.head, Sweep.note]

/-- A loop over the lines. -/
theorem sweeps (image : Buffer) {start : Ppc} {sweep : Sweep} (fits : fwSize ≤ board.loaderSize)
    (begins : Sweeping board fwSize sweep start 0 start) :
    ∃ t, Reaches (board.listing image fwSize).Step start t ∧ Sweeping board fwSize sweep start (lines fwSize) t := by
  refine Reaches.loop (fun k more s sweeping => ?_) begins
  obtain ⟨t, ran, sweeping⟩ := sweep_round fits more sweeping
  exact ⟨t, Listing.reaches_of_run ran, sweeping⟩

/-- The two instructions between the loops over the lines. -/
theorem turns (image : Buffer) {start s : Ppc} (flushed : Sweeping board fwSize .dcbf start (lines fwSize) s) :
    ∃ t, (board.listing image fwSize).run 2 s = some t ∧ t.pc = board.place 28 ∧
      t.gpr 4 = board.params.loaderBase ∧ t.gpr 5 = board.params.loaderBase + BitVec.ofNat 32 fwSize ∧
      Ready board fwSize t ∧ t.mem = s.mem ∧ t.bus = s.bus := by
  obtain ⟨⟨entry, base, size, msr⟩, pc, -, bound, -, -⟩ := flushed
  rw [if_neg (Nat.lt_irrefl _)] at pc
  obtain ⟨gpr, ctr, lt, msr', pc', mem, bus⟩ := s
  dsimp only at *
  subst pc msr
  simp [Listing.run, step_place, instrs, Sweep.head, Ppc.exec, Ppc.set, Ppc.next, place_add_four, base, bound]
  constructor <;> simp [entry, base, size]

/-- The instructions behind the loops. -/
theorem epilogue (image : Buffer) {start s : Ppc} (dropped : Sweeping board fwSize .icbi start (lines fwSize) s) :
    ∃ t, (board.listing image fwSize).run 4 s = some t ∧ t.pc = board.params.loaderBase ∧ t.msr = 0x2030 ∧
      t.mem = s.mem ∧ t.bus = s.bus := by
  obtain ⟨⟨entry, base, size, msr⟩, pc, -, bound, -, -⟩ := dropped
  rw [if_neg (Nat.lt_irrefl _)] at pc
  obtain ⟨gpr, ctr, lt, msr', pc', mem, bus⟩ := s
  dsimp only at *
  subst pc msr
  have aligned : board.params.loaderBase &&& 0xfffffffc#32 = board.params.loaderBase := by cases board <;> decide
  simp [Listing.run, step_place, instrs, Sweep.head, Ppc.exec, Ppc.next, place_add_four, entry, aligned]

end PpcBoard

open PpcBoard in
/-- The trampoline of a blob puts the whole words of the image where the loader runs, flushes and drops every line of it,
and enters it. -/
theorem ppc_trampoline_installs {board : PpcBoard} {fwData : Buffer} {fwSize : ℕ} {patchIp : Option CString} {s : Ppc}
    (starts : s.pc = board.params.loadAddr)
    (uploaded : ∀ i < 256 + fwSize,
      s.mem (board.load + i) = updateBlob board.params (firmwareImage fwData fwSize patchIp) fwSize i)
    (words : 4 ≤ fwSize) (fits : fwSize ≤ board.loaderSize) :
    ∃ t, Reaches ppc.Step s t ∧ t.pc = board.params.loaderBase ∧ t.msr = 0x2030 ∧
      t.mem = storeAt (stacked s.mem) board.dest (slice (firmwareImage fwData fwSize patchIp) 0 (4 * (fwSize / 4))) ∧
      t.bus = s.bus ++ [.store 0x801ffff0] ++
        ((List.range (fwSize / 4)).map fun i => .store (board.params.loaderBase + BitVec.ofNat 32 (4 * i))) ++
        ((List.range (lines fwSize)).map fun i => .dcbf (board.params.loaderBase + BitVec.ofNat 32 (32 * i))) ++
        ((List.range (lines fwSize)).map fun i => .icbi (board.params.loaderBase + BitVec.ofNat 32 (32 * i))) := by
  let l := board.listing (firmwareImage fwData fwSize patchIp) fwSize
  have loads := board.load_bounds
  have dests := board.dest_bounds
  have begins : s.pc = board.place 0 := by rw [starts, place, BitVec.add_zero]
  have intact : l.Intact s := fun a kept => by
    have inside : board.load ≤ a ∧ a < board.load + 256 := by
      have kept : board.writable a = false := kept
      rw [writable, decide_eq_false_iff_not] at kept
      omega
    have byte := uploaded (a - board.load) (by omega)
    rwa [Nat.add_sub_cancel' inside.1] at byte
  obtain ⟨ready, ran, pc, src, dst, left, prepared, pushed, busPushed⟩ :=
    prologue begins fun i below => uploaded i (by omega)
  have copying := Copying.first prepared (by omega) fits pc src dst left
  obtain ⟨copied, reachesCopied, copies⟩ := copies (firmwareImage fwData fwSize patchIp) fits copying
  obtain ⟨aimed, ranAimed, pcAimed, lineAimed, boundAimed, readyAimed, memAimed, busAimed⟩ :=
    aims (firmwareImage fwData fwSize patchIp) copies
  have flushing : Sweeping board fwSize .dcbf aimed 0 aimed :=
    Sweeping.first readyAimed (by omega) pcAimed lineAimed boundAimed
  obtain ⟨flushed, reachesFlushed, flushes⟩ := sweeps (firmwareImage fwData fwSize patchIp) fits flushing
  obtain ⟨turned, ranTurned, pcTurned, lineTurned, boundTurned, readyTurned, memTurned, busTurned⟩ :=
    turns (firmwareImage fwData fwSize patchIp) flushes
  have dropping : Sweeping board fwSize .icbi turned 0 turned :=
    Sweeping.first readyTurned (by omega) pcTurned lineTurned boundTurned
  obtain ⟨dropped, reachesDropped, drops⟩ := sweeps (firmwareImage fwData fwSize patchIp) fits dropping
  obtain ⟨entered, ranEntered, pcEntered, msrEntered, memEntered, busEntered⟩ :=
    epilogue (firmwareImage fwData fwSize patchIp) drops
  have reached : Reaches l.Step s entered :=
    (Listing.reaches_of_run ran).trans <| reachesCopied.trans <| (Listing.reaches_of_run ranAimed).trans <|
      reachesFlushed.trans <| (Listing.reaches_of_run ranTurned).trans <| reachesDropped.trans <|
        Listing.reaches_of_run ranEntered
  refine ⟨entered, (intact.reaches reached).1, pcEntered, msrEntered, ?_, ?_⟩
  · rw [memEntered, drops.mem, memTurned, flushes.mem, memAimed, copies.mem, pushed]
    congr 1
    refine slice_congr fun i below => ?_
    rw [stacked, storeAt_outside _ (by omega), Nat.add_assoc, uploaded _ (by omega), Nat.zero_add]
    have byte := updateBlob_image board.params (firmwareImage fwData fwSize patchIp) fwSize i
    rwa [length_trampoline] at byte
  · rw [busEntered, drops.bus, busTurned, flushes.bus, busAimed, copies.bus, busPushed]
    rfl

/-- A processor about to run a blob that is all its memory holds. -/
def PpcBoard.sent (board : PpcBoard) (image : Buffer) (fwSize : ℕ) : Ppc where
  gpr _ := 0
  ctr := 0
  lt := false
  msr := 0
  pc := board.params.loadAddr
  mem a := updateBlob board.params image fwSize (a - board.load)
  bus := []

theorem PpcBoard.sent_mem (board : PpcBoard) (image : Buffer) (fwSize i : ℕ) :
    (board.sent image fwSize).mem (board.load + i) = updateBlob board.params image fwSize i :=
  congrArg (updateBlob board.params image fwSize) (Nat.add_sub_cancel_left _ _)

/-- A GameCube with an image of ten bytes, of which eight are copied. -/
theorem ppc_trampoline_installs_ten :
    ∃ t, Reaches ppc.Step (PpcBoard.gamecube.sent (fun i => BitVec.ofNat 8 i) 10) t ∧ t.pc = 0x817ec000 ∧
      t.mem (PpcBoard.gamecube.dest + 7) = 7 := by
  obtain ⟨t, reached, pc, -, mem, -⟩ := @ppc_trampoline_installs .gamecube (fun i => BitVec.ofNat 8 i) 10 none
    (PpcBoard.gamecube.sent (fun i => BitVec.ofNat 8 i) 10) rfl (fun i _ => PpcBoard.gamecube.sent_mem _ 10 i)
    (by decide) (by decide)
  refine ⟨t, reached, pc, ?_⟩
  rw [mem, storeAt_slice, if_pos ⟨Nat.le_add_right _ _, Nat.add_lt_add_left (by decide) _⟩, Nat.add_sub_cancel_left]
  rfl

end KosTool.Firmware
