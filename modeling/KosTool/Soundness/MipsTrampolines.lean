import KosTool.Math.BlockCopy
import KosTool.Model.Firmware.Mips
import KosTool.Model.Firmware.Update

/-! # The trampolines of the PlayStation 2 and the PSP

The one of the PlayStation 2 empties the data cache, copies whole words past it and drops the instruction cache. The one of
the PSP checks its target and the size, copies the image rounded up to words, and writes back and drops its lines.
-/

namespace KosTool.Firmware

open ByteWord Machine BlockCopy

theorem ofNat_add_pred {count less : ℕ} (one_less : count = less + 1) :
    BitVec.ofNat 32 count + 4294967295#32 = BitVec.ofNat 32 less := by
  rw [one_less, BitVec.ofNat_add, BitVec.add_assoc]
  exact BitVec.add_zero _

/-- A trampoline by its instructions: they are its bytes, in front of the size, and in the lower half of the memory. -/
structure MipsTrampoline where
  arch : ArchUpdateParams
  instrs : List MipsInstr
  little : arch.order = .little
  in_front : 4 * instrs.length ≤ arch.sizePatchOffset
  low : arch.loadAddr.toNat + arch.trampoline.length ≤ 2 ^ 28
  aligned : arch.loadAddr.toNat % 4 = 0
  decoded : ∀ k < instrs.length,
    decodeMips (ByteOrder.little.load32 (overlay arch.trampoline fun _ => 0) (4 * k)) = instrs[k]?

namespace MipsTrampoline

variable (m : MipsTrampoline)

/-- Where the blob is uploaded. -/
def load : ℕ := m.arch.loadAddr.toNat

/-- The address of an instruction. -/
def place (k : ℕ) : Word := m.arch.loadAddr + BitVec.ofNat 32 (4 * k)

/-- The instruction at a place in the memory. -/
def code (a : ℕ) : Option MipsInstr := if m.load ≤ a ∧ a % 4 = 0 then m.instrs[(a - m.load) / 4]? else none

/-- The trampoline is not to be written. -/
def writable (a : ℕ) : Bool := decide (a < m.load ∨ m.load + m.arch.trampoline.length ≤ a)

theorem place_add_four (k : ℕ) : m.place k + 4#32 = m.place (k + 1) := by
  rw [place, place, BitVec.add_assoc, Nat.mul_add, BitVec.ofNat_add]

/-- The target of a branch. -/
theorem place_add {k target : ℕ} {disp : Word} (right : BitVec.ofNat 32 (4 * k) + disp = BitVec.ofNat 32 (4 * target)) :
    m.place k + disp = m.place target := by
  rw [place, place, BitVec.add_assoc, right]

theorem phys_place {k : ℕ} (inside : k < 1024) : phys (m.place k) = m.load + 4 * k := by
  have low := m.low
  rw [phys, place, load, BitVec.toNat_add, BitVec.toNat_ofNat]
  omega

theorem code_place {k : ℕ} (inside : k < 1024) : m.code (phys (m.place k)) = m.instrs[k]? := by
  have aligned := m.aligned
  rw [code, m.phys_place inside, load, if_pos (by omega), Nat.add_sub_cancel_left,
    Nat.mul_div_cancel_left k (by decide)]

/-- The trampoline with the size in it, where it is uploaded. -/
def listing (image : Buffer) (fwSize : ℕ) : Listing mips where
  code := m.code
  writable := m.writable
  image a := updateBlob m.arch image fwSize (a - m.load)
  decodes := by
    intro memory kept a instr listed
    rw [code] at listed
    split_ifs at listed with inside
    have short : (a - m.load) / 4 < m.instrs.length := (List.getElem?_eq_some_iff.mp listed).1
    have in_front := m.in_front
    have patched := m.arch.patch_inside
    have whole : a = m.load + 4 * ((a - m.load) / 4) := by
      have aligned := m.aligned
      rw [load] at *
      omega
    rw [← listed, ← m.decoded _ short]
    change decodeMips (ByteOrder.little.load32 memory a) = _
    congr 1
    rw [whole, Nat.add_sub_cancel_left, Nat.mul_div_cancel_left _ (by decide), ByteOrder.load32, ByteOrder.load32]
    congr 1
    refine readBe32_code image fwSize (by omega) (fun j below => ?_) (by omega)
    rw [kept _ (by rw [writable, decide_eq_false_iff_not]; omega), Nat.add_assoc, Nat.add_sub_cancel_left]

variable {m} {image : Buffer} {fwSize : ℕ}

/-- At the places of the trampoline its instructions are executed. -/
theorem step_place (gpr cp0 control : MipsReg → Word) (jump : Option Word) (mem : Buffer) (bus : List MipsBus) {k : ℕ}
    (inside : k < 1024) : (m.listing image fwSize).step ⟨gpr, cp0, control, m.place k, jump, mem, bus⟩ =
      m.instrs[k]?.bind fun instr => Mips.exec m.writable instr ⟨gpr, cp0, control, m.place k, jump, mem, bus⟩ := by
  change (m.code (phys (m.place k))).bind _ = _
  rw [m.code_place inside]
  rfl

/-- The trampoline is there. -/
theorem intact {s : Mips} (uploaded : ∀ i < m.arch.trampoline.length, s.mem (m.load + i) = updateBlob m.arch image fwSize i) :
    (m.listing image fwSize).Intact s := fun a kept => by
  have kept : m.writable a = false := kept
  rw [writable, decide_eq_false_iff_not] at kept
  have byte := uploaded (a - m.load) (by omega)
  rwa [Nat.add_sub_cancel' (by omega)] at byte

/-- The size as it is loaded. -/
theorem load32_sizePatchOffset {mem : Buffer}
    (uploaded : ∀ i < m.arch.trampoline.length, mem (m.load + i) = updateBlob m.arch image fwSize i) :
    ByteOrder.little.load32 mem (m.load + m.arch.sizePatchOffset) = BitVec.ofNat 32 fwSize := by
  rw [← m.little]
  exact load32_size image fwSize uploaded

/-- A processor about to run a blob that is all its memory holds. -/
def sent (m : MipsTrampoline) (image : Buffer) (fwSize : ℕ) : Mips where
  gpr _ := 0
  cp0 _ := 0
  control _ := 0
  pc := m.arch.loadAddr
  jump := none
  mem a := updateBlob m.arch image fwSize (a - m.load)
  bus := []

theorem sent_mem (m : MipsTrampoline) (image : Buffer) (fwSize i : ℕ) :
    (m.sent image fwSize).mem (m.load + i) = updateBlob m.arch image fwSize i :=
  congrArg (updateBlob m.arch image fwSize) (Nat.add_sub_cancel_left _ _)

end MipsTrampoline

section R5900

/-- The instructions of `mips_r5900_trampoline`. -/
def r5900Instrs : List MipsInstr :=
  [.mfc0 9 12, .ori 9 9 4, .mtc0 9 12, .sync, .lui 8 0x10, .lw 16 8 0xf8, .lui 25 0xa000, .ori 25 25 0x280,
    .ori 24 8 0x100, .sll 0 0 0, .lui 8 0x8000, .addiu 10 0 64,
    -- dcache_loop, 12
    .cache 0x14 8 0, .sync, .cache 0x14 8 1, .sync, .addiu 8 8 64, .addiu 10 10 0xffff, .bne 10 0 (-28), .sll 0 0 0,
    .srl 17 16 2, .beq 17 0 32, .sll 0 0 0,
    -- copy_loop, 23
    .lw 8 24 0, .sw 8 25 0, .addiu 24 24 4, .addiu 25 25 4, .addiu 17 17 0xffff, .bne 17 0 (-24), .sll 0 0 0,
    -- copy_done, 30
    .sync, .sync, .lui 8 0x8000, .lui 10 0x8000, .ori 10 10 0x2000,
    -- icache_loop, 35
    .cache 0x07 8 0, .cache 0x07 8 1, .addiu 8 8 64, .bne 8 10 (-16), .sll 0 0 0,
    .sync, .lui 8 0x8000, .ori 8 8 0x280, .mtc0 8 30, .sync, .mfc0 9 12, .ori 9 9 4, .mtc0 9 12, .sync, .eret]

def r5900 : MipsTrampoline where
  arch := mipsR5900Params
  instrs := r5900Instrs
  little := rfl
  in_front := by decide
  low := by decide +kernel
  aligned := by decide
  decoded := by decide +kernel

theorem r5900_instrs : r5900.instrs = r5900Instrs := rfl

theorem r5900_length : r5900.arch.trampoline.length = 256 := by decide +kernel

/-- What the first instructions have set up for the copy. -/
structure R5900Ready (fwSize : ℕ) (s : Mips) : Prop where
  size : s.gpr 16 = BitVec.ofNat 32 fwSize
  src : s.gpr 24 = 0x00100100#32
  dst : s.gpr 25 = 0xa0000280#32

theorem r5900_prologue {image : Buffer} {fwSize : ℕ} {s : Mips} (starts : s.pc = r5900.place 0)
    (straight : s.jump = none)
    (uploaded : ∀ i < 256, s.mem (r5900.load + i) = updateBlob mipsR5900Params image fwSize i) :
    ∃ t, (r5900.listing image fwSize).run 12 s = some t ∧ t.pc = r5900.place 12 ∧ t.jump = none ∧
      t.gpr 8 = 0x80000000#32 ∧ t.gpr 10 = 64#32 ∧ R5900Ready fwSize t ∧ t.mem = s.mem ∧ t.bus = s.bus := by
  obtain ⟨gpr, cp0, control, pc, jump, mem, bus⟩ := s
  dsimp only at *
  subst starts straight
  have size : ByteOrder.little.load32 mem (phys 0x1000f8#32) = BitVec.ofNat 32 fwSize := by
    have at_size : phys 0x1000f8#32 = r5900.load + r5900.arch.sizePatchOffset := by decide +kernel
    rw [at_size]
    exact r5900.load32_sizePatchOffset (by rw [r5900_length]; exact uploaded)
  simp [Listing.run, MipsTrampoline.step_place, r5900_instrs, r5900Instrs, Mips.exec, Mips.set, Mips.reg, Mips.next,
    MipsTrampoline.place_add_four, size]
  constructor <;> simp

/-- The purge of the data cache, after some sets. -/
structure Purging (fwSize : ℕ) (start : Mips) (k : ℕ) (s : Mips) : Prop extends R5900Ready fwSize s where
  pc : s.pc = if k < 64 then r5900.place 12 else r5900.place 20
  straight : s.jump = none
  line : s.gpr 8 = 0x80000000#32 + BitVec.ofNat 32 (64 * k)
  left : s.gpr 10 = BitVec.ofNat 32 (64 - k)
  mem : s.mem = start.mem
  bus : s.bus = start.bus ++ (List.range k).flatMap fun i =>
    [.cache 0x14 (0x80000000#32 + BitVec.ofNat 32 (64 * i)), .cache 0x14 (0x80000000#32 + BitVec.ofNat 32 (64 * i) + 1)]

theorem purge_round {image : Buffer} {fwSize : ℕ} {start s : Mips} {k : ℕ} (more : k < 64)
    (purging : Purging fwSize start k s) :
    ∃ t, (r5900.listing image fwSize).run 8 s = some t ∧ Purging fwSize start (k + 1) t := by
  obtain ⟨⟨size, src, dst⟩, pc, straight, line, left, mem, bus⟩ := purging
  rw [if_pos more] at pc
  obtain ⟨gpr, cp0, control, pc', jump, mem', bus'⟩ := s
  dsimp only at *
  subst pc straight mem bus
  have one_less : BitVec.ofNat 32 (64 - k) + 4294967295#32 = BitVec.ofNat 32 (63 - k) := ofNat_add_pred (by omega)
  have last : BitVec.ofNat 32 (63 - k) = 0#32 ↔ 64 ≤ k + 1 := by
    rw [BitVec.toNat_inj.symm, BitVec.toNat_ofNat, BitVec.toNat_ofNat]
    omega
  have again : r5900.place 19 + 4294967268#32 = r5900.place 12 := r5900.place_add rfl
  have next : 64 * (k + 1) = 64 * k + 64 := rfl
  simp [Listing.run, MipsTrampoline.step_place, r5900_instrs, r5900Instrs, Mips.exec, Mips.set, Mips.reg, Mips.next,
    Mips.branch, MipsTrampoline.place_add_four, line, left, one_less, last, again]
  split_ifs with done
  · constructor
    · constructor <;> simp [size, src, dst]
    all_goals simp [next, BitVec.ofNat_add, BitVec.add_assoc, List.range_succ, done]
  · constructor
    · constructor <;> simp [size, src, dst]
    all_goals simp [next, BitVec.ofNat_add, BitVec.add_assoc, List.range_succ, Nat.lt_of_not_le done]

/-- The purge. -/
theorem purges (image : Buffer) {fwSize : ℕ} {start : Mips} (begins : Purging fwSize start 0 start) :
    ∃ t, Reaches (r5900.listing image fwSize).Step start t ∧ Purging fwSize start 64 t := by
  refine Reaches.loop (fun k more s purging => ?_) begins
  obtain ⟨t, ran, purging⟩ := purge_round more purging
  exact ⟨t, Listing.reaches_of_run ran, purging⟩

/-- The copy past the data cache, after some words. -/
structure R5900Copying (fwSize : ℕ) (start : Mips) (k : ℕ) (s : Mips) : Prop where
  pc : s.pc = if k < fwSize / 4 then r5900.place 23 else r5900.place 30
  straight : s.jump = none
  src : s.gpr 24 = 0x00100100#32 + BitVec.ofNat 32 (4 * k)
  dst : s.gpr 25 = 0xa0000280#32 + BitVec.ofNat 32 (4 * k)
  left : s.gpr 17 = BitVec.ofNat 32 (fwSize / 4 - k)
  mem : s.mem = storeAt start.mem 0x280 (slice start.mem 0x00100100 (4 * k))
  bus : s.bus = start.bus ++ (List.range k).map fun i => .store (0xa0000280#32 + BitVec.ofNat 32 (4 * i))

/-- The words are counted, and there is no copy of none. -/
theorem counts {fwSize : ℕ} (image : Buffer) {start s : Mips} (fits : fwSize ≤ 0xffd80) (purged : Purging fwSize start 64 s) :
    ∃ t, (r5900.listing image fwSize).run 3 s = some t ∧ t.mem = s.mem ∧ t.bus = s.bus ∧
      R5900Copying fwSize t 0 t := by
  obtain ⟨⟨size, src, dst⟩, pc, straight, -, -, -, -⟩ := purged
  rw [if_neg (Nat.lt_irrefl _)] at pc
  obtain ⟨gpr, cp0, control, pc', jump, mem, bus⟩ := s
  dsimp only at *
  subst pc straight
  have words : BitVec.ofNat 32 fwSize >>> 2 = BitVec.ofNat 32 (fwSize / 4) := by
    apply BitVec.eq_of_toNat_eq
    rw [BitVec.toNat_ushiftRight, BitVec.toNat_ofNat, BitVec.toNat_ofNat, Nat.shiftRight_eq_div_pow]
    omega
  have none : BitVec.ofNat 32 (fwSize / 4) = 0#32 ↔ fwSize / 4 = 0 := by
    rw [BitVec.toNat_inj.symm, BitVec.toNat_ofNat, BitVec.toNat_ofNat]
    omega
  have target : r5900.place 22 + 32#32 = r5900.place 30 := r5900.place_add rfl
  simp [Listing.run, MipsTrampoline.step_place, r5900_instrs, r5900Instrs, Mips.exec, Mips.set, Mips.reg, Mips.next,
    Mips.branch, MipsTrampoline.place_add_four, size, words, none, target]
  split_ifs with few
  · constructor <;> simp [src, dst, slice, storeAt_nil, Nat.not_le.mpr few]
  · constructor <;> simp [src, dst, slice, storeAt_nil, few]

theorem r5900_copy_round {image : Buffer} {fwSize : ℕ} {start s : Mips} {k : ℕ} (fits : fwSize ≤ 0xffd80)
    (more : k < fwSize / 4) (copying : R5900Copying fwSize start k s) :
    ∃ t, (r5900.listing image fwSize).run 7 s = some t ∧ R5900Copying fwSize start (k + 1) t := by
  obtain ⟨pc, straight, src, dst, left, mem, bus⟩ := copying
  rw [if_pos more] at pc
  obtain ⟨gpr, cp0, control, pc', jump, mem', bus'⟩ := s
  dsimp only at *
  subst pc straight mem bus
  have from_src : phys (0x00100100#32 + BitVec.ofNat 32 (4 * k)) = 0x00100100 + 4 * k := by
    rw [phys, BitVec.toNat_add, BitVec.toNat_ofNat, BitVec.toNat_ofNat]
    omega
  have to_dst : phys (0xa0000280#32 + BitVec.ofNat 32 (4 * k)) = 0x280 + 4 * k := by
    rw [phys, BitVec.toNat_add, BitVec.toNat_ofNat, BitVec.toNat_ofNat]
    omega
  have free : ∀ x < 4, r5900.writable (0x280 + 4 * k + x) = true := by
    intro x below
    rw [MipsTrampoline.writable, decide_eq_true_eq]
    left
    change _ < 0x00100000
    omega
  have one_less : BitVec.ofNat 32 (fwSize / 4 - k) + 4294967295#32 = BitVec.ofNat 32 (fwSize / 4 - (k + 1)) :=
    ofNat_add_pred (by omega)
  have last : BitVec.ofNat 32 (fwSize / 4 - (k + 1)) = 0#32 ↔ fwSize / 4 ≤ k + 1 := by
    rw [BitVec.toNat_inj.symm, BitVec.toNat_ofNat, BitVec.toNat_ofNat]
    omega
  have again : r5900.place 29 + 4294967272#32 = r5900.place 23 := r5900.place_add rfl
  have below : 0x280 ≤ 0x00100100 ∨ 0x00100100 + 4 * k + 4 ≤ 0x280 := .inl (by decide)
  have copied := storeAt_slice_extend start.mem below
  have next : 4 * (k + 1) = 4 * k + 4 := rfl
  have swapped (word : Word) : ByteOrder.little.htonl (ByteOrder.little.htonl word) = word := ByteOrder.htonl_htonl _ _
  simp [Listing.run, MipsTrampoline.step_place, r5900_instrs, r5900Instrs, Mips.exec, Mips.set, Mips.reg, Mips.next,
    Mips.branch, Mips.store, MipsTrampoline.place_add_four, src, dst, left, from_src, to_dst, if_pos free, one_less, last,
    again, be32_readBe32_slice, copied, -BitVec.toNat_add]
  split_ifs with done
  · constructor <;> simp [next, BitVec.ofNat_add, BitVec.add_assoc, List.range_succ, done]
  · constructor <;> simp [next, BitVec.ofNat_add, BitVec.add_assoc, List.range_succ, Nat.lt_of_not_le done]

/-- The copy. -/
theorem r5900_copies (image : Buffer) {fwSize : ℕ} {start : Mips} (fits : fwSize ≤ 0xffd80)
    (begins : R5900Copying fwSize start 0 start) :
    ∃ t, Reaches (r5900.listing image fwSize).Step start t ∧ R5900Copying fwSize start (fwSize / 4) t := by
  refine Reaches.loop (fun k more s copying => ?_) begins
  obtain ⟨t, ran, copying⟩ := r5900_copy_round fits more copying
  exact ⟨t, Listing.reaches_of_run ran, copying⟩

/-- The loop over the instruction cache, after some sets. -/
structure Dropping (start : Mips) (k : ℕ) (s : Mips) : Prop where
  pc : s.pc = if k < 128 then r5900.place 35 else r5900.place 40
  straight : s.jump = none
  line : s.gpr 8 = 0x80000000#32 + BitVec.ofNat 32 (64 * k)
  bound : s.gpr 10 = 0x80002000#32
  mem : s.mem = start.mem
  bus : s.bus = start.bus ++ (List.range k).flatMap fun i =>
    [.cache 0x07 (0x80000000#32 + BitVec.ofNat 32 (64 * i)), .cache 0x07 (0x80000000#32 + BitVec.ofNat 32 (64 * i) + 1)]

/-- The instructions behind the copy. -/
theorem drains {fwSize : ℕ} (image : Buffer) {start s : Mips} (copied : R5900Copying fwSize start (fwSize / 4) s) :
    ∃ t, (r5900.listing image fwSize).run 5 s = some t ∧ t.mem = s.mem ∧ t.bus = s.bus ∧ Dropping t 0 t := by
  obtain ⟨pc, straight, -, -, -, -, -⟩ := copied
  rw [if_neg (Nat.lt_irrefl _)] at pc
  obtain ⟨gpr, cp0, control, pc', jump, mem, bus⟩ := s
  dsimp only at *
  subst pc straight
  simp [Listing.run, MipsTrampoline.step_place, r5900_instrs, r5900Instrs, Mips.exec, Mips.set, Mips.reg, Mips.next,
    MipsTrampoline.place_add_four]
  constructor <;> simp

theorem drop_round {image : Buffer} {fwSize : ℕ} {start s : Mips} {k : ℕ} (more : k < 128)
    (dropping : Dropping start k s) :
    ∃ t, (r5900.listing image fwSize).run 5 s = some t ∧ Dropping start (k + 1) t := by
  obtain ⟨pc, straight, line, bound, mem, bus⟩ := dropping
  rw [if_pos more] at pc
  obtain ⟨gpr, cp0, control, pc', jump, mem', bus'⟩ := s
  dsimp only at *
  subst pc straight mem bus
  have last : 0x80000000#32 + BitVec.ofNat 32 (64 * k) + 64#32 = 0x80002000#32 ↔ 128 ≤ k + 1 := by
    rw [BitVec.toNat_inj.symm, BitVec.add_assoc, ← BitVec.ofNat_add, BitVec.toNat_add, BitVec.toNat_ofNat,
      BitVec.toNat_ofNat, BitVec.toNat_ofNat]
    omega
  have again : r5900.place 39 + 4294967280#32 = r5900.place 35 := r5900.place_add rfl
  have next : 64 * (k + 1) = 64 * k + 64 := rfl
  simp [Listing.run, MipsTrampoline.step_place, r5900_instrs, r5900Instrs, Mips.exec, Mips.set, Mips.reg, Mips.next,
    Mips.branch, MipsTrampoline.place_add_four, line, bound, last, again]
  split_ifs with done
  · constructor <;> simp [next, BitVec.ofNat_add, BitVec.add_assoc, List.range_succ, bound, done]
  · constructor <;> simp [next, BitVec.ofNat_add, BitVec.add_assoc, List.range_succ, bound, Nat.lt_of_not_le done]

/-- The loop over the instruction cache. -/
theorem drops (image : Buffer) (fwSize : ℕ) {start : Mips} (begins : Dropping start 0 start) :
    ∃ t, Reaches (r5900.listing image fwSize).Step start t ∧ Dropping start 128 t := by
  refine Reaches.loop (fun k more s dropping => ?_) begins
  obtain ⟨t, ran, dropping⟩ := drop_round more dropping
  exact ⟨t, Listing.reaches_of_run ran, dropping⟩

/-- The error level is set, so the instructions behind the loops end where `ErrorEPC` says. -/
theorem r5900_epilogue (image : Buffer) (fwSize : ℕ) {start s : Mips} (dropped : Dropping start 128 s) :
    ∃ t, (r5900.listing image fwSize).run 10 s = some t ∧ t.pc = 0x80000280 ∧ t.mem = s.mem ∧ t.bus = s.bus := by
  obtain ⟨pc, straight, -, -, -, -⟩ := dropped
  rw [if_neg (Nat.lt_irrefl _)] at pc
  obtain ⟨gpr, cp0, control, pc', jump, mem, bus⟩ := s
  dsimp only at *
  subst pc straight
  have level : (cp0 12 ||| 4#32) &&& 4#32 ≠ 0#32 := by
    intro clear
    have bit := congrArg (fun word => word.getLsbD 2) clear
    simp at bit
  simp [Listing.run, MipsTrampoline.step_place, r5900_instrs, r5900Instrs, Mips.exec, Mips.set, Mips.reg, Mips.next,
    MipsTrampoline.place_add_four, level]

/-- The trampoline of a blob purges the data cache, puts the whole words of the image where the loader runs, past the data
cache, drops the instruction cache, and enters the loader. -/
theorem r5900_trampoline_installs {fwData : Buffer} {fwSize : ℕ} {patchIp : Option CString} {s : Mips}
    (starts : s.pc = mipsR5900Params.loadAddr) (straight : s.jump = none)
    (uploaded : ∀ i < 256 + fwSize, s.mem (0x00100000 + i) =
      updateBlob mipsR5900Params (firmwareImage fwData fwSize patchIp) fwSize i)
    (fits : fwSize ≤ 0xffd80) :
    ∃ t, Reaches mips.Step s t ∧ t.pc = mipsR5900Params.loaderBase ∧
      t.mem = storeAt s.mem 0x280 (slice (firmwareImage fwData fwSize patchIp) 0 (4 * (fwSize / 4))) ∧
      t.bus = s.bus ++
        ((List.range 64).flatMap fun i => [.cache 0x14 (0x80000000#32 + BitVec.ofNat 32 (64 * i)),
          .cache 0x14 (0x80000000#32 + BitVec.ofNat 32 (64 * i) + 1)]) ++
        ((List.range (fwSize / 4)).map fun i => .store (0xa0000280#32 + BitVec.ofNat 32 (4 * i))) ++
        ((List.range 128).flatMap fun i => [.cache 0x07 (0x80000000#32 + BitVec.ofNat 32 (64 * i)),
          .cache 0x07 (0x80000000#32 + BitVec.ofNat 32 (64 * i) + 1)]) := by
  let image := firmwareImage fwData fwSize patchIp
  have intact : (r5900.listing image fwSize).Intact s :=
    MipsTrampoline.intact (by rw [r5900_length]; exact fun i below => uploaded i (by omega))
  have begins : s.pc = r5900.place 0 := by
    rw [starts, MipsTrampoline.place, BitVec.add_zero]
    rfl
  obtain ⟨ready, ran, pc, onward, line, left, prepared, mem, bus⟩ :=
    r5900_prologue begins straight fun i below => uploaded i (by omega)
  have purging : Purging fwSize ready 0 ready := by
    refine ⟨prepared, ?_, onward, ?_, ?_, rfl, ?_⟩
    · rw [pc, if_pos (by decide)]
    · rw [line, Nat.mul_zero, BitVec.add_zero]
    · rw [left]
    · rw [List.range_zero, List.flatMap_nil, List.append_nil]
  obtain ⟨purged, reachesPurged, purges⟩ := purges image purging
  obtain ⟨counted, ranCounted, memCounted, busCounted, copying⟩ := counts image fits purges
  obtain ⟨copied, reachesCopied, copies⟩ := r5900_copies image fits copying
  obtain ⟨drained, ranDrained, memDrained, busDrained, dropping⟩ := drains image copies
  obtain ⟨dropped, reachesDropped, drops⟩ := drops image fwSize dropping
  obtain ⟨entered, ranEntered, pcEntered, memEntered, busEntered⟩ := r5900_epilogue image fwSize drops
  have reached : Reaches (r5900.listing image fwSize).Step s entered :=
    (Listing.reaches_of_run ran).trans <| reachesPurged.trans <| (Listing.reaches_of_run ranCounted).trans <|
      reachesCopied.trans <| (Listing.reaches_of_run ranDrained).trans <| reachesDropped.trans <|
        Listing.reaches_of_run ranEntered
  refine ⟨entered, (intact.reaches reached).1, pcEntered, ?_, ?_⟩
  · rw [memEntered, drops.mem, memDrained, copies.mem, memCounted, purges.mem, mem]
    congr 1
    refine slice_congr fun i below => ?_
    have byte := updateBlob_image mipsR5900Params image fwSize i
    have length : mipsR5900Params.trampoline.length = 256 := r5900_length
    rw [length, ← uploaded _ (by omega), ← Nat.add_assoc] at byte
    rw [Nat.zero_add]
    exact byte
  · rw [busEntered, drops.bus, busDrained, copies.bus, busCounted, purges.bus, bus]

/-- An image of ten bytes, of which the PlayStation 2 copies eight. -/
theorem r5900_trampoline_installs_ten :
    ∃ t, Reaches mips.Step (r5900.sent (fun i => BitVec.ofNat 8 i) 10) t ∧ t.pc = 0x80000280 ∧ t.mem (0x280 + 7) = 7 := by
  obtain ⟨t, reached, pc, mem, -⟩ := @r5900_trampoline_installs (fun i => BitVec.ofNat 8 i) 10 none
    (r5900.sent (fun i => BitVec.ofNat 8 i) 10) rfl rfl (fun i _ => r5900.sent_mem _ 10 i) (by decide)
  refine ⟨t, reached, pc, ?_⟩
  rw [mem, storeAt_slice, if_pos (by decide)]
  rfl

end R5900

section Allegrex

/-- The instructions of `allegrex_trampoline`. -/
def allegrexInstrs : List MipsInstr :=
  [.mfc0 14 12, .addiu 15 0 0xfffe, .alu .and 14 14 15, .mtc0 14 12, .sll 0 0 0, .sll 0 0 0, .bgezal 0 4, .sll 0 0 0,
    -- tramp_here, 8
    .addiu 14 0 32, .alu .subu 8 31 14, .lui 14 0x1fff, .ori 14 14 0xffff, .alu .and 10 8 14, .lui 14 0x4000,
    .alu .or 10 10 14, .addiu 14 0 268, .alu .addu 14 8 14, .mtc0 14 25, .sll 0 0 0, .sll 0 0 0, .ctc0 14 9, .sll 0 0 0,
    .sll 0 0 0, .lw 16 10 496, .lw 11 10 504, .addiu 13 10 512,
    .lui 14 0x800, .alu .sltu 15 16 14, .bne 15 0 160, .sll 0 0 0, .lui 14 0xa00, .alu .sltu 15 16 14, .beq 15 0 144,
    .sll 0 0 0, .beq 11 0 136, .sll 0 0 0, .lui 14 0x10, .alu .sltu 15 14 11, .bne 15 0 120, .sll 0 0 0,
    .alu .or 12 16 0, .alu .or 15 16 0, .addiu 11 11 3, .addiu 14 0 0xfffc, .alu .and 11 11 14, .alu .or 24 11 0,
    .beq 11 0 32, .sll 0 0 0,
    -- tramp_copy, 48
    .lw 14 13 0, .sw 14 12 0, .addiu 13 13 4, .addiu 12 12 4, .addiu 11 11 0xfffc, .bne 11 0 (-24), .sll 0 0 0,
    -- tramp_copied, 55
    .alu .addu 25 15 24, .beq 24 0 28, .sll 0 0 0,
    -- tramp_flush, 58
    .cache 0x1b 15 0, .cache 0x08 15 0, .addiu 15 15 64, .alu .sltu 14 15 25, .bne 14 0 (-20), .sll 0 0 0,
    -- tramp_flushed, 64
    .sync, .jr 16, .sll 0 0 0,
    -- tramp_exc, 67
    .beq 0 0 (-4), .sll 0 0 0,
    -- tramp_bad, 69
    .beq 0 0 (-4), .sll 0 0 0]

def allegrex : MipsTrampoline where
  arch := allegrexParams
  instrs := allegrexInstrs
  little := rfl
  in_front := by decide
  low := by decide +kernel
  aligned := by decide
  decoded := by decide +kernel

theorem allegrex_instrs : allegrex.instrs = allegrexInstrs := rfl

theorem allegrex_place (k : ℕ) : allegrex.place k = 0x08804000#32 + BitVec.ofNat 32 (4 * k) := rfl

theorem allegrex_length : allegrex.arch.trampoline.length = 512 := by decide +kernel

/-- The target, the size and the source as they are loaded. -/
structure AllegrexReady (fwSize : ℕ) (s : Mips) : Prop where
  dest : s.gpr 16 = 0x08000000#32
  size : s.gpr 11 = BitVec.ofNat 32 fwSize
  src : s.gpr 13 = 0x48804200#32

/-- The trampoline finds itself. -/
theorem locates (image : Buffer) (fwSize : ℕ) {s : Mips} (starts : s.pc = allegrex.place 0) (straight : s.jump = none) :
    ∃ t, (allegrex.listing image fwSize).run 8 s = some t ∧ t.pc = allegrex.place 8 ∧ t.jump = none ∧
      t.gpr 31 = 0x08804020#32 ∧ t.mem = s.mem ∧ t.bus = s.bus := by
  obtain ⟨gpr, cp0, control, pc, jump, mem, bus⟩ := s
  dsimp only at *
  subst starts straight
  have here : allegrex.place 6 + 8#32 = 0x08804020#32 := by rw [allegrex_place]; rfl
  simp [Listing.run, MipsTrampoline.step_place, allegrex_instrs, allegrexInstrs, Mips.exec, Mips.set, Mips.reg, Mips.next,
    Mips.branch, MipsAlu.apply, MipsTrampoline.place_add_four, here]

/-- Its own address, and the view of it past the caches. -/
theorem bases (image : Buffer) (fwSize : ℕ) {s : Mips} (here : s.pc = allegrex.place 8) (straight : s.jump = none)
    (linked : s.gpr 31 = 0x08804020#32) :
    ∃ t, (allegrex.listing image fwSize).run 7 s = some t ∧ t.pc = allegrex.place 15 ∧ t.jump = none ∧
      t.gpr 8 = 0x08804000#32 ∧ t.gpr 10 = 0x48804000#32 ∧ t.mem = s.mem ∧ t.bus = s.bus := by
  obtain ⟨gpr, cp0, control, pc, jump, mem, bus⟩ := s
  dsimp only at *
  subst here straight
  simp [Listing.run, MipsTrampoline.step_place, allegrex_instrs, allegrexInstrs, Mips.exec, Mips.set, Mips.reg, Mips.next,
    MipsAlu.apply, MipsTrampoline.place_add_four, linked]

/-- Exceptions are taken over before anything is written. -/
theorem takesOver (image : Buffer) (fwSize : ℕ) {s : Mips} (here : s.pc = allegrex.place 15) (straight : s.jump = none)
    (base : s.gpr 8 = 0x08804000#32) (view : s.gpr 10 = 0x48804000#32) :
    ∃ t, (allegrex.listing image fwSize).run 8 s = some t ∧ t.pc = allegrex.place 23 ∧ t.jump = none ∧
      t.gpr 10 = 0x48804000#32 ∧ t.cp0 25 = allegrex.place 67 ∧ t.control 9 = allegrex.place 67 ∧ t.mem = s.mem ∧
      t.bus = s.bus := by
  obtain ⟨gpr, cp0, control, pc, jump, mem, bus⟩ := s
  dsimp only at *
  subst here straight
  have handler : allegrex.place 67 = 0x0880410c#32 := by rw [allegrex_place]; rfl
  simp [Listing.run, MipsTrampoline.step_place, allegrex_instrs, allegrexInstrs, Mips.exec, Mips.set, Mips.reg, Mips.next,
    MipsAlu.apply, MipsTrampoline.place_add_four, base, view, handler]

/-- The target and the size are loaded. -/
theorem allegrex_loads {image : Buffer} {fwSize : ℕ} {s : Mips} (here : s.pc = allegrex.place 23) (straight : s.jump = none)
    (view : s.gpr 10 = 0x48804000#32)
    (uploaded : ∀ i < 512, s.mem (allegrex.load + i) = updateBlob allegrexParams image fwSize i) :
    ∃ t, (allegrex.listing image fwSize).run 3 s = some t ∧ t.pc = allegrex.place 26 ∧ t.jump = none ∧
      AllegrexReady fwSize t ∧ t.cp0 = s.cp0 ∧ t.control = s.control ∧ t.mem = s.mem ∧ t.bus = s.bus := by
  obtain ⟨gpr, cp0, control, pc, jump, mem, bus⟩ := s
  dsimp only at *
  subst here straight
  have size : ByteOrder.little.load32 mem (phys 0x488041f8#32) = BitVec.ofNat 32 fwSize := by
    have at_size : phys 0x488041f8#32 = allegrex.load + allegrex.arch.sizePatchOffset := by decide +kernel
    rw [at_size]
    exact allegrex.load32_sizePatchOffset (by rw [allegrex_length]; exact uploaded)
  have dest : ByteOrder.little.load32 mem (phys 0x488041f0#32) = 0x08000000#32 := by
    have at_dest : phys 0x488041f0#32 = allegrex.load + 0x1f0 := by decide +kernel
    have inside : 0x1f0 + 4 ≤ allegrexParams.trampoline.length := by decide +kernel
    rw [at_dest, ByteOrder.load32, readBe32_code image fwSize inside
      (fun j below => by rw [Nat.add_assoc]; exact uploaded _ (by omega)) (.inl (by decide))]
    decide +kernel
  simp [Listing.run, MipsTrampoline.step_place, allegrex_instrs, allegrexInstrs, Mips.exec, Mips.set, Mips.reg, Mips.next,
    MipsTrampoline.place_add_four, view, size, dest]
  constructor <;> simp

/-- The target is in the main memory. -/
theorem checksTarget (image : Buffer) {fwSize : ℕ} {s : Mips} (here : s.pc = allegrex.place 26) (straight : s.jump = none)
    (ready : AllegrexReady fwSize s) :
    ∃ t, (allegrex.listing image fwSize).run 8 s = some t ∧ t.pc = allegrex.place 34 ∧ t.jump = none ∧
      AllegrexReady fwSize t ∧ t.cp0 = s.cp0 ∧ t.control = s.control ∧ t.mem = s.mem ∧ t.bus = s.bus := by
  obtain ⟨dest, size, src⟩ := ready
  obtain ⟨gpr, cp0, control, pc, jump, mem, bus⟩ := s
  dsimp only at *
  subst here straight
  simp [Listing.run, MipsTrampoline.step_place, allegrex_instrs, allegrexInstrs, Mips.exec, Mips.set, Mips.reg, Mips.next,
    Mips.branch, MipsAlu.apply, MipsTrampoline.place_add_four, dest]
  constructor <;> simp [dest, size, src]

/-- A size of which the check approves. -/
theorem checksSize (image : Buffer) {fwSize : ℕ} {s : Mips} (here : s.pc = allegrex.place 34) (straight : s.jump = none)
    (ready : AllegrexReady fwSize s) (size : 0 < fwSize ∧ fwSize ≤ 0x100000) :
    ∃ t, (allegrex.listing image fwSize).run 6 s = some t ∧ t.pc = allegrex.place 40 ∧ t.jump = none ∧
      AllegrexReady fwSize t ∧ t.cp0 = s.cp0 ∧ t.control = s.control ∧ t.mem = s.mem ∧ t.bus = s.bus := by
  obtain ⟨dest, length, src⟩ := ready
  obtain ⟨gpr, cp0, control, pc, jump, mem, bus⟩ := s
  dsimp only at *
  subst here straight
  have something : BitVec.ofNat 32 fwSize ≠ 0#32 := by
    rw [ne_eq, BitVec.toNat_inj.symm, BitVec.toNat_ofNat, BitVec.toNat_ofNat]
    omega
  have fits : (0x100000#32).ult (BitVec.ofNat 32 fwSize) = false := by
    rw [BitVec.ult_eq_decide, BitVec.toNat_ofNat, BitVec.toNat_ofNat, decide_eq_false_iff_not]
    omega
  simp [Listing.run, MipsTrampoline.step_place, allegrex_instrs, allegrexInstrs, Mips.exec, Mips.set, Mips.reg, Mips.next,
    Mips.branch, MipsAlu.apply, MipsTrampoline.place_add_four, length, something, fits]
  constructor <;> simp [dest, length, src]

/-- The words the image is copied in. -/
def roundedWords (fwSize : ℕ) : ℕ := (fwSize + 3) / 4

theorem and_mask (word : Word) : word &&& 0xfffffffc#32 = (word >>> 2) <<< 2 := by
  apply BitVec.eq_of_getLsbD_eq
  intro i inside
  have mask : ∀ i < 32, (0xfffffffc#32).getLsbD i = decide (2 ≤ i) := by decide
  rw [BitVec.getLsbD_and, mask i inside, BitVec.getLsbD_shiftLeft, BitVec.getLsbD_ushiftRight]
  by_cases low : i < 2
  · simp [low]
  · simp [low, inside, Nat.add_sub_cancel' (Nat.not_lt.mp low), Nat.not_lt.mp low]

theorem ofNat_rounded {fwSize : ℕ} (short : fwSize ≤ 0x100000) :
    (BitVec.ofNat 32 fwSize + 3#32) &&& 0xfffffffc#32 = BitVec.ofNat 32 (4 * roundedWords fwSize) := by
  apply BitVec.eq_of_toNat_eq
  rw [and_mask, BitVec.toNat_shiftLeft, BitVec.toNat_ushiftRight, BitVec.toNat_add, BitVec.toNat_ofNat,
    BitVec.toNat_ofNat, BitVec.toNat_ofNat, Nat.shiftRight_eq_div_pow, Nat.shiftLeft_eq, roundedWords]
  omega

/-- The copy of the PSP, after some words. -/
structure AllegrexCopying (fwSize : ℕ) (start : Mips) (k : ℕ) (s : Mips) : Prop where
  pc : s.pc = if k < roundedWords fwSize then allegrex.place 48 else allegrex.place 55
  straight : s.jump = none
  dest : s.gpr 16 = 0x08000000#32
  line : s.gpr 15 = 0x08000000#32
  size : s.gpr 24 = BitVec.ofNat 32 (4 * roundedWords fwSize)
  src : s.gpr 13 = 0x48804200#32 + BitVec.ofNat 32 (4 * k)
  dst : s.gpr 12 = 0x08000000#32 + BitVec.ofNat 32 (4 * k)
  left : s.gpr 11 = BitVec.ofNat 32 (4 * (roundedWords fwSize - k))
  cp0 : s.cp0 = start.cp0
  control : s.control = start.control
  mem : s.mem = storeAt start.mem 0x08000000 (slice start.mem 0x08804200 (4 * k))
  bus : s.bus = start.bus ++ (List.range k).map fun i => .store (0x08000000#32 + BitVec.ofNat 32 (4 * i))

theorem rounds (image : Buffer) {fwSize : ℕ} {s : Mips} (here : s.pc = allegrex.place 40) (straight : s.jump = none)
    (ready : AllegrexReady fwSize s) (size : 0 < fwSize ∧ fwSize ≤ 0x100000) :
    ∃ t, (allegrex.listing image fwSize).run 8 s = some t ∧ t.cp0 = s.cp0 ∧ t.control = s.control ∧ t.mem = s.mem ∧
      t.bus = s.bus ∧ AllegrexCopying fwSize t 0 t := by
  obtain ⟨dest, length, src⟩ := ready
  obtain ⟨gpr, cp0, control, pc, jump, mem, bus⟩ := s
  dsimp only at *
  subst here straight
  have rounded := ofNat_rounded size.2
  have something : BitVec.ofNat 32 (4 * roundedWords fwSize) ≠ 0#32 := by
    rw [ne_eq, BitVec.toNat_inj.symm, BitVec.toNat_ofNat, BitVec.toNat_ofNat, roundedWords]
    omega
  have positive : 0 < roundedWords fwSize := by
    rw [roundedWords]
    omega
  simp [Listing.run, MipsTrampoline.step_place, allegrex_instrs, allegrexInstrs, Mips.exec, Mips.set, Mips.reg, Mips.next,
    Mips.branch, MipsAlu.apply, MipsTrampoline.place_add_four, dest, length, rounded, something]
  constructor <;> simp [dest, src, positive, slice, storeAt_nil]

theorem allegrex_copy_round {image : Buffer} {fwSize : ℕ} {start s : Mips} {k : ℕ} (fits : fwSize ≤ 0x100000)
    (more : k < roundedWords fwSize) (copying : AllegrexCopying fwSize start k s) :
    ∃ t, (allegrex.listing image fwSize).run 7 s = some t ∧ AllegrexCopying fwSize start (k + 1) t := by
  obtain ⟨pc, straight, dest, line, size, src, dst, left, cp0, control, mem, bus⟩ := copying
  rw [if_pos more] at pc
  have small : roundedWords fwSize ≤ 0x40000 := by
    rw [roundedWords]
    omega
  obtain ⟨gpr, cp0', control', pc', jump, mem', bus'⟩ := s
  dsimp only at *
  subst pc straight cp0 control mem bus
  have from_src : phys (0x48804200#32 + BitVec.ofNat 32 (4 * k)) = 0x08804200 + 4 * k := by
    rw [phys, BitVec.toNat_add, BitVec.toNat_ofNat, BitVec.toNat_ofNat]
    omega
  have to_dst : phys (0x08000000#32 + BitVec.ofNat 32 (4 * k)) = 0x08000000 + 4 * k := by
    rw [phys, BitVec.toNat_add, BitVec.toNat_ofNat, BitVec.toNat_ofNat]
    omega
  have free : ∀ x < 4, allegrex.writable (0x08000000 + 4 * k + x) = true := by
    intro x below
    rw [MipsTrampoline.writable, decide_eq_true_eq]
    left
    change _ < 0x08804000
    omega
  have four_less : BitVec.ofNat 32 (4 * (roundedWords fwSize - k)) + 4294967292#32 =
      BitVec.ofNat 32 (4 * (roundedWords fwSize - (k + 1))) := by
    have split : 4 * (roundedWords fwSize - k) = 4 * (roundedWords fwSize - (k + 1)) + 4 := by omega
    rw [split, BitVec.ofNat_add, BitVec.add_assoc]
    exact BitVec.add_zero _
  have last : BitVec.ofNat 32 (4 * (roundedWords fwSize - (k + 1))) = 0#32 ↔ roundedWords fwSize ≤ k + 1 := by
    rw [BitVec.toNat_inj.symm, BitVec.toNat_ofNat, BitVec.toNat_ofNat]
    omega
  have again : allegrex.place 54 + 4294967272#32 = allegrex.place 48 := allegrex.place_add rfl
  have below : 0x08000000 ≤ 0x08804200 ∨ 0x08804200 + 4 * k + 4 ≤ 0x08000000 := .inl (by decide)
  have copied := storeAt_slice_extend start.mem below
  have next : 4 * (k + 1) = 4 * k + 4 := rfl
  simp [Listing.run, MipsTrampoline.step_place, allegrex_instrs, allegrexInstrs, Mips.exec, Mips.set, Mips.reg, Mips.next,
    Mips.branch, Mips.store, MipsTrampoline.place_add_four, src, dst, left, from_src, to_dst, if_pos free, four_less, last,
    again, be32_readBe32_slice, copied, -BitVec.toNat_add]
  split_ifs with done
  · constructor <;>
      simp [dest, line, size, next, BitVec.ofNat_add, BitVec.add_assoc, List.range_succ, done, Nat.not_lt.mpr done]
  · constructor <;>
      simp [dest, line, size, next, BitVec.ofNat_add, BitVec.add_assoc, List.range_succ, Nat.lt_of_not_le done]

/-- The copy of the PSP. -/
theorem allegrex_copies (image : Buffer) {fwSize : ℕ} {start : Mips} (fits : fwSize ≤ 0x100000)
    (begins : AllegrexCopying fwSize start 0 start) :
    ∃ t, Reaches (allegrex.listing image fwSize).Step start t ∧ AllegrexCopying fwSize start (roundedWords fwSize) t := by
  refine Reaches.loop (fun k more s copying => ?_) begins
  obtain ⟨t, ran, copying⟩ := allegrex_copy_round fits more copying
  exact ⟨t, Listing.reaches_of_run ran, copying⟩

/-- The lines of the copy. -/
def roundedLines (fwSize : ℕ) : ℕ := (4 * roundedWords fwSize + 63) / 64

/-- The loop over the lines of the copy, after some of them. -/
structure AllegrexFlushing (fwSize : ℕ) (start : Mips) (k : ℕ) (s : Mips) : Prop where
  pc : s.pc = if k < roundedLines fwSize then allegrex.place 58 else allegrex.place 64
  straight : s.jump = none
  dest : s.gpr 16 = 0x08000000#32
  line : s.gpr 15 = 0x08000000#32 + BitVec.ofNat 32 (64 * k)
  bound : s.gpr 25 = 0x08000000#32 + BitVec.ofNat 32 (4 * roundedWords fwSize)
  cp0 : s.cp0 = start.cp0
  control : s.control = start.control
  mem : s.mem = start.mem
  bus : s.bus = start.bus ++ (List.range k).flatMap fun i =>
    [.cache 0x1b (0x08000000#32 + BitVec.ofNat 32 (64 * i)), .cache 0x08 (0x08000000#32 + BitVec.ofNat 32 (64 * i))]

theorem bounds (image : Buffer) {fwSize : ℕ} {start s : Mips} (size : 0 < fwSize ∧ fwSize ≤ 0x100000)
    (copied : AllegrexCopying fwSize start (roundedWords fwSize) s) :
    ∃ t, (allegrex.listing image fwSize).run 3 s = some t ∧ t.cp0 = s.cp0 ∧ t.control = s.control ∧ t.mem = s.mem ∧
      t.bus = s.bus ∧ AllegrexFlushing fwSize t 0 t := by
  obtain ⟨pc, straight, dest, line, length, -, -, -, -, -, -, -⟩ := copied
  rw [if_neg (Nat.lt_irrefl _)] at pc
  obtain ⟨gpr, cp0, control, pc', jump, mem, bus⟩ := s
  dsimp only at *
  subst pc straight
  have something : BitVec.ofNat 32 (4 * roundedWords fwSize) ≠ 0#32 := by
    rw [ne_eq, BitVec.toNat_inj.symm, BitVec.toNat_ofNat, BitVec.toNat_ofNat, roundedWords]
    omega
  have positive : 0 < roundedLines fwSize := by
    rw [roundedLines, roundedWords]
    omega
  simp [Listing.run, MipsTrampoline.step_place, allegrex_instrs, allegrexInstrs, Mips.exec, Mips.set, Mips.reg, Mips.next,
    Mips.branch, MipsAlu.apply, MipsTrampoline.place_add_four, line, length, something]
  constructor <;> simp [dest, line, positive]

theorem flush_round {image : Buffer} {fwSize : ℕ} {start s : Mips} {k : ℕ} (fits : fwSize ≤ 0x100000)
    (more : k < roundedLines fwSize) (flushing : AllegrexFlushing fwSize start k s) :
    ∃ t, (allegrex.listing image fwSize).run 6 s = some t ∧ AllegrexFlushing fwSize start (k + 1) t := by
  obtain ⟨pc, straight, dest, line, bound, cp0, control, mem, bus⟩ := flushing
  rw [if_pos more] at pc
  obtain ⟨gpr, cp0', control', pc', jump, mem', bus'⟩ := s
  dsimp only at *
  subst pc straight cp0 control mem bus
  have below : (0x08000000#32 + BitVec.ofNat 32 (64 * k) + 64#32).ult
      (0x08000000#32 + BitVec.ofNat 32 (4 * roundedWords fwSize)) = decide (k + 1 < roundedLines fwSize) := by
    rw [roundedLines, roundedWords] at *
    rw [BitVec.ult_eq_decide, BitVec.add_assoc, ← BitVec.ofNat_add, BitVec.toNat_add, BitVec.toNat_add,
      BitVec.toNat_ofNat, BitVec.toNat_ofNat, BitVec.toNat_ofNat]
    apply decide_eq_decide.mpr
    omega
  have again : allegrex.place 63 + 4294967276#32 = allegrex.place 58 := allegrex.place_add rfl
  have next : 64 * (k + 1) = 64 * k + 64 := rfl
  simp [Listing.run, MipsTrampoline.step_place, allegrex_instrs, allegrexInstrs, Mips.exec, Mips.set, Mips.reg, Mips.next,
    Mips.branch, MipsAlu.apply, MipsTrampoline.place_add_four, line, bound, below, again]
  by_cases onward : k + 1 < roundedLines fwSize
  · rw [if_neg (Nat.not_le.mpr onward)]
    constructor <;> simp [dest, bound, next, BitVec.ofNat_add, BitVec.add_assoc, List.range_succ, onward]
  · rw [if_pos (Nat.not_lt.mp onward)]
    constructor <;> simp [dest, bound, next, BitVec.ofNat_add, BitVec.add_assoc, List.range_succ, onward]

/-- The loop over the lines. -/
theorem flushes (image : Buffer) {fwSize : ℕ} {start : Mips} (fits : fwSize ≤ 0x100000)
    (begins : AllegrexFlushing fwSize start 0 start) :
    ∃ t, Reaches (allegrex.listing image fwSize).Step start t ∧ AllegrexFlushing fwSize start (roundedLines fwSize) t := by
  refine Reaches.loop (fun k more s flushing => ?_) begins
  obtain ⟨t, ran, flushing⟩ := flush_round fits more flushing
  exact ⟨t, Listing.reaches_of_run ran, flushing⟩

/-- The instructions behind the loops. -/
theorem allegrex_epilogue (image : Buffer) {fwSize : ℕ} {start s : Mips}
    (flushed : AllegrexFlushing fwSize start (roundedLines fwSize) s) :
    ∃ t, (allegrex.listing image fwSize).run 3 s = some t ∧ t.pc = 0x08000000 ∧ t.cp0 = s.cp0 ∧ t.control = s.control ∧
      t.mem = s.mem ∧ t.bus = s.bus := by
  obtain ⟨pc, straight, dest, -, -, -, -, -, -⟩ := flushed
  rw [if_neg (Nat.lt_irrefl _)] at pc
  obtain ⟨gpr, cp0, control, pc', jump, mem, bus⟩ := s
  dsimp only at *
  subst pc straight
  simp [Listing.run, MipsTrampoline.step_place, allegrex_instrs, allegrexInstrs, Mips.exec, Mips.set, Mips.reg, Mips.next,
    MipsTrampoline.place_add_four, dest]

/-- Up to the check of the size. -/
theorem allegrex_begins {image : Buffer} {fwSize : ℕ} {s : Mips} (starts : s.pc = allegrexParams.loadAddr)
    (straight : s.jump = none)
    (uploaded : ∀ i < 512, s.mem (0x08804000 + i) = updateBlob allegrexParams image fwSize i) :
    ∃ t, Reaches (allegrex.listing image fwSize).Step s t ∧ t.pc = allegrex.place 34 ∧ t.jump = none ∧
      AllegrexReady fwSize t ∧ t.cp0 25 = allegrex.place 67 ∧ t.control 9 = allegrex.place 67 ∧ t.mem = s.mem ∧
      t.bus = s.bus := by
  have begins : s.pc = allegrex.place 0 := by
    rw [starts, MipsTrampoline.place, BitVec.add_zero]
    rfl
  obtain ⟨located, ranLocated, pc, jump, linked, memLocated, busLocated⟩ := locates image fwSize begins straight
  obtain ⟨based, ranBased, pc, jump, base, view, memBased, busBased⟩ := bases image fwSize pc jump linked
  obtain ⟨taken, ranTaken, pc, jump, view, cp0, control, memTaken, busTaken⟩ :=
    takesOver image fwSize pc jump base view
  have mem : taken.mem = s.mem := memTaken.trans (memBased.trans memLocated)
  obtain ⟨loaded, ranLoaded, pc, jump, ready, cp0Loaded, controlLoaded, memLoaded, busLoaded⟩ :=
    allegrex_loads pc jump view (by rw [mem]; exact uploaded)
  obtain ⟨checked, ranChecked, pc, jump, ready, cp0Checked, controlChecked, memChecked, busChecked⟩ :=
    checksTarget image pc jump ready
  refine ⟨checked, ?_, pc, jump, ready, ?_, ?_, ?_, ?_⟩
  · exact (Listing.reaches_of_run ranLocated).trans <| (Listing.reaches_of_run ranBased).trans <|
      (Listing.reaches_of_run ranTaken).trans <| (Listing.reaches_of_run ranLoaded).trans <|
        Listing.reaches_of_run ranChecked
  · rw [cp0Checked, cp0Loaded, cp0]
  · rw [controlChecked, controlLoaded, control]
  · rw [memChecked, memLoaded, mem]
  · rw [busChecked, busLoaded, busTaken, busBased, busLocated]

/-- The trampoline of a blob takes exceptions over, puts the image where the loader runs, with what is behind it up to a
whole word, writes every line of it back and drops it, and enters the loader. -/
theorem allegrex_trampoline_installs {fwData : Buffer} {fwSize : ℕ} {patchIp : Option CString} {s : Mips}
    (starts : s.pc = allegrexParams.loadAddr) (straight : s.jump = none)
    (uploaded : ∀ i < 512 + fwSize, s.mem (0x08804000 + i) =
      updateBlob allegrexParams (firmwareImage fwData fwSize patchIp) fwSize i)
    (size : 0 < fwSize ∧ fwSize ≤ 0x100000) :
    ∃ t, Reaches mips.Step s t ∧ t.pc = allegrexParams.loaderBase ∧ t.cp0 25 = 0x0880410c ∧ t.control 9 = 0x0880410c ∧
      (∀ i < fwSize, t.mem (0x08000000 + i) = firmwareImage fwData fwSize patchIp i) ∧
      (∀ a, a < 0x08000000 ∨ 0x08000000 + 4 * roundedWords fwSize ≤ a → t.mem a = s.mem a) ∧
      t.bus = s.bus ++
        ((List.range (roundedWords fwSize)).map fun i => .store (0x08000000#32 + BitVec.ofNat 32 (4 * i))) ++
        ((List.range (roundedLines fwSize)).flatMap fun i => [.cache 0x1b (0x08000000#32 + BitVec.ofNat 32 (64 * i)),
          .cache 0x08 (0x08000000#32 + BitVec.ofNat 32 (64 * i))]) := by
  let image := firmwareImage fwData fwSize patchIp
  have intact : (allegrex.listing image fwSize).Intact s :=
    MipsTrampoline.intact (by rw [allegrex_length]; exact fun i below => uploaded i (by omega))
  have handler : allegrex.place 67 = 0x0880410c#32 := by rw [allegrex_place]; rfl
  obtain ⟨begun, reachesBegun, pc, jump, ready, cp0, control, mem, bus⟩ :=
    allegrex_begins starts straight fun i below => uploaded i (by omega)
  obtain ⟨checked, ranChecked, pc, jump, ready, cp0Checked, controlChecked, memChecked, busChecked⟩ :=
    checksSize image pc jump ready size
  obtain ⟨rounded, ranRounded, cp0Rounded, controlRounded, memRounded, busRounded, copying⟩ :=
    rounds image pc jump ready size
  obtain ⟨copied, reachesCopied, copies⟩ := allegrex_copies image size.2 copying
  obtain ⟨bounded, ranBounded, cp0Bounded, controlBounded, memBounded, busBounded, flushing⟩ := bounds image size copies
  obtain ⟨flushed, reachesFlushed, flushes⟩ := flushes image size.2 flushing
  obtain ⟨entered, ranEntered, pcEntered, cp0Entered, controlEntered, memEntered, busEntered⟩ :=
    allegrex_epilogue image flushes
  have reached : Reaches (allegrex.listing image fwSize).Step s entered :=
    reachesBegun.trans <| (Listing.reaches_of_run ranChecked).trans <| (Listing.reaches_of_run ranRounded).trans <|
      reachesCopied.trans <| (Listing.reaches_of_run ranBounded).trans <| reachesFlushed.trans <|
        Listing.reaches_of_run ranEntered
  have written : entered.mem = storeAt s.mem 0x08000000 (slice s.mem 0x08804200 (4 * roundedWords fwSize)) := by
    rw [memEntered, flushes.mem, memBounded, copies.mem, memRounded, memChecked, mem]
  refine ⟨entered, (intact.reaches reached).1, pcEntered, ?_, ?_, fun i below => ?_, fun a outside => ?_, ?_⟩
  · rw [cp0Entered, flushes.cp0, cp0Bounded, copies.cp0, cp0Rounded, cp0Checked, cp0, handler]
    rfl
  · rw [controlEntered, flushes.control, controlBounded, copies.control, controlRounded, controlChecked, control, handler]
    rfl
  · have byte := updateBlob_image allegrexParams image fwSize i
    have length : allegrexParams.trampoline.length = 512 := allegrex_length
    rw [length, ← uploaded _ (by omega), ← Nat.add_assoc] at byte
    rw [written, storeAt_slice, if_pos (by rw [roundedWords]; omega), Nat.add_sub_cancel_left]
    exact byte
  · rw [written, storeAt_slice, if_neg (by omega)]
  · rw [busEntered, flushes.bus, busBounded, copies.bus, busRounded, busChecked, bus]

/-- An image of ten bytes, which the PSP copies to the end. -/
theorem allegrex_trampoline_installs_ten :
    ∃ t, Reaches mips.Step (allegrex.sent (fun i => BitVec.ofNat 8 i) 10) t ∧ t.pc = 0x08000000 ∧
      t.mem (0x08000000 + 9) = 9 := by
  obtain ⟨t, reached, pc, -, -, mem, -⟩ := @allegrex_trampoline_installs (fun i => BitVec.ofNat 8 i) 10 none
    (allegrex.sent (fun i => BitVec.ofNat 8 i) 10) rfl rfl (fun i _ => allegrex.sent_mem _ 10 i) (by decide)
  exact ⟨t, reached, pc, mem 9 (by decide)⟩

/-- A size of which the check does not approve. -/
theorem refuses (image : Buffer) {fwSize : ℕ} {s : Mips} (here : s.pc = allegrex.place 34) (straight : s.jump = none)
    (ready : AllegrexReady fwSize s) (size : fwSize = 0 ∨ 0x100000 < fwSize ∧ fwSize < 2 ^ 32) :
    ∃ count t, (allegrex.listing image fwSize).run count s = some t ∧ t.pc = allegrex.place 69 ∧ t.jump = none ∧
      t.mem = s.mem ∧ t.bus = s.bus := by
  obtain ⟨-, length, -⟩ := ready
  obtain ⟨gpr, cp0, control, pc, jump, mem, bus⟩ := s
  dsimp only at *
  subst here straight
  rcases size with nothing | ⟨long, short⟩
  · subst nothing
    have target : allegrex.place 35 + 136#32 = allegrex.place 69 := allegrex.place_add rfl
    refine ⟨2, ?_⟩
    simp [Listing.run, MipsTrampoline.step_place, allegrex_instrs, allegrexInstrs, Mips.exec, Mips.set, Mips.reg,
      Mips.next, Mips.branch, MipsTrampoline.place_add_four, length, target]
  · have something : BitVec.ofNat 32 fwSize ≠ 0#32 := by
      rw [ne_eq, BitVec.toNat_inj.symm, BitVec.toNat_ofNat, BitVec.toNat_ofNat]
      omega
    have exceeds : (0x100000#32).ult (BitVec.ofNat 32 fwSize) = true := by
      rw [BitVec.ult_eq_decide, BitVec.toNat_ofNat, BitVec.toNat_ofNat, decide_eq_true_eq]
      omega
    have target : allegrex.place 39 + 120#32 = allegrex.place 69 := allegrex.place_add rfl
    refine ⟨6, ?_⟩
    simp [Listing.run, MipsTrampoline.step_place, allegrex_instrs, allegrexInstrs, Mips.exec, Mips.set, Mips.reg,
      Mips.next, Mips.branch, MipsAlu.apply, MipsTrampoline.place_add_four, length, something, exceeds, target]

/-- The loop of a refused size leads back to the state it began in. -/
theorem spins (image : Buffer) (fwSize : ℕ) {s : Mips} (here : s.pc = allegrex.place 69) (straight : s.jump = none) :
    (allegrex.listing image fwSize).step s =
        some { s with pc := allegrex.place 70, jump := some (allegrex.place 69) } ∧
      (allegrex.listing image fwSize).step { s with pc := allegrex.place 70, jump := some (allegrex.place 69) } =
        some s := by
  obtain ⟨gpr, cp0, control, pc, jump, mem, bus⟩ := s
  dsimp only at *
  subst here straight
  have target : allegrex.place 70 + 4294967292#32 = allegrex.place 69 := allegrex.place_add rfl
  constructor <;>
    simp [MipsTrampoline.step_place, allegrex_instrs, allegrexInstrs, Mips.exec, Mips.set, Mips.reg, Mips.next,
      Mips.branch, MipsTrampoline.place_add_four, target]

/-- A size of which the check does not approve: nothing is written, and the trampoline turns on the spot for ever. -/
theorem allegrex_trampoline_refuses {fwData : Buffer} {fwSize : ℕ} {patchIp : Option CString} {s : Mips}
    (starts : s.pc = allegrexParams.loadAddr) (straight : s.jump = none)
    (uploaded : ∀ i < 512 + fwSize, s.mem (0x08804000 + i) =
      updateBlob allegrexParams (firmwareImage fwData fwSize patchIp) fwSize i)
    (size : fwSize = 0 ∨ 0x100000 < fwSize ∧ fwSize < 2 ^ 32) :
    ∃ t, Reaches mips.Step s t ∧ t.mem = s.mem ∧ t.bus = s.bus ∧ ∃ slot, mips.Step t slot ∧ mips.Step slot t := by
  let image := firmwareImage fwData fwSize patchIp
  have intact : (allegrex.listing image fwSize).Intact s :=
    MipsTrampoline.intact (by rw [allegrex_length]; exact fun i below => uploaded i (by omega))
  obtain ⟨begun, reachesBegun, pc, jump, ready, -, -, mem, bus⟩ :=
    allegrex_begins starts straight fun i below => uploaded i (by omega)
  obtain ⟨count, refused, ranRefused, pc, jump, memRefused, busRefused⟩ := refuses image pc jump ready size
  obtain ⟨away, back⟩ := spins image fwSize pc jump
  obtain ⟨reached, intact⟩ := intact.reaches (reachesBegun.trans (Listing.reaches_of_run ranRefused))
  obtain ⟨first, intact⟩ := intact.step away
  exact ⟨refused, reached, memRefused.trans mem, busRefused.trans bus, _, first, (intact.step back).1⟩

/-- A blob of no image. -/
theorem allegrex_trampoline_refuses_none :
    ∃ t, Reaches mips.Step (allegrex.sent (fun _ => 0) 0) t ∧ t.bus = [] ∧ ∃ slot, mips.Step t slot ∧ mips.Step slot t := by
  obtain ⟨t, reached, -, bus, spins⟩ := @allegrex_trampoline_refuses (fun _ => 0) 0 none (allegrex.sent (fun _ => 0) 0)
    rfl rfl (fun i _ => allegrex.sent_mem _ 0 i) (.inl rfl)
  exact ⟨t, reached, bus, spins⟩

end Allegrex

end KosTool.Firmware
