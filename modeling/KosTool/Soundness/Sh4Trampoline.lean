import KosTool.Math.BlockCopy
import KosTool.Model.Firmware.Sh4
import KosTool.Model.Firmware.Update

/-! # The trampoline of the Dreamcast

The image is copied byte by byte to the space below the trampoline, both caches are switched off with what they hold, and
the loader is entered past them.
-/

namespace KosTool.Firmware

open ByteWord Machine BlockCopy

namespace Sh4Trampoline

/-- The instructions of `sh4_trampoline`. -/
def instrs : List Sh4Instr :=
  [.movlPc 0 0x0b, .ldcSr 0, .movlPc 4 0x0b, .movlPc 5 0x0c, .movlPc 6 0x0c,
    -- copy_loop, 5
    .movbLoadInc 0 4, .movbStore 5 0, .addImm 5 1, .dt 6, .bf 0xfa,
    .movlPc 0 0x0a, .movlPc 1 0x0b, .movlStore 0 1, .nop, .nop, .nop, .nop, .nop, .nop, .nop, .nop, .movlPc 0 0x07, .jmp 0,
    .nop]

theorem decode_trampoline : ∀ k < 24,
    decodeSh4 (ByteOrder.little.load16 (overlay sh4Trampoline fun _ => 0) (2 * k)) = instrs[k]? := by decide +kernel

theorem length_trampoline : sh4Trampoline.length = 256 := by decide +kernel

/-- Where the blob is uploaded. -/
@[irreducible] def load : ℕ := 0x0c010000

/-- The address of an instruction. -/
def place (k : ℕ) : Word := 0x8c010000#32 + BitVec.ofNat 32 (2 * k)

/-- The instruction at a place in the memory. -/
def code (a : ℕ) : Option Sh4Instr := if load ≤ a ∧ a % 2 = 0 then instrs[(a - load) / 2]? else none

/-- The trampoline is not to be written. -/
def writable (a : ℕ) : Bool := decide (a < load ∨ load + 256 ≤ a)

theorem place_add_two (k : ℕ) : place k + 2#32 = place (k + 1) := by
  rw [place, place, BitVec.add_assoc, Nat.mul_add, BitVec.ofNat_add]

theorem sh4Phys_place {k : ℕ} (inside : k < 128) : sh4Phys (place k) = load + 2 * k := by
  rw [sh4Phys, place, load, BitVec.toNat_add, BitVec.toNat_ofNat, BitVec.toNat_ofNat]
  omega

theorem code_place {k : ℕ} (inside : k < 128) : code (sh4Phys (place k)) = instrs[k]? := by
  rw [code, sh4Phys_place inside, if_pos (by rw [load]; omega), Nat.add_sub_cancel_left,
    Nat.mul_div_cancel_left k (by decide)]

/-- A half-word in front of the size, where the blob is uploaded. -/
theorem load16_code (image : Buffer) (fwSize : ℕ) {mem : Buffer} {i : ℕ} (inside : i + 2 ≤ 0x3c)
    (uploaded : ∀ j < 2, mem (load + i + j) = updateBlob sh4Params image fwSize (i + j)) :
    ByteOrder.little.load16 mem (load + i) = ByteOrder.little.load16 (overlay sh4Trampoline fun _ => 0) i := by
  have byte (j : ℕ) (below : j < 2) : mem (load + i + j) = overlay sh4Trampoline (fun _ => 0) (i + j) := by
    rw [uploaded j below]
    apply updateBlob_code
    · change _ < sh4Trampoline.length
      rw [length_trampoline]
      omega
    · change _ < 0x3c ∨ _
      omega
  rw [ByteOrder.load16, ByteOrder.load16, byte 1 (by decide)]
  exact congrArg _ (byte 0 (by decide))

/-- The trampoline with the size in it, where it is uploaded. -/
def listing (image : Buffer) (fwSize : ℕ) : Listing sh4 where
  code := code
  writable := writable
  image a := updateBlob sh4Params image fwSize (a - load)
  decodes := by
    intro memory kept a instr listed
    rw [code] at listed
    split_ifs at listed with inside
    have short : (a - load) / 2 < 24 := (List.getElem?_eq_some_iff.mp listed).1
    have whole : a = load + 2 * ((a - load) / 2) := by
      rw [load] at *
      omega
    rw [← listed, ← decode_trampoline _ short]
    change decodeSh4 (ByteOrder.little.load16 memory a) = _
    congr 1
    rw [whole, Nat.add_sub_cancel_left, Nat.mul_div_cancel_left _ (by decide)]
    refine load16_code image fwSize (by omega) fun j below => ?_
    rw [kept _ (by rw [writable, decide_eq_false_iff_not]; omega), Nat.add_assoc, Nat.add_sub_cancel_left]

variable {image : Buffer} {fwSize : ℕ}

/-- At the places of the trampoline its instructions are executed. -/
theorem step_place (gpr banked : Sh4Reg → Word) (sr : Word) (t : Bool) (jump : Option Word) (mem : Buffer)
    (bus : List Sh4Bus) {k : ℕ} (inside : k < 128) :
    (listing image fwSize).step ⟨gpr, banked, sr, t, place k, jump, mem, bus⟩ =
      instrs[k]?.bind fun instr => Sh4.exec writable instr ⟨gpr, banked, sr, t, place k, jump, mem, bus⟩ := by
  change (code (sh4Phys (place k))).bind _ = _
  rw [code_place inside]
  rfl

theorem intact {s : Sh4} (uploaded : ∀ i < 256, s.mem (load + i) = updateBlob sh4Params image fwSize i) :
    (listing image fwSize).Intact s := fun a kept => by
  have kept : writable a = false := kept
  rw [writable, decide_eq_false_iff_not] at kept
  have byte := uploaded (a - load) (by omega)
  rwa [Nat.add_sub_cancel' (by omega)] at byte

/-- The constants. -/
theorem load32_place {mem : Buffer} (uploaded : ∀ i < 256, mem (load + i) = updateBlob sh4Params image fwSize i) :
    ByteOrder.little.load32 mem (load + 0x30) = 0x500000f0#32 ∧
      ByteOrder.little.load32 mem (load + 0x34) = 0x8c010100#32 ∧
      ByteOrder.little.load32 mem (load + 0x38) = 0x8c004000#32 ∧
      ByteOrder.little.load32 mem (load + 0x3c) = BitVec.ofNat 32 fwSize ∧
      ByteOrder.little.load32 mem (load + 0x40) = 0xff00001c#32 ∧
      ByteOrder.little.load32 mem (load + 0x44) = 0x00000808#32 ∧
      ByteOrder.little.load32 mem (load + 0x48) = 0xac004000#32 := by
  have constant {i : ℕ} (inside : i + 4 ≤ 256) (apart : i + 4 ≤ 0x3c ∨ 0x3c + 4 ≤ i) :
      ByteOrder.little.load32 mem (load + i) = ByteOrder.little.load32 (overlay sh4Trampoline fun _ => 0) i := by
    have whole : i + 4 ≤ sh4Params.trampoline.length := inside.trans length_trampoline.ge
    rw [ByteOrder.load32, ByteOrder.load32, readBe32_code image fwSize whole (fun j below => ?_) apart]
    · rfl
    · rw [Nat.add_assoc]
      exact uploaded _ (by omega)
  have offset : sh4Params.sizePatchOffset = 0x3c := rfl
  have order : sh4Params.order = .little := rfl
  have length : sh4Params.trampoline.length = 256 := length_trampoline
  have size := @load32_size sh4Params image fwSize mem load (by rw [length]; exact uploaded)
  rw [offset, order] at size
  refine ⟨?_, ?_, ?_, size, ?_, ?_, ?_⟩
  all_goals
    rw [constant (by decide) (by decide)]
    decide +kernel

/-- Interrupts are shut off; this may change the bank of the registers. -/
theorem blocks {s : Sh4} (starts : s.pc = place 0) (straight : s.jump = none)
    (uploaded : ∀ i < 256, s.mem (load + i) = updateBlob sh4Params image fwSize i) :
    ∃ t, (listing image fwSize).run 2 s = some t ∧ t.pc = place 2 ∧ t.jump = none ∧ t.sr = 0x500000f0#32 ∧
      t.mem = s.mem ∧ t.bus = s.bus := by
  obtain ⟨gpr, banked, sr, t, pc, jump, mem, bus⟩ := s
  dsimp only at *
  subst starts straight
  obtain ⟨status, -⟩ := load32_place uploaded
  have at_status : sh4Phys ((place 0 &&& 0xfffffffc#32) + 4#32 + 44#32) = load + 0x30 := by rw [load]; decide
  by_cases bank : sr[29] = false
  · simp [Listing.run, step_place, instrs, Sh4.exec, Sh4.set, Sh4.next, Sh4.setSr, place_add_two, at_status, status, bank]
  · simp [Listing.run, step_place, instrs, Sh4.exec, Sh4.set, Sh4.next, Sh4.setSr, place_add_two, at_status, status, bank]

/-- The copy, after some bytes. -/
structure Copying (fwSize : ℕ) (start : Sh4) (k : ℕ) (s : Sh4) : Prop where
  pc : s.pc = if k < fwSize then place 5 else place 10
  straight : s.jump = none
  status : s.sr = 0x500000f0#32
  src : s.gpr 4 = 0x8c010100#32 + BitVec.ofNat 32 k
  dst : s.gpr 5 = 0x8c004000#32 + BitVec.ofNat 32 k
  left : s.gpr 6 = BitVec.ofNat 32 (fwSize - k)
  mem : s.mem = storeAt start.mem 0x0c004000 (slice start.mem 0x0c010100 k)
  bus : s.bus = start.bus ++ (List.range k).map fun i => .store (0x8c004000#32 + BitVec.ofNat 32 i)

theorem prepares {s : Sh4} (here : s.pc = place 2) (straight : s.jump = none) (blocked : s.sr = 0x500000f0#32)
    (uploaded : ∀ i < 256, s.mem (load + i) = updateBlob sh4Params image fwSize i) (some_byte : 0 < fwSize) :
    ∃ t, (listing image fwSize).run 3 s = some t ∧ t.mem = s.mem ∧ t.bus = s.bus ∧ Copying fwSize t 0 t := by
  obtain ⟨gpr, banked, sr, t, pc, jump, mem, bus⟩ := s
  dsimp only at *
  subst here straight blocked
  obtain ⟨-, src, dst, size, -, -, -⟩ := load32_place uploaded
  have at_src : sh4Phys ((place 2 &&& 0xfffffffc#32) + 4#32 + 44#32) = load + 0x34 := by rw [load]; decide
  have at_dst : sh4Phys ((place 3 &&& 0xfffffffc#32) + 4#32 + 48#32) = load + 0x38 := by rw [load]; decide
  have at_size : sh4Phys ((place 4 &&& 0xfffffffc#32) + 4#32 + 48#32) = load + 0x3c := by rw [load]; decide
  simp [Listing.run, step_place, instrs, Sh4.exec, Sh4.set, Sh4.next, place_add_two, at_src, at_dst, at_size, src, dst,
    size]
  constructor <;> simp [some_byte, slice, storeAt_nil]

/-- A byte that is loaded is stored as it was. -/
theorem setWidth_signExtend (byte : Byte) : (byte.signExtend 32).setWidth 8 = byte := by
  apply BitVec.eq_of_getLsbD_eq
  intro i inside
  rw [BitVec.getLsbD_setWidth, BitVec.getLsbD_signExtend]
  simp [inside, inside.trans (show 8 < 32 by decide)]

theorem copy_round {start s : Sh4} {k : ℕ} (fits : fwSize ≤ 0xc000) (more : k < fwSize)
    (copying : Copying fwSize start k s) :
    ∃ t, (listing image fwSize).run 5 s = some t ∧ Copying fwSize start (k + 1) t := by
  obtain ⟨pc, straight, status, src, dst, left, mem, bus⟩ := copying
  rw [if_pos more] at pc
  obtain ⟨gpr, banked, sr, t, pc', jump, mem', bus'⟩ := s
  dsimp only at *
  subst pc straight status mem bus
  have from_src : sh4Phys (0x8c010100#32 + BitVec.ofNat 32 k) = 0x0c010100 + k := by
    rw [sh4Phys, BitVec.toNat_add, BitVec.toNat_ofNat, BitVec.toNat_ofNat]
    omega
  have to_dst : sh4Phys (0x8c004000#32 + BitVec.ofNat 32 k) = 0x0c004000 + k := by
    rw [sh4Phys, BitVec.toNat_add, BitVec.toNat_ofNat, BitVec.toNat_ofNat]
    omega
  have low : ¬ 0xe0000000 ≤ (0x8c004000#32 + BitVec.ofNat 32 k).toNat := by
    rw [BitVec.toNat_add, BitVec.toNat_ofNat, BitVec.toNat_ofNat]
    omega
  have free : writable (0x0c004000 + k) = true := by
    rw [writable, load, decide_eq_true_eq]
    omega
  have one_less : BitVec.ofNat 32 (fwSize - k) - 1#32 = BitVec.ofNat 32 (fwSize - (k + 1)) := by
    apply BitVec.eq_of_toNat_eq
    rw [BitVec.toNat_sub, BitVec.toNat_ofNat, BitVec.toNat_ofNat, BitVec.toNat_ofNat]
    omega
  have last : BitVec.ofNat 32 (fwSize - (k + 1)) = 0#32 ↔ fwSize ≤ k + 1 := by
    rw [BitVec.toNat_inj.symm, BitVec.toNat_ofNat, BitVec.toNat_ofNat]
    omega
  have again : place 9 + 4#32 + 4294967284#32 = place 5 := by
    rw [place, place, BitVec.add_assoc, BitVec.add_assoc]
    rfl
  have below : 0x0c004000 ≤ 0x0c010100 ∨ 0x0c010100 + k + 1 ≤ 0x0c004000 := .inl (by decide)
  have copied := storeAt_slice_extend start.mem below
  have byte (mem : Buffer) (a : ℕ) : [((mem a).signExtend 32).setWidth 8] = slice mem a 1 := by
    rw [setWidth_signExtend, slice_one]
  simp [Listing.run, step_place, instrs, Sh4.exec, Sh4.set, Sh4.next, Sh4.store, place_add_two, src, dst, left, from_src,
    to_dst, low, free, one_less, last, again, byte, copied, -BitVec.toNat_add]
  split_ifs with done
  · constructor <;> simp [BitVec.ofNat_add, BitVec.add_assoc, List.range_succ, done]
  · constructor <;> simp [BitVec.ofNat_add, BitVec.add_assoc, List.range_succ, Nat.lt_of_not_le done]

/-- The copy. -/
theorem copies (image : Buffer) {start : Sh4} (fits : fwSize ≤ 0xc000) (begins : Copying fwSize start 0 start) :
    ∃ t, Reaches (listing image fwSize).Step start t ∧ Copying fwSize start fwSize t := by
  refine Reaches.loop (fun k more s copying => ?_) begins
  obtain ⟨t, ran, copying⟩ := copy_round fits more copying
  exact ⟨t, Listing.reaches_of_run ran, copying⟩

/-- The caches are switched off with what they hold. -/
theorem disables {start s : Sh4} (uploaded : ∀ i < 256, s.mem (load + i) = updateBlob sh4Params image fwSize i)
    (copied : Copying fwSize start fwSize s) :
    ∃ t, (listing image fwSize).run 3 s = some t ∧ t.pc = place 13 ∧ t.jump = none ∧ t.sr = 0x500000f0#32 ∧
      t.mem = s.mem ∧ t.bus = s.bus ++ [.control 0xff00001c 0x808] := by
  obtain ⟨pc, straight, status, -, -, -, -, -⟩ := copied
  rw [if_neg (Nat.lt_irrefl _)] at pc
  obtain ⟨gpr, banked, sr, t, pc', jump, mem, bus⟩ := s
  dsimp only at *
  subst pc straight status
  obtain ⟨-, -, -, -, register, value, -⟩ := load32_place uploaded
  have at_register : sh4Phys ((place 10 &&& 0xfffffffc#32) + 4#32 + 40#32) = load + 0x40 := by rw [load]; decide
  have at_value : sh4Phys ((place 11 &&& 0xfffffffc#32) + 4#32 + 44#32) = load + 0x44 := by rw [load]; decide
  simp [Listing.run, step_place, instrs, Sh4.exec, Sh4.set, Sh4.next, Sh4.store, place_add_two, at_register, at_value,
    register, value]

theorem waits (image : Buffer) (fwSize : ℕ) {s : Sh4} (here : s.pc = place 13) (straight : s.jump = none) :
    (listing image fwSize).run 8 s = some { s with pc := place 21 } := by
  obtain ⟨gpr, banked, sr, t, pc, jump, mem, bus⟩ := s
  dsimp only at *
  subst here straight
  simp [Listing.run, step_place, instrs, Sh4.exec, Sh4.next, place_add_two]

theorem enters {s : Sh4} (here : s.pc = place 21) (straight : s.jump = none)
    (uploaded : ∀ i < 256, s.mem (load + i) = updateBlob sh4Params image fwSize i) :
    ∃ t, (listing image fwSize).run 3 s = some t ∧ t.pc = 0xac004000#32 ∧ t.sr = s.sr ∧ t.mem = s.mem ∧ t.bus = s.bus := by
  obtain ⟨gpr, banked, sr, t, pc, jump, mem, bus⟩ := s
  dsimp only at *
  subst here straight
  obtain ⟨-, -, -, -, -, -, entry⟩ := load32_place uploaded
  have at_entry : sh4Phys ((place 21 &&& 0xfffffffc#32) + 4#32 + 28#32) = load + 0x48 := by rw [load]; decide
  simp [Listing.run, step_place, instrs, Sh4.exec, Sh4.set, Sh4.next, place_add_two, at_entry, entry]

/-- A processor about to run a blob that is all its memory holds. -/
def sent (image : Buffer) (fwSize : ℕ) : Sh4 where
  gpr _ := 0
  banked _ := 0
  sr := 0
  t := false
  pc := sh4Params.loadAddr
  jump := none
  mem a := updateBlob sh4Params image fwSize (a - load)
  bus := []

theorem sent_mem (image : Buffer) (fwSize i : ℕ) :
    (sent image fwSize).mem (load + i) = updateBlob sh4Params image fwSize i :=
  congrArg (updateBlob sh4Params image fwSize) (Nat.add_sub_cancel_left _ _)

end Sh4Trampoline

open Sh4Trampoline in
/-- The trampoline of a blob shuts off interrupts, puts the image where the loader runs, switches the caches off with what
they hold, and enters the loader past them. -/
theorem sh4_trampoline_installs {fwData : Buffer} {fwSize : ℕ} {patchIp : Option CString} {s : Sh4}
    (starts : s.pc = sh4Params.loadAddr) (straight : s.jump = none)
    (uploaded : ∀ i < 256 + fwSize,
      s.mem (load + i) = updateBlob sh4Params (firmwareImage fwData fwSize patchIp) fwSize i)
    (size : 0 < fwSize ∧ fwSize ≤ 0xc000) :
    ∃ t, Reaches sh4.Step s t ∧ t.pc = 0xac004000 ∧ t.sr = 0x500000f0 ∧
      t.mem = storeAt s.mem 0x0c004000 (slice (firmwareImage fwData fwSize patchIp) 0 fwSize) ∧
      t.bus = s.bus ++ ((List.range fwSize).map fun i => .store (0x8c004000#32 + BitVec.ofNat 32 i)) ++
        [.control 0xff00001c 0x808] := by
  let image := firmwareImage fwData fwSize patchIp
  have code : ∀ i < 256, s.mem (load + i) = updateBlob sh4Params image fwSize i := fun i below => uploaded i (by omega)
  have begins : s.pc = place 0 := by
    rw [starts, place, BitVec.add_zero]
    rfl
  obtain ⟨blocked, ranBlocked, pc, jump, status, memBlocked, busBlocked⟩ := blocks begins straight code
  obtain ⟨prepared, ranPrepared, memPrepared, busPrepared, copying⟩ :=
    prepares pc jump status (by rw [memBlocked]; exact code) size.1
  obtain ⟨copied, reachesCopied, copies⟩ := copies image size.2 copying
  have written : copied.mem = storeAt s.mem 0x0c004000 (slice s.mem 0x0c010100 fwSize) := by
    rw [copies.mem, memPrepared, memBlocked]
  have kept : ∀ i < 256, copied.mem (load + i) = updateBlob sh4Params image fwSize i := fun i below => by
    rw [written, storeAt_slice, if_neg (by rw [load]; omega)]
    exact code i below
  obtain ⟨disabled, ranDisabled, pc, jump, status, memDisabled, busDisabled⟩ := disables kept copies
  have waited := waits image fwSize pc jump
  obtain ⟨entered, ranEntered, pc, srEntered, memEntered, busEntered⟩ :=
    enters (s := { disabled with pc := place 21 }) rfl jump (by rw [memDisabled]; exact kept)
  have reached : Reaches (listing image fwSize).Step s entered :=
    (Listing.reaches_of_run ranBlocked).trans <| (Listing.reaches_of_run ranPrepared).trans <| reachesCopied.trans <|
      (Listing.reaches_of_run ranDisabled).trans <| (Listing.reaches_of_run waited).trans <|
        Listing.reaches_of_run ranEntered
  refine ⟨entered, ((intact code).reaches reached).1, pc, srEntered.trans status, ?_, ?_⟩
  · rw [memEntered, memDisabled, written]
    congr 1
    refine slice_congr fun i below => ?_
    have byte := updateBlob_image sh4Params image fwSize i
    have length : sh4Params.trampoline.length = 256 := length_trampoline
    rw [length, ← uploaded _ (by omega), load, ← Nat.add_assoc] at byte
    rw [Nat.zero_add]
    exact byte
  · rw [busEntered, busDisabled, copies.bus, busPrepared, busBlocked]

/-- An image of ten bytes. -/
theorem sh4_trampoline_installs_ten :
    ∃ t, Reaches sh4.Step (Sh4Trampoline.sent (fun i => BitVec.ofNat 8 i) 10) t ∧ t.pc = 0xac004000 ∧
      t.mem (0x0c004000 + 9) = 9 := by
  obtain ⟨t, reached, pc, -, mem, -⟩ := @sh4_trampoline_installs (fun i => BitVec.ofNat 8 i) 10 none
    (Sh4Trampoline.sent (fun i => BitVec.ofNat 8 i) 10) rfl rfl (fun i _ => Sh4Trampoline.sent_mem _ 10 i) (by decide)
  refine ⟨t, reached, pc, ?_⟩
  rw [mem, storeAt_slice, if_pos (by decide)]
  rfl

end KosTool.Firmware
