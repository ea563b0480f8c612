import KosTool.Machine.StoredProgram
import KosTool.Math.ByteOrder
import Mathlib.Logic.Function.Basic

/-! # The MIPS instructions of the firmware trampolines

The instructions that the PlayStation 2 and PSP trampolines of `firmware_update.c` consist of, by their encodings. A jump
takes effect behind the instruction after it. The segments of the address space are views of one memory; a store and a
`cache` are noted with the address they are about.
-/

namespace KosTool.Firmware

open ByteWord Machine

/-- A register, general or of coprocessor 0, by its number. -/
abbrev MipsReg := ℕ

inductive MipsAlu where
  | addu
  | subu
  | and
  | or
  | sltu
deriving DecidableEq, Repr

inductive MipsInstr where
  | alu (op : MipsAlu) (rd rs rt : MipsReg)
  | sll (rd rt : MipsReg) (sa : ℕ)
  | srl (rd rt : MipsReg) (sa : ℕ)
  | addiu (rt rs : MipsReg) (imm : BitVec 16)
  | ori (rt rs : MipsReg) (imm : BitVec 16)
  | lui (rt : MipsReg) (imm : BitVec 16)
  | lw (rt base : MipsReg) (offset : BitVec 16)
  | sw (rt base : MipsReg) (offset : BitVec 16)
  | beq (rs rt : MipsReg) (disp : Word)
  | bne (rs rt : MipsReg) (disp : Word)
  | bgezal (rs : MipsReg) (disp : Word)
  | jr (rs : MipsReg)
  | mfc0 (rt rd : MipsReg)
  | mtc0 (rt rd : MipsReg)
  | ctc0 (rt rd : MipsReg)
  | cache (op : ℕ) (base : MipsReg) (offset : BitVec 16)
  | sync
  | eret
deriving DecidableEq, Repr

/-- What the memory system sees besides loads and fetches. -/
inductive MipsBus where
  | store (addr : Word)
  | cache (op : ℕ) (addr : Word)
deriving DecidableEq, Repr

/-- The state: the registers, those of the coprocessor and its control registers, and the target of a jump that has been
taken and waits for the instruction behind it. -/
structure Mips where
  gpr : MipsReg → Word
  cp0 : MipsReg → Word
  control : MipsReg → Word
  pc : Word
  jump : Option Word
  mem : Buffer
  bus : List MipsBus

/-- The place in the memory that an address of any segment names. -/
def phys (addr : Word) : ℕ := addr.toNat % 2 ^ 29

/-- The field of five bits that starts at a bit of the instruction. -/
def mipsField (instr : Word) (start : ℕ) : MipsReg := (instr.extractLsb' start 5).toNat

def decodeMips (instr : Word) : Option MipsInstr :=
  let rs := mipsField instr 21
  let rt := mipsField instr 16
  let rd := mipsField instr 11
  let sa := mipsField instr 6
  let imm := instr.extractLsb' 0 16
  let disp := imm.signExtend 32 <<< 2
  match (instr.extractLsb' 26 6).toNat with
  | 0 =>
    match (instr.extractLsb' 0 6).toNat with
    | 0 => if rs = 0 then some (.sll rd rt sa) else none
    | 2 => if rs = 0 then some (.srl rd rt sa) else none
    | 8 => if rt = 0 ∧ rd = 0 ∧ sa = 0 then some (.jr rs) else none
    | 15 => if rs = 0 ∧ rt = 0 ∧ rd = 0 then some .sync else none
    | 33 => if sa = 0 then some (.alu .addu rd rs rt) else none
    | 35 => if sa = 0 then some (.alu .subu rd rs rt) else none
    | 36 => if sa = 0 then some (.alu .and rd rs rt) else none
    | 37 => if sa = 0 then some (.alu .or rd rs rt) else none
    | 43 => if sa = 0 then some (.alu .sltu rd rs rt) else none
    | _ => none
  | 1 => if rt = 17 then some (.bgezal rs disp) else none
  | 4 => some (.beq rs rt disp)
  | 5 => some (.bne rs rt disp)
  | 9 => some (.addiu rt rs imm)
  | 13 => some (.ori rt rs imm)
  | 15 => if rs = 0 then some (.lui rt imm) else none
  | 16 =>
    if instr = 0x42000018 then some .eret
    else if instr.extractLsb' 0 11 ≠ 0 then none
    else
      match rs with
      | 0 => some (.mfc0 rt rd)
      | 4 => some (.mtc0 rt rd)
      | 6 => some (.ctc0 rt rd)
      | _ => none
  | 35 => some (.lw rt rs imm)
  | 43 => some (.sw rt rs imm)
  | 47 => some (.cache rt rs imm)
  | _ => none

/-- The result of a register instruction. -/
def MipsAlu.apply : MipsAlu → Word → Word → Word
  | addu, a, b => a + b
  | subu, a, b => a - b
  | and, a, b => a &&& b
  | or, a, b => a ||| b
  | sltu, a, b => if a.ult b then 1 else 0

namespace Mips

/-- The first register is zero. -/
def reg (s : Mips) (r : MipsReg) : Word := if r = 0 then 0 else s.gpr r

def set (s : Mips) (rd : MipsReg) (value : Word) : Mips :=
  if rd = 0 then s else { s with gpr := Function.update s.gpr rd value }

def next (s : Mips) : Mips := { s with pc := s.jump.getD (s.pc + 4), jump := none }

/-- A branch, taken or not; it is relative to the instruction after it. -/
def branch (s : Mips) (taken : Bool) (disp : Word) : Mips :=
  { s.next with jump := if taken then some (s.pc + 4 + disp) else none }

/-- A store of a word, if all four bytes may be written. -/
def store (writable : ℕ → Bool) (s : Mips) (addr value : Word) : Option Mips :=
  if (List.range 4).all fun i => writable (phys addr + i) then
    some { s with mem := storeAt s.mem (phys addr) (be32 (ByteOrder.little.htonl value)), bus := s.bus ++ [.store addr] }
  else none

/-- What an instruction does. -/
def exec (writable : ℕ → Bool) : MipsInstr → Mips → Option Mips
  | .alu op rd rs rt, s => some (s.set rd (op.apply (s.reg rs) (s.reg rt))).next
  | .sll rd rt sa, s => some (s.set rd (s.reg rt <<< sa)).next
  | .srl rd rt sa, s => some (s.set rd (s.reg rt >>> sa)).next
  | .addiu rt rs imm, s => some (s.set rt (s.reg rs + imm.signExtend 32)).next
  | .ori rt rs imm, s => some (s.set rt (s.reg rs ||| imm.setWidth 32)).next
  | .lui rt imm, s => some (s.set rt (imm.setWidth 32 <<< 16)).next
  | .lw rt base offset, s =>
    some (s.set rt (ByteOrder.little.load32 s.mem (phys (s.reg base + offset.signExtend 32)))).next
  | .sw rt base offset, s => (s.store writable (s.reg base + offset.signExtend 32) (s.reg rt)).map next
  | .beq rs rt disp, s => some (s.branch (s.reg rs = s.reg rt) disp)
  | .bne rs rt disp, s => some (s.branch (s.reg rs ≠ s.reg rt) disp)
  | .bgezal rs disp, s => some ((s.set 31 (s.pc + 8)).branch (!(s.reg rs).msb) disp)
  | .jr rs, s => some { s.next with jump := some (s.reg rs) }
  | .mfc0 rt rd, s => some (s.set rt (s.cp0 rd)).next
  | .mtc0 rt rd, s => some { s with cp0 := Function.update s.cp0 rd (s.reg rt) }.next
  | .ctc0 rt rd, s => some { s with control := Function.update s.control rd (s.reg rt) }.next
  | .cache op base offset, s => some { s with bus := s.bus ++ [MipsBus.cache op (s.reg base + offset.signExtend 32)] }.next
  | .sync, s => some s.next
  | .eret, s =>
    -- `ErrorEPC` while `Status.ERL` is set, otherwise `EPC` and `Status.EXL`
    if s.cp0 12 &&& 4 ≠ 0 then
      some { s with pc := s.cp0 30, jump := none, cp0 := Function.update s.cp0 12 (s.cp0 12 &&& ~~~4) }
    else some { s with pc := s.cp0 14, jump := none, cp0 := Function.update s.cp0 12 (s.cp0 12 &&& ~~~2) }

variable {writable : ℕ → Bool} {instr : MipsInstr} {s t : Mips}

theorem store_eq (s : Mips) {addr : Word} (value : Word) (free : ∀ i < 4, writable (phys addr + i) = true) :
    s.store writable addr value = some { s with
      mem := storeAt s.mem (phys addr) (be32 (ByteOrder.little.htonl value)), bus := s.bus ++ [.store addr] } :=
  if_pos (List.all_eq_true.mpr fun i below => free i (List.mem_range.mp below))

theorem store_free {addr value : Word} (stored : s.store writable addr value = some t) :
    s.store (fun _ => true) addr value = some t ∧ ∀ a, writable a = false → t.mem a = s.mem a := by
  rw [store] at stored
  split_ifs at stored with free
  cases stored
  refine ⟨store_eq s value fun _ _ => rfl, fun a kept => storeAt_outside _ ?_⟩
  by_contra inside
  have allowed := List.all_eq_true.mp free (a - phys addr) (List.mem_range.mpr (by rw [length_be32] at inside; omega))
  rw [Nat.add_sub_cancel' (by omega), kept] at allowed
  cases allowed

@[simp] theorem mem_set (s : Mips) (rd : MipsReg) (value : Word) : (s.set rd value).mem = s.mem := by
  rw [set]
  split_ifs <;> rfl

theorem exec_free (executed : exec writable instr s = some t) :
    exec (fun _ => true) instr s = some t ∧ ∀ a, writable a = false → t.mem a = s.mem a := by
  cases instr with
  | sw rt base offset =>
    obtain ⟨middle, stored, rfl⟩ := Option.map_eq_some_iff.mp executed
    obtain ⟨free, kept⟩ := store_free stored
    refine ⟨?_, kept⟩
    rw [exec, free]
    rfl
  | eret =>
    refine ⟨executed, fun a _ => ?_⟩
    rw [exec] at executed
    split_ifs at executed <;> cases executed <;> rfl
  | _ =>
    cases executed
    refine ⟨rfl, fun _ _ => ?_⟩
    simp only [next, branch, mem_set]

end Mips

/-- The processors of the PlayStation 2 and the PSP. -/
def mips : Processor Mips MipsInstr where
  memory := Mips.mem
  position s := phys s.pc
  decode memory a := decodeMips (ByteOrder.little.load32 memory a)
  exec := Mips.exec
  exec_free executed := (Mips.exec_free executed).1
  exec_kept executed := (Mips.exec_free executed).2

end KosTool.Firmware
