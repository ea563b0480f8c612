import KosTool.Machine.StoredProgram
import KosTool.Math.ByteOrder
import Mathlib.Logic.Function.Basic

/-! # The i386 instructions of the firmware trampoline

The instructions that the Xbox trampoline of `firmware_update.c` consists of, by their encodings. Addresses are linear ones.
-/

namespace KosTool.Firmware

open ByteWord Machine

/-- `eax`, `ecx`, `edx`, `ebx`, `esp`, `ebp`, `esi` and `edi`, by their numbers. -/
abbrev I386Reg := ℕ

inductive I386Instr where
  | cli
  | cld
  | movFromCr0 (r : I386Reg)
  | movToCr0 (r : I386Reg)
  | mov (dst src : I386Reg)
  | movImm (dst : I386Reg) (imm : Word)
  | andEax (imm : Word)
  | repMovsb
  | wbinvd
  | jmp (r : I386Reg)
deriving DecidableEq, Repr

/-- The bytes of an instruction. -/
def I386Instr.size : I386Instr → ℕ
  | cli | cld => 1
  | mov _ _ | repMovsb | wbinvd | jmp _ => 2
  | movFromCr0 _ | movToCr0 _ => 3
  | movImm _ _ | andEax _ => 5

inductive I386Bus where
  | store (addr : Word)
  | wbinvd
deriving DecidableEq, Repr

structure I386 where
  gpr : I386Reg → Word
  cr0 : Word
  interrupts : Bool
  down : Bool
  eip : Word
  mem : Buffer
  bus : List I386Bus

/-- The register of a field of three bits. -/
def i386Field (byte : Byte) (start : ℕ) : I386Reg := (byte.extractLsb' start 3).toNat

/-- The instruction at an address; a register operand is a `modrm` byte of mode 3. -/
def decodeI386 (memory : Buffer) (a : ℕ) : Option I386Instr :=
  let modrm := memory (a + 1)
  let imm := ByteOrder.little.load32 memory (a + 1)
  match (memory a).toNat with
  | 0x0f =>
    if modrm = 0x09 then some .wbinvd
    else if (memory (a + 2)).extractLsb' 3 5 ≠ 0x18 then none
    else if modrm = 0x20 then some (.movFromCr0 (i386Field (memory (a + 2)) 0))
    else if modrm = 0x22 then some (.movToCr0 (i386Field (memory (a + 2)) 0))
    else none
  | 0x25 => some (.andEax imm)
  | 0x89 => if modrm.extractLsb' 6 2 = 3 then some (.mov (i386Field modrm 0) (i386Field modrm 3)) else none
  | 0xf3 => if modrm = 0xa4 then some .repMovsb else none
  | 0xfa => some .cli
  | 0xfc => some .cld
  | 0xff => if modrm.extractLsb' 3 5 = 0x1c then some (.jmp (i386Field modrm 0)) else none
  | _ => if (memory a).extractLsb' 3 5 = 0x17 then some (.movImm (i386Field (memory a) 0) imm) else none

namespace I386

def set (s : I386) (r : I386Reg) (value : Word) : I386 := { s with gpr := Function.update s.gpr r value }

def next (s : I386) (size : ℕ) : I386 := { s with eip := s.eip + BitVec.ofNat 32 size }

/-- One byte of a string move: from `esi` to `edi`, and both on by one. -/
def movsb (s : I386) : I386 :=
  let by_one : Word := if s.down then -1 else 1
  { s with
    mem := storeAt s.mem (s.gpr 7).toNat [s.mem (s.gpr 6).toNat]
    bus := s.bus ++ [.store (s.gpr 7)]
    gpr := Function.update (Function.update s.gpr 6 (s.gpr 6 + by_one)) 7 (s.gpr 7 + by_one) }

/-- What an instruction does; a repeated move is left when it has counted down. -/
def exec (writable : ℕ → Bool) : I386Instr → I386 → Option I386
  | .cli, s => some ({ s with interrupts := false }.next 1)
  | .cld, s => some ({ s with down := false }.next 1)
  | .movFromCr0 r, s => some ((s.set r s.cr0).next 3)
  | .movToCr0 r, s => some ({ s with cr0 := s.gpr r }.next 3)
  | .mov dst src, s => some ((s.set dst (s.gpr src)).next 2)
  | .movImm dst imm, s => some ((s.set dst imm).next 5)
  | .andEax imm, s => some ((s.set 0 (s.gpr 0 &&& imm)).next 5)
  | .repMovsb, s =>
    if s.gpr 1 = 0 then some (s.next 2)
    else if writable (s.gpr 7).toNat then some (s.movsb.set 1 (s.gpr 1 - 1))
    else none
  | .wbinvd, s => some ({ s with bus := s.bus ++ [I386Bus.wbinvd] }.next 2)
  | .jmp r, s => some { s with eip := s.gpr r }

variable {writable : ℕ → Bool} {instr : I386Instr} {s t : I386}

theorem exec_free (executed : exec writable instr s = some t) :
    exec (fun _ => true) instr s = some t ∧ ∀ a, writable a = false → t.mem a = s.mem a := by
  cases instr with
  | repMovsb =>
    rw [exec] at executed ⊢
    split_ifs at executed with ended free
    · cases executed
      exact ⟨if_pos ended, fun _ _ => rfl⟩
    · cases executed
      refine ⟨by rw [if_neg ended, if_pos rfl], fun a kept => storeAt_outside _ ?_⟩
      rw [List.length_singleton]
      by_contra inside
      have same : a = (s.gpr 7).toNat := by omega
      rw [same, free] at kept
      cases kept
  | _ =>
    cases executed
    exact ⟨rfl, fun _ _ => rfl⟩

end I386

/-- The processor of the Xbox. -/
def i386 : Processor I386 I386Instr where
  memory := I386.mem
  position s := s.eip.toNat
  decode := decodeI386
  exec := I386.exec
  exec_free executed := (I386.exec_free executed).1
  exec_kept executed := (I386.exec_free executed).2

end KosTool.Firmware
