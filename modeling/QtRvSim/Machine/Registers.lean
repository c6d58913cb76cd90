import QtRvSim.Machine.Instruction
import Mathlib.Logic.Function.Basic

/-!
# Register file

General purpose registers and the program counter (`registers.cpp`).  The program counter is only
ever assigned through `writePc`, so its alignment is part of the type.
-/

namespace QtRvSim

structure Registers where
  gp : RegisterId → RegisterValue
  pc : Address
  pcAligned : pc.toNat % 4 = 0

namespace Registers

def readGp (regs : Registers) (reg : RegisterId) : RegisterValue :=
  if reg = 0 then 0 else regs.gp reg

def writeGp (regs : Registers) (reg : RegisterId) (value : RegisterValue) : Registers :=
  if reg = 0 then regs else { regs with gp := Function.update regs.gp reg value }

def unalignedJump (address : Address) : SimulatorException :=
  { kind := .unalignedJump
    reason := "Trying to jump to unaligned address"
    ext := hexString address.toNat
    cause := .none }

def writePc (regs : Registers) (address : Address) : Except SimulatorException Registers :=
  if haligned : address.toNat % 4 = 0 then
    .ok { regs with pc := address, pcAligned := haligned }
  else
    .error (unalignedJump address)

def pcInit : Address := 0x00000200

def spInit : RegisterValue := 0xbfffff00

def reset : Registers :=
  writeGp { gp := fun _ => 0, pc := pcInit, pcAligned := by decide } 2 spInit

variable (regs : Registers)

@[simp]
theorem readGp_zero : regs.readGp 0 = 0 := rfl

@[simp]
theorem writeGp_zero (value : RegisterValue) : regs.writeGp 0 value = regs := rfl

theorem readGp_writeGp (reg other : RegisterId) (value : RegisterValue) :
    (regs.writeGp reg value).readGp other =
      if other = reg ∧ reg ≠ 0 then value else regs.readGp other := by
  by_cases hreg : reg = 0
  · subst hreg
    simp only [writeGp_zero, ne_eq, not_true_eq_false, and_false, if_false]
  · have hgp : (regs.writeGp reg value).gp = Function.update regs.gp reg value := by
      rw [writeGp, if_neg hreg]
    simp only [readGp, hgp, Function.update_apply]
    by_cases hother : other = reg
    · rw [if_neg (hother ▸ hreg), if_pos hother, if_pos ⟨hother, hreg⟩]
    · simp only [hother, if_false, false_and]

theorem writePc_of_aligned {address : Address} (haligned : address.toNat % 4 = 0) :
    regs.writePc address = .ok { regs with pc := address, pcAligned := haligned } := by
  simp [writePc, haligned]

theorem writePc_of_unaligned {address : Address} (hunaligned : ¬ address.toNat % 4 = 0) :
    regs.writePc address = .error (unalignedJump address) := by
  simp [writePc, hunaligned]

end Registers

end QtRvSim
