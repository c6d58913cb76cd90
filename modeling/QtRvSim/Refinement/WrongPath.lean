import QtRvSim.Refinement.PreciseExceptions

/-!
# Instructions on a wrong path

An instruction that the pipelined core gives up before the memory stage has been fetched and maybe
decoded.  Its fetch counts a cycle and marks a page as accessed.  Its decoding has no effect but
one: a Zicsr instruction reads its CSR there, and a CSR that does not exist or may not be read ends
the run, although the program never gets to the instruction.
-/

namespace QtRvSim

open Core CorePipelined

variable {vm : VmSetup} {P : Type} [PhysicalMemory P] {cfg : CoreConfig}
  {c : Core (VirtualMemory vm P)}

/-- The instruction is no Zicsr instruction, or its CSR exists and may be read. -/
def Instruction.Decodable (inst : Instruction) (privilege : PrivilegeLevel) : Prop :=
  inst.flags.has .csr = true →
    (ControlState.getRegisterInternalId inst.csrAddress).isOk = true ∧
      (Csr.Address.getPrivilegeLevel inst.csrAddress).toNat ≤ privilege.toNat

/-- The decode stage throws at other instructions. -/
theorem decode_isOk_iff {M : Type} (dt : FetchInterstage) (core : Core M) :
    (∃ d, decode cfg dt core = .ok d) ↔ dt.inst.Decodable core.currentPrivilege := by
  have hread : (∃ d, decode cfg dt core = .ok d) ↔ ∃ v, decodeCsrRead dt.inst core = .ok v := by
    unfold decode
    cases decodeCsrRead dt.inst core <;> simp
  rw [hread, decodeCsrRead, decodeCsrAddress, Instruction.Decodable]
  cases hcsr : dt.inst.flags.has .csr with
  | false => simp
  | true =>
    simp only [if_true, forall_const, ControlState.read]
    cases ControlState.getRegisterInternalId dt.inst.csrAddress with
    | error e => simp [Except.isOk, Except.toBool]
    | ok id =>
      simp only [Except.isOk, Except.toBool, true_and]
      split
      next hlt => simp [Nat.not_le.mpr hlt]
      next hle => simp [Nat.not_lt.mp hle]

/-- A core that jumps over a word. -/
def jumpingCore (word : Instruction) : Core (VirtualMemory smallVm FlatMemory) :=
  .reset (.rv64 .stallForward) (.default false)
    ⟨emptyTlb, emptyTlb, .ofWords 0x200 [0x0080006f, word, 0x00100313]⟩

end QtRvSim
