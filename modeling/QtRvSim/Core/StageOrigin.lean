import QtRvSim.Core.StageInvariant

/-!
# Origin of the instructions in flight

Every stage register of the pipelined core holds what the stages made of a fetched instruction:
the control signals are those of the instruction word, decoded at the privilege the hart still
has, and only the operands may have been replaced.
-/

namespace QtRvSim

open Core CorePipelined

variable {M : Type} [FrontendMemory M] {cfg : CoreConfig}

namespace Core

/-- The register is empty, or it holds an instruction with the address behind it and without an
exception of the memory stage. -/
def Fetched (f : FetchInterstage) : Prop :=
  f = {} ∨ f.nextInstAddr = f.instAddr + f.inst.size ∧
    f.excause ∉ [ExceptionCause.loadPageFault, .storePageFault]

/-- Up to its operands, the register is empty or holds a decoded instruction. -/
inductive Decoded (cfg : CoreConfig) (privilege : PrivilegeLevel) : DecodeInterstage → Prop where
  | empty (valRs valRt : RegisterValue) (ffRs ffRt : ForwardFrom) :
      Decoded cfg privilege (withOperands {} valRs valRt ffRs ffRt)
  | inst {f : FetchInterstage} (hfetched : Fetched f) (csrReadVal valRs valRt : RegisterValue)
      (ffRs ffRt : ForwardFrom) :
      Decoded cfg privilege (withOperands (decodeInterstage cfg f privilege valRs valRt csrReadVal)
        valRs valRt ffRs ffRt)

def Executed (cfg : CoreConfig) (privilege : PrivilegeLevel) (e : ExecuteInterstage) : Prop :=
  e = {} ∨ ∃ d, Decoded cfg privilege d ∧ e = execute d

theorem fetch_fetched (pc : PCInterstage) (skipBreak : Bool) (c : Core M) :
    Fetched (fetch cfg pc skipBreak c).1 := by
  have hexcause : (fetch cfg pc skipBreak c).1.excause ∉
      [ExceptionCause.loadPageFault, .storePageFault] := by
    have hdisjoint : ∀ e ∈ [ExceptionCause.none, .hwbreak, .insnPageFault, .intM, .intS],
        e ∉ [ExceptionCause.loadPageFault, .storePageFault] := by decide
    exact hdisjoint _ (fetch_excause_mem cfg pc skipBreak c)
  by_cases hstop : pc.stopIf = true
  · rw [fetch, if_pos hstop]
    exact .inl rfl
  · refine .inr ⟨?_, hexcause⟩
    rw [fetch, if_neg hstop]

omit [FrontendMemory M] in
theorem decode_decoded {f : FetchInterstage} {c : Core M} {d : DecodeInterstage} (h : Fetched f)
    (hdecode : decode cfg f c = .ok d) : Decoded cfg c.currentPrivilege d := by
  obtain ⟨csrReadVal, -, rfl⟩ := decode_ok hdecode
  exact .inst h csrReadVal _ _ .none .none

theorem Decoded.withOperands {privilege : PrivilegeLevel} {d : DecodeInterstage}
    (h : Decoded cfg privilege d) (valRs valRt : RegisterValue) (ffRs ffRt : ForwardFrom) :
    Decoded cfg privilege (CorePipelined.withOperands d valRs valRt ffRs ffRt) := by
  cases h with
  | empty => exact .empty valRs valRt ffRs ffRt
  | inst hfetched csrReadVal => exact .inst hfetched csrReadVal valRs valRt ffRs ffRt

end Core

/-- The instructions in flight have an origin. -/
theorem origin_stageInvariant (M : Type) [FrontendMemory M] (cfg : CoreConfig) :
    StageInvariant M cfg (fun _ f => Fetched f) (fun c d => Decoded cfg c.currentPrivilege d)
      (fun c e => Executed cfg c.currentPrivilege e) where
  emptyFetch _ := .inl rfl
  emptyDecode _ := .empty 0 0 .none .none
  emptyExecute _ := .inl rfl
  fetch c pc skipBreak := fetch_fetched pc skipBreak c
  decode h hdecode := decode_decoded h hdecode
  operands valRs valRt ffRs ffRt h := h.withOperands valRs valRt ffRs ffRt
  execute h := .inr ⟨_, h, rfl⟩
  frameFetch _ h := h
  frameDecode hmode h := by rw [hmode.privilege]; exact h
  frameExecute hmode h := by rw [hmode.privilege]; exact h

end QtRvSim
