import QtRvSim.Assembler.Resolution

/-!
# Words and labels of a source text

The values that `.word` takes and the addresses that labels stand for.
-/

namespace QtRvSim

open Numeral

namespace SimpleAsm

variable {endian : Endian} {src : SourceLine} {a : SimpleAsm}

/-! ### Values of `.word` -/

theorem setWidth_eq_ofInt (v : BitVec 64) : v.setWidth 32 = BitVec.ofInt 32 v.toInt := by
  apply BitVec.eq_of_toInt_eq
  rw [BitVec.toInt_setWidth, BitVec.toInt_ofInt, BitVec.toInt_eq_toNat_bmod,
    Int.bmod_bmod_of_dvd (by decide)]

theorem wordArg_encode (x : BitVec 32) : wordArg.encode x = x := by
  have hmask : BitVec.ofNat 32 (2 ^ 32 - 1) = BitVec.allOnes 32 := rfl
  rw [wordArg, SplitBitField.encode, SplitBitField.encodeFields, BitField.encode, hmask,
    BitVec.and_allOnes]
  simp [SplitBitField.encodeFields]

theorem wordReloc_accepts (s : Text) (p : Address) (v : BitVec 64) :
    (wordReloc src s p).accepts v = decide (1 ≤ v.toNat ∧ v.toNat ≤ 0xffffffff) := by
  have hshift : (wordReloc src s p).arg.shift = 0 := rfl
  have hmin : (wordReloc src s p).min = 1 := rfl
  have haligned : v &&& (1#64 <<< 0 - 1) = 0#64 := BitVec.and_zero
  rw [RelocExpression.accepts, hshift, hmin, haligned, if_neg (by decide : ¬(0#64 ≠ 0)),
    if_neg (by decide), Bool.decide_and]
  rfl

/-- What the end of the assembly makes of the word. -/
theorem wordReloc_update (dt : Instruction) (s : Text) (p : Address) (v : BitVec 64) :
    Instruction.update dt v (wordReloc src s p) =
      if 1 ≤ v.toNat ∧ v.toNat ≤ 0xffffffff then (true, v.setWidth 32) else (false, 0) := by
  have hclear : dt &&& ~~~wordArg.encode (BitVec.allOnes 32) = 0 := by
    rw [wordArg_encode]
    simp
  have hoffset : v + (wordReloc src s p).offset = v := BitVec.add_zero v
  have harg : (wordReloc src s p).arg = wordArg := rfl
  have hplain : ¬(wordReloc src s p).pseudoMod ≠ .none := not_not.mpr rfl
  rw [Instruction.update, hoffset, harg, hclear, wordReloc_accepts, if_neg hplain, wordArg_encode]
  simp

/-- A relocation whose value is rejected adds an error. -/
theorem resolve_rejected {r : RelocExpression} {root : FmeNode} {value : FmeValue}
    {inst : Instruction} (hparse : FmeNode.parse r.expression = .ok root)
    (heval : root.eval a.symtab r.location = .ok value)
    (hupdate : Instruction.update (a.wordAt endian r.location) value r = (false, inst)) :
    ∃ a' message, a.resolve endian r = some a' ∧ a'.messages = message :: a.messages := by
  rw [wordAt] at hupdate
  simp only [resolve, hparse, heval, hupdate]
  exact ⟨_, _, rfl, (writeU32_frame _ _ _ _).2.2.2.2⟩

def IsLiteral (text : Text) (v : Int) : Prop :=
  ∃ s, scan text = some s ∧ s.length = text.length ∧ s.value = v

def Evaluates (a : SimpleAsm) (text : Text) (location : Address) (v : FmeValue) : Prop :=
  ∃ root, FmeNode.parse text = .ok root ∧ root.eval a.symtab location = .ok v

def ResolvesTo (endian : Endian) (r : RelocExpression) (a : SimpleAsm) (word : BitVec 32) : Prop :=
  ∃ a', a.resolve endian r = some a' ∧ a'.errorOccured = a.errorOccured ∧
    a'.messages = a.messages ∧ a'.wordAt endian r.location = word

theorem wordReloc_resolvesTo_iff (hfatal : a.fatalOccured = false) {s : Text} {p : Address}
    {v : FmeValue} (hv : a.Evaluates s p v)
    (hrange : -(2 ^ 32 - 1) ≤ v.toInt ∧ v.toInt ≤ 2 ^ 32 - 1) :
    ResolvesTo endian (wordReloc src s p) a (BitVec.ofInt 32 v.toInt) ↔ 1 ≤ v.toInt := by
  obtain ⟨root, hparse, heval⟩ := hv
  have hbound : 1 ≤ v.toInt ↔ 1 ≤ v.toNat ∧ v.toNat ≤ 0xffffffff := by
    have hlt := v.isLt
    rw [BitVec.toInt_eq_toNat_cond] at hrange ⊢
    split at hrange <;> split <;> omega
  have hupdate := @wordReloc_update src (a.wordAt endian p) s p v
  constructor
  · rintro ⟨a', hresolve, -, hmessages, -⟩
    by_contra hlow
    rw [if_neg (mt hbound.mpr hlow)] at hupdate
    obtain ⟨a'', message, hresolve', hadded⟩ := resolve_rejected hparse heval hupdate
    obtain rfl := Option.some.inj (hresolve.symm.trans hresolve')
    exact List.cons_ne_self message a.messages (hadded.symm.trans hmessages)
  · intro hpos
    rw [if_pos (hbound.mp hpos)] at hupdate
    refine ⟨_, resolve_accepted hparse heval hupdate, (writeU32_frame _ _ _ _).2.2.2.1,
      (writeU32_frame _ _ _ _).2.2.2.2, ?_⟩
    rw [wordAt_writeU32 hfatal, setWidth_eq_ofInt]

def emptyAsm : SimpleAsm :=
  setup ⟨fun _ => 0⟩ (fun _ => none) 0x200 ._32

/-! ### Labels -/

def IsCode (op : Text) : Prop :=
  op ≠ [] ∧ op ∉ [".text", ".data", ".bss", ".globl", ".end", ".ent", ".option", ".org", ".space",
    ".skip", ".equ", ".set", ".ascii", ".asciz", ".byte"].map String.toList

instance (op : Text) : Decidable (IsCode op) :=
  inferInstanceAs (Decidable (_ ∧ _))

theorem writeMem_symtab (address : Address) (bytes : List Byte) :
    (a.writeMem address bytes).symtab = a.symtab := by
  rw [writeMem]
  split <;> rfl

theorem and_three_eq_zero_iff (p : Address) : p &&& 3 = 0 ↔ p.toNat % 4 = 0 := by
  rw [← BitVec.toNat_inj, BitVec.toNat_and]
  exact Eq.congr_left (Nat.and_two_pow_sub_one_eq_mod p.toNat 2)

/-- Filling up defines no symbols, and moves the address unless it is aligned already. -/
theorem alignFor_spec (fuel : Nat) (a : SimpleAsm) :
    (alignFor fuel a).symtab = a.symtab ∧
      ∃ k ≤ fuel, (alignFor fuel a).address = a.address + BitVec.ofNat 64 k ∧
        (0 < fuel → (k = 0 ↔ a.address.toNat % 4 = 0)) := by
  induction fuel generalizing a with
  | zero => exact ⟨rfl, 0, le_rfl, (BitVec.add_zero _).symm, fun h => absurd h (lt_irrefl 0)⟩
  | succ fuel ih =>
    rw [alignFor]
    split
    · rename_i haligned
      exact ⟨rfl, 0, Nat.zero_le _, (BitVec.add_zero _).symm,
        fun _ => iff_of_true rfl ((and_three_eq_zero_iff _).mp haligned)⟩
    · rename_i haligned
      obtain ⟨hsymtab, k, hk, haddress, -⟩ :=
        ih { a.writeMem a.address [0] with address := a.address + 1 }
      refine ⟨hsymtab.trans (writeMem_symtab _ _), k + 1, Nat.succ_le_succ hk, ?_, fun _ =>
        iff_of_false k.succ_ne_zero (mt (and_three_eq_zero_iff _).mpr haligned)⟩
      rw [haddress, Nat.add_comm, BitVec.ofNat_add, ← BitVec.add_assoc]
      rfl

theorem align_address_iff : a.align.address = a.address ↔ a.address.toNat % 4 = 0 := by
  obtain ⟨-, k, hk, haddress, hiff⟩ := alignFor_spec 3 a
  rw [align, haddress, ← hiff (by decide), add_eq_left, ← BitVec.toNat_inj,
    BitVec.toNat_ofNat, Nat.mod_eq_of_lt (by omega)]
  rfl

theorem emitWords_symtab (words : List Instruction) (a : SimpleAsm) :
    (emitWords endian words a).symtab = a.symtab := by
  induction words generalizing a with
  | nil => rfl
  | cons word words ih => exact (ih _).trans (writeU32_frame _ _ _ _).1

/-- Words put one after another, whatever relocations come with them. -/
def Emits (endian : Endian) (words : List Instruction) (a a' : SimpleAsm) : Prop :=
  ∃ reloc, a' = emitWords endian words { a with reloc := reloc }

theorem processWord_cons (s : Text) (operands : List Text) (a : SimpleAsm) :
    ∃ word reloc, processWord endian src (s :: operands) a = processWord endian src operands
      { { a with reloc := reloc }.writeU32 endian a.address word with
        address := a.address + 4 } := by
  simp only [processWord]
  split
  · exact ⟨_, a.reloc, rfl⟩
  · exact ⟨_, _, rfl⟩

/-- `.word` puts one word for each operand. -/
theorem processWord_emits (operands : List Text) (a : SimpleAsm) :
    ∃ words, words.length = operands.length ∧
      Emits endian words a (processWord endian src operands a) := by
  induction operands generalizing a with
  | nil => exact ⟨[], rfl, a.reloc, rfl⟩
  | cons s operands ih =>
    obtain ⟨word, reloc, heq⟩ := @processWord_cons endian src s operands a
    obtain ⟨words, hlength, reloc', hwords⟩ := ih
      { { a with reloc := reloc }.writeU32 endian a.address word with address := a.address + 4 }
    refine ⟨word :: words, congrArg Nat.succ hlength, reloc', ?_⟩
    rw [heq, hwords, emitWords, writeU32, writeU32, writeMem, writeMem]
    split <;> rfl

theorem processInstruction_emits {op : Text} {operands : List Text} {a' : SimpleAsm}
    (h : a.processInstruction endian op operands src.filename src.lineNumber = (true, a')) :
    ∃ words, Emits endian words a.align a' := by
  unfold processInstruction at h
  dsimp only at h
  generalize codeFromTokens 8 _ _ _ = code at h
  obtain ⟨error | words, reloc⟩ := code
  · simp at h
  · exact ⟨words, reloc.getD [], (Prod.mk.inj h).2.symm⟩

/-- An accepted line with code defines its label and puts words at the next aligned address. -/
theorem processLine_emits {label op : Text} (hlabel : label ≠ []) (hop : IsCode op)
    {operands : List Text} {a' : SimpleAsm}
    (h : a.processLine endian label op operands src = some (true, a')) :
    ∃ words, Emits endian words (a.setSymbol label a.address).align a' := by
  obtain ⟨hempty, hother⟩ := hop
  simp only [List.map_cons, List.map_nil, List.mem_cons, List.not_mem_nil, or_false,
    not_or] at hother
  simp only [processLine, if_neg hlabel, if_neg hempty, hother, List.map_cons, List.map_nil,
    List.mem_cons, List.not_mem_nil, or_false, if_false] at h
  split at h
  · obtain ⟨words, -, hwords⟩ :=
      @processWord_emits endian src operands (a.setSymbol label a.address).align
    cases h
    exact ⟨words, hwords⟩
  · exact processInstruction_emits (Option.some.inj h)

/-- The label of an accepted line with code has the address of the line's first word exactly if the
address in front of the line is aligned. -/
theorem label_value_iff (endian : Endian) (src : SourceLine) (a : SimpleAsm) (label op : Text)
    (hlabel : label ≠ []) (hop : IsCode op) (operands : List Text) (a' : SimpleAsm)
    (h : a.processLine endian label op operands src = some (true, a')) :
    ∃ words, Emits endian words (a.setSymbol label a.address).align a' ∧
      (a'.symtab label = some (a.setSymbol label a.address).align.address ↔
        a.address.toNat % 4 = 0) := by
  obtain ⟨words, reloc, rfl⟩ := processLine_emits hlabel hop h
  have hvalue : (a.setSymbol label a.address).align.symtab label = some a.address := by
    rw [align, (alignFor_spec _ _).1]
    exact if_pos rfl
  refine ⟨words, ⟨reloc, rfl⟩, ?_⟩
  rw [emitWords_symtab, hvalue, Option.some_inj, eq_comm]
  exact align_address_iff

theorem label_value_aligned :
    ∃ words a', Emits .little words (emptyAsm.setSymbol ['x'] 0x200).align a' ∧
      a'.symtab ['x'] = some (emptyAsm.setSymbol ['x'] 0x200).align.address :=
  (label_value_iff .little ⟨[], [], 1⟩ emptyAsm ['x'] ".word".toList (by decide) (by decide)
    ["2".toList] _ rfl).imp fun _ h => ⟨_, h.1, h.2.mpr rfl⟩

/-- The label of a word after a single byte names the padding. -/
theorem label_after_byte :
    ((emptyAsm.processLine .little [] ".byte".toList ["1".toList] ⟨[], [], 1⟩).bind fun line =>
        (line.2.processLine .little ['x'] ".word".toList ["2".toList] ⟨[], [], 2⟩).map
          fun line => (line.1, line.2.symtab ['x'], line.2.mem.readU32 .little 0x204)) =
      some (true, some 0x201, 2) := by
  decide +kernel

end SimpleAsm

end QtRvSim
