import QtRvSim.Assembler.SimpleAsm

/-!
# Resolution of relocations

What the end of an assembly does to memory: each relocation rewrites its own word, so the final
word at an address is the result of the relocations there.
-/

namespace QtRvSim

open ByteMemory BitVec

/-- The bytes of the word at `p` are not bytes of the word at `q`. -/
def WordsApart (p q : Address) : Prop :=
  ∀ i < 4, 4 ≤ (p + BitVec.ofNat 64 i - q).toNat

theorem wordsApart_of_aligned {p q : Address} (hp : p.toNat % 4 = 0) (hq : q.toNat % 4 = 0)
    (hne : p ≠ q) : WordsApart p q := fun _ hi =>
  le_offset_of_dvd (by decide) (Nat.dvd_of_mod_eq_zero hq) (Nat.dvd_of_mod_eq_zero hp) hne hi

theorem wordsApart_add_four (p : Address) : WordsApart (p + 4) p ∧ WordsApart p (p + 4) := by
  have hp := p.isLt
  have hfour : (4 : BitVec 64).toNat = 4 := rfl
  constructor
  · intro i hi
    rw [toNat_sub, toNat_add, toNat_add, toNat_ofNat, hfour]
    omega
  · intro i hi
    rw [toNat_sub, toNat_add, toNat_add, toNat_ofNat, hfour]
    omega

namespace SimpleAsm

variable {endian : Endian} {a a' : SimpleAsm} {r : RelocExpression}

def wordAt (endian : Endian) (a : SimpleAsm) (address : Address) : BitVec 32 :=
  a.mem.readU32 endian address

theorem wordAt_writeU32 (hfatal : a.fatalOccured = false) (address : Address)
    (word : BitVec 32) : (a.writeU32 endian address word).wordAt endian address = word := by
  have hshort : (bytesOfValue endian 4 word.toNat).length ≤ 2 ^ 64 := by
    rw [bytesOfValue_length]
    decide
  have hbytes := readBytes_writeBytes a.mem.bytes address hshort
  rw [bytesOfValue_length] at hbytes
  rw [wordAt, writeU32, writeMem, hfatal]
  simp only [Bool.false_eq_true, if_false, FlatMemory.readU32, FlatMemory.readBytes,
    FlatMemory.writeBytes, hbytes]
  apply eq_of_toNat_eq
  rw [toNat_ofNat]
  cases endian with
  | little =>
    rw [bytesOfValue, valueOfBytes, littleValue_littleBytes]
    omega
  | big =>
    rw [bytesOfValue, valueOfBytes, List.reverse_reverse, littleValue_littleBytes]
    omega

theorem wordAt_writeU32_of_apart {p q : Address} (h : WordsApart p q) (word : BitVec 32) :
    (a.writeU32 endian q word).wordAt endian p = a.wordAt endian p := by
  rw [wordAt, wordAt, writeU32, writeMem]
  split
  · rfl
  · simp only [FlatMemory.readU32, FlatMemory.readBytes, FlatMemory.writeBytes]
    rw [readBytes_writeBytes_of_outside]
    intro i hi
    rw [bytesOfValue_length]
    exact h i hi

/-- Writing a word changes memory only. -/
theorem writeU32_frame (endian : Endian) (address : Address) (word : BitVec 32) (a : SimpleAsm) :
    (a.writeU32 endian address word).symtab = a.symtab ∧
      (a.writeU32 endian address word).reloc = a.reloc ∧
      (a.writeU32 endian address word).fatalOccured = a.fatalOccured ∧
      (a.writeU32 endian address word).errorOccured = a.errorOccured ∧
      (a.writeU32 endian address word).messages = a.messages := by
  rw [writeU32, writeMem]
  split <;> exact ⟨rfl, rfl, rfl, rfl, rfl⟩

/-- A relocation changes memory at its own word only, and nothing that decides about others. -/
structure ResolveFrame (endian : Endian) (r : RelocExpression) (a a' : SimpleAsm) : Prop where
  symtab : a'.symtab = a.symtab
  fatalOccured : a'.fatalOccured = a.fatalOccured
  word : ∀ p, WordsApart p r.location → a'.wordAt endian p = a.wordAt endian p

theorem ResolveFrame.report (filename : Text) (line : Nat) (text : Text) :
    ResolveFrame endian r a (a.report filename line text) :=
  ⟨rfl, rfl, fun _ _ => rfl⟩

theorem ResolveFrame.writeU32 (word : BitVec 32) :
    ResolveFrame endian r a (a.writeU32 endian r.location word) := by
  obtain ⟨hsymtab, -, hfatal, -⟩ := writeU32_frame endian r.location word a
  exact ⟨hsymtab, hfatal, fun p hp => wordAt_writeU32_of_apart hp word⟩

theorem ResolveFrame.trans {b : SimpleAsm} (h : ResolveFrame endian r a b)
    (h' : ResolveFrame endian r b a') : ResolveFrame endian r a a' :=
  ⟨h'.symtab.trans h.symtab, h'.fatalOccured.trans h.fatalOccured,
    fun p hp => (h'.word p hp).trans (h.word p hp)⟩

theorem resolve_frame (h : a.resolve endian r = some a') : ResolveFrame endian r a a' := by
  unfold resolve at h
  split at h
  · cases h
    exact .report _ _ _
  · split at h
    · cases h
    · cases h
      exact .report _ _ _
    · dsimp only at h
      split at h
      · cases h
        exact .writeU32 _
      · cases h
        exact (ResolveFrame.report _ _ _).trans (.writeU32 _)

/-- A relocation whose value is accepted fills in its operand. -/
theorem resolve_accepted {root : FmeNode} {value : FmeValue} {inst : Instruction}
    (hparse : FmeNode.parse r.expression = .ok root)
    (heval : root.eval a.symtab r.location = .ok value)
    (hupdate : Instruction.update (a.wordAt endian r.location) value r = (true, inst)) :
    a.resolve endian r = some (a.writeU32 endian r.location inst) := by
  rw [wordAt] at hupdate
  simp only [resolve, hparse, heval, hupdate, if_true]

end SimpleAsm

end QtRvSim
