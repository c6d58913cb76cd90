import QtRvSim.Memory.Backend
import Mathlib.Data.List.FinRange

/-!
# Equality of memories

`Memory::operator==` compares the trees of two memories.  A section that was allocated by a write
of zeros reads as a missing one, but the comparison tells the two apart; it is the equality of the
contents only for memories with the same sections.
-/

namespace QtRvSim

open RadixTree

def MemorySection.beq {length : Nat} (s s' : MemorySection length) : Bool :=
  AddressMap.read s.dt 0 length == AddressMap.read s'.dt 0 length

namespace Memory

/-- Compares two rows of pointers, with `depth` rows below them. -/
def compareSectionTree : (depth : Nat) →
    (mt1 mt2 : Fin 16 → RadixTree (MemorySection 256) (Fin 16)) → Bool
  | 0, mt1, mt2 =>
    (List.finRange 16).all fun i =>
      match mt1 i, mt2 i with
      | .null, .null => true
      | .leaf sec1, .leaf sec2 => MemorySection.beq sec1 sec2
      | _, _ => false
  | depth + 1, mt1, mt2 =>
    (List.finRange 16).all fun i =>
      match mt1 i, mt2 i with
      | .null, .null => true
      | .row subtree1, .row subtree2 => compareSectionTree depth subtree1 subtree2
      | _, _ => false

def beq (m m' : Memory) : Bool :=
  compareSectionTree 5 m.mtRoot.pointers m'.mtRoot.pointers

/-- Copies a row of pointers, with `depth` rows below it. -/
def copySectionTree : (depth : Nat) → (mt : Fin 16 → RadixTree (MemorySection 256) (Fin 16)) →
    Fin 16 → RadixTree (MemorySection 256) (Fin 16)
  | 0, mt => fun i =>
    match mt i with
    | .leaf sec => .leaf sec
    | _ => .null
  | depth + 1, mt => fun i =>
    match mt i with
    | .row subtree => .row (copySectionTree depth subtree)
    | _ => .null

/-- The copy constructor and `reset` to another memory. -/
def copy (m : Memory) : Memory :=
  ⟨.row (copySectionTree 5 m.mtRoot.pointers)⟩

/-- Memories that come from new ones by writes, copies and resets. -/
inductive Produced : Memory → Prop
  | new : Produced new
  | write {m : Memory} (h : Produced m) (destination : Nat) (source : List Byte) :
      Produced (m.write destination source).2
  | copy {m : Memory} (h : Produced m) : Produced m.copy

/-! ### Rows -/

/-- A row of pointers, each null or with a section below it. -/
def FullRow (depth : Nat) (mt : Fin 16 → RadixTree (MemorySection 256) (Fin 16)) : Prop :=
  ∀ i, mt i = .null ∨ (mt i).Full depth

/-- Two sections are both missing or hold the same bytes. -/
def SameContent : Option (MemorySection 256) → Option (MemorySection 256) → Prop
  | none, none => True
  | some s, some s' => MemorySection.beq s s' = true
  | _, _ => False

theorem SameContent.none_iff {a b : Option (MemorySection 256)} (h : SameContent a b) :
    a = none ↔ b = none := by
  cases a <;> cases b <;> simp_all [SameContent]

theorem sameContent_some {s s' : MemorySection 256} :
    SameContent (some s) (some s') ↔ ∀ y < 256, s.dt y = s'.dt y := by
  rw [SameContent, MemorySection.beq, beq_iff_eq, AddressMap.read_inj]
  simp

variable {depth : Nat}

theorem copySectionTree_eq {mt : Fin 16 → RadixTree (MemorySection 256) (Fin 16)}
    (h : FullRow depth mt) : copySectionTree depth mt = mt := by
  induction depth generalizing mt with
  | zero =>
    funext i
    rcases h i with hnull | hfull
    · simp only [copySectionTree, hnull]
    · simp only [copySectionTree]
      cases hi : mt i with
      | null | leaf sec => rfl
      | row w => exact absurd hfull (by simp [hi, RadixTree.Full])
  | succ depth ih =>
    funext i
    rcases h i with hnull | hfull
    · simp only [copySectionTree, hnull]
    · simp only [copySectionTree]
      cases hi : mt i with
      | null => rfl
      | leaf sec => exact absurd hfull (by simp [hi, RadixTree.Full])
      | row w =>
        rw [hi] at hfull
        exact congrArg _ (ih hfull.1)

/-- What the comparison of two rows asks of a pair of pointers. -/
def comparePointers : Nat → RadixTree (MemorySection 256) (Fin 16) →
    RadixTree (MemorySection 256) (Fin 16) → Bool
  | _, .null, .null => true
  | 0, .leaf sec1, .leaf sec2 => MemorySection.beq sec1 sec2
  | depth + 1, .row subtree1, .row subtree2 => compareSectionTree depth subtree1 subtree2
  | _, _, _ => false

theorem compareSectionTree_eq_true {mt1 mt2 : Fin 16 → RadixTree (MemorySection 256) (Fin 16)} :
    compareSectionTree depth mt1 mt2 = true ↔
      ∀ i, comparePointers depth (mt1 i) (mt2 i) = true := by
  have hall : compareSectionTree depth mt1 mt2 =
      (List.finRange 16).all fun i => comparePointers depth (mt1 i) (mt2 i) := by
    cases depth with
    | zero | succ depth =>
      rw [compareSectionTree]
      congr 1
      funext i
      cases mt1 i <;> cases mt2 i <;> rfl
  simp [hall]

/-- The comparison finds the sections that differ. -/
theorem comparePointers_iff (i : Nat) {t1 t2 : RadixTree (MemorySection 256) (Fin 16)}
    (h1 : t1 = .null ∨ t1.Full depth) (h2 : t2 = .null ∨ t2.Full depth) :
    comparePointers depth t1 t2 = true ↔
      ∀ key, SameContent (t1.lookup key depth i) (t2.lookup key depth i) := by
  induction depth generalizing i t1 t2 with
  | zero =>
    cases t1 <;> cases t2 <;> simp_all [RadixTree.Full, comparePointers, SameContent, lookup]
  | succ depth ih =>
    have hmissing {t : RadixTree (MemorySection 256) (Fin 16)} (hfull : t.Full (depth + 1)) :
        ∃ key, t.lookup key (depth + 1) i ≠ none := hfull.exists_lookup i fun _ => 0
    rcases h1 with rfl | h1
    · rcases h2 with rfl | h2
      · simp [comparePointers, SameContent]
      · obtain ⟨key, hkey⟩ := hmissing h2
        refine iff_of_false ?_ fun hall => hkey ((hall key).none_iff.mp (by simp))
        cases t2 <;> simp_all [comparePointers]
    · rcases h2 with rfl | h2
      · obtain ⟨key, hkey⟩ := hmissing h1
        refine iff_of_false ?_ fun hall => hkey ((hall key).none_iff.mpr (by simp))
        cases t1 <;> simp_all [comparePointers]
      · cases t1 with
        | null | leaf sec1 => exact absurd h1 (by simp [RadixTree.Full])
        | row mt1 =>
          cases t2 with
          | null | leaf sec2 => exact absurd h2 (by simp [RadixTree.Full])
          | row mt2 =>
            rw [comparePointers, compareSectionTree_eq_true, forall_lookup_succ]
            exact forall_congr' fun d => ih (i + 1) (h1.1 d) (h2.1 d)

/-! ### Produced memories -/

/-- Every row below the root leads to a section. -/
def Full (m : Memory) : Prop :=
  ∃ mt, m.mtRoot = .row mt ∧ FullRow 5 mt

variable {m : Memory}

theorem Full.setSection (h : m.Full) (offset : Nat) (sec : MemorySection 256) :
    (m.setSection offset sec).Full := by
  obtain ⟨mt, hroot, hrow⟩ := h
  refine ⟨_, rfl, fun i => ?_⟩
  rw [hroot, pointers]
  by_cases hi : i = getTreeRow offset 0
  · subst hi
    rw [Function.update_self]
    exact .inr (full_store _ sec 1 (hrow _))
  · rw [Function.update_of_ne hi]
    exact hrow i

/-- A repeated access keeps what every access keeps. -/
theorem repeatAccessUntilCompleted_induction {σ ρ : Type} {nBytes : ρ → Nat} {add : ρ → ρ → ρ}
    {function : Nat → Nat → σ → Outcome σ ρ} (p : σ → Prop)
    (hstep : ∀ current size s, p s → p (function current size s).2) {fuel : Nat}
    (current size : Nat) (total : ρ) {s : σ} (h : p s) :
    p (repeatAccessUntilCompleted nBytes add function fuel current size total s).2 := by
  induction fuel generalizing current size total s with
  | zero => exact h
  | succ fuel ih =>
    have hnext := hstep current size s h
    simp only [repeatAccessUntilCompleted]
    split
    next e s' heq =>
      rwa [heq] at hnext
    next result s' heq =>
      rw [heq] at hnext
      split
      · exact hnext
      · split
        · exact ih _ _ _ hnext
        · exact hnext

theorem Produced.full (h : Produced m) : m.Full := by
  induction h with
  | new => exact ⟨_, rfl, fun _ => .inl rfl⟩
  | write _ destination source ih =>
    exact repeatAccessUntilCompleted_induction Full
      (fun current size m h => h.setSection current _) destination _ _ ih
  | copy _ ih =>
    obtain ⟨mt, hroot, hrow⟩ := ih
    refine ⟨mt, ?_, hrow⟩
    rw [Memory.copy, hroot, pointers, copySectionTree_eq hrow]

/-- Every way through the tree is the way of an address. -/
theorem exists_getTreeRow (key : Nat → Fin 16) :
    ∃ x, x < 2 ^ 32 ∧ RadixTree.SameKey key (getTreeRow x) 6 0 := by
  have hdigit (j : Nat) : (key j).val < 16 := (key j).isLt
  have h0 := hdigit 0
  have h1 := hdigit 1
  have h2 := hdigit 2
  have h3 := hdigit 3
  have h4 := hdigit 4
  have h5 := hdigit 5
  refine ⟨(key 0).val * 2 ^ 28 + (key 1).val * 2 ^ 24 + (key 2).val * 2 ^ 20 +
    (key 3).val * 2 ^ 16 + (key 4).val * 2 ^ 12 + (key 5).val * 2 ^ 8, by omega, ?_⟩
  intro j _ hj
  refine Fin.ext ?_
  simp only [getTreeRow]
  interval_cases j <;> simp only [Nat.reduceMul, Nat.reduceSub, Nat.reducePow] <;> omega

variable {m' : Memory}

/-- Memories are equal if their sections are. -/
theorem beq_iff (h : m.Full) (h' : m'.Full) :
    m.beq m' = true ↔ ∀ x < 2 ^ 32, SameContent (m.section? x) (m'.section? x) := by
  obtain ⟨mt, hroot, hrow⟩ := h
  obtain ⟨mt', hroot', hrow'⟩ := h'
  have hkeys : m.beq m' = true ↔
      ∀ key, SameContent (m.mtRoot.lookup key 6 0) (m'.mtRoot.lookup key 6 0) := by
    rw [beq, hroot, hroot', compareSectionTree_eq_true, forall_lookup_succ]
    exact forall_congr' fun d => comparePointers_iff 1 (hrow d) (hrow' d)
  rw [hkeys]
  constructor
  · intro hall x _
    exact hall (getTreeRow x)
  · intro hall key
    obtain ⟨x, hx, hkey⟩ := exists_getTreeRow key
    rw [lookup_congr hkey, lookup_congr hkey]
    exact hall x hx

/-- The same sections are allocated. -/
def SameSections (m m' : Memory) : Prop :=
  ∀ x < 2 ^ 32, (m.section? x = none ↔ m'.section? x = none)

def SameBytes (m m' : Memory) : Prop :=
  ∀ x < 2 ^ 32, (m.read x 1).1 = (m'.read x 1).1

theorem sameBytes_iff : m.SameBytes m' ↔ ∀ x < 2 ^ 32, m.byteAt x = m'.byteAt x := by
  have hread (m : Memory) (x : Nat) : (m.read x 1).1 = .ok [m.byteAt x] := by
    have hview : m.readView x x = m.byteAt x := by
      by_cases hgap : m.Gap x x
      · obtain ⟨y, hy, hy', hnone⟩ := hgap
        obtain rfl : y = x := by omega
        rw [readView_of_gap ⟨y, hy, hy', hnone⟩, byteAt, hnone]
      · exact readView_of_not_gap hgap
    rw [read_eq, ← hview]
    rfl
  simp [SameBytes, hread]

/-- Equal memories have the same sections and the same bytes. -/
theorem beq_iff_sections_bytes (h : m.Full) (h' : m'.Full) :
    m.beq m' = true ↔ m.SameSections m' ∧ m.SameBytes m' := by
  rw [beq_iff h h', sameBytes_iff]
  constructor
  · intro hall
    refine ⟨fun x hx => (hall x hx).none_iff, fun x hx => ?_⟩
    have hsame := hall x hx
    rw [byteAt, byteAt]
    cases hsec : m.section? x with
    | none => rw [((hall x hx).none_iff).mp hsec]
    | some s =>
      cases hsec' : m'.section? x with
      | none => simp [hsec, hsec', SameContent] at hsame
      | some s' =>
        rw [hsec, hsec'] at hsame
        exact sameContent_some.mp hsame _ (Nat.mod_lt _ (by decide))
  · rintro ⟨hsections, hbytes⟩ x hx
    cases hsec : m.section? x with
    | none =>
      rw [(hsections x hx).mp hsec]
      trivial
    | some s =>
      cases hsec' : m'.section? x with
      | none => simp [(hsections x hx).mpr hsec'] at hsec
      | some s' =>
        refine sameContent_some.mpr fun y hy => ?_
        -- the cell of the section as a byte of the memory
        have hsame : SameSection x (x / 256 * 256 + y) := by
          rw [SameSection]
          omega
        have hcell := hbytes (x / 256 * 256 + y) (by omega)
        rw [byteAt_eq_getSection m hsame, byteAt_eq_getSection m' hsame, getSection, getSection,
          hsec, hsec', getSectionOffsetMask, show (x / 256 * 256 + y) % 256 = y by omega] at hcell
        exact hcell

end Memory

end QtRvSim
