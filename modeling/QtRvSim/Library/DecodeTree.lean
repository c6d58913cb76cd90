import Mathlib.Data.BitVec
import Mathlib.Data.List.Basic

/-!
# Decode trees

A decode tree selects an entry for a machine word: every inner node reads a contiguous bit field of
the word and continues with the child of that number.  The two facts a client needs are that a
lookup always ends in a leaf of the tree, so a property of all leaves holds of every lookup result,
and that a word agreeing with a leaf's pattern on a mask that covers the path's fields is looked up
to that leaf.
-/

/-- A contiguous field of a machine word. -/
structure BitField where
  count : Nat
  offset : Nat
deriving DecidableEq, Repr

namespace BitField

variable {n : Nat}

def decode (f : BitField) (w : BitVec n) : BitVec n :=
  (w >>> f.offset) &&& (BitVec.ofNat n (2 ^ f.count - 1))

def mask (f : BitField) (n : Nat) : BitVec n :=
  BitVec.ofNat n (2 ^ f.count - 1) <<< f.offset

/-- The field of a word depends only on the bits under a mask that covers the field. -/
theorem decode_eq_of_mask (f : BitField) {w code m : BitVec n}
    (hcover : f.mask n &&& m = f.mask n) (hmatch : (w ^^^ code) &&& m = 0#n) :
    f.decode w = f.decode code := by
  have hsub : (w ^^^ code) &&& f.mask n = 0#n := by
    rw [← hcover, BitVec.and_comm (f.mask n), ← BitVec.and_assoc, hmatch, BitVec.zero_and]
  apply BitVec.eq_of_getLsbD_eq
  intro i hi
  simp only [decode, BitVec.getLsbD_and, BitVec.getLsbD_ushiftRight]
  by_cases hin : f.offset + i < n
  · have hbit := congrArg (fun v => v.getLsbD (f.offset + i)) hsub
    have hlow : ¬ f.offset + i < f.offset := by omega
    simp only [mask, BitVec.getLsbD_and, BitVec.getLsbD_xor, BitVec.getLsbD_shiftLeft, hin, hlow,
      Nat.add_sub_cancel_left, decide_true, decide_false, Bool.not_false, Bool.true_and,
      BitVec.getLsbD_zero] at hbit
    cases hone : (BitVec.ofNat n (2 ^ f.count - 1)).getLsbD i with
    | false => simp only [Bool.and_false]
    | true =>
      rw [hone, Bool.and_true] at hbit
      simpa using hbit
  · simp only [BitVec.getLsbD_of_ge _ _ (Nat.not_lt.mp hin)]

/-- A field of one bit. -/
theorem decode_bit (k : Nat) (w : BitVec n) :
    (mk 1 k).decode w = if w.getLsbD k then 1#n else 0#n := by
  apply BitVec.eq_of_getLsbD_eq
  intro i hi
  by_cases hzero : i = 0
  · subst hzero
    cases hbit : w.getLsbD k <;> simp [decode, hbit, hi]
  · cases hbit : w.getLsbD k <;> simp [decode, hzero]

end BitField

/-- A set of words given by the values of some of their bits. -/
structure WordPattern (n : Nat) where
  code : BitVec n
  mask : BitVec n
deriving DecidableEq, Repr

namespace WordPattern

variable {n : Nat}

def Matches (p : WordPattern n) (w : BitVec n) : Prop :=
  (w ^^^ p.code) &&& p.mask = 0

instance (p : WordPattern n) (w : BitVec n) : Decidable (p.Matches w) :=
  inferInstanceAs (Decidable (_ = _))

/-- The pattern fixes every bit another one fixes, to the same value. -/
def Within (p q : WordPattern n) : Prop :=
  q.mask &&& p.mask = q.mask ∧ (p.code ^^^ q.code) &&& q.mask = 0

instance (p q : WordPattern n) : Decidable (p.Within q) :=
  inferInstanceAs (Decidable (_ ∧ _))

theorem Matches.of_within {p q : WordPattern n} {w : BitVec n} (h : p.Matches w)
    (hwithin : p.Within q) : q.Matches w := by
  obtain ⟨hmask, hcode⟩ := hwithin
  apply BitVec.eq_of_getLsbD_eq
  intro i hi
  have hw := congrArg (·.getLsbD i) h
  have hm := congrArg (·.getLsbD i) hmask
  have hc := congrArg (·.getLsbD i) hcode
  simp only [BitVec.getLsbD_and, BitVec.getLsbD_xor, BitVec.ofNat_eq_ofNat,
    BitVec.getLsbD_zero] at hw hm hc ⊢
  revert hw hm hc
  cases w.getLsbD i <;> cases p.code.getLsbD i <;> cases q.code.getLsbD i <;>
    cases p.mask.getLsbD i <;> cases q.mask.getLsbD i <;> decide

end WordPattern

/-- A tree of bit-field tests with an entry in every leaf. -/
inductive DecodeTree (α : Type) where
  | leaf (entry : α)
  | sub (field : BitField) (children : List (DecodeTree α))

namespace DecodeTree

variable {α : Type} {n : Nat}

mutual

/-- Entry selected by a word; `dflt` stands for a child that does not exist. -/
def lookup (dflt : α) (w : BitVec n) : DecodeTree α → α
  | .leaf entry => entry
  | .sub field children => lookupAt dflt w children (field.decode w).toNat

def lookupAt (dflt : α) (w : BitVec n) : List (DecodeTree α) → Nat → α
  | [], _ => dflt
  | t :: _, 0 => lookup dflt w t
  | _ :: ts, i + 1 => lookupAt dflt w ts i

end

/-- The field values a word must have to reach a leaf. -/
abbrev Path := List (BitField × Nat)

/-- A word takes every turn of a path. -/
def Follows (w : BitVec n) (path : Path) : Prop :=
  ∀ turn ∈ path, (turn.1.decode w).toNat = turn.2

mutual

def leaves (path : Path) : DecodeTree α → List (Path × α)
  | .leaf entry => [(path, entry)]
  | .sub field children => leavesFrom path field 0 children

/-- The leaves below the children of a node, numbered from `i`. -/
def leavesFrom (path : Path) (field : BitField) (i : Nat) :
    List (DecodeTree α) → List (Path × α)
  | [] => []
  | t :: ts => leaves ((field, i) :: path) t ++ leavesFrom path field (i + 1) ts

end

def entries (t : DecodeTree α) : List α :=
  (t.leaves []).map Prod.snd

mutual

private theorem path_subset (path : Path) : (t : DecodeTree α) → (l : Path × α) →
    l ∈ t.leaves path → ∀ turn ∈ path, turn ∈ l.1
  | .leaf entry, l, hl, turn, hturn => by
    rw [leaves, List.mem_singleton] at hl
    exact hl ▸ hturn
  | .sub field children, l, hl, turn, hturn => by
    rw [leaves] at hl
    exact path_subset_from path field 0 children l hl turn hturn

private theorem path_subset_from (path : Path) (field : BitField) (i : Nat) :
    (ts : List (DecodeTree α)) → (l : Path × α) → l ∈ leavesFrom path field i ts →
    ∀ turn ∈ path, turn ∈ l.1
  | [], l, hl, _, _ => by simp [leavesFrom] at hl
  | t :: ts, l, hl, turn, hturn => by
    rw [leavesFrom, List.mem_append] at hl
    rcases hl with hl | hl
    · exact path_subset ((field, i) :: path) t l hl turn (List.mem_cons_of_mem _ hturn)
    · exact path_subset_from path field (i + 1) ts l hl turn hturn

end

private theorem turn_mem_from (path : Path) (field : BitField) (i : Nat) :
    (ts : List (DecodeTree α)) → (l : Path × α) → l ∈ leavesFrom path field i ts →
    ∃ j, i ≤ j ∧ (field, j) ∈ l.1
  | [], l, hl => by simp [leavesFrom] at hl
  | t :: ts, l, hl => by
    rw [leavesFrom, List.mem_append] at hl
    rcases hl with hl | hl
    · exact ⟨i, le_rfl, path_subset ((field, i) :: path) t l hl _ List.mem_cons_self⟩
    · obtain ⟨j, hij, hj⟩ := turn_mem_from path field (i + 1) ts l hl
      exact ⟨j, by omega, hj⟩

mutual

/-- A word that follows a leaf's path is looked up to the leaf's entry. -/
theorem lookup_of_follows (dflt : α) (w : BitVec n) (path : Path) :
    (t : DecodeTree α) → (l : Path × α) → l ∈ t.leaves path → Follows w l.1 →
    t.lookup dflt w = l.2
  | .leaf entry, l, hl, _ => by
    rw [leaves, List.mem_singleton] at hl
    rw [hl, lookup]
  | .sub field children, l, hl, hfollows => by
    rw [leaves] at hl
    rw [lookup]
    exact lookupAt_of_follows dflt w path field 0 children l hl hfollows _ (by omega)

/-- The same for the children of a node. -/
theorem lookupAt_of_follows (dflt : α) (w : BitVec n) (path : Path) (field : BitField) (i : Nat) :
    (ts : List (DecodeTree α)) → (l : Path × α) → l ∈ leavesFrom path field i ts →
    Follows w l.1 → (k : Nat) → (field.decode w).toNat = i + k →
    lookupAt dflt w ts k = l.2
  | [], l, hl, _, _, _ => by simp [leavesFrom] at hl
  | t :: ts, l, hl, hfollows, k, hk => by
    rw [leavesFrom, List.mem_append] at hl
    rcases hl with hl | hl
    · -- the leaf lies below this child, so the word's field has this child's number
      have hturn := hfollows _
        (path_subset ((field, i) :: path) t l hl _ List.mem_cons_self)
      obtain rfl : k = 0 := by simp only at hturn; omega
      rw [lookupAt]
      exact lookup_of_follows dflt w _ t l hl hfollows
    · obtain ⟨j, hij, hj⟩ := turn_mem_from path field (i + 1) ts l hl
      have hturn := hfollows _ hj
      obtain ⟨k, rfl⟩ : ∃ k', k = k' + 1 := ⟨k - 1, by simp only at hturn; omega⟩
      rw [lookupAt]
      exact lookupAt_of_follows dflt w path field (i + 1) ts l hl hfollows k (by omega)

end

mutual

/-- A lookup ends in a leaf of the tree or at a missing child. -/
theorem lookup_mem_leaves (dflt : α) (w : BitVec n) (path : Path) :
    (t : DecodeTree α) → t.lookup dflt w ∈ (t.leaves path).map Prod.snd ∨ t.lookup dflt w = dflt
  | .leaf entry => by simp [lookup, leaves]
  | .sub field children => by
    rw [lookup, leaves]
    exact lookupAt_mem_leaves dflt w path field 0 children _

/-- The same for the children of a node. -/
theorem lookupAt_mem_leaves (dflt : α) (w : BitVec n) (path : Path) (field : BitField) (i : Nat) :
    (ts : List (DecodeTree α)) → (k : Nat) →
    lookupAt dflt w ts k ∈ (leavesFrom path field i ts).map Prod.snd ∨ lookupAt dflt w ts k = dflt
  | [], k => by simp [lookupAt]
  | t :: ts, 0 => by
    rw [lookupAt, leavesFrom, List.map_append, List.mem_append]
    exact (lookup_mem_leaves dflt w ((field, i) :: path) t).imp Or.inl id
  | t :: ts, k + 1 => by
    rw [lookupAt, leavesFrom, List.map_append, List.mem_append]
    exact (lookupAt_mem_leaves dflt w path field (i + 1) ts k).imp Or.inr id

end

/-- A property of all entries and of the default holds of every lookup result. -/
theorem lookup_of_entries {p : α → Prop} {dflt : α} {t : DecodeTree α}
    (hentries : ∀ a ∈ t.entries, p a) (hdflt : p dflt) (w : BitVec n) :
    p (t.lookup dflt w) := by
  rcases lookup_mem_leaves dflt w [] t with hmem | heq
  · exact hentries _ hmem
  · rw [heq]
    exact hdflt

/-- A pattern fixes every turn of a path: the mask covers the path's fields and the pattern itself
takes the turns. -/
def PatternFixes (code mask : BitVec n) (path : Path) : Prop :=
  ∀ turn ∈ path, turn.1.mask n &&& mask = turn.1.mask n ∧ (turn.1.decode code).toNat = turn.2

instance (code mask : BitVec n) (path : Path) : Decidable (PatternFixes code mask path) :=
  inferInstanceAs (Decidable (∀ turn ∈ path, _))

/-- A word that matches a leaf's pattern follows the leaf's path, if the pattern fixes it. -/
theorem follows_of_pattern {w code mask : BitVec n} {path : Path}
    (hfixes : PatternFixes code mask path) (hmatch : (w ^^^ code) &&& mask = 0#n) :
    Follows w path := by
  intro turn hturn
  obtain ⟨hcover, hcode⟩ := hfixes turn hturn
  rw [turn.1.decode_eq_of_mask hcover hmatch, hcode]

end DecodeTree
