import Mathlib.Data.List.Basic
import Mathlib.Data.Nat.Basic
import Mathlib.Order.Lattice

/-!
# Ordered maps

Maps with ordered keys, kept as the list of their entries in strictly ascending order, as an
iterator visits them.
-/

structure OrderedMap (K V : Type) [LinearOrder K] where
  entries : List (K × V)
  sorted : entries.Pairwise fun e e' => e.1 < e'.1

namespace OrderedMap

variable {K V : Type} [LinearOrder K] {m : OrderedMap K V} {k : K} {v : V} {e e' : K × V}

instance : Membership (K × V) (OrderedMap K V) :=
  ⟨fun m e => e ∈ m.entries⟩

theorem mem_def : e ∈ m ↔ e ∈ m.entries := Iff.rfl

def empty : OrderedMap K V := ⟨[], .nil⟩

/-- Adds an entry in place of the one with the same key. -/
def insert (k : K) (v : V) (m : OrderedMap K V) : OrderedMap K V where
  entries := (m.entries.filter (·.1 < k)) ++ (k, v) :: m.entries.filter (k < ·.1)
  sorted := by
    refine List.pairwise_append.mpr ⟨m.sorted.filter _,
      List.pairwise_cons.mpr ⟨fun e he => ?_, m.sorted.filter _⟩, fun e he e' he' => ?_⟩
    · simpa using (List.mem_filter.mp he).2
    · have hlow : e.1 < k := by simpa using (List.mem_filter.mp he).2
      rcases List.mem_cons.mp he' with rfl | hhigh
      · exact hlow
      · exact hlow.trans (by simpa using (List.mem_filter.mp hhigh).2)

def erase (k : K) (m : OrderedMap K V) : OrderedMap K V where
  entries := m.entries.filter (·.1 ≠ k)
  sorted := m.sorted.filter _

/-- The entries from the first one on whose key is not below a key. -/
def tailFrom (k : K) (m : OrderedMap K V) : List (K × V) :=
  m.entries.dropWhile (·.1 < k)

/-- The first entry whose key is not below a key. -/
def lowerBound (k : K) (m : OrderedMap K V) : Option (K × V) :=
  (m.tailFrom k).head?

def contains (k : K) (m : OrderedMap K V) : Bool :=
  m.entries.any (·.1 = k)

theorem not_mem_empty : e ∉ (empty : OrderedMap K V) := List.not_mem_nil

theorem mem_insert : e ∈ m.insert k v ↔ e = (k, v) ∨ e ∈ m ∧ e.1 ≠ k := by
  simp only [mem_def, insert, List.mem_append, List.mem_cons, List.mem_filter, decide_eq_true_eq]
  constructor
  · rintro (⟨he, hlt⟩ | rfl | ⟨he, hlt⟩)
    · exact .inr ⟨he, hlt.ne⟩
    · exact .inl rfl
    · exact .inr ⟨he, hlt.ne'⟩
  · rintro (rfl | ⟨he, hne⟩)
    · exact .inr (.inl rfl)
    · rcases lt_or_gt_of_ne hne with hlt | hlt
      · exact .inl ⟨he, hlt⟩
      · exact .inr (.inr ⟨he, hlt⟩)

theorem mem_erase : e ∈ m.erase k ↔ e ∈ m ∧ e.1 ≠ k := by
  simp only [mem_def, erase, List.mem_filter, decide_eq_true_eq]

theorem contains_iff : m.contains k = true ↔ ∃ v, (k, v) ∈ m := by
  simp only [contains, List.any_eq_true, decide_eq_true_eq, mem_def]
  constructor
  · rintro ⟨⟨k', v⟩, he, rfl⟩
    exact ⟨v, he⟩
  · rintro ⟨v, he⟩
    exact ⟨(k, v), he, rfl⟩

/-- A key has one entry. -/
theorem eq_of_key_eq (he : e ∈ m) (he' : e' ∈ m) (hkey : e.1 = e'.1) : e = e' := by
  by_contra hne
  have hsorted := m.sorted
  rw [List.pairwise_iff_getElem] at hsorted
  obtain ⟨i, hi, rfl⟩ := List.mem_iff_getElem.mp he
  obtain ⟨j, hj, rfl⟩ := List.mem_iff_getElem.mp he'
  rcases lt_trichotomy i j with hlt | rfl | hlt
  · exact (hsorted i j hi hj hlt).ne hkey
  · exact hne rfl
  · exact (hsorted j i hj hi hlt).ne' hkey

theorem dropWhile_eq_filter {l : List (K × V)} (hl : l.Pairwise fun e e' => e.1 < e'.1) (k : K) :
    l.dropWhile (·.1 < k) = l.filter (k ≤ ·.1) := by
  induction l with
  | nil => rfl
  | cons e l ih =>
    obtain ⟨hfirst, hrest⟩ := List.pairwise_cons.mp hl
    by_cases hlt : e.1 < k
    · rw [List.dropWhile_cons_of_pos (by simpa using hlt), ih hrest,
        List.filter_cons_of_neg (by simpa using hlt)]
    · have hall : l.filter (k ≤ ·.1) = l := by
        refine List.filter_eq_self.mpr fun e' he' => ?_
        simpa using (not_lt.mp hlt).trans (hfirst e' he').le
      rw [List.dropWhile_cons_of_neg (by simpa using hlt),
        List.filter_cons_of_pos (by simpa using hlt), hall]

theorem mem_tailFrom : e ∈ m.tailFrom k ↔ e ∈ m ∧ k ≤ e.1 := by
  rw [tailFrom, dropWhile_eq_filter m.sorted, List.mem_filter, decide_eq_true_eq, mem_def]

theorem sorted_tailFrom (k : K) (m : OrderedMap K V) :
    (m.tailFrom k).Pairwise fun e e' => e.1 < e'.1 :=
  m.sorted.sublist (List.dropWhile_sublist _)

/-- The lower bound is the least entry that is not below the key. -/
theorem lowerBound_eq_some (h : m.lowerBound k = some e) :
    e ∈ m ∧ k ≤ e.1 ∧ ∀ e' ∈ m, k ≤ e'.1 → e.1 ≤ e'.1 := by
  have hsorted := m.sorted_tailFrom k
  rw [lowerBound] at h
  have hmem := mem_tailFrom.mp (List.mem_of_mem_head? (by rw [h]; rfl))
  refine ⟨hmem.1, hmem.2, fun e' he' hle => ?_⟩
  have htail := mem_tailFrom.mpr ⟨he', hle⟩
  rcases hlist : m.tailFrom k with _ | ⟨first, rest⟩
  · rw [hlist] at htail
    exact absurd htail List.not_mem_nil
  · rw [hlist] at h htail hsorted
    obtain rfl := Option.some.inj h
    rcases List.mem_cons.mp htail with rfl | hrest
    · exact le_rfl
    · exact ((List.pairwise_cons.mp hsorted).1 e' hrest).le

/-- Without a lower bound every key is smaller. -/
theorem lowerBound_eq_none (h : m.lowerBound k = none) (he : e ∈ m) : e.1 < k := by
  by_contra hle
  have htail := mem_tailFrom.mpr ⟨he, not_lt.mp hle⟩
  rw [List.head?_eq_none_iff.mp h] at htail
  exact absurd htail List.not_mem_nil

end OrderedMap
