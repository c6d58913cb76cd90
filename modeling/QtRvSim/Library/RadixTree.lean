import Mathlib.Logic.Function.Basic

/-!
# Radix trees

A tree whose inner nodes are rows of pointers, with values below the last level.  A key is a
sequence of digits, one for each level; rows are created when a value is stored.
-/

/-- A pointer of the tree: null, a value or a row of pointers. -/
inductive RadixTree (α ι : Type) where
  | null
  | leaf (value : α)
  | row (pointers : ι → RadixTree α ι)

namespace RadixTree

variable {α ι : Type}

/-- The pointers of a row; a row that is missing is allocated with null pointers. -/
def pointers : RadixTree α ι → ι → RadixTree α ι
  | .row w => w
  | _ => fun _ => .null

/-- The value under a key, `n` levels below and with its digits taken from position `i` on. -/
def lookup (key : Nat → ι) : (n i : Nat) → RadixTree α ι → Option α
  | 0, _, .leaf value => some value
  | 0, _, _ => none
  | n + 1, i, t => lookup key n (i + 1) (t.pointers (key i))

def store [DecidableEq ι] (key : Nat → ι) (value : α) :
    (n i : Nat) → RadixTree α ι → RadixTree α ι
  | 0, _, _ => .leaf value
  | n + 1, i, t =>
    .row (Function.update t.pointers (key i) (store key value n (i + 1) (t.pointers (key i))))

/-- Two keys agree on the digits that a tree of `n` levels looks at. -/
def SameKey (key key' : Nat → ι) (n i : Nat) : Prop :=
  ∀ j, i ≤ j → j < i + n → key j = key' j

@[simp]
theorem lookup_null (key : Nat → ι) (n i : Nat) :
    lookup key n i (.null : RadixTree α ι) = none := by
  induction n generalizing i with
  | zero => rfl
  | succ n ih => exact ih (i + 1)

variable {n : Nat}

theorem lookup_congr {i : Nat} {key key' : Nat → ι} (hkey : SameKey key key' n i)
    (t : RadixTree α ι) : lookup key n i t = lookup key' n i t := by
  induction n generalizing i t with
  | zero => cases t <;> rfl
  | succ n ih =>
    have hdigit : key i = key' i := hkey i (Nat.le_refl i) (by omega)
    have hrest : SameKey key key' n (i + 1) := fun j hj hj' => hkey j (by omega) (by omega)
    simp only [lookup, hdigit]
    exact ih hrest _

theorem lookup_store_same [DecidableEq ι] (value : α) {i : Nat} {key key' : Nat → ι}
    (hkey : SameKey key key' n i) (t : RadixTree α ι) :
    lookup key' n i (store key value n i t) = some value := by
  induction n generalizing i t with
  | zero => rfl
  | succ n ih =>
    have hdigit : key i = key' i := hkey i (Nat.le_refl i) (by omega)
    have hrest : SameKey key key' n (i + 1) := fun j hj hj' => hkey j (by omega) (by omega)
    simp only [lookup, store, pointers, ← hdigit, Function.update_self]
    exact ih hrest _

theorem lookup_store_other [DecidableEq ι] (value : α) {i : Nat} {key key' : Nat → ι}
    (hkey : ¬ SameKey key key' n i) (t : RadixTree α ι) :
    lookup key' n i (store key value n i t) = lookup key' n i t := by
  induction n generalizing i t with
  | zero => exact absurd (fun j hj hj' => absurd hj (by omega)) hkey
  | succ n ih =>
    by_cases hdigit : key' i = key i
    · have hrest : ¬ SameKey key key' n (i + 1) := by
        intro hsame
        refine hkey fun j hj hj' => ?_
        by_cases hji : j = i
        · rw [hji, hdigit]
        · exact hsame j (by omega) (by omega)
      simp only [lookup, store, pointers, hdigit, Function.update_self]
      exact ih hrest _
    · simp only [lookup, store, pointers, Function.update_of_ne hdigit]

/-! ### Trees without empty rows -/

/-- A tree with a value in it and with a value below every one of its pointers. -/
def Full : Nat → RadixTree α ι → Prop
  | 0, .leaf _ => True
  | n + 1, .row w => (∀ d, w d = .null ∨ Full n (w d)) ∧ ∃ d, w d ≠ .null
  | _, _ => False

variable {t : RadixTree α ι}

theorem Full.ne_null (h : Full n t) : t ≠ .null := by
  rintro rfl
  cases n <;> exact h

theorem full_store [DecidableEq ι] (key : Nat → ι) (value : α) (i : Nat) (h : t = .null ∨ Full n t)
    : Full n (store key value n i t) := by
  induction n generalizing i t with
  | zero => trivial
  | succ n ih =>
    have hpointers (d : ι) : t.pointers d = .null ∨ Full n (t.pointers d) := by
      rcases h with rfl | hfull
      · exact .inl rfl
      · cases t with
        | null | leaf value => exact .inl rfl
        | row w => exact hfull.1 d
    have hnew := ih (i + 1) (hpointers (key i))
    refine ⟨fun d => ?_, key i, ?_⟩
    · by_cases hd : d = key i
      · subst hd
        rw [Function.update_self]
        exact .inr hnew
      · rw [Function.update_of_ne hd]
        exact hpointers d
    · rw [Function.update_self]
      exact hnew.ne_null

/-- A relation between the values of two trees, digit by digit. -/
theorem forall_lookup_succ [DecidableEq ι] {n i : Nat} {t t' : RadixTree α ι}
    (p : Option α → Option α → Prop) :
    (∀ key, p (lookup key (n + 1) i t) (lookup key (n + 1) i t')) ↔
      ∀ d key, p (lookup key n (i + 1) (t.pointers d)) (lookup key n (i + 1) (t'.pointers d)) := by
  constructor
  · intro h d key
    have hrest (t : RadixTree α ι) :
        lookup (Function.update key i d) n (i + 1) t = lookup key n (i + 1) t :=
      lookup_congr (fun j hj _ => Function.update_of_ne (show j ≠ i by omega) ..) t
    have hkey := h (Function.update key i d)
    simpa only [lookup, Function.update_self, hrest] using hkey
  · intro h key
    exact h (key i) key

theorem Full.exists_lookup [DecidableEq ι] (h : Full n t) (i : Nat) (key : Nat → ι) :
    ∃ key, lookup key n i t ≠ none := by
  by_contra hnone
  simp only [not_exists, not_not] at hnone
  induction n generalizing i t with
  | zero =>
    cases t with
    | null | row w => exact h
    | leaf value => exact absurd (hnone key) (by simp [lookup])
  | succ n ih =>
    cases t with
    | null | leaf value => exact h
    | row w =>
      obtain ⟨hrow, d, hd⟩ := h
      refine ih ((hrow d).resolve_left hd) (i + 1) fun key => ?_
      exact (@forall_lookup_succ _ _ _ n i (.row w) (.row w) fun a _ => a = none).mp hnone d key

end RadixTree
