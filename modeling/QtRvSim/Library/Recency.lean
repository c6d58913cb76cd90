import Mathlib.Data.Finset.Card
import Mathlib.Data.Finset.Dedup
import Mathlib.Data.List.Nodup

/-!
# Order of last use

The distinct elements of a history in the order of their last use, and a queue that keeps only the
first of them.  A history is a list, the latest element first.  An element is still in the queue if
and only if few enough distinct elements were used after it (`mem_recent_iff`).
-/

namespace Recency

open List (mem_cons take_succ_cons erase_cons_tail takeWhile_cons_of_pos)

variable {α : Type} [DecidableEq α]

/-- The distinct elements of a history, the one used last first. -/
def order : List α → List α
  | [] => []
  | a :: history => a :: (order history).erase a

/-- Uses an element in a queue of bounded length: it goes to the front, and what does not fit any
longer is dropped. -/
def touch (n : Nat) (a : α) (queue : List α) : List α :=
  (a :: queue.erase a).take n

def recent (n : Nat) (history : List α) : List α :=
  history.foldr (touch n) []

/-- The elements that were used after the last use of an element. -/
def since (a : α) (history : List α) : List α :=
  history.takeWhile (· ≠ a)

theorem recent_cons (n : Nat) (a : α) (history : List α) :
    recent n (a :: history) = touch n a (recent n history) :=
  rfl

variable {a : α}

variable {history : List α}

@[simp]
theorem mem_order : a ∈ order history ↔ a ∈ history := by
  induction history with
  | nil => exact Iff.rfl
  | cons b history ih =>
    rw [order, mem_cons, mem_cons]
    by_cases hab : a = b
    · exact iff_of_true (.inl hab) (.inl hab)
    · rw [List.mem_erase_of_ne hab, ih]

theorem nodup_order (history : List α) : (order history).Nodup := by
  induction history with
  | nil => exact List.nodup_nil
  | cons a history ih => exact List.nodup_cons.mpr ⟨ih.not_mem_erase, ih.erase a⟩

/-! ### The queue -/

variable {n : Nat} {l : List α}

theorem take_erase_of_mem (hmem : a ∈ l.take (n + 1)) :
    (l.take (n + 1)).erase a = (l.erase a).take n := by
  induction l generalizing n with
  | nil => exact absurd hmem List.not_mem_nil
  | cons b l ih =>
    rw [take_succ_cons] at hmem ⊢
    by_cases hb : b = a
    · rw [hb, List.erase_cons_head, List.erase_cons_head]
    · have hrest : a ∈ l.take n := (List.mem_cons.mp hmem).resolve_left (Ne.symm hb)
      rw [erase_cons_tail (by simpa using hb), erase_cons_tail (by simpa using hb)]
      cases n with
      | zero => exact absurd hrest List.not_mem_nil
      | succ n => rw [ih hrest, take_succ_cons]

theorem take_erase_of_notMem (hmem : a ∉ l.take n) : (l.erase a).take n = l.take n := by
  induction l generalizing n with
  | nil => rfl
  | cons b l ih =>
    cases n with
    | zero => rfl
    | succ n =>
      rw [take_succ_cons] at hmem ⊢
      have hb : b ≠ a := fun h => hmem (h ▸ List.mem_cons_self)
      rw [erase_cons_tail (by simpa using hb), take_succ_cons,
        ih fun h => hmem (List.mem_cons_of_mem _ h)]

/-- What was dropped from the queue does not matter. -/
theorem touch_take (n : Nat) (a : α) (l : List α) : touch n a (l.take n) = touch n a l := by
  unfold touch
  cases n with
  | zero => rfl
  | succ n =>
    rw [take_succ_cons, take_succ_cons]
    by_cases hmem : a ∈ l.take (n + 1)
    · rw [take_erase_of_mem hmem, List.take_take, Nat.min_self]
    · have hshort : a ∉ l.take n := fun h => hmem (List.take_subset_take_left l (Nat.le_succ n) h)
      rw [List.erase_of_not_mem hmem, List.take_take, Nat.min_eq_left (Nat.le_succ n),
        take_erase_of_notMem hshort]

/-- The queue holds the elements used last. -/
theorem recent_eq (n : Nat) (history : List α) : recent n history = (order history).take n := by
  induction history with
  | nil => exact List.take_nil.symm
  | cons a history ih => rw [recent_cons, ih, touch_take, touch, order]

/-! ### Positions -/

theorem takeWhile_erase {b : α} (hab : b ≠ a) (l : List α) :
    (l.erase b).takeWhile (· ≠ a) = (l.takeWhile (· ≠ a)).erase b := by
  induction l with
  | nil => rfl
  | cons c l ih =>
    by_cases hcb : c = b
    · rw [hcb, List.erase_cons_head, takeWhile_cons_of_pos (by simpa using hab),
        List.erase_cons_head]
    · rw [erase_cons_tail (by simpa using hcb)]
      by_cases hca : c = a
      · rw [List.takeWhile_cons_of_neg (by simpa using hca),
          List.takeWhile_cons_of_neg (by simpa using hca), List.erase_nil]
      · rw [takeWhile_cons_of_pos (by simpa using hca),
          takeWhile_cons_of_pos (by simpa using hca),
          erase_cons_tail (by simpa using hcb), ih]

/-- The elements before an element in the order are those used after it. -/
theorem mem_since_order {b : α} : b ∈ since a (order history) ↔ b ∈ since a history := by
  unfold since
  induction history with
  | nil => exact Iff.rfl
  | cons c history ih =>
    rw [order]
    by_cases hca : c = a
    · rw [List.takeWhile_cons_of_neg (by simpa using hca),
        List.takeWhile_cons_of_neg (by simpa using hca)]
    · rw [takeWhile_cons_of_pos (by simpa using hca),
        takeWhile_cons_of_pos (by simpa using hca), takeWhile_erase hca, mem_cons,
        mem_cons]
      by_cases hbc : b = c
      · exact iff_of_true (.inl hbc) (.inl hbc)
      · rw [List.mem_erase_of_ne hbc, ih]

theorem length_since_order (a : α) (history : List α) :
    (since a (order history)).length = (since a history).toFinset.card := by
  have hnodup : (since a (order history)).Nodup :=
    (nodup_order history).sublist (List.takeWhile_sublist _)
  rw [← List.toFinset_card_of_nodup hnodup]
  congr 1
  ext b
  rw [List.mem_toFinset, List.mem_toFinset, mem_since_order]

theorem mem_take_iff : a ∈ l.take n ↔ a ∈ l ∧ (since a l).length < n := by
  unfold since
  induction l generalizing n with
  | nil => simp
  | cons b l ih =>
    cases n with
    | zero => simp
    | succ n =>
      rw [take_succ_cons, mem_cons, mem_cons, ih]
      by_cases hb : b = a
      · rw [List.takeWhile_cons_of_neg (by simpa using hb)]
        exact iff_of_true (.inl hb.symm) ⟨.inl hb.symm, Nat.succ_pos n⟩
      · rw [takeWhile_cons_of_pos (by simpa using hb), List.length_cons,
          Nat.add_lt_add_iff_right]
        simp [Ne.symm hb]

/-- An element is in the queue if it was used, with fewer distinct elements after it than the queue
is long. -/
theorem mem_recent_iff :
    a ∈ recent n history ↔ a ∈ history ∧ (since a history).toFinset.card < n := by
  rw [recent_eq, mem_take_iff, mem_order, length_since_order]

end Recency
