import Mathlib.Data.List.GetD
import Mathlib.Data.List.Range
import Mathlib.Tactic.Common

/-!
# Maps from addresses

A map from natural addresses to cells, read and written in ranges.
-/

namespace AddressMap

variable {β : Type}

/-- The `n` cells from an address on. -/
def read (f : Nat → β) (a n : Nat) : List β :=
  (List.range n).map fun i => f (a + i)

/-- The map with a list of cells stored from an address on. -/
def write (f : Nat → β) (a : Nat) (bs : List β) : Nat → β :=
  fun x => if a ≤ x then bs.getD (x - a) (f x) else f x

variable (f : Nat → β)

@[simp]
theorem read_length (a n : Nat) : (read f a n).length = n := by
  simp [read]

@[simp]
theorem read_zero (a : Nat) : read f a 0 = [] := rfl

theorem read_add (a m n : Nat) : read f a (m + n) = read f a m ++ read f (a + m) n := by
  simp only [read, List.range_add, List.map_append, List.map_map]
  congr 2
  funext i
  simp only [Function.comp, Nat.add_assoc]

variable {a : Nat} {g : Nat → β}

/-- Two maps read alike exactly if they agree on the range. -/
theorem read_inj {f : Nat → β} {n : Nat} :
    read f a n = read g a n ↔ ∀ x, a ≤ x → x < a + n → f x = g x := by
  simp only [read, List.map_inj_left, List.mem_range]
  constructor
  · intro h x hx hx'
    have hat := h (x - a) (by omega)
    rwa [Nat.add_sub_cancel' hx] at hat
  · intro h i hi
    exact h (a + i) (by omega) (by omega)

/-- A range that is found again at another place reads alike. -/
theorem read_shift {f : Nat → β} {n : Nat} (b : Nat)
    (hcells : ∀ x, a ≤ x → x < a + n → f x = g (x + b)) : read f a n = read g (a + b) n := by
  have hmoved : read g (a + b) n = read (fun x => g (x + b)) a n := by
    simp only [read, Nat.add_right_comm]
  rw [hmoved, read_inj]
  exact hcells

theorem read_eq_replicate {f : Nat → β} {n : Nat} {d : β}
    (hcells : ∀ x, a ≤ x → x < a + n → f x = d) : read f a n = List.replicate n d := by
  rw [read_inj.mpr hcells, read, List.map_const', List.length_range]

theorem read_getD {n i : Nat} (hi : i < n) (d : β) : (read f a n).getD i d = f (a + i) := by
  simp [read, List.getD_eq_getElem?_getD, hi]

variable {bs : List β}

/-- A list with the cells of a range is what a read of the range gives. -/
theorem eq_read {f : Nat → β} (d : β) (hcells : ∀ i < bs.length, bs.getD i d = f (a + i)) :
    bs = read f a bs.length := by
  refine List.ext_getElem (read_length ..).symm fun i hi hi' => ?_
  rw [← List.getD_eq_getElem _ d hi, ← List.getD_eq_getElem _ d hi', read_getD f hi, hcells i hi]

variable {x : Nat}

theorem write_of_lt (bs : List β) (hx : x < a) : write f a bs x = f x := by
  rw [write, if_neg (by omega)]

theorem write_of_ge (hx : a + bs.length ≤ x) : write f a bs x = f x := by
  rw [write, if_pos (by omega), List.getD_eq_getElem?_getD, List.getElem?_eq_none (by omega),
    Option.getD_none]

theorem write_of_mem (hx : a ≤ x) (d : β) (hx' : x < a + bs.length) :
    write f a bs x = bs.getD (x - a) d := by
  have hi : x - a < bs.length := by omega
  rw [write, if_pos hx, List.getD_eq_getElem _ _ hi, List.getD_eq_getElem _ _ hi]

theorem write_of_outside (hx : ¬(a ≤ x ∧ x < a + bs.length)) : write f a bs x = f x := by
  rcases Nat.lt_or_ge x a with hlt | hge
  · exact write_of_lt f bs hlt
  · exact write_of_ge f (by omega)

/-- What holds of a written byte and of the others holds at every address. -/
theorem write_cases {f : Nat → β} {P : β → Prop} (d : β)
    (hin : ∀ j < bs.length, a + j = x → P (bs.getD j d))
    (hout : ¬(a ≤ x ∧ x < a + bs.length) → P (f x)) : P (write f a bs x) := by
  by_cases hx : a ≤ x ∧ x < a + bs.length
  · rw [write_of_mem f hx.1 d hx.2]
    exact hin (x - a) (by omega) (by omega)
  · rw [write_of_outside f hx]
    exact hout hx

theorem write_congr {f : Nat → β} (h : f x = g x) (a : Nat) (bs : List β) :
    write f a bs x = write g a bs x := by
  rw [write, write, h]

@[simp]
theorem write_nil (a : Nat) : write f a [] = f := by
  funext x
  simp [write]

/-- A cell after a write depends on its content before and on its distance to the range. -/
theorem write_shift {f : Nat → β} (b : Nat) (bs : List β) (hcell : f x = g (x + b)) :
    write f a bs x = write g (a + b) bs (x + b) := by
  simp only [write, hcell, Nat.add_le_add_iff_right, Nat.add_sub_add_right]

/-- A write in two pieces. -/
theorem write_append (a : Nat) (bs cs : List β) :
    write f a (bs ++ cs) = write (write f a bs) (a + bs.length) cs := by
  funext x
  by_cases hx : x < a
  · rw [write_of_lt _ _ hx, write_of_lt _ _ (by omega), write_of_lt _ _ hx]
  by_cases hx' : x < a + bs.length
  · rw [write_of_lt _ _ hx', write, write, if_pos (by omega), if_pos (by omega),
      List.getD_append _ _ _ _ (by omega)]
  · rw [write, if_pos (by omega), List.getD_append_right _ _ _ _ (by omega),
      write.eq_def (write f a bs), if_pos (by omega), write_of_ge f (by omega)]
    congr 1
    omega

/-- Writing back what was read changes nothing. -/
theorem write_read (a n : Nat) : write f a (read f a n) = f := by
  funext x
  by_cases hx : x < a
  · rw [write_of_lt _ _ hx]
  by_cases hx' : x < a + n
  · rw [write_of_mem f (by omega) (f x) (by simpa using hx'), read_getD f (by omega),
      Nat.add_sub_cancel' (by omega)]
  · rw [write_of_ge _ (by simpa using hx')]

end AddressMap
