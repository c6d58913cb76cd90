import Mathlib.Data.List.Basic
import Mathlib.Data.BitVec

/-!
# Loops with a counter of fixed width

`for (i = 0; i < n; i++)` with a counter of `w` bits.  The counter of a loop of `2 ^ w` rounds or
more wraps round before it reaches the bound, and the loop does not end.
-/

namespace CountedLoop

variable {σ α : Type*} {w : Nat}

/-- The loop from a value of the counter on; `none` if the fuel does not last. -/
def run (n : Nat) (body : Nat → σ → σ) : Nat → BitVec w → σ → Option σ
  | 0, _, _ => none
  | fuel + 1, i, s =>
    if i.toNat < n then run n body fuel (i + 1) (body i.toNat s) else some s

/-- The loop makes the remaining rounds one after the other. -/
theorem run_eq_some {n fuel : Nat} (body : Nat → σ → σ) (hn : n < 2 ^ w) {i : BitVec w}
    (hi : i.toNat ≤ n) (hfuel : n - i.toNat < fuel) (s : σ) :
    run n body fuel i s =
      some ((List.range' i.toNat (n - i.toNat)).foldl (fun s i => body i s) s) := by
  induction fuel generalizing i s with
  | zero => omega
  | succ fuel ih =>
    rw [run]
    split
    next hlt =>
      have hnext : (i + 1).toNat = i.toNat + 1 := by
        rw [BitVec.toNat_add, show (1 : BitVec w) = 1#w from rfl, BitVec.toNat_ofNat,
          Nat.add_mod_mod]
        exact Nat.mod_eq_of_lt (by omega)
      rw [ih (by omega) (by omega), hnext]
      obtain ⟨k, hk⟩ : ∃ k, n - i.toNat = k + 1 := ⟨n - i.toNat - 1, by omega⟩
      rw [hk, show n - (i.toNat + 1) = k by omega, List.range'_succ, List.foldl_cons]
    next hge =>
      rw [show n - i.toNat = 0 by omega]
      rfl

/-- A loop whose bound the counter cannot reach does not end. -/
theorem run_eq_none {n : Nat} (hn : 2 ^ w ≤ n) (body : Nat → σ → σ) (fuel : Nat) (i : BitVec w)
    (s : σ) : run n body fuel i s = none := by
  induction fuel generalizing i s with
  | zero => rfl
  | succ fuel ih =>
    rw [run, if_pos (i.isLt.trans_le hn)]
    exact ih (i + 1) _

/-! ### Passes over a table -/

/-- A table with the rows visited so far. -/
structure Pass (α : Type*) where
  table : List α
  visited : List Nat := []

def pass (w fuel : Nat) (f : α → α) (table : List α) : Option (Pass α) :=
  run table.length (fun i p => { table := p.table.modify i f, visited := p.visited ++ [i] })
    fuel (0 : BitVec w) { table := table }

/-- Rows changed one after the other. -/
theorem foldl_modify (f : α → α) (table : List α) (n : Nat) :
    (List.range n).foldl (fun (p : Pass α) i =>
        { table := p.table.modify i f, visited := p.visited ++ [i] }) { table := table } =
      { table := table.mapIdx fun i a => if i < n then f a else a, visited := List.range n } := by
  induction n with
  | zero =>
    have hsame : table.mapIdx (fun _ a => a) = table := List.ext_getElem? fun i => by simp
    simp [hsame]
  | succ n ih =>
    rw [List.range_succ, List.foldl_append, ih, List.foldl_cons, List.foldl_nil]
    congr 1
    apply List.ext_getElem?
    intro i
    rw [List.getElem?_modify, List.getElem?_mapIdx, List.getElem?_mapIdx]
    cases table[i]? with
    | none => rfl
    | some a =>
      simp only [Option.map_some, Option.map_eq_map, Option.some.injEq]
      grind

/-- A pass over a table that the counter can count visits every row once, in order. -/
theorem pass_eq_some {fuel : Nat} {table : List α} (htable : table.length < 2 ^ w)
    (hfuel : table.length < fuel) (f : α → α) :
    pass w fuel f table =
      some { table := table.map f, visited := List.range table.length } := by
  have hzero : (0 : BitVec w).toNat = 0 := rfl
  rw [pass, run_eq_some _ htable (Nat.zero_le _) (by omega), hzero, Nat.sub_zero,
    ← List.range_eq_range', foldl_modify]
  congr 2
  apply List.ext_getElem
  · simp
  · intro i hi _
    rw [List.length_mapIdx] at hi
    simp [hi]

theorem pass_eq_none {table : List α} (htable : 2 ^ w ≤ table.length) (fuel : Nat) (f : α → α) :
    pass w fuel f table = none :=
  run_eq_none htable ..

end CountedLoop
