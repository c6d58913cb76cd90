import Mathlib.Data.List.Basic

/-!
# Paths of the guest

The translation of a path of the guest to a path of the host (`filepath_to_host` of
`os_emulation/ossyscall.cpp`).  The loop edits the path while it scans it: it looks at one component
after the other, and a `..` is removed together with the component before it.  No component `..` is
left, so the path stays below the root of the file system (`filepathToHost_stays_inside`).
-/

namespace QtRvSim

namespace Filepath

/-! ### String operations -/

def indexOf (ch : Char) (path : List Char) (start : Nat) : Option Nat :=
  ((path.drop start).findIdx? (· == ch)).map (start + ·)

def lastIndexOf (ch : Char) (path : List Char) : Nat → Option Nat
  | 0 => if path[0]? = some ch then some 0 else none
  | start + 1 =>
    if path[start + 1]? = some ch then some (start + 1) else lastIndexOf ch path start

/-- The path without `n` characters from `position` on, or without all of them if there are
fewer. -/
def remove (path : List Char) (position n : Nat) : List Char :=
  path.take position ++ path.drop (position + n)

/-! ### The loop -/

/-- The component at `pos` is `..`. -/
def isParent (path : List Char) (pos : Nat) : Bool :=
  (path.length - pos == 2 && path.drop pos == "..".toList) ||
    (2 < path.length - pos && (path.drop pos).take 3 == "../".toList)

/-- Where the component before `pos` starts. -/
def previous (path : List Char) (pos : Nat) : Nat :=
  if pos = 0 then 0
  else if pos = 1 then 0
  else (lastIndexOf '/' path (pos - 2)).elim 0 (· + 1)

/-- One turn of the loop; the result is missing if the loop ends. -/
def step (path : List Char) (pos : Nat) : Option (List Char × Nat) :=
  if isParent path pos then
    some (remove path (previous path pos) (pos + 3 - previous path pos), previous path pos)
  else (indexOf '/' path pos).map fun i => (path, i + 1)

variable {path : List Char}

variable {ch : Char}

theorem lastIndexOf_le {start i : Nat} (h : lastIndexOf ch path start = some i) : i ≤ start := by
  induction start with
  | zero =>
    unfold lastIndexOf at h
    split at h
    · cases h
      exact Nat.le_refl _
    · cases h
  | succ start ih =>
    unfold lastIndexOf at h
    split at h
    · cases h
      exact Nat.le_refl _
    · exact Nat.le_succ_of_le (ih h)

theorem previous_le (path : List Char) (pos : Nat) : previous path pos ≤ pos := by
  unfold previous
  split
  · exact Nat.zero_le _
  split
  · exact Nat.zero_le _
  · cases hlast : lastIndexOf '/' path (pos - 2) with
    | none => exact Nat.zero_le _
    | some i =>
      have hi := lastIndexOf_le hlast
      show i + 1 ≤ pos
      omega

variable {pos : Nat}

theorem length_of_isParent (h : isParent path pos = true) : pos + 2 ≤ path.length := by
  simp only [isParent, Bool.or_eq_true, Bool.and_eq_true, beq_iff_eq, decide_eq_true_eq] at h
  omega

theorem indexOf_bounds {start i : Nat} (h : indexOf ch path start = some i) :
    start ≤ i ∧ i < path.length := by
  obtain ⟨k, hk, rfl⟩ := Option.map_eq_some_iff.mp h
  have hlt := (List.findIdx?_eq_some_iff_getElem.mp hk).1
  rw [List.length_drop] at hlt
  omega

/-- Every turn shortens the path or moves on in it. -/
theorem step_decreases {path' : List Char} {pos' : Nat} (h : step path pos = some (path', pos')) :
    path'.length < path.length ∨
      path'.length = path.length ∧ path.length - pos' < path.length - pos := by
  unfold step at h
  split at h
  next hparent =>
    cases h
    have hlength := length_of_isParent hparent
    have hprev := previous_le path pos
    left
    rw [remove, List.length_append, List.length_take, List.length_drop]
    omega
  next =>
    obtain ⟨i, hi, heq⟩ := Option.map_eq_some_iff.mp h
    have hbounds := indexOf_bounds hi
    cases heq
    right
    omega

def run (path : List Char) (pos : Nat) : List Char :=
  match _hstep : step path pos with
  | none => path
  | some (path', pos') => run path' pos'
termination_by (path.length, path.length - pos)
decreasing_by
  rcases step_decreases _hstep with hless | ⟨heq, hless⟩
  · exact Prod.Lex.left _ _ hless
  · rw [heq]
    exact Prod.Lex.right _ hless

/-! ### Components -/

/-- A directory part of a path, each component with a slash behind it. -/
def joined (components : List (List Char)) : List Char :=
  components.flatMap (· ++ ['/'])

theorem joined_concat (components : List (List Char)) (c : List Char) :
    joined (components ++ [c]) = joined components ++ (c ++ ['/']) := by
  rw [joined, List.flatMap_append, List.flatMap_singleton, joined]

theorem joined_append_eq_intercalate (components : List (List Char)) (last : List Char) :
    joined components ++ last = ['/'].intercalate (components ++ [last]) := by
  induction components with
  | nil => simp [joined]
  | cons c components ih =>
    obtain ⟨d, ds, hds⟩ := List.exists_cons_of_ne_nil (List.concat_ne_nil last components)
    rw [List.cons_append, hds, List.intercalate_cons_cons, ← hds, ← ih]
    simp [joined]

/-- The component may stand in a path of the host. -/
def Safe (c : List Char) : Prop :=
  '/' ∉ c ∧ c ≠ "..".toList

/-- The components of a path are those of its directory part and the last one. -/
theorem splitOn_joined {components : List (List Char)} {last : List Char}
    (h : ∀ c ∈ components, Safe c) (hlast : Safe last) :
    (joined components ++ last).splitOn '/' = components ++ [last] := by
  rw [joined_append_eq_intercalate]
  apply List.splitOn_intercalate
  · intro c hc
    rcases List.mem_append.mp hc with hc | hc
    · exact (h c hc).1
    · rw [List.mem_singleton.mp hc]
      exact hlast.1
  · exact List.append_ne_nil_of_right_ne_nil _ (List.cons_ne_nil _ _)

/-- What the loop keeps: in front of the position there are whole components that are safe. -/
def Scanned (path : List Char) (pos : Nat) : Prop :=
  ∃ components rest, path = joined components ++ rest ∧ pos = (joined components).length ∧
    ∀ c ∈ components, Safe c

/-! ### One turn -/

/-- The search backwards skips a part of the path without the character. -/
theorem lastIndexOf_skip {ch : Char} {path : List Char} {k : Nat} (n : Nat)
    (h : ∀ j, k < j → j ≤ k + n → path[j]? ≠ some ch) :
    lastIndexOf ch path (k + n) = lastIndexOf ch path k := by
  induction n with
  | zero => rfl
  | succ n ih =>
    rw [← Nat.add_assoc, lastIndexOf, if_neg (h _ (by omega) (by omega))]
    exact ih fun j hj hle => h j hj (by omega)

theorem lastIndexOf_self {k : Nat} (h : path[k]? = some ch) : lastIndexOf ch path k = some k := by
  cases k with
  | zero | succ => rw [lastIndexOf, if_pos h]

theorem lastIndexOf_none (n : Nat) (h : ∀ j ≤ n, path[j]? ≠ some ch) :
    lastIndexOf ch path n = none := by
  have hskip := lastIndexOf_skip (k := 0) n fun j _ hj => h j (by omega)
  rw [Nat.zero_add] at hskip
  rw [hskip, lastIndexOf, if_neg (h 0 (Nat.zero_le _))]

/-- The component before the position is the last one in front of it. -/
theorem previous_joined {components : List (List Char)} {last : List Char} (hlast : '/' ∉ last)
    (rest : List Char) :
    previous (joined (components ++ [last]) ++ rest) (joined (components ++ [last])).length =
      (joined components).length := by
  generalize hfront : joined components = front
  have hdir : joined (components ++ [last]) = front ++ (last ++ ['/']) := by
    rw [joined_concat, hfront]
  have hlength : (front ++ (last ++ ['/'])).length = front.length + last.length + 1 := by
    simp only [List.length_append, List.length_singleton]
    omega
  have hinside (j : Nat) (hj : front.length ≤ j) (hlt : j < front.length + last.length) :
      (front ++ (last ++ ['/']) ++ rest)[j]? ≠ some '/' := by
    rw [List.append_assoc, List.getElem?_append_right hj, List.append_assoc,
      List.getElem?_append_left (by omega)]
    intro h
    exact hlast (List.mem_of_getElem? h)
  rw [hdir, hlength]
  unfold previous
  rw [if_neg (Nat.succ_ne_zero _)]
  split
  · omega
  · rcases List.eq_nil_or_concat components with rfl | ⟨init, c, rfl⟩
    · -- the first component of the path
      obtain rfl : front = [] := hfront.symm
      rw [lastIndexOf_none]
      · rfl
      · intro j hj
        exact hinside j (Nat.zero_le _) (by simp only [List.length_nil] at *; omega)
    · have hslash : front = (joined init ++ c) ++ ['/'] := by
        rw [← hfront, List.concat_eq_append, joined_concat, List.append_assoc]
      generalize joined init ++ c = before at hslash
      have hbefore : front.length = before.length + 1 := by
        rw [hslash, List.length_append, List.length_singleton]
      have hat : (front ++ (last ++ ['/']) ++ rest)[before.length]? = some '/' := by
        rw [hslash, List.append_assoc, List.append_assoc, List.getElem?_append_right (by omega),
          Nat.sub_self]
        rfl
      have hskip := @lastIndexOf_skip '/' (front ++ (last ++ ['/']) ++ rest) before.length
        last.length fun j hj hle => hinside j (by omega) (by omega)
      have hstart : front.length + last.length + 1 - 2 = before.length + last.length := by omega
      rw [hstart, hskip, lastIndexOf_self hat, hbefore]
      rfl

/-- The test for `..` in terms of what follows the position. -/
theorem isParent_iff (front rest : List Char) :
    isParent (front ++ rest) front.length = true ↔
      rest = "..".toList ∨ ∃ tail, rest = "../".toList ++ tail := by
  have hlength : (front ++ rest).length - front.length = rest.length := by
    rw [List.length_append, Nat.add_sub_cancel_left]
  rw [isParent, hlength, List.drop_left]
  simp only [Bool.or_eq_true, Bool.and_eq_true, beq_iff_eq, decide_eq_true_eq]
  constructor
  · rintro (⟨-, hrest⟩ | ⟨-, hrest⟩)
    · exact .inl hrest
    · right
      refine ⟨rest.drop 3, ?_⟩
      rw [← hrest, List.take_append_drop]
  · rintro (rfl | ⟨tail, rfl⟩)
    · exact .inl ⟨rfl, rfl⟩
    · right
      refine ⟨?_, rfl⟩
      show 2 < tail.length + 3
      omega

/-- The search from the position splits off the next component. -/
theorem indexOf_joined {front rest : List Char} {i : Nat}
    (h : indexOf '/' (front ++ rest) front.length = some i) :
    ∃ c tail, rest = c ++ '/' :: tail ∧ '/' ∉ c ∧ i = front.length + c.length := by
  obtain ⟨k, hk, rfl⟩ := Option.map_eq_some_iff.mp h
  rw [List.drop_left] at hk
  obtain ⟨hlt, hat, hbefore⟩ := List.findIdx?_eq_some_iff_getElem.mp hk
  refine ⟨rest.take k, rest.drop (k + 1), ?_, ?_, ?_⟩
  · rw [← beq_iff_eq.mp hat, ← List.drop_eq_getElem_cons hlt, List.take_append_drop]
  · intro hmem
    obtain ⟨j, hj, hslash⟩ := List.getElem_of_mem hmem
    rw [List.length_take] at hj
    rw [List.getElem_take] at hslash
    exact hbefore j (by omega) (beq_iff_eq.mpr hslash)
  · rw [List.length_take]
    omega

theorem indexOf_none {front rest : List Char}
    (h : indexOf '/' (front ++ rest) front.length = none) : '/' ∉ rest := by
  rw [indexOf, Option.map_eq_none_iff, List.drop_left, List.findIdx?_eq_none_iff] at h
  intro hmem
  exact absurd (h '/' hmem) (by decide)

/-- A turn of the loop keeps the components in front of the position safe. -/
theorem Scanned.step {path path' : List Char} {pos pos' : Nat} (h : Scanned path pos)
    (hstep : step path pos = some (path', pos')) : Scanned path' pos' := by
  obtain ⟨components, rest, rfl, rfl, hsafe⟩ := h
  unfold Filepath.step at hstep
  split at hstep
  next hparent =>
    cases hstep
    rcases List.eq_nil_or_concat components with rfl | ⟨init, last, rfl⟩
    · exact ⟨[], rest.drop 3, rfl, rfl, fun c hc => absurd hc List.not_mem_nil⟩
    · rw [List.concat_eq_append] at hsafe ⊢
      have hlast := hsafe last (List.mem_append_right _ List.mem_cons_self)
      have hle : (joined init).length ≤ (joined (init ++ [last])).length := by
        rw [joined_concat, List.length_append]
        omega
      have hrest : (joined init).length +
          ((joined (init ++ [last])).length + 3 - (joined init).length) =
            (joined (init ++ [last])).length + 3 := by omega
      have htake : (joined (init ++ [last]) ++ rest).take (joined init).length =
          joined init := by
        rw [joined_concat, List.append_assoc, List.take_left]
      refine ⟨init, rest.drop 3, ?_, previous_joined hlast.1 rest, fun c hc =>
        hsafe c (List.mem_append_left _ hc)⟩
      rw [previous_joined hlast.1, remove, hrest, htake, ← List.drop_drop, List.drop_left]
  next hparent =>
    obtain ⟨i, hi, heq⟩ := Option.map_eq_some_iff.mp hstep
    cases heq
    obtain ⟨c, tail, rfl, hslash, rfl⟩ := indexOf_joined hi
    have hname : c ≠ "..".toList := by
      rintro rfl
      exact hparent ((isParent_iff _ _).mpr (.inr ⟨tail, rfl⟩))
    refine ⟨components ++ [c], tail, ?_, ?_, ?_⟩
    · rw [joined_concat, List.append_assoc, List.append_assoc, List.singleton_append]
    · rw [joined_concat, List.length_append, List.length_append, List.length_singleton,
        Nat.add_assoc]
    · intro d hd
      rcases List.mem_append.mp hd with hd | hd
      · exact hsafe d hd
      · rw [List.mem_singleton.mp hd]
        exact ⟨hslash, hname⟩

/-- When the loop ends, the last component is safe as well. -/
theorem Scanned.ended (h : Scanned path pos) (hstep : Filepath.step path pos = none) :
    ∃ components last, path = joined components ++ last ∧ (∀ c ∈ components, Safe c) ∧
      Safe last := by
  obtain ⟨components, last, rfl, rfl, hsafe⟩ := h
  unfold Filepath.step at hstep
  split at hstep
  next => cases hstep
  next hparent =>
    refine ⟨components, last, rfl, hsafe, indexOf_none (Option.map_eq_none_iff.mp hstep), ?_⟩
    rintro rfl
    exact hparent ((isParent_iff _ _).mpr (.inl rfl))

/-- The loop leaves safe components only. -/
theorem Scanned.run (h : Scanned path pos) :
    ∃ components last, run path pos = joined components ++ last ∧
      (∀ c ∈ components, Safe c) ∧ Safe last := by
  induction path, pos using Filepath.run.induct with
  | case1 path pos hend =>
    rw [Filepath.run, hend]
    exact h.ended hend
  | case2 path pos path' pos' hstep ih =>
    rw [Filepath.run, hstep]
    exact ih (h.step hstep)

end Filepath

open Filepath

def filepathToHost (fsRoot path : List Char) : List Char :=
  let path := run path 0
  if path.head? = some '/' then fsRoot ++ path else fsRoot ++ ('/' :: path)

/-- Below the root of the file system no component of the path leads upwards. -/
theorem filepathToHost_stays_inside (fsRoot path : List Char) :
    ∃ inner, filepathToHost fsRoot path = fsRoot ++ inner ∧ inner.head? = some '/' ∧
      "..".toList ∉ inner.splitOn '/' := by
  have hstart : Scanned path 0 := ⟨[], path, rfl, rfl, fun c hc => absurd hc List.not_mem_nil⟩
  obtain ⟨components, last, hrun, hsafe, hlast⟩ := hstart.run
  have hnone {cs : List (List Char)} (hcs : ∀ c ∈ cs, Safe c) :
      "..".toList ∉ (joined cs ++ last).splitOn '/' := by
    rw [splitOn_joined hcs hlast]
    intro hmem
    rcases List.mem_append.mp hmem with hmem | hmem
    · exact (hcs _ hmem).2 rfl
    · exact hlast.2 (List.mem_singleton.mp hmem).symm
  unfold filepathToHost
  dsimp only
  split
  next hslash =>
    refine ⟨_, rfl, hslash, ?_⟩
    rw [hrun]
    exact hnone hsafe
  next =>
    refine ⟨_, rfl, rfl, ?_⟩
    -- the slash put in front is an empty first component
    have hempty : ∀ c ∈ [] :: components, Safe c := by
      intro c hc
      rcases List.mem_cons.mp hc with rfl | hc
      · exact ⟨List.not_mem_nil, by decide⟩
      · exact hsafe c hc
    rw [hrun]
    exact hnone hempty

end QtRvSim
