import Mathlib.Data.List.Basic
import Mathlib.Data.List.Infix

/-!
# Ranked simulation of deterministic machines

A deterministic machine makes steps that may emit an output and may fail.  A concrete machine
simulates an abstract one if each of its steps is a stuttering step that lowers a rank, or matches
one abstract step with the same output, or fails as the abstract step fails.  Outputs and failures
of the two machines then agree.
-/

namespace RankedSimulation

variable {σ τ ω ε : Type}

/-- A deterministic machine with optional outputs and failures. -/
structure Machine (σ ω ε : Type) where
  step : σ → Except ε (Option ω × σ)

namespace Machine

def after (m : Machine σ ω ε) : Nat → σ → Except ε σ
  | 0, s => .ok s
  | n + 1, s =>
    match m.step s with
    | .ok (_, s') => m.after n s'
    | .error e => .error e

def outputs (m : Machine σ ω ε) : Nat → σ → List ω
  | 0, _ => []
  | n + 1, s =>
    match m.step s with
    | .ok (o, s') => o.toList ++ m.outputs n s'
    | .error _ => []

/-- One of the first `n` steps fails with the given error. -/
def Fails (m : Machine σ ω ε) : Nat → σ → ε → Prop
  | 0, _, _ => False
  | n + 1, s, e =>
    match m.step s with
    | .ok (_, s') => m.Fails n s' e
    | .error e' => e' = e

variable {m : Machine σ ω ε} {o : Option ω} {s : σ}

variable {s' : σ}

theorem after_succ_ok (hstep : m.step s = .ok (o, s')) (n : Nat) :
    m.after (n + 1) s = m.after n s' := by
  simp [after, hstep]

/-- What holds along a run from a state holds along the run from the next one. -/
theorem forall_after_tail {P : σ → Prop} (h : ∀ n t, m.after n s = .ok t → P t)
    (hstep : m.step s = .ok (o, s')) : ∀ n t, m.after n s' = .ok t → P t :=
  fun n t ht => h (n + 1) t ((after_succ_ok hstep n).trans ht)

theorem outputs_succ_ok (hstep : m.step s = .ok (o, s')) (n : Nat) :
    m.outputs (n + 1) s = o.toList ++ m.outputs n s' := by
  simp [outputs, hstep]

variable {e : ε}

theorem outputs_succ_error (hstep : m.step s = .error e) (n : Nat) : m.outputs (n + 1) s = [] := by
  simp [outputs, hstep]

theorem fails_succ_ok (hstep : m.step s = .ok (o, s')) (n : Nat) (e : ε) :
    m.Fails (n + 1) s e ↔ m.Fails n s' e := by
  simp [Fails, hstep]

theorem fails_succ_error {e' : ε} (hstep : m.step s = .error e') (n : Nat) (e : ε) :
    m.Fails (n + 1) s e ↔ e' = e := by
  simp [Fails, hstep]

def failure (m : Machine σ ω ε) : Nat → σ → Option ε
  | 0, _ => none
  | n + 1, s =>
    match m.step s with
    | .ok (_, s') => m.failure n s'
    | .error e => some e

theorem fails_iff_failure (m : Machine σ ω ε) (n : Nat) (s : σ) (e : ε) :
    m.Fails n s e ↔ m.failure n s = some e := by
  induction n generalizing s with
  | zero => simp [Fails, failure]
  | succ n ih =>
    unfold Fails failure
    split
    · exact ih _
    · simp

variable {n : Nat}

/-- A run fails at most once. -/
theorem fails_unique {k : Nat} {e' : ε} (h : m.Fails n s e) (h' : m.Fails k s e') : e = e' := by
  induction n generalizing k s with
  | zero => exact h.elim
  | succ n ih =>
    cases k with
    | zero => exact h'.elim
    | succ k =>
      cases hstep : m.step s with
      | ok r =>
        obtain ⟨o, s'⟩ := r
        rw [fails_succ_ok hstep] at h h'
        exact ih h h'
      | error e'' =>
        rw [fails_succ_error hstep] at h h'
        exact h.symm.trans h'

/-- A failure that passes a test. -/
theorem exists_fails_of_failure {P : ε → Bool} (h : (m.failure n s).any P = true) :
    ∃ e, P e = true ∧ ∃ k, m.Fails k s e := by
  cases hfailure : m.failure n s with
  | none =>
    rw [hfailure] at h
    cases h
  | some e =>
    rw [hfailure] at h
    exact ⟨e, h, n, (fails_iff_failure m n s e).mpr hfailure⟩

/-- A run whose failure passes a test does not fail otherwise. -/
theorem not_fails_of_failure {P : ε → Bool} (h : (m.failure n s).any P = true) (he : P e = false) :
    ¬ ∃ k, m.Fails k s e := by
  rintro ⟨k, hk⟩
  obtain ⟨e', he', k', hfails⟩ := exists_fails_of_failure h
  rw [fails_unique hk hfails, he'] at he
  cases he

theorem fails_mono {k : Nat} (hle : n ≤ k) (hfails : m.Fails n s e) : m.Fails k s e := by
  induction n generalizing k s with
  | zero => exact hfails.elim
  | succ n ih =>
    obtain ⟨k, rfl⟩ : ∃ k', k = k' + 1 := ⟨k - 1, by omega⟩
    cases hstep : m.step s with
    | ok r =>
      obtain ⟨o, s'⟩ := r
      rw [fails_succ_ok hstep] at hfails ⊢
      exact ih (by omega) hfails
    | error e' =>
      rw [fails_succ_error hstep] at hfails ⊢
      exact hfails

/-- A run fails within `n` steps and all its states pass a test. -/
def checkRun (m : Machine σ ω ε) (test : σ → Bool) : Nat → σ → Bool
  | 0, _ => false
  | n + 1, s =>
    test s &&
      match m.step s with
      | .ok (_, s') => m.checkRun test n s'
      | .error _ => true

/-- All states of a checked run pass the test. -/
theorem forall_after_of_checkRun {test : σ → Bool} {k : Nat} (hcheck : m.checkRun test k s = true)
    (n : Nat) (t : σ) (ht : m.after n s = .ok t) : test t = true := by
  induction k generalizing s n with
  | zero => cases hcheck
  | succ k ih =>
    rw [checkRun, Bool.and_eq_true] at hcheck
    cases n with
    | zero =>
      cases ht
      exact hcheck.1
    | succ n =>
      unfold after at ht
      split at ht
      next s' hstep =>
        rw [hstep] at hcheck
        exact ih hcheck.2 n ht
      next => cases ht

end Machine

variable (c : Machine σ ω ε) (a : Machine τ ω ε) (R : σ → τ → Prop) (rank : σ → Nat)

/-- The three ways a concrete step answers to the abstract machine. -/
inductive Answers (s : σ) (t : τ) : Prop where
  | stutter (s' : σ) (hstep : c.step s = .ok (none, s')) (hrel : R s' t) (hrank : rank s' < rank s)
  | advance (o : Option ω) (s' : σ) (t' : τ) (hstep : c.step s = .ok (o, s'))
      (habs : a.step t = .ok (o, t')) (hrel : R s' t')
  | fail (e : ε) (hstep : c.step s = .error e) (habs : a.step t = .error e)

def Simulates : Prop :=
  ∀ s t, R s t → Answers c a R rank s t

variable {c a R rank}

variable {s : σ} {t : τ}

section

variable (hsim : Simulates c a R rank)
include hsim

/-- The concrete machine emits outputs of the abstract one. -/
theorem outputs_of_simulates (m : Nat) (hrel : R s t) : ∃ k, c.outputs m s = a.outputs k t := by
  induction m generalizing s t with
  | zero => exact ⟨0, rfl⟩
  | succ m ih =>
    rcases hsim s t hrel with ⟨s', hstep, hrel', -⟩ | ⟨o, s', t', hstep, habs, hrel'⟩ |
      ⟨e, hstep, habs⟩
    · rw [Machine.outputs_succ_ok hstep]
      exact ih hrel'
    · obtain ⟨k, hk⟩ := ih hrel'
      exact ⟨k + 1, by rw [Machine.outputs_succ_ok hstep, Machine.outputs_succ_ok habs, hk]⟩
    · exact ⟨0, Machine.outputs_succ_error hstep m⟩

/-- Every output of the abstract machine is reached by the concrete one. -/
theorem exists_outputs_of_simulates (k : Nat) (hrel : R s t) :
    ∃ m, c.outputs m s = a.outputs k t := by
  induction k generalizing s t with
  | zero => exact ⟨0, rfl⟩
  | succ k ih =>
    -- the rank bounds the stuttering steps before the next abstract step
    induction hr : rank s using Nat.strong_induction_on generalizing s with
    | _ r ihr =>
      rcases hsim s t hrel with ⟨s', hstep, hrel', hrank⟩ |
        ⟨o, s', t', hstep, habs, hrel'⟩ | ⟨e, hstep, habs⟩
      · obtain ⟨m, hm⟩ := ihr (rank s') (hr ▸ hrank) hrel' rfl
        exact ⟨m + 1, by rw [Machine.outputs_succ_ok hstep]; exact hm⟩
      · obtain ⟨m, hm⟩ := ih hrel'
        exact ⟨m + 1, by rw [Machine.outputs_succ_ok hstep, Machine.outputs_succ_ok habs, hm]⟩
      · exact ⟨1, by rw [Machine.outputs_succ_error hstep, Machine.outputs_succ_error habs]⟩

/-- A failure of the concrete machine is a failure of the abstract one. -/
theorem fails_of_simulates {m : Nat} (hrel : R s t) {e : ε} (hfails : c.Fails m s e) :
    a.Fails m t e := by
  induction m generalizing s t with
  | zero => exact hfails.elim
  | succ m ih =>
    rcases hsim s t hrel with ⟨s', hstep, hrel', -⟩ | ⟨o, s', t', hstep, habs, hrel'⟩ |
      ⟨e', hstep, habs⟩
    · rw [Machine.fails_succ_ok hstep] at hfails
      exact Machine.fails_mono (Nat.le_succ m) (ih hrel' hfails)
    · rw [Machine.fails_succ_ok hstep] at hfails
      rw [Machine.fails_succ_ok habs]
      exact ih hrel' hfails
    · rw [Machine.fails_succ_error hstep] at hfails
      rw [Machine.fails_succ_error habs]
      exact hfails

/-- A failure of the abstract machine is reached by the concrete one. -/
theorem exists_fails_of_simulates {k : Nat} (hrel : R s t) {e : ε} (hfails : a.Fails k t e) :
    ∃ m, c.Fails m s e := by
  induction k generalizing s t with
  | zero => exact hfails.elim
  | succ k ih =>
    induction hr : rank s using Nat.strong_induction_on generalizing s with
    | _ r ihr =>
      rcases hsim s t hrel with ⟨s', hstep, hrel', hrank⟩ |
        ⟨o, s', t', hstep, habs, hrel'⟩ | ⟨e', hstep, habs⟩
      · obtain ⟨m, hm⟩ := ihr (rank s') (hr ▸ hrank) hrel' rfl
        exact ⟨m + 1, (Machine.fails_succ_ok hstep m e).mpr hm⟩
      · obtain ⟨m, hm⟩ := ih hrel' ((Machine.fails_succ_ok habs k e).mp hfails)
        exact ⟨m + 1, (Machine.fails_succ_ok hstep m e).mpr hm⟩
      · rw [Machine.fails_succ_error habs] at hfails
        exact ⟨1, (Machine.fails_succ_error hstep 0 e).mpr hfails⟩

end

section Common

variable {σ' : Type} {c' : Machine σ' ω ε} {R' : σ' → τ → Prop} {rank' : σ' → Nat}

/-- Machines that simulate a common one emit the same outputs. -/
theorem outputs_of_common (hsim : Simulates c a R rank) (hsim' : Simulates c' a R' rank') {s : σ}
    {s' : σ'} {t : τ} (hrel : R s t) (hrel' : R' s' t) (n : Nat) :
    ∃ m, c.outputs n s = c'.outputs m s' := by
  obtain ⟨k, hk⟩ := outputs_of_simulates hsim n hrel
  obtain ⟨m, hm⟩ := exists_outputs_of_simulates hsim' k hrel'
  exact ⟨m, hk.trans hm.symm⟩

/-- Machines that simulate a common one fail alike. -/
theorem fails_of_common (hsim : Simulates c a R rank) (hsim' : Simulates c' a R' rank') {s : σ}
    {s' : σ'} {t : τ} (hrel : R s t) (hrel' : R' s' t) {e : ε} (hfails : ∃ n, c.Fails n s e) :
    ∃ m, c'.Fails m s' e := by
  obtain ⟨n, hn⟩ := hfails
  exact exists_fails_of_simulates hsim' hrel' (fails_of_simulates hsim hrel hn)

end Common

section Lockstep

/-- Every step of one machine is answered by one step of the other. -/
def Lockstep (c : Machine σ ω ε) (a : Machine τ ω ε) (R : σ → τ → Prop) : Prop :=
  ∀ s t, R s t →
    (∃ o s' t', c.step s = .ok (o, s') ∧ a.step t = .ok (o, t') ∧ R s' t') ∨
      ∃ e, c.step s = .error e ∧ a.step t = .error e

theorem outputs_of_lockstep (hlock : Lockstep c a R) (n : Nat) {s : σ} {t : τ} (hrel : R s t) :
    c.outputs n s = a.outputs n t := by
  induction n generalizing s t with
  | zero => rfl
  | succ n ih =>
    rcases hlock s t hrel with ⟨o, s', t', hstep, habs, hrel'⟩ | ⟨e, hstep, habs⟩
    · rw [Machine.outputs_succ_ok hstep, Machine.outputs_succ_ok habs, ih hrel']
    · rw [Machine.outputs_succ_error hstep, Machine.outputs_succ_error habs]

/-- States that the second machine reaches are related to states that the first reaches. -/
theorem after_of_lockstep (hlock : Lockstep c a R) {n : Nat} {s : σ} {t t' : τ} (hrel : R s t)
    (hafter : a.after n t = .ok t') : ∃ s', c.after n s = .ok s' ∧ R s' t' := by
  induction n generalizing s t with
  | zero =>
    cases hafter
    exact ⟨s, rfl, hrel⟩
  | succ n ih =>
    rcases hlock s t hrel with ⟨o, s₁, t₁, hstep, habs, hrel'⟩ | ⟨e, hstep, habs⟩
    · rw [Machine.after_succ_ok habs] at hafter
      rw [Machine.after_succ_ok hstep]
      exact ih hrel' hafter
    · simp [Machine.after, habs] at hafter

end Lockstep

end RankedSimulation
