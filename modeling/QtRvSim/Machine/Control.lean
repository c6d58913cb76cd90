import QtRvSim.Core.Reset
import QtRvSim.Core.TrapCall

/-!
# The control methods of a machine

The user and the run timer call the methods, and these step the core.  A listener of the core's
signals may call `pause` in a step, and an interrupt line may change between two calls.
-/

namespace QtRvSim

open Hart

inductive Status where
  | ready
  | running
  | busy
  | exit
  | trapped
  deriving DecidableEq

/-- A machine with its core, the activity and the interval of its run timer. -/
structure MachineState (σ : Type) where
  cr : σ
  stat : Status := .ready
  runActive : Bool := false
  interval : Nat := 0
  timeChunk : Nat := 0

namespace MachineState

/-- What a machine is connected to: `pauses` tells whether a listener calls `pause` in a step. -/
structure Setup (M σ : Type) where
  cfg : CoreConfig
  pauses : Bool → σ → Bool
  resetMemory : M → M

/-- A call from outside; `inTime` holds the readings of the clock, whether the time chunk lasts. -/
inductive Call where
  | play
  | pause
  | step
  | timeout (inTime : List Bool)
  | restart
  | setSpeed (ips timeChunk : Nat)
  | setInterruptSignal (irqNum : Nat) (active : Bool)

section Methods

variable {M σ : Type} [FrontendMemory M] [Hart σ M]

def exited (m : MachineState σ) : Bool :=
  m.stat = .exit || m.stat = .trapped

/-- The condition of `CTL_GUARD`. -/
def guarded (m : MachineState σ) : Bool :=
  m.exited || m.stat = .busy

def pause (m : MachineState σ) : MachineState σ :=
  if m.stat ≠ .busy ∧ m.guarded then m else { m with stat := .ready, runActive := false }

variable (su : Setup M σ)

/-- The units of the core after a restart.  The control state, the predictor and the ASID stay. -/
def restarted (core : Core M) : Core M :=
  { core with
    regs := .reset
    mem := su.resetMemory core.mem
    loadReservedRange := .empty
    currentPrivilege := .machine
    stallCount := 0
    cycleCount := 0 }

def restart (m : MachineState σ) : MachineState σ :=
  { m.pause with cr := start (restarted su (core m.cr)), stat := .ready }

def coreStep (skipBreak : Bool) (m : MachineState σ) : Outcome (MachineState σ) Unit :=
  let (result, cr) := Hart.step su.cfg skipBreak m.cr
  (result, { if su.pauses skipBreak m.cr then m.pause else m with cr := cr })

def stepLoop (skipBreak : Bool) (inTime : List Bool) (m : MachineState σ) :
    Outcome (MachineState σ) Unit :=
  match m.coreStep su skipBreak with
  | (.error e, m) => (.error e, m)
  | (.ok (), m) =>
    match inTime with
    | [] => (.ok (), m)
    | now :: later =>
      if m.timeChunk ≠ 0 ∧ m.stat = .busy ∧ !skipBreak ∧ now then stepLoop skipBreak later m
      else (.ok (), m)

def stepInternal (skipBreak : Bool) (inTime : List Bool) (m : MachineState σ) : MachineState σ :=
  if m.guarded then m
  else
    match stepLoop su skipBreak inTime { m with stat := .busy } with
    | (.error _, m') => { m' with runActive := false, stat := .trapped }
    | (.ok (), m') => if m'.stat = .busy then { m' with stat := m.stat } else m'

def play (m : MachineState σ) : MachineState σ :=
  if m.guarded then m
  else stepInternal su true [] { m with stat := .running, runActive := true }

/-- The steps of a timeout at full speed. -/
def stepBurst : Nat → MachineState σ → MachineState σ
  | 0, m => m
  | n + 1, m => if m.stat = .running then stepBurst n (m.stepInternal su false []) else m

def stepTimer (inTime : List Bool) (m : MachineState σ) : MachineState σ :=
  if m.interval = 0 ∧ m.timeChunk = 0 then m.stepBurst su 32 else m.stepInternal su false inTime

def on (m : MachineState σ) : Call → MachineState σ
  | .play => m.play su
  | .pause => m.pause
  | .step => m.stepInternal su true []
  -- a timer that is not active has no timeouts
  | .timeout inTime => if m.runActive then m.stepTimer su inTime else m
  | .restart => m.restart su
  | .setSpeed ips timeChunk => { m with interval := ips, timeChunk := timeChunk }
  | .setInterruptSignal irqNum active =>
    { m with cr := setCore ((core m.cr).setInterruptSignal irqNum active) m.cr }

/-- The core that the steps after a call start from, if those before it started from `c`. -/
def origin (c : Core M) (m : MachineState σ) : Call → Core M
  | .restart => restarted su (core m.cr)
  | _ => c

/-- A new machine after some calls, and the core its steps since the last restart start from. -/
def after (c : Core M) (calls : List Call) : MachineState σ × Core M :=
  calls.foldl (fun (m, c) call => (m.on su call, origin su c m call)) ({ cr := start c }, c)

end Methods

variable {M σ : Type} [FrontendMemory M] [Hart σ M] {su : Setup M σ} {m : MachineState σ}
  {s s' s'' : σ} {trapped : Bool}

/-- What the core has done since a state: moves and, once the machine has trapped, a step that
throws, after which only interrupt lines change. -/
inductive Ran (cfg : CoreConfig) (s : σ) : Bool → σ → Prop where
  | start : Ran cfg s false s
  | move {s' s'' : σ} (hran : Ran cfg s false s') (hmove : Moves cfg s' s'') : Ran cfg s false s''
  | throws {s' s'' : σ} {skipBreak : Bool} {e : SimulatorException} (hran : Ran cfg s false s')
      (hstep : Hart.step cfg skipBreak s' = (.error e, s'')) : Ran cfg s true s''
  | interrupt {s' : σ} (hran : Ran cfg s true s') (irqNum : Nat) (active : Bool) :
      Ran cfg s true (setCore ((core s').setInterruptSignal irqNum active) s')

theorem Ran.trans (h : Ran su.cfg s false s') (h' : Ran su.cfg s' trapped s'') :
    Ran su.cfg s trapped s'' := by
  induction h' with
  | start => exact h
  | move _ hmove ih => exact ih.move hmove
  | throws _ hstep ih => exact ih.throws hstep
  | interrupt _ irqNum active ih => exact ih.interrupt irqNum active

/-- What a busy machine does in a loop: its core runs, and a listener may pause it. -/
def Does (su : Setup M σ) (m : MachineState σ) (r : Outcome (MachineState σ) Unit) : Prop :=
  Ran su.cfg m.cr (!r.1.isOk) r.2.cr ∧ (r.2.stat = .busy ∧ r.2.runActive = m.runActive ∨
    r.2.stat = .ready ∧ r.2.runActive = false)

theorem coreStep_does (hbusy : m.stat = .busy) (skipBreak : Bool) :
    Does su m (m.coreStep su skipBreak) := by
  rw [coreStep]
  constructor
  · cases hstep : Hart.step su.cfg skipBreak m.cr with
    | mk result cr =>
      cases result with
      | ok => exact .move .start (.step skipBreak hstep)
      | error => exact .throws .start hstep
  · cases su.pauses skipBreak m.cr with
    | true => exact .inr (by simp [pause, hbusy])
    | false => exact .inl ⟨hbusy, rfl⟩

theorem stepLoop_does (hbusy : m.stat = .busy) (skipBreak : Bool) (inTime : List Bool) :
    Does su m (m.stepLoop su skipBreak inTime) := by
  fun_induction stepLoop su skipBreak inTime m with
  | case1 _ _ _ _ hcore | case2 _ _ hcore | case4 _ _ hcore =>
    exact hcore ▸ coreStep_does hbusy skipBreak
  | case3 m m' hcore now later hnext ih =>
    obtain ⟨hran, hpaused⟩ : Does su m (.ok (), m') := hcore ▸ coreStep_does hbusy skipBreak
    obtain ⟨hran', hpaused'⟩ := ih hnext.2.1
    exact ⟨hran.trans hran', by grind⟩

/-- A machine between two calls, whose core has run since a state. -/
structure Since (su : Setup M σ) (s : σ) (m : MachineState σ) : Prop where
  idle : m.stat = .ready ∨ m.stat = .running ∨ m.stat = .trapped
  active : m.runActive = true ↔ m.stat = .running
  ran : Ran su.cfg s (m.stat = .trapped) m.cr

namespace Since

variable (h : Since su s m)
include h

theorem moved (hguarded : ¬m.guarded = true) :
    decide (m.stat = .trapped) = false ∧ Ran su.cfg s false m.cr := by
  have hnot : decide (m.stat = .trapped) = false :=
    decide_eq_false fun htrapped => hguarded (by simp [guarded, exited, htrapped])
  exact ⟨hnot, hnot ▸ h.ran⟩

theorem stepInternal (skipBreak : Bool) (inTime : List Bool) :
    Since su s (m.stepInternal su skipBreak inTime) := by
  rw [MachineState.stepInternal]
  split
  next => exact h
  next hguarded =>
    obtain ⟨hnot, hran⟩ := h.moved hguarded
    obtain ⟨hloop, hpaused⟩ :=
      @stepLoop_does _ _ _ _ su { m with stat := .busy } rfl skipBreak inTime
    split
    next heq =>
      rw [heq] at hloop
      exact ⟨.inr (.inr rfl), by simp, hran.trans hloop⟩
    next m' heq =>
      simp only [heq] at hloop hpaused
      rcases hpaused with ⟨hbusy, hsame⟩ | ⟨hready, hstopped⟩
      · rw [if_pos hbusy]
        exact ⟨h.idle, hsame ▸ h.active, hnot ▸ hran.trans hloop⟩
      · rw [if_neg (by simp [hready])]
        exact ⟨.inl hready, by simp [hready, hstopped], hready ▸ hran.trans hloop⟩

theorem play : Since su s (m.play su) := by
  rw [MachineState.play]
  split
  next => exact h
  next hguarded => exact stepInternal ⟨.inr (.inl rfl), by simp, (h.moved hguarded).2⟩ true []

theorem pause : Since su s m.pause ∧ m.pause.runActive = false := by
  have hstat : m.stat ≠ .busy := by
    rcases h.idle with hstat | hstat | hstat <;> simp [hstat]
  rw [MachineState.pause]
  split
  next hguarded =>
    refine ⟨h, Bool.eq_false_iff.mpr fun hactive => ?_⟩
    simp [guarded, exited, h.active.mp hactive] at hguarded
  next hguarded =>
    exact ⟨⟨.inl rfl, by simp, (h.moved fun hguard => hguarded ⟨hstat, hguard⟩).2⟩, rfl⟩

theorem stepBurst (n : Nat) : Since su s (m.stepBurst su n) := by
  induction n generalizing m with
  | zero => exact h
  | succ n ih =>
    rw [MachineState.stepBurst]
    split
    next => exact ih (h.stepInternal false [])
    next => exact h

end Since

theorem Since.on {c : Core M} (h : Since su (start c) m) (call : Call) :
    Since su (start (origin su c m call)) (m.on su call) := by
  cases call with
  | play => exact h.play
  | pause => exact h.pause.1
  | step => exact h.stepInternal true []
  | timeout inTime =>
    rw [MachineState.on, stepTimer]
    split
    · split
      · exact h.stepBurst 32
      · exact h.stepInternal false inTime
    · exact h
  | restart => exact ⟨.inl rfl, by simp [h.pause.2, MachineState.on, restart], .start⟩
  | setSpeed ips timeChunk => exact ⟨h.idle, h.active, h.ran⟩
  | setInterruptSignal irqNum active =>
    refine ⟨h.idle, h.active, ?_⟩
    have hran := h.ran
    show Ran su.cfg (start c) (m.stat = .trapped) _
    cases htrapped : decide (m.stat = .trapped) with
    | false => exact (htrapped ▸ hran).move (.interrupt _ irqNum active)
    | true => exact (htrapped ▸ hran).interrupt irqNum active

/-- Whatever is called in whatever order, between two calls the machine is neither busy nor in
`ST_EXIT`, its run timer is active exactly while it runs, and its core has run since the last
restart and made no step after one that threw. -/
theorem since_last_restart (su : Setup M σ) (c : Core M) (calls : List Call) :
    Since su (start (after su c calls).2) (after su c calls).1 := by
  induction calls using List.reverseRecOn with
  | nil => exact ⟨.inl rfl, by simp [after], .start⟩
  | append_singleton calls call ih =>
    rw [after, List.foldl_append]
    exact ih.on call

end MachineState

end QtRvSim
