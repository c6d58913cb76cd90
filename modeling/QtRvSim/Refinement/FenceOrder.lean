import QtRvSim.Core.ControlEffect
import QtRvSim.Core.Flight
import QtRvSim.Core.Reset

/-!
# Fences in the pipeline

A `fence.i` or `sfence.vma` takes effect in the memory stage and does not flush the pipeline: the
instructions in IF/ID and ID/EX were fetched before, and they retire as they were fetched.  Later
instructions are fetched behind the fence.
-/

namespace QtRvSim

open Core CorePipelined Slots

variable {M : Type} [FrontendMemory M] {cfg : CoreConfig}

/-- The instruction is a `fence.i` or `sfence.vma` that takes effect. -/
def ExecuteInterstage.isFence (dt : ExecuteInterstage) : Bool :=
  dt.excause == .none && (dt.memctl == .cacheOp || dt.memctl == .sfenceVma)

/-- The word that a fetch at an address returns; there is none at a page fault. -/
def Core.fetchWord (cfg : CoreConfig) (core : Core M) (address : Address) : Option Instruction :=
  (FrontendMemory.readGeneric 32 cfg.endian .program
    { address := address, mode := core.makeAccessMode .fetch } core.mem).1.toOption

/-- An instruction that is fetched without an exception is the one in memory. -/
theorem fetchWord_of_fetch {pc : PCInterstage} {skipBreak : Bool} {core : Core M}
    (hgo : pc.stopIf = false) (hexcause : (fetch cfg pc skipBreak core).1.excause = .none) :
    core.fetchWord cfg (fetch cfg pc skipBreak core).1.instAddr =
      some (fetch cfg pc skipBreak core).1.inst := by
  rw [Core.fetchWord]
  unfold fetch at hexcause ⊢
  rw [hgo] at hexcause ⊢
  simp only [Bool.false_eq_true, if_false] at hexcause ⊢
  generalize FrontendMemory.readGeneric 32 cfg.endian .program _ core.mem = x at hexcause ⊢
  obtain ⟨result, mem⟩ := x
  cases result with
  | ok word => rfl
  | error fault =>
    exfalso
    dsimp only at hexcause
    split at hexcause <;> cases hexcause

namespace Flight

/-- The instruction with number `m` was fetched behind every older fence, or its word is the one
that a fetch behind the fence returns. -/
def Seen (cfg : CoreConfig) (log : List (StageEvent M)) (m : Nat) : Prop :=
  ∀ earlier n dt before after later, log = earlier ++ .memory n dt before after :: later →
    dt.isFence = true → n < m → ∀ start stop fdt, .fetch m start stop fdt ∈ earlier →
      after.fetchWord cfg fdt.instAddr = some fdt.inst

/-- When a fence is in the memory stage, the instructions in IF/ID and ID/EX are those that a fetch
behind that stage returns. -/
structure FenceSafe (cfg : CoreConfig) (f : Flight M) : Prop where
  ifId : f.machine.pipeline.exMem.isFence = true → f.machine.pipeline.ifId.isValid = true →
    f.machine.pipeline.ifId.excause = .none →
    (f.accessed cfg).fetchWord cfg f.machine.pipeline.ifId.instAddr =
      some f.machine.pipeline.ifId.inst
  idEx : f.machine.pipeline.exMem.isFence = true → f.machine.pipeline.idEx.isValid = true →
    f.machine.pipeline.idEx.excause = .none →
    (f.accessed cfg).fetchWord cfg f.machine.pipeline.idEx.instAddr =
      some f.machine.pipeline.idEx.inst

/-- The states of the runs in which every step is safe. -/
def FenceSafeRun (cfg : CoreConfig) (c : Core M) (f : Flight M) : Prop :=
  Relation.ReflTransGen (fun f f' => Moves cfg f f' ∧ FenceSafe cfg f) (start c) f

theorem FenceSafeRun.reached {c : Core M} {f : Flight M} (h : FenceSafeRun cfg c f) :
    Reached cfg c f :=
  Relation.ReflTransGen.mono (fun _ _ (hmove : Moves cfg _ _ ∧ FenceSafe cfg _) => hmove.1) _ _ h

section Log

variable {log more : List (StageEvent M)} {m : Nat}

omit [FrontendMemory M] in
/-- An event of a log with more events at its end is one of the log, or one of those. -/
theorem split_append {earlier later : List (StageEvent M)} {x : StageEvent M}
    (h : log ++ more = earlier ++ x :: later) :
    (∃ rest, log = earlier ++ x :: rest) ∨ (∃ rest, earlier = log ++ rest ∧ x ∈ more) := by
  rcases List.append_eq_append_iff.mp h with ⟨rest, hearlier, hmore⟩ | ⟨rest, hlog, hx⟩
  · exact .inr ⟨rest, hearlier, by simp [hmore]⟩
  · rcases List.cons_eq_append_iff.mp hx with ⟨rfl, hmore⟩ | ⟨rest', rfl, hlater⟩
    · refine .inr ⟨[], by simpa using hlog.symm, by simp [hmore]⟩
    · exact .inl ⟨rest', hlog⟩

/-- A fence among the later events adds what it says about the instruction. -/
theorem Seen.append (h : Seen cfg log m)
    (hmore : ∀ n dt before after, .memory n dt before after ∈ more → dt.isFence = true → n < m →
      ∀ start stop fdt, .fetch m start stop fdt ∈ log ++ more →
        after.fetchWord cfg fdt.instAddr = some fdt.inst) : Seen cfg (log ++ more) m := by
  intro earlier n dt before after later hsplit hfence hlt start stop fdt hfetch
  rcases split_append hsplit with ⟨rest, hlog⟩ | ⟨rest, -, hmem⟩
  · exact h earlier n dt before after rest hlog hfence hlt start stop fdt hfetch
  · refine hmore n dt before after hmem hfence hlt start stop fdt ?_
    rw [hsplit]
    exact List.mem_append_left _ hfetch

/-- A fence among the later events that is not older says nothing about the instruction. -/
theorem Seen.append_of_le (h : Seen cfg log m)
    (hmore : ∀ n dt before after, .memory n dt before after ∈ more → m ≤ n) :
    Seen cfg (log ++ more) m :=
  h.append fun n dt before after hmem _ hlt =>
    absurd hlt (Nat.not_lt.mpr (hmore n dt before after hmem))

/-- An instruction that is not fetched yet. -/
theorem seen_of_not_fetched (h : ∀ start stop fdt, .fetch m start stop fdt ∉ log) :
    Seen cfg log m := by
  intro earlier n dt before after later hsplit _ _ start stop fdt hfetch
  refine absurd ?_ (h start stop fdt)
  rw [hsplit]
  exact List.mem_append_left _ hfetch

end Log

/-! ### The instructions in flight -/

structure FetchSeen (cfg : CoreConfig) (log : List (StageEvent M)) (n : Nat)
    (r : FetchInterstage) : Prop where
  isValid : r.isValid = true
  fetched : ∀ {start stop fdt}, .fetch n start stop fdt ∈ log → fdt = r
  seen : r.excause = .none → Seen cfg log n

structure DecodeSeen (cfg : CoreConfig) (log : List (StageEvent M)) (n : Nat)
    (r : DecodeInterstage) : Prop where
  isValid : r.isValid = true
  fetched : ∀ {start stop fdt}, .fetch n start stop fdt ∈ log →
    fdt.inst = r.inst ∧ fdt.instAddr = r.instAddr
  seen : r.excause = .none → Seen cfg log n

/-- The instructions in flight and those that have retired have seen the fences before them. -/
structure AllSeen (cfg : CoreConfig) (f : Flight M) : Prop where
  occupied : Occupied (FetchSeen cfg f.log) (DecodeSeen cfg f.log)
    (fun n r => r.excause = .none → Seen cfg f.log n)
    (fun n r => r.excause = .none → Seen cfg f.log n) f
  retired : ∀ {m dt before after}, .writeback m dt before after ∈ f.log → dt.excause = .none →
    Seen cfg f.log m

theorem allSeen_start (c : Core M) : AllSeen cfg (start c) :=
  ⟨⟨fun _ h => (nomatch h), fun _ h => (nomatch h), fun _ h => (nomatch h),
    fun _ h => (nomatch h)⟩, fun h => (nomatch h)⟩

section Step

variable {skipBreak : Bool} {f : Flight M} {core : Core M} {n m : Nat}

omit [FrontendMemory M] in
/-- Numbers in flight are smaller than the next one. -/
theorem Ordered.lt_next (h : Ordered f) (hn : n ∈ f.slots.inOrder) : n < f.next :=
  (List.pairwise_append.mp h.slots).2.2 n hn f.next List.mem_cons_self

/-- A step fetches no instruction that is in flight. -/
theorem Ordered.fetch_old (h : Ordered f) (hn : n ∈ f.slots.inOrder) {start stop : Core M}
    {fdt : FetchInterstage}
    (hmem : .fetch n start stop fdt ∈ f.log ++ f.events cfg skipBreak core) :
    .fetch n start stop fdt ∈ f.log := by
  rcases List.mem_append.mp hmem with hlog | hevent
  · exact hlog
  · have hnew := (fetch_mem_events hevent).1
    have hlt := h.lt_next hn
    unfold new at hnew
    split at hnew
    · cases hnew
    · cases hnew
      exact absurd hlt (Nat.lt_irrefl _)

/-- The fence in the memory stage says nothing about it and about older instructions. -/
theorem Seen.step_older (h : Seen cfg f.log m) (hm : ∀ n, f.slots.exMem = some n → m ≤ n) :
    Seen cfg (f.log ++ f.events cfg skipBreak core) m :=
  h.append_of_le fun _ _ _ _ hmem => hm _ (memory_mem_events hmem).1

/-- An instruction behind the fence in the memory stage must be what a fetch returns. -/
theorem Seen.step_younger (h : Seen cfg f.log m)
    (hword : f.machine.pipeline.exMem.isFence = true → ∀ start stop fdt,
      .fetch m start stop fdt ∈ f.log ++ f.events cfg skipBreak core →
      (f.accessed cfg).fetchWord cfg fdt.instAddr = some fdt.inst) :
    Seen cfg (f.log ++ f.events cfg skipBreak core) m := by
  refine h.append fun n dt before after hmem hfence _ => ?_
  obtain ⟨-, rfl, -, rfl⟩ := memory_mem_events hmem
  exact hword hfence

theorem FetchSeen.step (hordered : Ordered f) (hsafe : FenceSafe cfg f)
    (hslot : f.slots.ifId = some n) (h : FetchSeen cfg f.log n f.machine.pipeline.ifId) :
    FetchSeen cfg (f.log ++ f.events cfg skipBreak core) n f.machine.pipeline.ifId := by
  have hn : n ∈ f.slots.inOrder := by simp [inOrder, behind, hslot]
  refine ⟨h.isValid, fun hmem => h.fetched (hordered.fetch_old hn hmem), fun hexcause => ?_⟩
  refine (h.seen hexcause).step_younger fun hfence start stop fdt hmem => ?_
  obtain rfl := h.fetched (hordered.fetch_old hn hmem)
  exact hsafe.ifId hfence h.isValid hexcause

theorem DecodeSeen.step (hordered : Ordered f) (hsafe : FenceSafe cfg f)
    (hslot : f.slots.idEx = some n) (h : DecodeSeen cfg f.log n f.machine.pipeline.idEx)
    (hexcause : f.machine.pipeline.idEx.excause = .none) :
    Seen cfg (f.log ++ f.events cfg skipBreak core) n := by
  have hn : n ∈ f.slots.inOrder := by simp [inOrder, behind, hslot]
  refine (h.seen hexcause).step_younger fun hfence start stop fdt hmem => ?_
  obtain ⟨hinst, haddr⟩ := h.fetched (hordered.fetch_old hn hmem)
  rw [hinst, haddr]
  exact hsafe.idEx hfence h.isValid hexcause

/-- The fetch stage reads behind the memory stage. -/
theorem fetchSeen_new (hordered : Ordered f) (hn : f.new = some n) :
    FetchSeen cfg (f.log ++ f.events cfg skipBreak core) n (f.fetched cfg skipBreak).1 := by
  have hgo : f.machine.pipeline.pcIf.stopIf = false ∧ n = f.next := by
    unfold new at hn
    split at hn
    · cases hn
    next hstop => exact ⟨eq_false_of_ne_true hstop, (Option.some.inj hn).symm⟩
  obtain ⟨hgo, rfl⟩ := hgo
  have hnot : ∀ start stop fdt, .fetch f.next start stop fdt ∉ f.log :=
    fun _ _ _ hmem => absurd (hordered.fetch hmem) (Nat.lt_irrefl _)
  have hfetched : ∀ {start stop fdt},
      .fetch f.next start stop fdt ∈ f.log ++ f.events cfg skipBreak core →
      fdt = (f.fetched cfg skipBreak).1 := by
    intro start stop fdt hmem
    rcases List.mem_append.mp hmem with hlog | hevent
    · exact absurd hlog (hnot start stop fdt)
    · exact (fetch_mem_events hevent).2.2.2
  refine ⟨?_, hfetched, fun hexcause => ?_⟩
  · simp [Flight.fetched, fetch, hgo]
  · refine (seen_of_not_fetched hnot).step_younger fun _ start stop fdt hmem => ?_
    rw [hfetched hmem]
    exact fetchWord_of_fetch hgo hexcause

end Step

theorem AllSeen.advance {skipBreak : Bool} {f : Flight M} {s : CorePipelined M}
    (h : AllSeen cfg f) (hordered : Ordered f) (hsafe : FenceSafe cfg f)
    (hstep : CorePipelined.step cfg skipBreak f.machine = (.ok (), s)) :
    AllSeen cfg (f.advance cfg skipBreak s) := by
  obtain ⟨memWb, idEx, hdone⟩ := step_done hstep
  obtain ⟨csrReadVal, -, hidEx⟩ := decode_ok hdone.decode
  obtain ⟨internal, hmemory⟩ := hdone.memory
  have hexMem : memWb.excause = .none → f.machine.pipeline.exMem.excause = .none := by
    obtain ⟨csr, core₁, -, hr, -⟩ := memory_ok hmemory
    intro hexcause
    exact memoryAccess_excause ((congrArg (·.1.excause) hr).symm.trans hexcause)
  refine ⟨Occupied.advance hdone (fun n hn => fetchSeen_new hordered hn)
    (fun n hn => (h.occupied.ifId n hn).step hordered hsafe hn)
    (fun n hn valRs valRt ffRs ffRt => ?_)
    (fun n hn hexcause => (h.occupied.idEx n hn).step hordered hsafe hn hexcause)
    (fun n hn hexcause => ?_), fun {m dt before after} hmem hexcause => ?_⟩
  · have hseen : FetchSeen cfg (f.advance cfg skipBreak s).log n f.machine.pipeline.ifId :=
      (h.occupied.ifId n hn).step hordered hsafe hn
    subst hidEx
    refine ⟨hseen.isValid, fun hmem => ?_, fun hexcause => hseen.seen ?_⟩
    · rw [hseen.fetched hmem]
      exact ⟨rfl, rfl⟩
    · rcases decodeExcause_cases cfg f.machine.pipeline.ifId.inst.flags
        f.machine.pipeline.ifId.excause (f.accessed cfg).currentPrivilege with hkept | hown
      · exact hkept.symm.trans hexcause
      · change decodeExcause _ _ _ _ = .none at hexcause
        rw [hexcause] at hown
        exact absurd hown (by decide)
  · refine (h.occupied.exMem n hn (hexMem hexcause)).step_older fun m hm => ?_
    rw [hn] at hm
    exact le_of_eq (Option.some.inj hm)
  · rcases List.mem_append.mp hmem with hlog | hevent
    · refine (h.retired hlog hexcause).step_older fun n hn => ?_
      refine (hordered.writeback hlog n (List.mem_append_left _ ?_)).le
      simp [inOrder, behind, hn]
    · obtain ⟨hslot, rfl, -, -⟩ := writeback_mem_events hevent
      refine (h.occupied.memWb m hslot hexcause).step_older fun n hn => ?_
      have hslots : (m :: (f.slots.behind ++ [f.next])).Pairwise (· < ·) := by
        have hslots := hordered.slots
        rwa [inOrder, hslot, List.append_assoc] at hslots
      have hbehind : n ∈ f.slots.behind := by simp [behind, hn]
      exact (List.rel_of_pairwise_cons hslots (List.mem_append_left _ hbehind)).le

/-! ### A program that writes the instruction behind a fence -/

def after (cfg : CoreConfig) (p : Flight M → Bool) : Nat → Flight M → Option (Flight M)
  | 0, f => some f
  | n + 1, f =>
    if p f then
      match CorePipelined.step cfg false f.machine with
      | (.ok (), s) => after cfg p n (f.advance cfg false s)
      | _ => none
    else none

theorem after_run {p : Flight M → Bool} {P : Flight M → Prop} (hp : ∀ f, p f = true → P f)
    {n : Nat} {f g : Flight M} (h : after cfg p n f = some g) :
    Relation.ReflTransGen (fun f f' => Moves cfg f f' ∧ P f) f g := by
  induction n generalizing f with
  | zero =>
    cases h
    exact .refl
  | succ n ih =>
    unfold after at h
    by_cases hf : p f = true
    · rw [if_pos hf] at h
      split at h
      next s hstep => exact (ih h).head ⟨.step false hstep, hp f hf⟩
      next => cases h
    · rw [if_neg hf] at h
      cases h

instance (cfg : CoreConfig) (f : Flight M) : Decidable (FenceSafe cfg f) :=
  decidable_of_iff
    (((f.machine.pipeline.exMem.isFence = true → f.machine.pipeline.ifId.isValid = true →
      f.machine.pipeline.ifId.excause = .none →
      (f.accessed cfg).fetchWord cfg f.machine.pipeline.ifId.instAddr =
        some f.machine.pipeline.ifId.inst)) ∧
    (f.machine.pipeline.exMem.isFence = true → f.machine.pipeline.idEx.isValid = true →
      f.machine.pipeline.idEx.excause = .none →
      (f.accessed cfg).fetchWord cfg f.machine.pipeline.idEx.instAddr =
        some f.machine.pipeline.idEx.inst))
    ⟨fun h => ⟨h.1, h.2⟩, fun h => ⟨h.ifId, h.idEx⟩⟩

/-- The instruction with number `m` has retired and was fetched as `inst` before an older fence took
effect; behind the fence a fetch at its address returns `current`. -/
def FetchedBefore (cfg : CoreConfig) (log : List (StageEvent M)) (m : Nat) (inst : Instruction)
    (current : Option Instruction) : Prop :=
  ∃ earlier n dt before after later start stop fdt,
    log = earlier ++ .memory n dt before after :: later ∧ dt.isFence = true ∧ n < m ∧
    .fetch m start stop fdt ∈ earlier ∧ fdt.inst = inst ∧
    after.fetchWord cfg fdt.instAddr = current ∧
    ∃ wdt before after, .writeback m wdt before after ∈ log ∧ wdt.excause = .none

/-- Looks for the fetch, the fence and the write-back at given places of a log. -/
def fetchedBeforeAt (cfg : CoreConfig) (log : List (StageEvent M)) (i j k : Nat) :
    Option (Nat × Instruction × Option Instruction) :=
  match log[i]?, log[j]?, log[k]? with
  | some (.fetch m _ _ fdt), some (.memory n dt _ after), some (.writeback m' wdt _ _) =>
    if i < j ∧ dt.isFence = true ∧ n < m ∧ m' = m ∧ wdt.excause = .none then
      some (m, fdt.inst, after.fetchWord cfg fdt.instAddr)
    else none
  | _, _, _ => none

theorem fetchedBefore_of_at {log : List (StageEvent M)} {i j k m : Nat} {inst : Instruction}
    {current : Option Instruction}
    (h : fetchedBeforeAt cfg log i j k = some (m, inst, current)) :
    FetchedBefore cfg log m inst current := by
  unfold fetchedBeforeAt at h
  split at h
  next m₀ start stop fdt n dt before after m' wdt before' after' hi hj hk =>
    by_cases hat : i < j ∧ dt.isFence = true ∧ n < m₀ ∧ m' = m₀ ∧ wdt.excause = .none
    · rw [if_pos hat] at h
      cases h
      obtain ⟨hij, hfence, hlt, rfl, hexcause⟩ := hat
      refine ⟨log.take j, n, dt, before, after, log.drop (j + 1), start, stop, fdt, ?_, hfence, hlt,
        ?_, rfl, rfl, wdt, before', after', List.mem_of_getElem? hk, hexcause⟩
      · obtain ⟨hlen, hget⟩ := List.getElem?_eq_some_iff.mp hj
        rw [← hget, List.getElem_cons_drop, List.take_append_drop]
      · refine List.mem_of_getElem? (i := i) ?_
        rw [List.getElem?_take_of_lt hij, hi]
    · rw [if_neg hat] at h
      cases h
  next => cases h

/-- The program puts `addi x10, x0, 2` into `x5`, stores it and executes `fence.i`; behind the
fence, at 0x210, stands `addi x10, x0, 1`. -/
def fenceCore (store : Instruction) : Core FlatMemory :=
  .reset (.rv32 .stallForward) (.default false)
    (.ofWords 0x200 [0x002002b7, 0x51328293, store, 0x0000100f, 0x00100513, 0x00000013])

end Flight

end QtRvSim
