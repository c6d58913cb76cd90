import QtRvSim.Refinement.CacheTransparency
import Mathlib.Algebra.Group.End

/-!
# Reset of a cache

After a reset every line is invalid.  A cache that had no dirty line goes on as a new cache over
the same memory wherever the replacement policy cannot tell the two apart.
-/

namespace QtRvSim

open Cache CachePolicy Outcome

namespace Outcome

variable {σ α β : Type}

def Related (R : σ → σ → Prop) (x y : Outcome σ α) : Prop :=
  x.1 = y.1 ∧ R x.2 y.2

theorem Related.andThen {R : σ → σ → Prop} {x y : Outcome σ α} (h : Related R x y)
    {k k' : α → σ → Outcome σ β} (hk : ∀ a s s', R s s' → Related R (k a s) (k' a s')) :
    Related R (x.andThen k) (y.andThen k') := by
  obtain ⟨rx, s⟩ := x
  obtain ⟨ry, s'⟩ := y
  obtain ⟨hresult, hstate⟩ := h
  subst hresult
  cases rx with
  | ok a => exact hk a s s' hstate
  | error e => exact ⟨rfl, hstate⟩

end Outcome

namespace CachePolicy

variable {cfg : CacheConfig} {ρ : Nat → Equiv.Perm Nat} {p p' : CachePolicy}

/-- Two policies that select the same ways of a row, up to the names of the ways. -/
def Renamed (cfg : CacheConfig) (ρ : Nat → Equiv.Perm Nat) (p p' : CachePolicy) : Prop :=
  ρ = 1 ∧ (p = p' ∨ cfg.associativity = 1) ∨
    ∃ stats, p = .lru stats ∧ p' = .lru fun row => (stats row).map (ρ row)

theorem Renamed.selectWayToEvict (h : Renamed cfg ρ p p') (hfits : p.Fits cfg)
    (hfits' : p'.Fits cfg) (row : Nat) :
    (p'.selectWayToEvict cfg.associativity row).1 =
        ρ row (p.selectWayToEvict cfg.associativity row).1 ∧
      Renamed cfg ρ (p.selectWayToEvict cfg.associativity row).2
        (p'.selectWayToEvict cfg.associativity row).2 := by
  have hlt := selectWayToEvict_lt hfits row
  have hlt' := selectWayToEvict_lt hfits' row
  rcases h with ⟨rfl, rfl | hone⟩ | ⟨stats, rfl, rfl⟩
  · exact ⟨rfl, .inl ⟨rfl, .inl rfl⟩⟩
  · refine ⟨?_, .inl ⟨rfl, .inr hone⟩⟩
    rw [Pi.one_apply, Equiv.Perm.one_apply]
    omega
  · refine ⟨?_, .inr ⟨stats, rfl, rfl⟩⟩
    have hlen := (hfits.2 row).length_eq
    simp only [selectWayToEvict]
    rcases hrow : stats row with _ | ⟨way, ways⟩
    · rw [hrow, List.length_range] at hlen
      exact absurd hlen (Nat.ne_of_lt cfg.associativity_pos)
    · rfl

theorem requeue_map {f : Nat → Nat} (hf : Function.Injective f) (way : Nat) (isValid : Bool)
    (queue : List Nat) :
    (requeue way isValid queue).map f = requeue (f way) isValid (queue.map f) := by
  cases isValid <;> simp [requeue, List.map_erase hf]

theorem Renamed.updateStats (h : Renamed cfg ρ p p') (hfits : p.Fits cfg) (hfits' : p'.Fits cfg)
    {way : Nat} (hway : way < cfg.associativity) (row : Nat) (isValid : Bool) :
    Renamed cfg ρ (p.updateStats way row isValid).2
      (p'.updateStats (ρ row way) row isValid).2 := by
  rcases h with ⟨rfl, rfl | hone⟩ | ⟨stats, rfl, rfl⟩
  · exact .inl ⟨rfl, .inl rfl⟩
  · exact .inl ⟨rfl, .inr hone⟩
  · have hmem : way ∈ stats row := (hfits.2 row).mem_iff.mpr (List.mem_range.mpr hway)
    rw [updateStats_lru isValid hmem ((hfits.2 row).nodup_iff.mpr List.nodup_range),
      updateStats_lru isValid (List.mem_map_of_mem hmem)
        ((hfits'.2 row).nodup_iff.mpr List.nodup_range)]
    refine .inr ⟨_, rfl, congrArg lru ?_⟩
    funext r
    by_cases hr : r = row
    · subst hr
      rw [setRow_self, setRow_self, requeue_map (ρ r).injective]
    · rw [setRow_of_ne _ _ hr, setRow_of_ne _ _ hr]

/-- The ways of a queue can be renamed to their places in it. -/
theorem exists_renaming {queue : List Nat} {n : Nat} (h : queue.Perm (List.range n)) :
    ∃ σ : Equiv.Perm Nat, queue.map σ = List.range n ∧ ∀ w, σ w < n ↔ w < n := by
  have hnodup : queue.Nodup := h.nodup_iff.mpr List.nodup_range
  have hlen : queue.length = n := by rw [h.length_eq, List.length_range]
  have hmem {w : Nat} (hw : w < n) : queue.idxOf w < queue.length :=
    List.idxOf_lt_length_of_mem (h.mem_iff.mpr (List.mem_range.mpr hw))
  have hplace {i : Nat} (hi : i < queue.length) : queue[i] < n :=
    List.mem_range.mp (h.mem_iff.mp (List.getElem_mem hi))
  have hge {i : Nat} (hi : ¬i < n) : queue.getD i i = i :=
    List.getD_eq_default _ _ (hlen ▸ Nat.not_lt.mp hi)
  refine ⟨⟨fun w => if w < n then queue.idxOf w else w, fun i => queue.getD i i,
    fun w => ?_, fun i => ?_⟩, List.ext_getElem (by simp [hlen]) fun i hi _ => ?_, fun w => ?_⟩
  · by_cases hw : w < n
    · simp only [if_pos hw]
      rw [List.getD_eq_getElem _ _ (hmem hw), List.getElem_idxOf]
    · simp only [if_neg hw, hge hw]
  · by_cases hi : i < n
    · simp only [List.getD_eq_getElem _ _ (hlen.symm ▸ hi), if_pos (hplace _), hnodup.idxOf_getElem]
    · simp only [hge hi, if_neg hi]
  · rw [List.length_map] at hi
    simp [if_pos (hplace hi), hnodup.idxOf_getElem]
  · by_cases hw : w < n
    · simpa [hw] using hlen ▸ hmem hw
    · simp [hw]

end CachePolicy

namespace Cache

variable {cfg : CacheConfig}

/-- Two caches over the same memory that no read or write tells apart: up to the names `ρ` of the
ways of a row, their valid lines are the same and their policies select the same ways. -/
structure Alike (cfg : CacheConfig) (ρ : Nat → Equiv.Perm Nat) (c c' : Cache (Nat → Byte)) :
    Prop where
  fits : c.replacementPolicy.Fits cfg
  fits' : c'.replacementPolicy.Fits cfg
  policy : c.replacementPolicy.Renamed cfg ρ c'.replacementPolicy
  ways : ∀ row way, ρ row way < cfg.associativity ↔ way < cfg.associativity
  mem : c.mem = c'.mem
  place : ∀ way row, (c.dt way row).valid → way < cfg.associativity
  unique : c.UniqueTags
  valid : ∀ way row, (c.dt way row).valid = (c'.dt (ρ row way) row).valid
  line : ∀ way row, (c.dt way row).valid → c.dt way row = c'.dt (ρ row way) row
  clean : ∀ way row, (c.dt way row).dirty → (c.dt way row).valid
  clean' : ∀ way row, (c'.dt way row).dirty → (c'.dt way row).valid

namespace Alike

variable {ρ : Nat → Equiv.Perm Nat} {c c' : Cache (Nat → Byte)}

/-- A state with the same lines and memory, and policies that are still alike. -/
theorem congr (h : Alike cfg ρ c c') {d d' : Cache (Nat → Byte)} (hdt : d.dt = c.dt)
    (hdt' : d'.dt = c'.dt) (hmem : d.mem = d'.mem) (hfits : d.replacementPolicy.Fits cfg)
    (hfits' : d'.replacementPolicy.Fits cfg)
    (hpolicy : d.replacementPolicy.Renamed cfg ρ d'.replacementPolicy) : Alike cfg ρ d d' where
  fits := hfits
  fits' := hfits'
  policy := hpolicy
  ways := h.ways
  mem := hmem
  place := hdt ▸ h.place
  unique := by
    rw [UniqueTags, hdt]
    exact h.unique
  valid := hdt ▸ hdt' ▸ h.valid
  line := hdt ▸ hdt' ▸ h.line
  clean := hdt ▸ h.clean
  clean' := hdt' ▸ h.clean'

/-- Counters do not matter. -/
theorem count (h : Alike cfg ρ c c') (k k' : CacheCounters → CacheCounters) :
    Alike cfg ρ (c.count k) (c'.count k') :=
  h.congr rfl rfl h.mem h.fits h.fits' h.policy

variable {way : Nat}

/-- What holds of the two new lines and of the others holds of every pair of lines. -/
theorem forall_setLine₂ {row : Nat} {line line' : CacheLine} {P : CacheLine → CacheLine → Prop}
    (hself : P line line') (hother : ∀ w r, P (c.dt w r) (c'.dt (ρ r w) r)) (w r : Nat) :
    P ((c.setLine way row line).dt w r) ((c'.setLine (ρ row way) row line').dt (ρ r w) r) := by
  by_cases heq : w = way ∧ r = row
  · obtain ⟨rfl, rfl⟩ := heq
    rwa [setLine_dt_self, setLine_dt_self]
  · rw [setLine_dt_of_ne _ _ heq, setLine_dt_of_ne]
    · exact hother w r
    · rintro ⟨hw, rfl⟩
      exact heq ⟨(ρ r).injective hw, rfl⟩

/-- The same line in the same place; an invalid line has to be clean. -/
theorem setLine (h : Alike cfg ρ c c') {row : Nat} (hway : way < cfg.associativity)
    {line line' : CacheLine} (hvalid : line.valid = line'.valid) (hline : line.valid → line = line')
    (hclean : line.dirty → line.valid) (hclean' : line'.dirty → line'.valid)
    (hunique : line.valid → ∀ w, w ≠ way → (c.dt w row).valid → (c.dt w row).tag ≠ line.tag) :
    Alike cfg ρ (c.setLine way row line) (c'.setLine (ρ row way) row line') where
  fits := h.fits
  fits' := h.fits'
  policy := h.policy
  ways := h.ways
  mem := h.mem
  place := forall_setLine (P := fun w _ l => l.valid → w < cfg.associativity) (fun _ => hway)
    fun w r _ => h.place w r
  unique := h.unique.setLine hunique
  valid := forall_setLine₂ (P := fun l l' => l.valid = l'.valid) hvalid h.valid
  line := forall_setLine₂ (P := fun l l' => l.valid → l = l') hline h.line
  clean := forall_setLine (P := fun _ _ l => l.dirty → l.valid) hclean fun w r _ => h.clean w r
  clean' := forall_setLine (P := fun _ _ l => l.dirty → l.valid) hclean' fun w r _ => h.clean' w r

theorem dirty (h : Alike cfg ρ c c') (way row : Nat) :
    (c.dt way row).dirty = (c'.dt (ρ row way) row).dirty := by
  rcases hv : (c.dt way row).valid with _ | _
  · have hv' : (c'.dt (ρ row way) row).valid = false := by rw [← h.valid, hv]
    have hd := mt (h.clean way row) (by simp [hv])
    have hd' := mt (h.clean' (ρ row way) row) (by simp [hv'])
    simp only [Bool.not_eq_true] at hd hd'
    rw [hd, hd']
  · rw [h.line way row hv]

theorem updateStats (h : Alike cfg ρ c c') (hway : way < cfg.associativity) (row : Nat)
    (isValid : Bool) :
    ∃ d d', c.updateStats way row isValid = (.ok (), d) ∧
      c'.updateStats (ρ row way) row isValid = (.ok (), d') ∧ d.dt = c.dt ∧ Alike cfg ρ d d' := by
  have hrenamed := h.policy.updateStats h.fits h.fits' hway row isValid
  obtain ⟨p, hupdate, hfits⟩ := updateStats_ok h.fits hway row isValid
  obtain ⟨p', hupdate', hfits'⟩ := updateStats_ok h.fits' ((h.ways row way).mpr hway)
    row isValid
  rw [hupdate, hupdate'] at hrenamed
  rw [Cache.updateStats, Cache.updateStats, hupdate, hupdate']
  exact ⟨_, _, rfl, rfl, rfl, h.congr rfl rfl h.mem hfits hfits' hrenamed⟩

/-- The same way is found, or none. -/
theorem findBlockIndex (h : Alike cfg ρ c c') (loc : CacheLocation) :
    c'.findBlockIndex cfg loc = ρ loc.row (c.findBlockIndex cfg loc) ∨
      cfg.associativity ≤ c.findBlockIndex cfg loc ∧
        cfg.associativity ≤ c'.findBlockIndex cfg loc := by
  -- what the second cache finds, the first one has
  have hback (hhit' : c'.findBlockIndex cfg loc < cfg.associativity) :
      ∃ way < cfg.associativity, ρ loc.row way = c'.findBlockIndex cfg loc ∧
        (c.dt way loc.row).valid ∧ (c.dt way loc.row).tag = loc.tag := by
    obtain ⟨hvalid', htag'⟩ := findBlockIndex_of_hit hhit'
    obtain ⟨way, hway⟩ := (ρ loc.row).surjective (c'.findBlockIndex cfg loc)
    rw [← hway] at hhit' hvalid' htag'
    have hvalid := (h.valid way loc.row).trans hvalid'
    exact ⟨way, (h.ways _ _).mp hhit', hway, hvalid, by rwa [h.line way loc.row hvalid]⟩
  by_cases hhit : c.findBlockIndex cfg loc < cfg.associativity
  · obtain ⟨hvalid, htag⟩ := findBlockIndex_of_hit hhit
    have hhit' : c'.findBlockIndex cfg loc < cfg.associativity := by
      by_contra hmiss
      refine findBlockIndex_of_miss (Nat.not_lt.mp hmiss) _ ((h.ways loc.row _).mpr hhit) ?_ ?_
      · rwa [← h.valid]
      · rwa [← h.line _ _ hvalid]
    obtain ⟨way, -, hway, hvalid', htag'⟩ := hback hhit'
    rw [← hway, h.unique _ _ loc.row hvalid hvalid' (htag.trans htag'.symm)]
    exact .inl rfl
  · refine .inr ⟨Nat.not_lt.mp hhit, Nat.not_lt.mp fun hhit' => ?_⟩
    obtain ⟨way, hway, -, hvalid, htag⟩ := hback hhit'
    exact findBlockIndex_of_miss (Nat.not_lt.mp hhit) way hway hvalid htag

theorem miss_iff (h : Alike cfg ρ c c') (loc : CacheLocation) :
    cfg.associativity ≤ c'.findBlockIndex cfg loc ↔
      cfg.associativity ≤ c.findBlockIndex cfg loc := by
  rcases h.findBlockIndex loc with hfound | ⟨hmiss, hmiss'⟩
  · rw [hfound, ← Nat.not_lt, ← Nat.not_lt, h.ways]
  · exact iff_of_true hmiss' hmiss

theorem kick (h : Alike cfg ρ c c') (hway : way < cfg.associativity) (row : Nat) :
    ∃ d d', c.kick cfg way row = (.ok (), d) ∧ c'.kick cfg (ρ row way) row = (.ok (), d') ∧
      d.dt = (c.emptied way row).dt ∧ Alike cfg ρ d d' := by
  have hemptied : Alike cfg ρ (c.emptied way row) (c'.emptied (ρ row way) row) :=
    h.setLine hway rfl nofun nofun nofun nofun
  have hrenamed := h.policy.updateStats h.fits h.fits' hway row false
  obtain ⟨p, hupdate, hfits⟩ := updateStats_ok h.fits hway row false
  obtain ⟨p', hupdate', hfits'⟩ := updateStats_ok h.fits' ((h.ways row way).mpr hway)
    row false
  rw [hupdate, hupdate'] at hrenamed
  obtain ⟨d, hkick, rfl, hdt, hmem⟩ := @kick_of_updateStats cfg c way row p hupdate
  obtain ⟨d', hkick', rfl, hdt', hmem'⟩ := @kick_of_updateStats cfg c' _ row p' hupdate'
  refine ⟨d, d', hkick, hkick', hdt, hemptied.congr hdt hdt' ?_ hfits hfits' hrenamed⟩
  rw [hmem, hmem', ← h.dirty, ← h.mem]
  split
  next hdirty => rw [h.line way row (h.clean way row hdirty.1)]
  next => rfl

/-- The way for a location holds the block, or no line does. -/
theorem makeRoom (h : Alike cfg ρ c c') (loc : CacheLocation) :
    ∃ w d d', c.makeRoom cfg loc (c.findBlockIndex cfg loc) = (.ok w, d) ∧
      c'.makeRoom cfg loc (c'.findBlockIndex cfg loc) = (.ok (ρ loc.row w), d') ∧
      w < cfg.associativity ∧ ((d.dt w loc.row).valid ∨ d.Lacks loc.row loc.tag) ∧
      Alike cfg ρ d d' := by
  by_cases hmiss : cfg.associativity ≤ c.findBlockIndex cfg loc
  · have hlt := selectWayToEvict_lt h.fits loc.row
    obtain ⟨hway, hrenamed⟩ := h.policy.selectWayToEvict h.fits h.fits' loc.row
    have hselected : Alike cfg ρ
        { c with replacementPolicy :=
          (c.replacementPolicy.selectWayToEvict cfg.associativity loc.row).2 }
        { c' with replacementPolicy :=
          (c'.replacementPolicy.selectWayToEvict cfg.associativity loc.row).2 } :=
      h.congr rfl rfl h.mem (selectWayToEvict_fits h.fits loc.row)
        (selectWayToEvict_fits h.fits' loc.row) hrenamed
    obtain ⟨d, d', hkick, hkick', hdt, hd⟩ := hselected.kick hlt loc.row
    rw [Cache.makeRoom, Cache.makeRoom, if_pos hmiss, if_pos ((h.miss_iff loc).mpr hmiss)]
    simp only [hway, hkick, hkick', andThen_ok, if_pos hlt, if_pos ((h.ways loc.row _).mpr hlt)]
    refine ⟨_, d, d', rfl, rfl, hlt, .inr fun way hvalid => ?_, hd⟩
    rw [hdt] at hvalid ⊢
    have hkept := (Shape.emptied_valid hvalid).1
    rw [hkept] at hvalid ⊢
    exact findBlockIndex_of_miss hmiss way (h.place way _ hvalid) hvalid
  · have hhit := Nat.not_le.mp hmiss
    have hfound := (h.findBlockIndex loc).resolve_right fun hboth => hmiss hboth.1
    rw [Cache.makeRoom, Cache.makeRoom, if_neg hmiss, if_neg (mt (h.miss_iff loc).mp hmiss), hfound]
    exact ⟨_, c, c', rfl, rfl, hhit, .inl (findBlockIndex_of_hit hhit).1, h⟩

/-- Filling a line; afterwards it is valid. -/
theorem fill (h : Alike cfg ρ c c') (accessType : AccessType) {loc : CacheLocation}
    (hway : way < cfg.associativity) (hplace : (c.dt way loc.row).valid ∨ c.Lacks loc.row loc.tag) :
    ∃ d d', c.fill cfg accessType loc way = (.ok (), d) ∧
      c'.fill cfg accessType loc (ρ loc.row way) = (.ok (), d') ∧ (d.dt way loc.row).valid ∧
      Alike cfg ρ d d' := by
  obtain ⟨d, hfill, hmem, hpolicy, hdt⟩ := @fill_eq cfg c accessType loc way
  obtain ⟨d', hfill', hmem', hpolicy', hdt'⟩ := @fill_eq cfg c' accessType loc (ρ loc.row way)
  have hmems : d.mem = d'.mem := by rw [hmem, hmem', h.mem]
  have hfits : d.replacementPolicy.Fits cfg := hpolicy ▸ h.fits
  have hfits' : d'.replacementPolicy.Fits cfg := hpolicy' ▸ h.fits'
  have hrenamed : d.replacementPolicy.Renamed cfg ρ d'.replacementPolicy :=
    hpolicy ▸ hpolicy' ▸ h.policy
  refine ⟨d, d', hfill, hfill', ?_⟩
  by_cases hvalid : (c.dt way loc.row).valid
  · rw [if_pos hvalid] at hdt
    rw [if_pos (h.valid way loc.row ▸ hvalid)] at hdt'
    exact ⟨by rwa [hdt], h.congr hdt hdt' hmems hfits hfits' hrenamed⟩
  · rw [if_neg hvalid] at hdt
    rw [if_neg (h.valid way loc.row ▸ hvalid), ← h.mem] at hdt'
    refine ⟨by rw [hdt, setLine_dt_self],
      (h.setLine hway rfl ?_ ?_ ?_ ?_).congr hdt hdt' hmems hfits hfits' hrenamed⟩
    · exact fun _ => rfl
    · exact fun _ => rfl
    · exact fun _ => rfl
    · exact fun _ w _ => hplace.resolve_left hvalid w

theorem bringIn (h : Alike cfg ρ c c') (accessType : AccessType) (loc : CacheLocation) :
    ∃ w d d', c.bringIn cfg accessType loc (c.findBlockIndex cfg loc) = (.ok w, d) ∧
      c'.bringIn cfg accessType loc (c'.findBlockIndex cfg loc) = (.ok (ρ loc.row w), d') ∧
      (d.dt w loc.row).valid ∧ Alike cfg ρ d d' := by
  obtain ⟨w, c₁, c₁', hroom, hroom', hway, hplace, h₁⟩ := h.makeRoom loc
  obtain ⟨c₂, c₂', hfill, hfill', hvalid, h₂⟩ := h₁.fill accessType hway hplace
  obtain ⟨c₃, c₃', hupdate, hupdate', hdt, h₃⟩ := h₂.updateStats hway loc.row
    (c₂.dt w loc.row).valid
  refine ⟨w, c₃, c₃', ?_, ?_, by rwa [hdt], h₃⟩
  · rw [Cache.bringIn, hroom, andThen_ok, hfill, andThen_ok, hupdate, andThen_ok]
  · rw [Cache.bringIn, hroom', andThen_ok, hfill', andThen_ok, ← h₂.valid, hupdate', andThen_ok]

/-- Copying from or to a valid line. -/
theorem transfer (h : Alike cfg ρ c c') (accessType : AccessType) {loc : CacheLocation}
    (hvalid : (c.dt way loc.row).valid) (buffer : List Byte) (size : Nat) :
    (c.transfer accessType loc way buffer size).1 =
        (c'.transfer accessType loc (ρ loc.row way) buffer size).1 ∧
      (c.transfer accessType loc way buffer size).2.1 =
        (c'.transfer accessType loc (ρ loc.row way) buffer size).2.1 ∧
      Alike cfg ρ (c.transfer accessType loc way buffer size).2.2
        (c'.transfer accessType loc (ρ loc.row way) buffer size).2.2 := by
  have hway := h.place way loc.row hvalid
  have hline := h.line way loc.row hvalid
  have hunique (w : Nat) (hne : w ≠ way) (hv : (c.dt w loc.row).valid) :
      (c.dt w loc.row).tag ≠ (c'.dt (ρ loc.row way) loc.row).tag :=
    fun htag => hne (h.unique w way loc.row hv hvalid (hline ▸ htag))
  have hvalid' : (c'.dt (ρ loc.row way) loc.row).valid := hline ▸ hvalid
  cases accessType with
  | read =>
    simp only [Cache.transfer, hline, true_and]
    exact h
  | write =>
    simp only [Cache.transfer, hline]
    split
    · refine ⟨rfl, rfl, ?_⟩
      simp only [setLine_setLine]
      refine Alike.count ?_ _ _
      exact h.setLine hway rfl (fun _ => rfl) (fun _ => hvalid') (fun _ => hvalid')
        fun _ => hunique
    · exact ⟨rfl, rfl, h.setLine hway rfl (fun _ => rfl) (fun _ => hvalid') (fun _ => hvalid')
        fun _ => hunique⟩

theorem access (h : Alike cfg ρ c c') (accessType : AccessType) (fuel address : Nat)
    (buffer : List Byte) (size : Nat) :
    Outcome.Related (Alike cfg ρ) (c.access cfg accessType fuel address buffer size)
      (c'.access cfg accessType fuel address buffer size) := by
  induction fuel generalizing c c' address buffer size with
  | zero => exact ⟨rfl, h⟩
  | succ fuel ih =>
    rw [access, access]
    simp only [h.miss_iff]
    split
    · exact ⟨rfl, h⟩
    split
    · split
      · exact ih (h.count _ _) _ _ _
      · refine ⟨rfl, ?_⟩
        dsimp only
        exact h.count _ _
    · obtain ⟨w, d, d', hbring, hbring', hvalid, hd⟩ := h.bringIn accessType
        (cfg.computeLocation address)
      simp only [hbring, hbring', andThen_ok]
      obtain ⟨hchanged, hbytes, hstates⟩ := hd.transfer accessType hvalid (buffer.take (size -
        cfg.calculateOverflowToNextBlocks size (cfg.computeLocation address))) (size -
        cfg.calculateOverflowToNextBlocks size (cfg.computeLocation address))
      rw [← hchanged, ← hbytes]
      split
      · exact (ih hstates _ _ _).andThen fun rest e e' he => ⟨rfl, he⟩
      · exact ⟨rfl, hstates⟩

theorem writeLower (h : Alike cfg ρ c c') (type : AccessEffects) (destination : Nat)
    (source : List Byte) :
    Outcome.Related (Alike cfg ρ) (c.writeLower type destination source)
      (c'.writeLower type destination source) := by
  refine ⟨?_, h.congr rfl rfl ?_ h.fits h.fits' h.policy⟩
  · simp only [Cache.writeLower, Cache.count, h.mem]
    rfl
  · simp only [Cache.writeLower, Cache.count, h.mem]
    rfl

theorem write (h : Alike cfg ρ c c') (type : AccessEffects) (destination : Nat)
    (source : List Byte) :
    Outcome.Related (Alike cfg ρ) (c.write cfg type destination source)
      (c'.write cfg type destination source) := by
  rw [Cache.write, Cache.write]
  split
  · exact h.writeLower type destination source
  · refine (h.access .write source.length destination source source.length).andThen ?_
    intro result d d' hd
    split
    · exact hd.writeLower type destination source
    · exact ⟨rfl, hd⟩

theorem read (h : Alike cfg ρ c c') (source size : Nat) :
    Outcome.Related (Alike cfg ρ) (c.read cfg .regular source size)
      (c'.read cfg .regular source size) := by
  rw [Cache.read, Cache.read]
  split
  · refine ⟨?_, h.congr rfl rfl h.mem h.fits h.fits' h.policy⟩
    simp only [Cache.count, h.mem]
    rfl
  · simp only [reduceCtorEq, if_false]
    exact (h.access .read size source [] size).andThen fun result d d' hd => ⟨rfl, hd⟩

/-- A flush goes through the ways in order, so they have to have the same names. -/
theorem kickAll (h : Alike cfg 1 c c') {places : List (Nat × Nat)}
    (hplaces : ∀ p ∈ places, p.1 < cfg.associativity) :
    Outcome.Related (Alike cfg 1) (c.kickAll cfg places) (c'.kickAll cfg places) := by
  induction places generalizing c c' with
  | nil => exact ⟨rfl, h⟩
  | cons p places ih =>
    obtain ⟨way, row⟩ := p
    have hvalid : (c.dt way row).valid = (c'.dt way row).valid := h.valid way row
    rw [kickAll, kickAll, ← hvalid]
    refine Outcome.Related.andThen (R := Alike cfg 1) ?_ fun _ d d' hd =>
      ih hd fun p hp => hplaces p (List.mem_cons_of_mem _ hp)
    split
    · obtain ⟨d, d', hkick, hkick', -, hd⟩ := h.kick (hplaces _ List.mem_cons_self) row
      rw [hkick, show c'.kick cfg way row = _ from hkick']
      exact ⟨rfl, hd⟩
    · exact ⟨rfl, h⟩

theorem flush (h : Alike cfg 1 c c') :
    Outcome.Related (Alike cfg 1) (c.flush cfg) (c'.flush cfg) := by
  rw [Cache.flush, Cache.flush]
  split
  · refine (h.kickAll (mem_places_lt cfg)).andThen fun _ d d' hd => ⟨rfl, ?_⟩
    dsimp only
    exact hd.count _ _
  · exact ⟨rfl, h⟩

theorem onCache_of_ne_flush (h : Alike cfg ρ c c') {op : CacheOp} (hop : op ≠ .flush) :
    Outcome.Related (Alike cfg ρ) (op.onCache cfg c) (op.onCache cfg c') := by
  cases op with
  | read source size => exact h.read source size
  | write destination source =>
    exact (h.write .regular destination source).andThen fun _ d d' hd => ⟨rfl, hd⟩
  | flush => exact absurd rfl hop

/-- Operations do not tell two caches apart that are alike. -/
theorem onCache (h : Alike cfg 1 c c') (op : CacheOp) :
    Outcome.Related (Alike cfg 1) (op.onCache cfg c) (op.onCache cfg c') := by
  by_cases hop : op = .flush
  · subst hop
    exact h.flush.andThen fun _ d d' hd => ⟨rfl, hd⟩
  · exact h.onCache_of_ne_flush hop

end Alike

def outputs (cfg : CacheConfig) (c : Cache (Nat → Byte)) :
    List CacheOp → List (Except SimulatorException (List Byte))
  | [] => []
  | op :: ops => (op.onCache cfg c).1 :: outputs cfg (op.onCache cfg c).2 ops

/-- Two caches that return the same bytes in a sequence of operations and leave the same memory
behind. -/
def SameRun (cfg : CacheConfig) (c c' : Cache (Nat → Byte)) (ops : List CacheOp) : Prop :=
  c.outputs cfg ops = c'.outputs cfg ops ∧ (c.after cfg ops).mem = (c'.after cfg ops).mem

variable {c c' : Cache (Nat → Byte)} {ops : List CacheOp}

/-- A relation that every operation keeps, and that forces the same answers and the same memory,
carries over to runs. -/
theorem sameRun_of_step {R : Cache (Nat → Byte) → Cache (Nat → Byte) → Prop}
    (hmem : ∀ c c', R c c' → c.mem = c'.mem)
    (hstep : ∀ c c', R c c' → ∀ op ∈ ops, (op.onCache cfg c).1 = (op.onCache cfg c').1 ∧ R
      (op.onCache cfg c).2 (op.onCache cfg c').2) (h : R c c') : SameRun cfg c c' ops := by
  induction ops generalizing c c' with
  | nil => exact ⟨rfl, hmem c c' h⟩
  | cons op ops ih =>
    obtain ⟨hanswer, hnext⟩ := hstep c c' h op List.mem_cons_self
    have hrest := ih (fun d d' hd op' hop' => hstep d d' hd op' (List.mem_cons_of_mem _ hop'))
      hnext
    refine ⟨?_, hrest.2⟩
    rw [outputs, outputs, hanswer, hrest.1]

theorem Alike.sameRun (h : Alike cfg 1 c c') (ops : List CacheOp) : SameRun cfg c c' ops :=
  sameRun_of_step (fun _ _ hd => hd.mem) (fun _ _ hd op _ => hd.onCache op) h

/-! ### Before the reset -/

inductive Event where
  | op (op : CacheOp)
  | reset

def onEvent (cfg : CacheConfig) (c : Cache (Nat → Byte)) : Event → Cache (Nat → Byte)
  | .op op => (op.onCache cfg c).2
  | .reset => c.reset cfg

def afterEvents (cfg : CacheConfig) (c : Cache (Nat → Byte)) (events : List Event) :
    Cache (Nat → Byte) :=
  events.foldl (onEvent cfg) c

def NoneDirty (c : Cache (Nat → Byte)) : Prop :=
  ∀ way row, (c.dt way row).dirty = false

/-- Every reset of a sequence finds the cache without a dirty line. -/
def ResetsClean (cfg : CacheConfig) (c : Cache (Nat → Byte)) : List Event → Prop
  | [] => True
  | .op op :: events => ResetsClean cfg (op.onCache cfg c).2 events
  | .reset :: events => c.NoneDirty ∧ ResetsClean cfg (c.reset cfg) events

theorem alike_new (lib : CLibrary) (cfg : CacheConfig) (mem : Nat → Byte) :
    Alike cfg 1 (new lib cfg mem) (new lib cfg mem) where
  fits := fits_getPolicyInstance lib cfg
  fits' := fits_getPolicyInstance lib cfg
  policy := .inl ⟨rfl, .inl rfl⟩
  ways _ _ := Iff.rfl
  mem := rfl
  place _ _ := nofun
  unique _ _ _ := nofun
  valid _ _ := rfl
  line _ _ _ := rfl
  clean _ _ := nofun
  clean' _ _ := nofun

theorem reset_dirty (c : Cache (Nat → Byte)) (way row : Nat) :
    ((c.reset cfg).dt way row).dirty = (c.dt way row).dirty := by
  rw [reset]
  dsimp only
  split <;> rfl

/-- What a reset leaves of a valid line was there before. -/
theorem reset_valid {way row : Nat} (hvalid : ((c.reset cfg).dt way row).valid) :
    (c.reset cfg).dt way row = c.dt way row := by
  rw [reset] at hvalid ⊢
  dsimp only at hvalid ⊢
  split at hvalid
  next => cases hvalid
  next hdisabled => rw [if_neg hdisabled]

theorem Alike.reset (h : Alike cfg 1 c c) (hclean : c.NoneDirty) :
    Alike cfg 1 (c.reset cfg) (c.reset cfg) := by
  have hdirty (way row : Nat) : ¬((c.reset cfg).dt way row).dirty := by
    rw [reset_dirty, hclean]
    exact Bool.false_ne_true
  refine ⟨h.fits, h.fits, .inl ⟨rfl, .inl rfl⟩, h.ways, rfl, fun way row hv => ?_,
    fun way way' row hv hv' htag => ?_, fun _ _ => rfl, fun _ _ _ => rfl,
    fun way row hd => absurd hd (hdirty way row), fun way row hd => absurd hd (hdirty way row)⟩
  · rw [reset_valid hv] at hv
    exact h.place way row hv
  · rw [reset_valid hv, reset_valid hv'] at htag
    rw [reset_valid hv] at hv
    rw [reset_valid hv'] at hv'
    exact h.unique way way' row hv hv' htag

theorem alike_afterEvents {events : List Event} (h : Alike cfg 1 c c)
    (hresets : c.ResetsClean cfg events) :
    Alike cfg 1 (c.afterEvents cfg events) (c.afterEvents cfg events) := by
  induction events generalizing c with
  | nil => exact h
  | cons event events ih =>
    cases event with
    | op op => exact ih (h.onCache op).2 hresets
    | reset => exact ih (h.reset hresets.1) hresets.2

/-! ### After the reset -/

/-- A disabled cache passes every operation on. -/
theorem onCache_of_disabled (hdisabled : cfg.enabled = false) (op : CacheOp)
    (c : Cache (Nat → Byte)) :
    (op.onCache cfg c).1 = .ok (op.onFlat c.mem).1 ∧
      (op.onCache cfg c).2.mem = (op.onFlat c.mem).2 := by
  have hbypass (address size : Nat) : bypasses cfg address size = true := by
    simp [bypasses, hdisabled]
  cases op with
  | read source size =>
    rw [CacheOp.onCache, read, hbypass]
    exact ⟨rfl, rfl⟩
  | write destination source =>
    rw [CacheOp.onCache, write, hbypass]
    exact ⟨rfl, rfl⟩
  | flush =>
    rw [CacheOp.onCache, flush, hdisabled]
    exact ⟨rfl, rfl⟩

theorem sameRun_of_disabled (hdisabled : cfg.enabled = false) (hmem : c.mem = c'.mem)
    (ops : List CacheOp) : SameRun cfg c c' ops := by
  refine sameRun_of_step (R := fun d d' => d.mem = d'.mem) (fun _ _ h => h) ?_ hmem
  intro d d' hd op _
  obtain ⟨hanswer, hnext⟩ := onCache_of_disabled hdisabled op d
  obtain ⟨hanswer', hnext'⟩ := onCache_of_disabled hdisabled op d'
  rw [hanswer, hnext, hanswer', hnext', hd]
  exact ⟨rfl, rfl⟩

/-- Two caches without a valid or dirty line are alike if their policies are. -/
theorem alike_of_empty {ρ : Nat → Equiv.Perm Nat} (hfits : c.replacementPolicy.Fits cfg)
    (hfits' : c'.replacementPolicy.Fits cfg)
    (hpolicy : c.replacementPolicy.Renamed cfg ρ c'.replacementPolicy)
    (hways : ∀ row way, ρ row way < cfg.associativity ↔ way < cfg.associativity)
    (hmem : c.mem = c'.mem)
    (hempty : ∀ way row, (c.dt way row).valid = false ∧ (c.dt way row).dirty = false)
    (hempty' : ∀ way row, (c'.dt way row).valid = false ∧ (c'.dt way row).dirty = false) :
    Alike cfg ρ c c' where
  fits := hfits
  fits' := hfits'
  policy := hpolicy
  ways := hways
  mem := hmem
  place way row hv := absurd hv (by simp [hempty])
  unique way _ row hv := absurd hv (by simp [hempty])
  valid way row := by rw [(hempty way row).1, (hempty' _ row).1]
  line way row hv := absurd hv (by simp [hempty])
  clean way row hd := absurd hd (by simp [hempty])
  clean' way row hd := absurd hd (by simp [hempty'])

/-- Two queues differ in the names of the ways only. -/
theorem renamed_of_lru (hlru : cfg.replacementPolicy = .lru) {p p' : CachePolicy}
    (hfits : p.Fits cfg) (hfits' : p'.Fits cfg) :
    ∃ ρ : Nat → Equiv.Perm Nat, p.Renamed cfg ρ p' ∧
      ∀ row way, ρ row way < cfg.associativity ↔ way < cfg.associativity := by
  have hqueue {p : CachePolicy} (hfits : p.Fits cfg) : ∃ stats, p = .lru stats ∧
      ∀ row, (stats row).Perm (List.range cfg.associativity) := by
    cases p with
    | lru stats => exact ⟨stats, rfl, hfits.2⟩
    | lfu stats => exact absurd (hlru.symm.trans hfits.1) (by decide)
    | _ => exact absurd (hlru.symm.trans hfits) (by decide)
  obtain ⟨stats, rfl, hperm⟩ := hqueue hfits
  obtain ⟨stats', rfl, hperm'⟩ := hqueue hfits'
  choose σ hmap hlt using fun row => exists_renaming (hperm row)
  choose σ' hmap' hlt' using fun row => exists_renaming (hperm' row)
  refine ⟨fun row => (σ row).trans (σ' row).symm,
    .inr ⟨stats, rfl, congrArg lru (funext fun row => ?_)⟩, fun row way => ?_⟩
  · have hplaces : ((stats row).map (σ row)).map (σ' row).symm = stats' row := by
      rw [hmap row, ← hmap' row, List.map_map, Equiv.symm_comp_self, List.map_id]
    rw [← hplaces, List.map_map]
    rfl
  · rw [← hlt row way, ← hlt' row]
    simp

variable {hfits : cfg.FitsWord} {f : Nat → Byte}

variable (hfits) in
/-- Two caches with queues that hold the same memory and are alike. -/
structure SameRows (c c' : Cache (Nat → Byte)) (f : Nat → Byte) : Prop where
  holds : Holds hfits f c
  holds' : Holds hfits f c'
  rows : ∃ ρ, Alike cfg ρ c c'

/-- Two empty caches over the same memory have the same rows. -/
theorem sameRows_of_empty (henabled : cfg.enabled) (hback : cfg.writePolicy = .back)
    (hlru : cfg.replacementPolicy = .lru) (h : Holds hfits f c) (h' : Holds hfits f c')
    (hempty : ∀ way row, (c.dt way row).valid = false)
    (hempty' : ∀ way row, (c'.dt way row).valid = false) : SameRows hfits c c' f := by
  have hclean {c : Cache (Nat → Byte)} (h : Holds hfits f c)
      (hempty : ∀ way row, (c.dt way row).valid = false) (way row : Nat) :
      (c.dt way row).valid = false ∧ (c.dt way row).dirty = false := by
    refine ⟨hempty way row, Bool.not_eq_true _ ▸ fun hd => ?_⟩
    exact absurd ((h.shape henabled).clean hback way row hd) (by simp [hempty])
  have hfit := (h.shape henabled).policy
  have hfit' := (h'.shape henabled).policy
  obtain ⟨ρ, hpolicy, hways⟩ := renamed_of_lru hlru hfit hfit'
  refine ⟨h, h', ρ, alike_of_empty hfit hfit' hpolicy hways ?_ (hclean h hempty)
    (hclean h' hempty')⟩
  rw [h.mem_eq fun _ => hempty, h'.mem_eq fun _ => hempty']

/-- Every operation keeps the rows of the two caches the same. -/
theorem SameRows.onCache (h : SameRows hfits c c' f) (henabled : cfg.enabled)
    (hback : cfg.writePolicy = .back) (hlru : cfg.replacementPolicy = .lru) {op : CacheOp}
    (hop : op.Cached) :
    (op.onCache cfg c).1 = (op.onCache cfg c').1 ∧
      SameRows hfits (op.onCache cfg c).2 (op.onCache cfg c').2 (op.onFlat f).2 := by
  obtain ⟨d, hd, hholds, -⟩ := CacheOp.onCache_holds henabled hop h.holds
  obtain ⟨d', hd', hholds', -⟩ := CacheOp.onCache_holds henabled hop h.holds'
  refine ⟨by rw [hd, hd'], ?_⟩
  by_cases hflush : op = .flush
  · subst hflush
    obtain ⟨e, he, hholds, hempty⟩ := h.holds.flush henabled
    obtain ⟨e', he', hholds', hempty'⟩ := h.holds'.flush henabled
    rw [CacheOp.onCache, CacheOp.onCache, he, he']
    exact sameRows_of_empty henabled hback hlru hholds hholds' hempty hempty'
  · obtain ⟨ρ, halike⟩ := h.rows
    have hnext := (halike.onCache_of_ne_flush hflush).2
    rw [hd, hd'] at hnext ⊢
    exact ⟨hholds, hholds', ρ, hnext⟩

/-- Two write-through caches that hold the same memory. -/
theorem sameRun_of_through (henabled : cfg.enabled) (hthrough : cfg.writePolicy ≠ .back)
    (hops : ∀ op ∈ ops, op.Cached) (h : Holds hfits f c) (h' : Holds hfits f c') :
    SameRun cfg c c' ops := by
  refine sameRun_of_step (R := fun d d' => ∃ g, Holds hfits g d ∧ Holds hfits g d') ?_ ?_
    ⟨f, h, h'⟩
  · rintro d d' ⟨g, hd, hd'⟩
    rw [hd.mem_eq fun hback => absurd hback hthrough, hd'.mem_eq fun hback => absurd hback hthrough]
  · rintro d d' ⟨g, hd, hd'⟩ op hop
    obtain ⟨e, he, hholds, -⟩ := CacheOp.onCache_holds henabled (hops op hop) hd
    obtain ⟨e', he', hholds', -⟩ := CacheOp.onCache_holds henabled (hops op hop) hd'
    rw [he, he']
    exact ⟨rfl, _, hholds, hholds'⟩

/-- Two caches with queues that hold the same memory in the same rows. -/
theorem SameRows.sameRun (henabled : cfg.enabled) (hback : cfg.writePolicy = .back)
    (hlru : cfg.replacementPolicy = .lru) (hops : ∀ op ∈ ops, op.Cached)
    (h : SameRows hfits c c' f) : SameRun cfg c c' ops := by
  refine sameRun_of_step (R := fun d d' => ∃ g, SameRows hfits d d' g) ?_ ?_ ⟨f, h⟩
  · rintro d d' ⟨g, -, -, ρ, hd⟩
    exact hd.mem
  · rintro d d' ⟨g, hd⟩ op hop
    obtain ⟨hanswer, hnext⟩ := hd.onCache henabled hback hlru (hops op hop)
    exact ⟨hanswer, _, hnext⟩

/-- The replacement policy cannot tell the cache from a new one in the operations to come: the
cache is disabled, its policy is in the state of a new one, there is only one way, or the
operations stay below the uncached window and the choice of ways is not visible. -/
def PolicyUnseen (lib : CLibrary) (cfg : CacheConfig) (c : Cache (Nat → Byte))
    (ops : List CacheOp) : Prop :=
  cfg.enabled = false ∨ c.replacementPolicy = .getPolicyInstance lib cfg ∨
    cfg.associativity = 1 ∨ cfg.FitsWord ∧ (∀ op ∈ ops, op.Cached) ∧
      (cfg.writePolicy ≠ .back ∨ cfg.replacementPolicy = .lru)

theorem sameRun_reset_new {lib : CLibrary} (h : Alike cfg 1 c c) (hclean : c.NoneDirty)
    (hunseen : c.PolicyUnseen lib cfg ops) : SameRun cfg (c.reset cfg) (new lib cfg c.mem) ops := by
  rcases henabled : cfg.enabled with _ | _
  · exact sameRun_of_disabled henabled (show (c.reset cfg).mem = (new lib cfg c.mem).mem from rfl)
      ops
  have hempty (way row : Nat) : ((c.reset cfg).dt way row).valid = false := by
    simp [reset, henabled]
  have halike (hpolicy : c.replacementPolicy = .getPolicyInstance lib cfg ∨
      cfg.associativity = 1) : Alike cfg 1 (c.reset cfg) (new lib cfg c.mem) :=
    alike_of_empty h.fits (fits_getPolicyInstance lib cfg) (.inl ⟨rfl, hpolicy⟩)
      (fun _ _ => Iff.rfl) rfl
      (fun way row => ⟨hempty way row, by rw [reset_dirty, hclean]⟩) fun _ _ => ⟨rfl, rfl⟩
  rcases hunseen with hdisabled | hpolicy | hone | ⟨hfits, hops, hchoice⟩
  · rw [henabled] at hdisabled
    exact absurd hdisabled (by simp)
  · exact (halike (.inl hpolicy)).sameRun ops
  · exact (halike (.inr hone)).sameRun ops
  · have hholds : Holds hfits c.mem (c.reset cfg) :=
      holds_of_empty (c := c.reset cfg) h.fits hempty fun way row => by rw [reset_dirty, hclean]
    have hholds' : Holds hfits c.mem (new lib cfg c.mem) := holds_new lib c.mem
    by_cases hback : cfg.writePolicy = .back
    · have hlru : cfg.replacementPolicy = .lru := hchoice.resolve_left (not_not_intro hback)
      exact SameRows.sameRun henabled hback hlru hops
        (sameRows_of_empty henabled hback hlru hholds hholds' hempty fun _ _ => rfl)
    · exact sameRun_of_through henabled hback hops hholds hholds'

end Cache

end QtRvSim
