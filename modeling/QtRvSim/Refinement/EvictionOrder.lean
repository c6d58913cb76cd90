import QtRvSim.Refinement.CacheDirectory
import QtRvSim.Refinement.TreePlru

/-!
# Which block a miss evicts

Invariants of the directory that relate the statistics of a replacement policy to the lines.  The
policies do not look at the valid bits: a row is filled before a block is evicted because its
emptied ways come first in the statistics (`invalidWays_first`), and the block that was used last
is never selected (`lastUsed_survives`).
-/

namespace QtRvSim

open CachePolicy Directory CacheCall

namespace Directory

variable {cfg : CacheConfig} {d : Directory} {row tag : Nat}

/-- The way that holds a block after it is used. -/
def slot (cfg : CacheConfig) (row tag : Nat) (d : Directory) : Nat :=
  if d.find cfg row tag < cfg.associativity then d.find cfg row tag else d.victim cfg row

theorem slot_lt (hfits : d.policy.Fits cfg) (row tag : Nat) :
    d.slot cfg row tag < cfg.associativity := by
  unfold slot
  split
  · assumption
  · exact selectWayToEvict_lt hfits row

/-- Using a block changes the tag of one line. -/
theorem use_tags (cfg : CacheConfig) (d : Directory) (row tag : Nat) :
    (d.use cfg row tag).tags = (d.setTag (d.slot cfg row tag) row (some tag)).tags := by
  unfold use slot
  split
  next hfound =>
    funext w r
    by_cases hwr : w = d.find cfg row tag ∧ r = row
    · obtain ⟨rfl, rfl⟩ := hwr
      rw [setTag_tags_self]
      exact tags_find hfound
    · rw [setTag_tags_of_ne _ hwr]
      rfl
  next =>
    funext w r
    simp only [bring, update, empty, setTag]
    split <;> rfl

theorem update_fits (hfits : d.policy.Fits cfg) {way : Nat} (hway : way < cfg.associativity)
    (row : Nat) (isValid : Bool) : (d.update way row isValid).policy.Fits cfg := by
  obtain ⟨p, hupdate, hp⟩ := updateStats_ok hfits hway row isValid
  simp only [update, hupdate]
  exact hp

theorem use_fits (hfits : d.policy.Fits cfg) (row tag : Nat) :
    (d.use cfg row tag).policy.Fits cfg := by
  unfold use
  split
  next hfound => exact update_fits hfits hfound row true
  next =>
    have hway := selectWayToEvict_lt hfits row
    have hselected := selectWayToEvict_fits hfits row
    exact update_fits (d := d.bring cfg row tag)
      (update_fits (d := ⟨_, (d.policy.selectWayToEvict cfg.associativity row).2⟩) hselected hway
        row false) hway row true

/-- What holds of the directory of every cache: the tables of the policy fit, blocks are kept in
ways that exist, and no row holds a block twice. -/
structure Shape (cfg : CacheConfig) (d : Directory) : Prop where
  fits : d.policy.Fits cfg
  placed : ∀ way row, d.tags way row ≠ none → way < cfg.associativity
  unique : ∀ way way' row tag, d.tags way row = some tag → d.tags way' row = some tag →
    way = way'

namespace Shape

theorem new (lib : CLibrary) (cfg : CacheConfig) : Shape cfg (Directory.new lib cfg) :=
  ⟨fits_getPolicyInstance lib cfg, fun _ _ h => absurd rfl h,
    fun _ _ _ _ h => absurd h (by simp [Directory.new])⟩

/-- A block that is not in its slot is in no line. -/
theorem eq_slot (h : Shape cfg d) {way : Nat} (hheld : d.tags way row = some tag) :
    way = d.slot cfg row tag := by
  have hway : way < cfg.associativity := h.placed way row (by rw [hheld]; simp)
  have hfound : d.find cfg row tag < cfg.associativity := by
    by_contra hmiss
    exact tags_of_not_found hmiss hway hheld
  rw [slot, if_pos hfound]
  exact h.unique _ _ row tag hheld (tags_find hfound)

theorem use (h : Shape cfg d) (row tag : Nat) : Shape cfg (d.use cfg row tag) where
  fits := use_fits h.fits row tag
  placed way r htag := by
    rw [use_tags] at htag
    by_cases hwr : way = d.slot cfg row tag ∧ r = row
    · rw [hwr.1]
      exact slot_lt h.fits row tag
    · rw [setTag_tags_of_ne _ hwr] at htag
      exact h.placed way r htag
  unique way way' r t htag htag' := by
    rw [use_tags] at htag htag'
    -- a second line with the block of the slot would be the slot
    have hslot {w w' : Nat} (hw : w = d.slot cfg row tag ∧ r = row)
        (hheld : (d.setTag (d.slot cfg row tag) row (some tag)).tags w r = some t)
        (hheld' : (d.setTag (d.slot cfg row tag) row (some tag)).tags w' r = some t) :
        w' = w := by
      by_contra hne
      obtain ⟨rfl, rfl⟩ := hw
      rw [setTag_tags_self] at hheld
      rw [setTag_tags_of_ne _ (fun hwr => hne hwr.1), ← hheld] at hheld'
      exact hne (h.eq_slot hheld')
    by_cases hwr : way = d.slot cfg row tag ∧ r = row
    · exact (hslot hwr htag htag').symm
    by_cases hwr' : way' = d.slot cfg row tag ∧ r = row
    · exact hslot hwr' htag' htag
    · rw [setTag_tags_of_ne _ hwr] at htag
      rw [setTag_tags_of_ne _ hwr'] at htag'
      exact h.unique way way' r t htag htag'

theorem empty (h : Shape cfg d) {way : Nat} (hway : way < cfg.associativity) (row : Nat) :
    Shape cfg (d.empty way row) := by
  have htags {w r t : Nat} (htag : (d.empty way row).tags w r = some t) : d.tags w r = some t := by
    by_cases hwr : w = way ∧ r = row
    · obtain ⟨rfl, rfl⟩ := hwr
      exact absurd htag (by simp [Directory.empty, update])
    · exact (setTag_tags_of_ne none hwr).symm.trans htag
  refine ⟨update_fits (d := d.setTag way row none) h.fits hway row false, fun w r htag => ?_,
    fun w w' r t htag htag' => h.unique w w' r t (htags htag) (htags htag')⟩
  obtain ⟨t, ht⟩ := Option.ne_none_iff_exists'.mp htag
  exact h.placed w r (by rw [htags ht]; simp)

/-- Every event keeps the shape. -/
theorem step (h : Shape cfg d) (event : DirectoryEvent) : Shape cfg (d.step cfg event) := by
  cases event with
  | use row tag => exact h.use row tag
  | pass row tag =>
    rw [Directory.step]
    split
    · exact h.use row tag
    · exact h
  | empty way row =>
    rw [Directory.step]
    split
    next hsome => exact h.empty (h.placed way row (Option.isSome_iff_ne_none.mp hsome)) row
    next => exact h
  | reset =>
    exact ⟨h.fits, fun _ _ htag => absurd rfl htag, fun _ _ _ _ htag => by cases htag⟩

end Shape

/-! ### Invariants of a run -/

/-- The events of a run all meet a condition on the directory they find. -/
def Along (cfg : CacheConfig) (C : Directory → DirectoryEvent → Prop) (d : Directory)
    (events : List DirectoryEvent) : Prop :=
  ∀ before event after, events = before ++ event :: after → C (d.run cfg before) event

theorem Along.of_append {C : Directory → DirectoryEvent → Prop}
    {before after : List DirectoryEvent} (h : d.Along cfg C (before ++ after)) :
    d.Along cfg C before := by
  intro first event rest heq
  refine h first event (rest ++ after) ?_
  rw [heq, List.append_assoc, List.cons_append]

/-- A relation between the events so far and the directory that every event keeps holds after
every run; the events may be assumed to meet a condition on the directory they find. -/
theorem run_induction {I : List DirectoryEvent → Directory → Prop}
    {C : Directory → DirectoryEvent → Prop} (hnew : I [] d)
    (hstep : ∀ before event, I before (d.run cfg before) → C (d.run cfg before) event →
      I (before ++ [event]) ((d.run cfg before).step cfg event))
    {events : List DirectoryEvent} (hevents : d.Along cfg C events) :
    I events (d.run cfg events) := by
  induction events using List.reverseRecOn with
  | nil => exact hnew
  | append_singleton before event ih =>
    rw [run_append]
    exact hstep before event (ih hevents.of_append) (hevents before event [] rfl)

theorem Shape.run (h : d.Shape cfg) (events : List DirectoryEvent) :
    (d.run cfg events).Shape cfg :=
  run_induction (C := fun _ _ => True) (I := fun _ d => d.Shape cfg) h
    (fun _ event hshape _ => hshape.step event) fun _ _ _ _ => trivial

/-! ### What a use tells the policy -/

/-- The queue of an LRU policy after one of its ways is used or emptied. -/
theorem update_lru {stats : Nat → List Nat} (hfits : d.policy.Fits cfg)
    (hpolicy : d.policy = .lru stats) {way : Nat} (hway : way < cfg.associativity) (row : Nat)
    (isValid : Bool) :
    (d.update way row isValid).policy =
      .lru (setRow stats row (requeue way isValid (stats row))) := by
  rw [hpolicy] at hfits
  have hperm := hfits.2 row
  rw [update, hpolicy, updateStats_lru isValid
    (hperm.mem_iff.mpr (List.mem_range.mpr hway)) (hperm.nodup_iff.mpr List.nodup_range)]

/-- A use moves the way to the end of the queue. -/
theorem use_lru {stats : Nat → List Nat} (hfits : d.policy.Fits cfg)
    (hpolicy : d.policy = .lru stats) (row tag : Nat) :
    (d.use cfg row tag).policy = .lru (setRow stats row
      (requeue (d.slot cfg row tag) true (stats row))) := by
  have hslot := slot_lt hfits row tag
  unfold use slot at *
  split at hslot
  next hfound =>
    rw [if_pos hfound, if_pos hfound]
    exact update_lru hfits hpolicy hslot row true
  next hmiss =>
    rw [if_neg hmiss, if_neg hmiss]
    let selected : Directory := ⟨d.tags, (d.policy.selectWayToEvict cfg.associativity row).2⟩
    have hselected : selected.policy = .lru stats := by simp only [selected, hpolicy]; rfl
    have hsfits : selected.policy.Fits cfg := selectWayToEvict_fits hfits row
    have hempty := update_lru (d := selected.setTag (d.victim cfg row) row none) hsfits hselected
      hslot row false
    have hefits := update_fits (d := selected.setTag (d.victim cfg row) row none) hsfits hslot row
      false
    rw [update_lru (d := d.bring cfg row tag) hefits hempty hslot row true,
      setRow_self, requeue_requeue, setRow_setRow]

/-- A use counts for its way, from zero if the block was missing. -/
theorem use_lfu {stats : Nat → List (BitVec 32)} (hpolicy : d.policy = .lfu stats)
    (cfg : CacheConfig) (row tag : Nat) :
    (d.use cfg row tag).policy = .lfu (setRow stats row
      ((stats row).set (d.slot cfg row tag)
        (if d.find cfg row tag < cfg.associativity then (stats row).getD (d.find cfg row tag) 0 + 1
        else ((stats row).set (d.victim cfg row) 0).getD (d.victim cfg row) 0 + 1))) := by
  unfold use slot
  split
  next hfound => simp only [update, hpolicy, updateStats, if_true]
  next hmiss =>
    simp only [bring, empty, setTag, update, hpolicy, selectWayToEvict, updateStats, if_true,
      Bool.false_eq_true, if_false, setRow_self, setRow_setRow, List.set_set]

/-! ### Invalid ways -/

/-- The invalid ways of a row are the first of its queue, or those with an unused counter. -/
def InvalidFirst (cfg : CacheConfig) (d : Directory) : Prop :=
  match d.policy with
  | .lru stats => ∀ row, (stats row).Pairwise fun first later =>
    d.tags later row = none → d.tags first row = none
  | .lfu stats => ∀ row way, way < cfg.associativity →
      ((stats row).getD way 0 = 0 ↔ d.tags way row = none)
  | _ => False

/-- What keeps the counters of an LFU policy in step with the lines: no counter of a used way is at
its end, and lines that are invalidated are empty already. -/
def KeepsCounts (cfg : CacheConfig) (d : Directory) (event : DirectoryEvent) : Prop :=
  match d.policy, event with
  | .lfu stats, .use row tag | .lfu stats, .pass row tag =>
    d.find cfg row tag < cfg.associativity →
      (stats row).getD (d.find cfg row tag) 0 ≠ BitVec.allOnes 32
  | .lfu _, .reset => ∀ way row, d.tags way row = none
  | _, _ => True

theorem keepsCounts_of_lru (hlru : cfg.replacementPolicy = .lru) (hfits : d.policy.Fits cfg)
    (event : DirectoryEvent) : d.KeepsCounts cfg event := by
  unfold KeepsCounts
  rcases hpolicy : d.policy with _ | stats | stats | _ | _ <;> rw [hpolicy] at hfits
  · trivial
  · trivial
  · exact absurd (hlru.symm.trans hfits.1) (by decide)
  · trivial
  · trivial

theorem selectLowest_of_zero (i index : Nat) (lowest : BitVec 32) {stats : List (BitVec 32)}
    (hzero : 0 ∈ stats) :
    ∃ j, selectLowest i index lowest stats = i + j ∧ stats.getD j 1 = 0 := by
  induction stats generalizing i index lowest with
  | nil => exact absurd hzero List.not_mem_nil
  | cons stat stats ih =>
    rw [selectLowest]
    by_cases hstat : stat = 0
    · exact ⟨0, by rw [if_pos hstat, Nat.add_zero], hstat⟩
    · have hrest : 0 ∈ stats := (List.mem_cons.mp hzero).resolve_left (Ne.symm hstat)
      rw [if_neg hstat]
      split
      · obtain ⟨j, hselect, hj⟩ := ih (i + 1) i stat hrest
        exact ⟨j + 1, by omega, hj⟩
      · obtain ⟨j, hselect, hj⟩ := ih (i + 1) index lowest hrest
        exact ⟨j + 1, by omega, hj⟩

namespace InvalidFirst

/-- A row with an invalid way gives up an invalid way. -/
theorem victim (h : d.InvalidFirst cfg) (hfits : d.policy.Fits cfg)
    (hinvalid : ∃ way < cfg.associativity, d.tags way row = none) :
    d.tags (d.victim cfg row) row = none := by
  obtain ⟨way, hway, hnone⟩ := hinvalid
  unfold InvalidFirst at h
  unfold Directory.victim
  split at h
  next stats hpolicy =>
    rw [hpolicy] at hfits ⊢
    have hmem : way ∈ stats row := (hfits.2 row).mem_iff.mpr (List.mem_range.mpr hway)
    simp only [selectWayToEvict]
    have hsorted := h row
    rcases hrow : stats row with _ | ⟨first, rest⟩
    · rw [hrow] at hmem
      exact absurd hmem List.not_mem_nil
    · rw [hrow] at hmem hsorted
      rw [List.headD_cons]
      rcases List.mem_cons.mp hmem with rfl | hlater
      · exact hnone
      · exact (List.pairwise_cons.mp hsorted).1 way hlater hnone
  next stats hpolicy =>
    have hlt := selectWayToEvict_lt hfits row
    rw [hpolicy] at hfits hlt ⊢
    have hlen := hfits.2 row
    have hzero : 0 ∈ stats row := by
      have hcount := (h row way hway).mpr hnone
      rw [List.getD_eq_getElem _ _ (by omega)] at hcount
      exact hcount ▸ List.getElem_mem _
    obtain ⟨j, hselect, hj⟩ := selectLowest_of_zero 0 0 ((stats row).headD 0) hzero
    simp only [selectWayToEvict, hselect, Nat.zero_add] at hlt ⊢
    refine (h row j hlt).mp ?_
    rw [List.getD_eq_getElem _ _ (by omega)] at hj ⊢
    exact hj
  next => exact h.elim

/-- The other ways of a queue keep their order when one line changes. -/
theorem pairwise_erase {queue : List Nat} (hnodup : queue.Nodup)
    (hsorted : queue.Pairwise fun first later => d.tags later row = none → d.tags first row = none)
    (way : Nat) (entry : Option Nat) :
    (queue.erase way).Pairwise fun first later =>
      (d.setTag way row entry).tags later row = none →
        (d.setTag way row entry).tags first row = none := by
  refine (hsorted.sublist List.erase_sublist).imp_of_mem fun {first later} hfirst hlater h => ?_
  have hne {w : Nat} (hw : w ∈ queue.erase way) : ¬(w = way ∧ row = row) :=
    fun hwr => hnodup.not_mem_erase (hwr.1 ▸ hw)
  rw [setTag_tags_of_ne entry (hne hfirst), setTag_tags_of_ne entry (hne hlater)]
  exact h

theorem getD_set_counter {stats : List (BitVec 32)} {way : Nat} (hway : way < stats.length)
    (w : Nat) (v : BitVec 32) :
    (stats.set way v).getD w 0 = if w = way then v else stats.getD w 0 := by
  rw [List.getD_eq_getElem?_getD, List.getElem?_set]
  split
  next heq => rw [if_pos heq.symm, Option.getD_some]
  next hne => rw [if_neg (Ne.symm hne), List.getD_eq_getElem?_getD]

theorem counter_succ_ne_zero {counter : BitVec 32} (hend : counter ≠ BitVec.allOnes 32) :
    counter + 1 ≠ 0 := by
  rw [show BitVec.allOnes 32 = 4294967295#32 by decide] at hend
  bv_omega

theorem new (lib : CLibrary) (hpolicy : cfg.replacementPolicy = .lru ∨
    cfg.replacementPolicy = .lfu) : InvalidFirst cfg (Directory.new lib cfg) := by
  rcases hpolicy with hlru | hlfu
  · simp only [InvalidFirst, Directory.new, getPolicyInstance, hlru]
    exact fun row => List.pairwise_of_forall fun _ _ _ => trivial
  · simp only [InvalidFirst, Directory.new, getPolicyInstance, hlfu]
    intro row way hway
    exact iff_of_true (List.getD_replicate _ hway) trivial

theorem use (h : d.InvalidFirst cfg) (hfits : d.policy.Fits cfg) (row tag : Nat)
    (hcounts : d.KeepsCounts cfg (.use row tag)) : (d.use cfg row tag).InvalidFirst cfg := by
  have hslot := slot_lt hfits row tag
  have htags := use_tags cfg d row tag
  unfold InvalidFirst at h
  split at h
  next stats hpolicy =>
    have huse := use_lru hfits hpolicy row tag
    rw [hpolicy] at hfits
    simp only [InvalidFirst, huse, htags]
    intro r
    by_cases hr : r = row
    · subst hr
      rw [setRow_self, requeue, if_pos rfl, List.pairwise_append]
      refine ⟨pairwise_erase ((hfits.2 r).nodup_iff.mpr List.nodup_range) (h r) _ _,
        List.pairwise_singleton _ _, fun first _ later hlater hnone => ?_⟩
      rw [List.mem_singleton.mp hlater, setTag_tags_self] at hnone
      exact absurd hnone (by simp)
    · rw [setRow_of_ne _ _ hr]
      refine (h r).imp fun {first later} hsorted => ?_
      rw [setTag_tags_of_ne _ (by simp [hr]), setTag_tags_of_ne _ (by simp [hr])]
      exact hsorted
  next stats hpolicy =>
    have huse := use_lfu hpolicy cfg row tag
    simp only [KeepsCounts, hpolicy] at hcounts
    rw [hpolicy] at hfits
    have hlen := hfits.2 row
    simp only [InvalidFirst, huse, htags]
    intro r w hw
    by_cases hr : r = row
    · subst hr
      rw [setRow_self, getD_set_counter (by omega)]
      split
      next hwslot =>
        rw [hwslot, setTag_tags_self]
        refine iff_of_false ?_ (by simp)
        split
        next hfound => exact counter_succ_ne_zero (hcounts hfound)
        next hmiss =>
          rw [slot, if_neg hmiss] at hslot
          rw [getD_set_counter (by omega), if_pos rfl]
          decide
      next hwslot =>
        rw [setTag_tags_of_ne _ (by simp [hwslot])]
        exact h r w hw
    · rw [setRow_of_ne _ _ hr, setTag_tags_of_ne _ (by simp [hr])]
      exact h r w hw
  next => exact h.elim

theorem empty (h : d.InvalidFirst cfg) (hfits : d.policy.Fits cfg) {way : Nat}
    (hway : way < cfg.associativity) (row : Nat) : (d.empty way row).InvalidFirst cfg := by
  have htags : (d.empty way row).tags = (d.setTag way row none).tags := rfl
  unfold InvalidFirst at h
  split at h
  next stats hpolicy =>
    have hempty : (d.empty way row).policy = _ :=
      update_lru (d := d.setTag way row none) hfits hpolicy hway row false
    rw [hpolicy] at hfits
    simp only [InvalidFirst, hempty, htags]
    intro r
    by_cases hr : r = row
    · subst hr
      rw [setRow_self, requeue, if_neg (by decide), List.pairwise_cons]
      exact ⟨fun _ _ _ => setTag_tags_self way r none,
        pairwise_erase ((hfits.2 r).nodup_iff.mpr List.nodup_range) (h r) way none⟩
    · rw [setRow_of_ne _ _ hr]
      refine (h r).imp fun {first later} hsorted => ?_
      rw [setTag_tags_of_ne _ (by simp [hr]), setTag_tags_of_ne _ (by simp [hr])]
      exact hsorted
  next stats hpolicy =>
    have hempty : (d.empty way row).policy = .lfu
        (setRow stats row ((stats row).set way 0)) := by
      simp only [Directory.empty, setTag, update, hpolicy, updateStats,
        Bool.false_eq_true, if_false]
    rw [hpolicy] at hfits
    have hlen := hfits.2 row
    simp only [InvalidFirst, hempty, htags]
    intro r w hw
    by_cases hr : r = row
    · subst hr
      rw [setRow_self, getD_set_counter (by omega)]
      by_cases hwway : w = way
      · rw [if_pos hwway, hwway, setTag_tags_self]
        exact iff_of_true rfl rfl
      · rw [if_neg hwway, setTag_tags_of_ne _ (by simp [hwway])]
        exact h r w hw
    · rw [setRow_of_ne _ _ hr, setTag_tags_of_ne _ (by simp [hr])]
      exact h r w hw
  next => exact h.elim

/-- Events that keep the counters in step keep the order. -/
theorem step (h : d.InvalidFirst cfg) (hshape : d.Shape cfg) {event : DirectoryEvent}
    (hcounts : d.KeepsCounts cfg event) : (d.step cfg event).InvalidFirst cfg := by
  cases event with
  | use row tag => exact h.use hshape.fits row tag hcounts
  | pass row tag =>
    rw [Directory.step]
    split
    · refine h.use hshape.fits row tag ?_
      unfold KeepsCounts at hcounts ⊢
      rcases hpolicy : d.policy with _ | _ | _ | _ | _ <;> rw [hpolicy] at hcounts <;>
        exact hcounts
    · exact h
  | empty way row =>
    rw [Directory.step]
    split
    next hsome =>
      exact h.empty hshape.fits (hshape.placed way row (Option.isSome_iff_ne_none.mp hsome)) row
    next => exact h
  | reset =>
    unfold InvalidFirst at h
    unfold KeepsCounts at hcounts
    simp only [Directory.step, InvalidFirst]
    rcases hpolicy : d.policy with _ | stats | stats | _ | _ <;> rw [hpolicy] at h hcounts
    · exact h
    · exact fun row => List.pairwise_of_forall fun _ _ _ => trivial
    · intro row way hway
      exact (h row way hway).trans (iff_of_true (hcounts way row) trivial)
    · exact h
    · exact h

end InvalidFirst

/-- A block that is brought into a row with an invalid way takes an invalid way; the blocks in the
valid ways stay. -/
def FillsInvalid (cfg : CacheConfig) (d : Directory) (row tag : Nat) : Prop :=
  cfg.associativity ≤ d.find cfg row tag → (∃ way < cfg.associativity, d.tags way row = none) →
    ∃ way < cfg.associativity, d.tags way row = none ∧
      (d.use cfg row tag).tags way row = some tag ∧
      ∀ w r, d.tags w r ≠ none → (d.use cfg row tag).tags w r = d.tags w r

theorem InvalidFirst.fillsInvalid (h : d.InvalidFirst cfg) (hfits : d.policy.Fits cfg)
    (row tag : Nat) : d.FillsInvalid cfg row tag := by
  intro hmiss hinvalid
  have hslot : d.slot cfg row tag = d.victim cfg row := if_neg (Nat.not_lt.mpr hmiss)
  have hnone := h.victim hfits hinvalid
  refine ⟨d.victim cfg row, selectWayToEvict_lt hfits row, hnone, ?_,
    fun w r htag => ?_⟩
  · rw [use_tags, hslot, setTag_tags_self]
  · rw [use_tags, hslot, setTag_tags_of_ne]
    rintro ⟨rfl, rfl⟩
    exact htag hnone

end Directory

/-- A miss in a row with an invalid way fills an invalid way: in every run of an LRU cache, and in
every run of an LFU cache that keeps the counters in step with the lines. -/
theorem invalidWays_first (lib : CLibrary) (cfg : CacheConfig)
    (hpolicy : cfg.replacementPolicy = .lru ∨ cfg.replacementPolicy = .lfu) {B : Type}
    [LowerMemory B] {P : B → Prop} (hlower : LowerMemory.NeverFails P) (mem : B) (hmem : P mem)
    (calls : List CacheCall)
    (hcounts : cfg.replacementPolicy = .lfu → (Directory.new lib cfg).Along cfg
      (Directory.KeepsCounts cfg) (calls.flatMap (CacheCall.events cfg))) :
    (∃ c, CacheCall.ontoAll cfg calls (Cache.new lib cfg mem) = (.ok (), c) ∧
      c.directory =
        (Directory.new lib cfg).run cfg (calls.flatMap (CacheCall.events cfg))) ∧
      ∀ before row tag after,
        calls.flatMap (CacheCall.events cfg) = before ++ .use row tag :: after →
        ((Directory.new lib cfg).run cfg before).FillsInvalid cfg row tag := by
  refine ⟨?_, fun before row tag after heq => ?_⟩
  · obtain ⟨c, hcalls, hdir, -⟩ := Cache.ontoAll_directory (c := Cache.new lib cfg mem) hlower
      calls (fits_getPolicyInstance lib cfg) hmem
    exact ⟨c, hcalls, hdir⟩
  · have hshape := Directory.Shape.new lib cfg
    have hbefore : ((new lib cfg).run cfg before).InvalidFirst cfg := by
      refine run_induction (I := fun _ d => d.InvalidFirst cfg)
        (C := fun d event => cfg.replacementPolicy = .lfu → d.KeepsCounts cfg event)
        (.new lib hpolicy) (fun first event hfirst hkeeps => ?_) ?_
      · refine hfirst.step (hshape.run first) ?_
        rcases hpolicy with hlru | hlfu
        · exact keepsCounts_of_lru hlru (hshape.run first).fits event
        · exact hkeeps hlfu
      · intro first event rest hsplit hlfu
        refine hcounts hlfu first event (rest ++ .use row tag :: after) ?_
        rw [heq, hsplit, List.append_assoc, List.cons_append]
    exact hbefore.fillsInvalid (hshape.run before).fits row tag

variable {cfg : CacheConfig} {event : DirectoryEvent}

theorem Directory.along_cons {C : Directory → DirectoryEvent → Prop} {d : Directory}
    {events : List DirectoryEvent} (hevent : C d event)
    (hevents : (d.step cfg event).Along cfg C events) : d.Along cfg C (event :: events) := by
  intro before e after heq
  cases before with
  | nil =>
    obtain ⟨rfl, -⟩ := List.cons.inj heq
    exact hevent
  | cons first before =>
    obtain ⟨rfl, hrest⟩ := List.cons.inj heq
    exact hevents before e after hrest

theorem Directory.along_nil {C : Directory → DirectoryEvent → Prop} {d : Directory} :
    d.Along cfg C [] :=
  fun _ _ _ heq => absurd heq.symm (by simp)

/-- Two reads of one block, then one of another block of the row. -/
theorem invalidWays_first_smallCache :
    ((Directory.new ⟨id, id⟩ (smallCache .lfu)).run (smallCache .lfu)
      [.use 0 0, .use 0 0]).FillsInvalid (smallCache .lfu) 0 1 := by
  refine (invalidWays_first ⟨id, id⟩ (smallCache .lfu) (.inr rfl) flat_neverFails
    (fun _ => 0) trivial
    [.read .regular 0 1, .read .regular 2 1, .read .regular 8 1] fun _ => ?_).2
    [.use 0 0, .use 0 0] 0 1 [] (by decide +kernel)
  have hevents : [read .regular 0 1, .read .regular 2 1, .read .regular 8 1].flatMap
      (events (smallCache .lfu)) = [.use 0 0, .use 0 0, .use 0 1] := by decide +kernel
  rw [hevents]
  refine along_cons ?_ (along_cons ?_ (along_cons ?_
    along_nil)) <;> intro _ <;> decide +kernel

/-- A reset leaves the counters of an LFU policy.  The first miss after it takes the way with the
lower counter, and so does the second, which evicts the block of the first; the other way of the
row is never filled. -/
theorem lfu_evicts_after_reset :
    let c := (ontoAll (smallCache .lfu) [.read .regular 0 1, .read .regular 0 1,
      .read .regular 0 1, .read .regular 8 1, .reset, .read .regular 16 1]
      (Cache.new ⟨id, id⟩ (smallCache .lfu) fun _ : Nat => (0 : Byte))).2
    let c' := ((read .regular 24 1).onto (smallCache .lfu) c).2
    c.directory.tags 0 0 = none ∧ c.directory.tags 1 0 = some 2 ∧
      c'.directory.tags 0 0 = none ∧ c'.directory.tags 1 0 = some 3 := by
  decide +kernel

/-! ### The way used last -/

variable {rowPtr : List Nat}

theorem followPointers_lt (hbits : ∀ k, rowPtr.getD k 0 ≤ 1) (n i idx plruIdx : Nat) :
    followPointers rowPtr n i idx plruIdx < (idx + 1) * 2 ^ n := by
  induction n generalizing i idx plruIdx with
  | zero => rw [followPointers, pow_zero, Nat.mul_one]; exact Nat.lt_succ_self idx
  | succ n ih =>
    have hbit := hbits plruIdx
    rw [followPointers]
    calc followPointers rowPtr n (i + 1) (2 * idx + rowPtr.getD plruIdx 0)
          (2 ^ (i + 1) - 1 + (2 * idx + rowPtr.getD plruIdx 0))
        < (2 * idx + rowPtr.getD plruIdx 0 + 1) * 2 ^ n := ih _ _ _
      _ ≤ ((idx + 1) * 2) * 2 ^ n := Nat.mul_le_mul_right _ (by omega)
      _ = (idx + 1) * 2 ^ (n + 1) := by rw [pow_succ', Nat.mul_assoc]

/-- The first pointer decides the half of the tree. -/
theorem followPointers_half (hbits : ∀ k, rowPtr.getD k 0 ≤ 1) (m : Nat) :
    followPointers rowPtr (m + 1) 0 0 0 / 2 ^ m = rowPtr.getD 0 0 := by
  simp only [followPointers, Nat.mul_zero, Nat.zero_add]
  exact Nat.div_eq_of_lt_le (le_followPointers rowPtr m _ _ _) (followPointers_lt hbits m _ _ _)

theorem length_togglePointers (cLog2 way n i plruIdx : Nat) (rowPtr : List Nat) :
    (togglePointers cLog2 way n i plruIdx rowPtr).length = rowPtr.length := by
  induction n generalizing i plruIdx rowPtr with
  | zero => rfl
  | succ n ih => rw [togglePointers, ih, List.length_set]

theorem togglePointers_bits (hbits : ∀ k, rowPtr.getD k 0 ≤ 1) (cLog2 way n i plruIdx : Nat)
    (k : Nat) : (togglePointers cLog2 way n i plruIdx rowPtr).getD k 0 ≤ 1 := by
  induction n generalizing i plruIdx rowPtr with
  | zero => exact hbits k
  | succ n ih =>
    rw [togglePointers]
    refine ih (fun j => ?_) (i + 1) _
    rw [List.getD_eq_getElem?_getD, List.getElem?_set]
    split
    · split
      · rw [Option.getD_some]
        split <;> decide
      · exact Nat.zero_le 1
    · rw [← List.getD_eq_getElem?_getD]
      exact hbits j

/-- The root of the tree points away from the half of the way that was used. -/
theorem togglePointers_root (hsize : 0 < rowPtr.length) (m way : Nat) :
    (togglePointers (m + 1) way (m + 1) 0 0 rowPtr).getD 0 0 =
      if way >>> m % 2 = 1 then 0 else 1 := by
  rw [togglePointers]
  have hroot : (rowPtr.set 0 (if way >>> (m + 1 - 1 - 0) % 2 = 1 then 0 else 1)).getD 0 0 =
      if way >>> m % 2 = 1 then 0 else 1 := by
    rw [List.getD_eq_getElem?_getD, List.getElem?_set_self hsize, Option.getD_some]
    rfl
  rw [← hroot]
  cases m with
  | zero => rfl
  | succ m =>
    have hlevel {j : Nat} (hj : 0 < j) (x : Nat) : 0 ≠ 2 ^ j - 1 + x :=
      Nat.ne_of_lt (Nat.add_pos_left (Nat.sub_pos_of_lt (Nat.one_lt_two_pow (by omega))) x)
    exact getD_togglePointers (hlevel (by decide) _) fun j hj _ => hlevel (by omega) _

namespace CachePolicy

variable {cfg : CacheConfig} {lib : CLibrary}

/-- The statistics of a row keep a way from being selected. -/
def Protects (row way : Nat) : CachePolicy → Prop
  | .lru stats => (stats row).getLast? = some way
  | .plru associativityCLog2 plruPtr =>
    (plruPtr row).getD 0 0 = if way >>> (associativityCLog2 - 1) % 2 = 1 then 0 else 1
  | .nmru _ mruPtr => mruPtr row = way
  | _ => False

/-- The pointers of the tree policy are bits in lists with a root. -/
def HasTrees (lib : CLibrary) (cfg : CacheConfig) : CachePolicy → Prop
  | .plru associativityCLog2 plruPtr => associativityCLog2 = lib.ceilLog2 cfg.associativity ∧
      ∀ row, 0 < (plruPtr row).length ∧ ∀ k, (plruPtr row).getD k 0 ≤ 1
  | _ => True

/-- The policies that spare the way that was used last. -/
def Spares (policy : ReplacementPolicy) : Prop :=
  policy = .lru ∨ policy = .plru ∨ policy = .nmru

theorem hasTrees_getPolicyInstance (hlog : lib.Log2Sound) (hassoc : 2 ≤ cfg.associativity) :
    HasTrees lib cfg (getPolicyInstance lib cfg) := by
  have hpos := hlog.pos hassoc
  rcases hpolicy : cfg.replacementPolicy with _ | _ | _ | _ | _ <;>
    simp only [getPolicyInstance, hpolicy, HasTrees]
  refine ⟨trivial, fun _ => ⟨?_, fun k => ?_⟩⟩
  · rw [List.length_replicate]
    exact Nat.sub_pos_of_lt (Nat.one_lt_two_pow (by omega))
  · rw [List.getD_eq_getElem?_getD, List.getElem?_replicate]
    split <;> decide

variable {p : CachePolicy}

theorem HasTrees.updateStats (h : p.HasTrees lib cfg) (way row : Nat) (isValid : Bool) :
    (p.updateStats way row isValid).2.HasTrees lib cfg := by
  cases p with
  | plru associativityCLog2 plruPtr =>
    refine ⟨h.1, fun r => ?_⟩
    by_cases hr : r = row
    · subst hr
      rw [setRow_self, length_togglePointers]
      exact ⟨(h.2 r).1, togglePointers_bits (h.2 r).2 _ _ _ _ _⟩
    · rw [setRow_of_ne _ _ hr]
      exact h.2 r
  | _ => trivial

theorem HasTrees.selectWayToEvict (h : p.HasTrees lib cfg) (row : Nat) :
    (p.selectWayToEvict cfg.associativity row).2.HasTrees lib cfg := by
  cases p with
  | nmru random mruPtr =>
    simp only [selectWayToEvict]
    split <;> trivial
  | _ => exact h

/-- Selecting a way changes no statistics. -/
theorem protects_selectWayToEvict (associativity row r way : Nat) :
    (p.selectWayToEvict associativity row).2.Protects r way ↔ p.Protects r way := by
  cases p with
  | nmru random mruPtr =>
    simp only [selectWayToEvict]
    split <;> rfl
  | _ => rfl

/-- An update concerns one row. -/
theorem Protects.updateStats_of_ne {r w : Nat} (h : p.Protects r w) (way : Nat) {row : Nat}
    (isValid : Bool) (hr : r ≠ row) : (p.updateStats way row isValid).2.Protects r w := by
  cases p with
  | rand | lfu => exact h
  | lru | plru | nmru => simpa only [updateStats, Protects, setRow_of_ne _ _ hr] using h

/-- The way that was used is kept from being selected. -/
theorem protects_updateStats (hspares : Spares cfg.replacementPolicy) (hfits : p.Fits cfg)
    (htrees : p.HasTrees lib cfg) (hlog : lib.Log2Sound) (hassoc : 2 ≤ cfg.associativity)
    {way : Nat} (hway : way < cfg.associativity) (row : Nat) :
    (p.updateStats way row true).2.Protects row way := by
  cases p with
  | rand random => rcases hspares with h | h | h <;> exact absurd (hfits.symm.trans h) (by decide)
  | lfu stats => rcases hspares with h | h | h <;> exact absurd (hfits.1.symm.trans h) (by decide)
  | lru stats =>
    have hperm := hfits.2 row
    rw [updateStats_lru true (hperm.mem_iff.mpr (List.mem_range.mpr hway))
      (hperm.nodup_iff.mpr List.nodup_range)]
    simp only [Protects, setRow_self, requeue, if_true, List.getLast?_concat]
  | plru cLog2 ptr =>
    obtain ⟨hcLog2, hrows⟩ := htrees
    obtain ⟨m, hm⟩ : ∃ m, cLog2 = m + 1 := ⟨cLog2 - 1, by have := hlog.pos hassoc; omega⟩
    subst hm
    simp only [updateStats, Protects, setRow_self]
    exact togglePointers_root (hrows row).1 m way
  | nmru random ptr => simp only [updateStats, Protects, setRow_self]

/-- A way that is kept from being selected is not selected. -/
theorem Protects.selectWayToEvict_ne {row way : Nat} (h : p.Protects row way) (hfits : p.Fits cfg)
    (htrees : p.HasTrees lib cfg) (hlog : lib.Log2Sound) (hassoc : 2 ≤ cfg.associativity) :
    (p.selectWayToEvict cfg.associativity row).1 ≠ way := by
  cases p with
  | rand | lfu => exact h.elim
  | lru stats =>
    have hperm := hfits.2 row
    have hlen := hperm.length_eq
    have hnodup := hperm.nodup_iff.mpr List.nodup_range
    rw [List.length_range] at hlen
    rw [Protects] at h
    simp only [selectWayToEvict]
    -- the queue has a first and another, last way
    rcases hrow : stats row with _ | ⟨first, _ | ⟨second, rest⟩⟩
    · rw [hrow] at hlen
      exact absurd hlen (by simp only [List.length_nil]; omega)
    · rw [hrow] at hlen
      exact absurd hlen (by simp only [List.length_cons, List.length_nil]; omega)
    · rw [hrow] at h hnodup
      rw [List.getLast?_cons_cons] at h
      rintro rfl
      exact (List.nodup_cons.mp hnodup).1 (List.mem_of_getLast? h)
  | plru cLog2 ptr =>
    obtain ⟨hcLog2, hrows⟩ := htrees
    have hpow := hlog.pow_lt hassoc
    rw [← hcLog2] at hpow
    obtain ⟨m, hm⟩ : ∃ m, cLog2 = m + 1 := ⟨cLog2 - 1, by have := hlog.pos hassoc; omega⟩
    subst hm
    rw [Protects, Nat.add_sub_cancel, Nat.shiftRight_eq_div_pow] at h
    rw [Nat.add_sub_cancel] at hpow
    have hhalf := followPointers_half (hrows row).2 m
    have hroot := (hrows row).2 0
    simp only [selectWayToEvict]
    generalize followPointers (ptr row) (m + 1) 0 0 0 = idx at hhalf ⊢
    split
    next hclamp =>
      -- the last way and the index that is clamped to it are in the right half
      have hidx : 1 ≤ idx / 2 ^ m := (Nat.one_le_div_iff (Nat.two_pow_pos m)).mpr (by omega)
      have hlt : idx < 2 * 2 ^ m := (Nat.div_lt_iff_lt_mul (Nat.two_pow_pos m)).mp (by omega)
      have hlast : (cfg.associativity - 1) / 2 ^ m = 1 :=
        Nat.div_eq_of_lt_le (by omega) (by omega)
      rintro rfl
      rw [hlast] at h
      split at h <;> omega
    next =>
      rintro rfl
      rw [hhalf] at h
      split at h <;> omega
  | nmru random ptr =>
    rw [Protects] at h
    simp only [selectWayToEvict, if_neg (show ¬cfg.associativity = 1 by omega)]
    split <;> omega

end CachePolicy

namespace Directory

variable {cfg : CacheConfig} {lib : CLibrary} {d : Directory}

def usedBlock (cfg : CacheConfig) (d : Directory) (row : Nat) : DirectoryEvent → Option Nat
  | .use r tag => if r = row then some tag else none
  | .pass r tag =>
    if r = row ∧ d.find cfg r tag < cfg.associativity then some tag else none
  | _ => none

def lastUsed (cfg : CacheConfig) (d : Directory) (row : Nat) : List DirectoryEvent → Option Nat
  | [] => none
  | event :: events => ((d.step cfg event).lastUsed cfg row events).or (d.usedBlock cfg row event)

theorem lastUsed_append (row : Nat) (before : List DirectoryEvent) (event : DirectoryEvent) :
    d.lastUsed cfg row (before ++ [event]) =
      ((d.run cfg before).usedBlock cfg row event).or (d.lastUsed cfg row before) := by
  induction before generalizing d with
  | nil => exact (Option.or_none).symm ▸ rfl
  | cons first before ih => rw [List.cons_append, lastUsed, ih, lastUsed, Option.or_assoc]; rfl

/-- The block of a row that was used last is in a way that is kept from being selected. -/
structure KeepsLast (lib : CLibrary) (cfg : CacheConfig) (last : Nat → Option Nat)
    (d : Directory) : Prop where
  shape : d.Shape cfg
  trees : d.policy.HasTrees lib cfg
  kept : ∀ row tag, last row = some tag →
    ∃ way, d.tags way row = some tag ∧ d.policy.Protects row way

theorem use_policy (lib : CLibrary) (hfits : d.policy.Fits cfg) (row tag : Nat) :
    ∃ p : CachePolicy, p.Fits cfg ∧ (d.policy.HasTrees lib cfg → p.HasTrees lib cfg) ∧
      (∀ r w, r ≠ row → d.policy.Protects r w → p.Protects r w) ∧
      (d.use cfg row tag).policy = (p.updateStats (d.slot cfg row tag) row true).2 := by
  unfold use slot
  split
  next => exact ⟨d.policy, hfits, id, fun _ _ _ h => h, rfl⟩
  next =>
    have hway := selectWayToEvict_lt hfits row
    have hselected := selectWayToEvict_fits hfits row
    refine ⟨(d.bring cfg row tag).policy, ?_, fun h => ?_, fun r w hr h => ?_, rfl⟩
    · exact update_fits (d := ⟨_, (d.policy.selectWayToEvict cfg.associativity row).2⟩)
        hselected hway row false
    · exact (h.selectWayToEvict row).updateStats _ _ _
    · exact ((protects_selectWayToEvict _ _ r w).mpr h).updateStats_of_ne _ _ hr

theorem KeepsLast.use {last : Nat → Option Nat} (h : KeepsLast lib cfg last d)
    (hspares : CachePolicy.Spares cfg.replacementPolicy) (hlog : lib.Log2Sound)
    (hassoc : 2 ≤ cfg.associativity) (row tag : Nat) :
    KeepsLast lib cfg (setRow last row (some tag)) (d.use cfg row tag) := by
  have hslot := slot_lt h.shape.fits row tag
  obtain ⟨p, hp, htrees, hother, hpolicy⟩ := use_policy lib h.shape.fits row tag
  refine ⟨h.shape.use row tag, ?_, fun r t hlast => ?_⟩
  · rw [hpolicy]
    exact (htrees h.trees).updateStats _ _ _
  · rw [hpolicy, use_tags]
    by_cases hr : r = row
    · subst hr
      rw [setRow_self, Option.some.injEq] at hlast
      subst hlast
      exact ⟨d.slot cfg r tag, setTag_tags_self _ _ _,
        protects_updateStats hspares hp (htrees h.trees) hlog hassoc hslot r⟩
    · rw [setRow_of_ne _ _ hr] at hlast
      obtain ⟨way, htag, hprotects⟩ := h.kept r t hlast
      refine ⟨way, ?_, (hother r way hr hprotects).updateStats_of_ne _ _ hr⟩
      rw [setTag_tags_of_ne _ (fun hwr => hr hwr.2)]
      exact htag

theorem usedBlock_or_eq_setRow (last : Nat → Option Nat) (r tag : Nat) :
    (fun row => (if r = row then some tag else none).or (last row)) =
      setRow last r (some tag) := by
  funext row
  by_cases hr : row = r
  · rw [hr, if_pos rfl, setRow_self, Option.some_or]
  · rw [if_neg (Ne.symm hr), setRow_of_ne _ _ hr, Option.none_or]

/-- Uses of blocks keep the block that was used last. -/
theorem KeepsLast.step {last : Nat → Option Nat} (h : KeepsLast lib cfg last d)
    (hspares : CachePolicy.Spares cfg.replacementPolicy) (hlog : lib.Log2Sound)
    (hassoc : 2 ≤ cfg.associativity) {event : DirectoryEvent} (hevent : event.isUse) :
    KeepsLast lib cfg (fun row => (d.usedBlock cfg row event).or (last row))
      (d.step cfg event) := by
  cases event with
  | use r tag =>
    simp only [usedBlock, usedBlock_or_eq_setRow]
    exact h.use hspares hlog hassoc r tag
  | pass r tag =>
    simp only [usedBlock, Directory.step]
    by_cases hfound : d.find cfg r tag < cfg.associativity
    · simp only [hfound, and_true, if_true, usedBlock_or_eq_setRow]
      exact h.use hspares hlog hassoc r tag
    · simp only [hfound, and_false, if_false, Option.none_or]
      exact h
  | empty | reset => exact absurd hevent Bool.false_ne_true

theorem KeepsLast.new (hlog : lib.Log2Sound) (hassoc : 2 ≤ cfg.associativity) :
    KeepsLast lib cfg (fun _ => none) (Directory.new lib cfg) :=
  ⟨.new lib cfg, hasTrees_getPolicyInstance hlog hassoc, fun _ _ h => by cases h⟩

theorem keepsLast_run (hspares : CachePolicy.Spares cfg.replacementPolicy) (hlog : lib.Log2Sound)
    (hassoc : 2 ≤ cfg.associativity) {events : List DirectoryEvent}
    (hevents : ∀ event ∈ events, event.isUse) :
    KeepsLast lib cfg (fun row => (new lib cfg).lastUsed cfg row events)
      ((new lib cfg).run cfg events) := by
  refine run_induction (C := fun _ event => event.isUse)
    (I := fun events d => KeepsLast lib cfg
      (fun row => (new lib cfg).lastUsed cfg row events) d)
    (.new hlog hassoc) (fun before event hbefore hevent => ?_) ?_
  · simp only [lastUsed_append]
    exact hbefore.step hspares hlog hassoc hevent
  · intro before event after heq
    exact hevents event (heq ▸ List.mem_append_right _ List.mem_cons_self)

/-- The way that is given up exists, and a missing block leaves the block in its line that its row
used last. -/
def SparesLast (cfg : CacheConfig) (d : Directory) (last : Option Nat) (row tag : Nat) : Prop :=
  d.victim cfg row < cfg.associativity ∧
    (cfg.associativity ≤ d.find cfg row tag → ∀ block, last = some block →
      ∃ way, d.tags way row = some block ∧ d.victim cfg row ≠ way ∧
        (d.use cfg row tag).tags way row = some block)

theorem KeepsLast.sparesLast {last : Nat → Option Nat} (h : KeepsLast lib cfg last d)
    (hlog : lib.Log2Sound) (hassoc : 2 ≤ cfg.associativity) (row tag : Nat) :
    d.SparesLast cfg (last row) row tag := by
  refine ⟨selectWayToEvict_lt h.shape.fits row, fun hmiss block hlast => ?_⟩
  obtain ⟨way, htag, hprotects⟩ := h.kept row block hlast
  have hne : d.victim cfg row ≠ way :=
    hprotects.selectWayToEvict_ne h.shape.fits h.trees hlog hassoc
  refine ⟨way, htag, hne, ?_⟩
  have hslot : d.slot cfg row tag = d.victim cfg row := if_neg (Nat.not_lt.mpr hmiss)
  rw [use_tags, hslot, setTag_tags_of_ne _ (fun hwr => hne hwr.1.symm)]
  exact htag

end Directory

theorem CacheCall.isUse_of_mem_accessEvents {accessType : AccessType} {fuel address size : Nat}
    (hevent : event ∈ accessEvents cfg accessType fuel address size) : event.isUse := by
  induction fuel generalizing address size with
  | zero => exact absurd hevent List.not_mem_nil
  | succ fuel ih =>
    simp only [accessEvents] at hevent
    split at hevent
    · exact absurd hevent List.not_mem_nil
    · rcases List.mem_cons.mp hevent with rfl | hrest
      · unfold blockEvent
        split <;> rfl
      · split at hrest
        · exact ih hrest
        · exact absurd hrest List.not_mem_nil

/-- Reads and writes only use blocks. -/
theorem CacheCall.isUse_of_isAccess {call : CacheCall} (hcall : call.isAccess)
    (hevent : event ∈ call.events cfg) : event.isUse := by
  cases call with
  | read | write =>
    simp only [events] at hevent
    split at hevent
    · exact absurd hevent List.not_mem_nil
    · exact isUse_of_mem_accessEvents hevent
  | flush | sync | reset => exact absurd hcall Bool.false_ne_true

/-- A miss never evicts the block that its row used last, and selects a way that exists: in every
run of reads and writes of a cache with at least two ways and LRU, PLRU or NMRU replacement. -/
theorem lastUsed_survives (lib : CLibrary) (hlog : lib.Log2Sound) (cfg : CacheConfig)
    (hassoc : 2 ≤ cfg.associativity) (hpolicy : cfg.replacementPolicy = .lru ∨
      cfg.replacementPolicy = .plru ∨ cfg.replacementPolicy = .nmru) {B : Type}
    [LowerMemory B] {P : B → Prop} (hlower : LowerMemory.NeverFails P) (mem : B) (hmem : P mem)
    (calls : List CacheCall) (hcalls : ∀ call ∈ calls, call.isAccess) :
    (∃ c, CacheCall.ontoAll cfg calls (Cache.new lib cfg mem) = (.ok (), c) ∧
      c.directory =
        (Directory.new lib cfg).run cfg (calls.flatMap (CacheCall.events cfg))) ∧
      ∀ before row tag after,
        calls.flatMap (CacheCall.events cfg) = before ++ .use row tag :: after →
        ((Directory.new lib cfg).run cfg before).SparesLast cfg
          ((Directory.new lib cfg).lastUsed cfg row before) row tag := by
  refine ⟨?_, fun before row tag after heq => ?_⟩
  · obtain ⟨c, hrun, hdir, -⟩ := Cache.ontoAll_directory (c := Cache.new lib cfg mem) hlower
      calls (fits_getPolicyInstance lib cfg) hmem
    exact ⟨c, hrun, hdir⟩
  · refine (keepsLast_run hpolicy hlog hassoc fun event hevent => ?_).sparesLast hlog
      hassoc row tag
    have hmem : event ∈ calls.flatMap (events cfg) :=
      heq ▸ List.mem_append_left _ hevent
    obtain ⟨call, hcall, hin⟩ := List.mem_flatMap.mp hmem
    exact isUse_of_isAccess (hcalls call hcall) hin

/-- Four blocks in the three ways of a row. -/
theorem lastUsed_survives_three :
    ((Directory.new exactLibrary (plruConfig 3 (by decide))).run (plruConfig 3 (by decide))
      [.use 0 0, .use 0 1, .use 0 2]).SparesLast (plruConfig 3 (by decide))
      ((Directory.new exactLibrary (plruConfig 3 (by decide))).lastUsed (plruConfig 3 (by decide))
        0 [.use 0 0, .use 0 1, .use 0 2]) 0 3 :=
  (lastUsed_survives exactLibrary exactLibrary_log2Sound (plruConfig 3 (by decide)) (by decide)
    (.inr (.inl rfl)) flat_neverFails (fun _ => 0) trivial
    [.read .regular 0 1, .read .regular 4 1, .write .regular 8 [1], .read .regular 12 1]
    (by decide)).2 [.use 0 0, .use 0 1, .use 0 2] 0 3 [] (by decide +kernel)

end QtRvSim
