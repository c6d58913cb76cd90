import QtRvSim.Library.Recency
import QtRvSim.Refinement.EvictionOrder

/-!
# Hits of a cache with least recently used replacement

The blocks of a row, in the order of its queue, are the blocks of the row that were used last.  A
block is found if and only if fewer distinct blocks of its set were used after it than the cache has
ways (`lru_hit_law`).
-/

namespace QtRvSim

open CachePolicy CacheCall Directory Recency CacheConfig

namespace Directory

variable {cfg : CacheConfig} {d : Directory} {stats : Nat → List Nat}

/-- The blocks of a row, the one used last first. -/
def held (stats : Nat → List Nat) (d : Directory) (row : Nat) : List Nat :=
  (stats row).reverse.filterMap fun way => d.tags way row

theorem filterMap_erase {α β : Type} [DecidableEq α] [DecidableEq β] {f : α → Option β} {a : α}
    {b : β} (hab : f a = some b) {l : List α} (hunique : ∀ x ∈ l, f x = some b → x = a) :
    (l.erase a).filterMap f = (l.filterMap f).erase b := by
  induction l with
  | nil => rfl
  | cons x l ih =>
    have hrest := ih fun y hy => hunique y (List.mem_cons_of_mem _ hy)
    by_cases hx : x = a
    · rw [hx, List.erase_cons_head, List.filterMap_cons_some hab, List.erase_cons_head]
    · rw [List.erase_cons_tail (by simpa using hx)]
      rcases hfx : f x with _ | y
      · rw [List.filterMap_cons_none hfx, List.filterMap_cons_none hfx, hrest]
      · have hy : y ≠ b := fun h => hx (hunique x List.mem_cons_self (h ▸ hfx))
        rw [List.filterMap_cons_some hfx, List.filterMap_cons_some hfx,
          List.erase_cons_tail (by simpa using hy), hrest]

/-- A block is found if it is one of the blocks of its row. -/
theorem find_lt_iff (hshape : d.Shape cfg) (hpolicy : d.policy = .lru stats) (row tag : Nat) :
    d.find cfg row tag < cfg.associativity ↔ tag ∈ d.held stats row := by
  have hfits := hshape.fits
  rw [hpolicy] at hfits
  have hmem (way : Nat) : way ∈ stats row ↔ way < cfg.associativity :=
    (hfits.2 row).mem_iff.trans List.mem_range
  rw [held, List.mem_filterMap]
  constructor
  · intro hfound
    exact ⟨_, List.mem_reverse.mpr ((hmem _).mpr hfound), tags_find hfound⟩
  · rintro ⟨way, hway, htag⟩
    by_contra hmiss
    exact tags_of_not_found hmiss ((hmem way).mp (List.mem_reverse.mp hway)) htag

/-- After a use the block is first, before the blocks of the other ways. -/
theorem held_use (hshape : d.Shape cfg) (hpolicy : d.policy = .lru stats) (row tag : Nat) :
    (d.use cfg row tag).held (setRow stats row
      (requeue (d.slot cfg row tag) true (stats row))) row =
      tag :: ((stats row).erase (d.slot cfg row tag)).reverse.filterMap fun way =>
        d.tags way row := by
  have hfits := hshape.fits
  rw [hpolicy] at hfits
  have hnodup : (stats row).Nodup := (hfits.2 row).nodup_iff.mpr List.nodup_range
  rw [held, setRow_self, requeue, if_pos rfl, List.reverse_append,
    List.reverse_singleton, List.singleton_append, use_tags,
    List.filterMap_cons_some
      (f := fun way => (d.setTag (d.slot cfg row tag) row (some tag)).tags way row)
      (setTag_tags_self _ _ _)]
  refine congrArg (tag :: ·) (List.filterMap_congr fun way hway => setTag_tags_of_ne _ ?_)
  rintro ⟨rfl, -⟩
  exact hnodup.not_mem_erase (List.mem_reverse.mp hway)

/-- The other ways of a row hold the other blocks, without those that no longer fit. -/
theorem held_erase (hshape : d.Shape cfg) (hfirst : d.InvalidFirst cfg)
    (hpolicy : d.policy = .lru stats) (row tag : Nat) :
    (((stats row).erase (d.slot cfg row tag)).reverse.filterMap fun way => d.tags way row) =
      ((d.held stats row).erase tag).take (cfg.associativity - 1) := by
  have hfits := hshape.fits
  have hslot := slot_lt hfits row tag
  have hfound := find_lt_iff hshape hpolicy row tag
  simp only [InvalidFirst, hpolicy] at hfirst
  rw [hpolicy] at hfits
  have hperm := hfits.2 row
  have hnodup : (stats row).Nodup := hperm.nodup_iff.mpr List.nodup_range
  have hlen : ((stats row).erase (d.slot cfg row tag)).reverse.length =
      cfg.associativity - 1 := by
    rw [List.length_reverse, List.length_erase_of_mem
      (hperm.mem_iff.mpr (List.mem_range.mpr hslot)), hperm.length_eq, List.length_range]
  have hshort := List.length_filterMap_le (fun way => d.tags way row)
    ((stats row).erase (d.slot cfg row tag)).reverse
  by_cases hhit : d.find cfg row tag < cfg.associativity
  · have hslot : d.slot cfg row tag = d.find cfg row tag := if_pos hhit
    have herase : ((stats row).erase (d.slot cfg row tag)).reverse =
        (stats row).reverse.erase (d.slot cfg row tag) := by
      rw [hnodup.erase_eq_filter, (List.nodup_reverse.mpr hnodup).erase_eq_filter,
        List.filter_reverse]
    have htag : d.tags (d.slot cfg row tag) row = some tag := hslot ▸ tags_find hhit
    have hheld : (((stats row).erase (d.slot cfg row tag)).reverse.filterMap fun way =>
        d.tags way row) = (d.held stats row).erase tag := by
      rw [herase]
      exact filterMap_erase (f := fun way => d.tags way row) htag fun way _ hway =>
        hshape.unique _ _ row tag hway htag
    rw [hlen, hheld] at hshort
    rw [hheld, List.take_of_length_le hshort]
  · rw [List.erase_of_not_mem (fun h => hhit (hfound.mpr h))]
    have hslot : d.slot cfg row tag = (stats row).headD 0 := by
      rw [slot, if_neg hhit, victim, hpolicy]
      rfl
    have hsorted := hfirst row
    rw [hslot] at hlen hshort ⊢
    rw [held]
    -- the slot is the first way of the queue and holds the last block, if it holds one
    rcases hrow : stats row with _ | ⟨first, rest⟩
    · exact List.take_nil.symm
    · rw [hrow] at hlen hshort hsorted
      simp only [List.headD_cons, List.erase_cons_head, List.reverse_cons,
        List.filterMap_append] at hlen hshort ⊢
      rcases hlast : d.tags first row with _ | block
      · rw [List.filterMap_cons_none (f := fun way => d.tags way row) hlast, List.filterMap_nil,
          List.append_nil, List.take_of_length_le (hlen ▸ hshort)]
      · have hfull : (rest.reverse.filterMap fun way => d.tags way row).length =
            cfg.associativity - 1 := by
          rw [← hlen, List.filterMap_length_eq_length]
          intro way hway
          have hrel := (List.pairwise_cons.mp hsorted).1 way (List.mem_reverse.mp hway)
          rw [Option.isSome_iff_ne_none]
          intro hnone
          rw [hrel hnone] at hlast
          exact absurd hlast (by simp)
        rw [← hfull, List.take_left]

/-- The rows of a directory hold the blocks of a history that were used last. -/
structure Remembers (cfg : CacheConfig) (history : Nat → List Nat) (d : Directory) : Prop where
  shape : d.Shape cfg
  first : d.InvalidFirst cfg
  held : ∃ stats, d.policy = .lru stats ∧
    ∀ row, d.held stats row = Recency.recent cfg.associativity (history row)

theorem Remembers.new (lib : CLibrary) (hpolicy : cfg.replacementPolicy = .lru) :
    Remembers cfg (fun _ => []) (Directory.new lib cfg) := by
  refine ⟨.new lib cfg, .new lib (.inl hpolicy), fun _ => List.range cfg.associativity, ?_,
    fun row => ?_⟩
  · simp only [Directory.new, getPolicyInstance, hpolicy]
  · exact List.filterMap_eq_nil_iff.mpr fun _ _ => rfl

/-- A use is added to the history of its row. -/
theorem Remembers.use {history : Nat → List Nat} (h : Remembers cfg history d)
    (hlru : cfg.replacementPolicy = .lru) (row tag : Nat) :
    Remembers cfg (setRow history row (tag :: history row)) (d.use cfg row tag) := by
  obtain ⟨stats, hpolicy, hheld⟩ := h.held
  have hcounts := keepsCounts_of_lru hlru h.shape.fits (.use row tag)
  refine ⟨h.shape.use row tag, h.first.use h.shape.fits row tag hcounts, _,
    use_lru h.shape.fits hpolicy row tag, fun r => ?_⟩
  by_cases hr : r = row
  · subst hr
    rw [held_use h.shape hpolicy, held_erase h.shape h.first hpolicy, hheld r,
      setRow_self, recent_cons, touch]
    obtain ⟨n, hn⟩ : ∃ n, cfg.associativity = n + 1 :=
      ⟨cfg.associativity - 1, by have := cfg.associativity_pos; omega⟩
    rw [hn, List.take_succ_cons, Nat.add_sub_cancel]
  · rw [setRow_of_ne _ _ hr, ← hheld r, Directory.held, Directory.held,
      setRow_of_ne _ _ hr, use_tags]
    exact List.filterMap_congr fun way _ => setTag_tags_of_ne _ fun hwr => hr hwr.2

/-- A block is found if fewer distinct blocks were used after it than there are ways. -/
theorem Remembers.find_iff {history : Nat → List Nat} (h : Remembers cfg history d)
    (row tag : Nat) :
    d.find cfg row tag < cfg.associativity ↔ tag ∈ history row ∧
      (since tag (history row)).toFinset.card < cfg.associativity := by
  obtain ⟨stats, hpolicy, hheld⟩ := h.held
  rw [find_lt_iff h.shape hpolicy, hheld row, mem_recent_iff]

end Directory

/-! ### Blocks of addresses -/

namespace CacheConfig

variable {cfg : CacheConfig}

/-- The number of words in a way fits into 32 bits. -/
def WayFits (cfg : CacheConfig) : Prop :=
  cfg.setCount * cfg.blockSize < 2 ^ 32

variable (hfits : cfg.WayFits)
include hfits

variable (address : Nat)

/-- A block is kept in the row of its number modulo the number of sets. -/
theorem computeLocation_row :
    (cfg.computeLocation address).row = address / cfg.blockBytes % cfg.setCount := by
  have hway : cfg.setCount * cfg.blockSize % 2 ^ 32 = cfg.blockSize * cfg.setCount := by
    rw [Nat.mod_eq_of_lt hfits, Nat.mul_comm]
  simp only [computeLocation, hway, blockBytes]
  rw [Nat.mod_mul_right_div_self, Nat.div_div_eq_div_mul, Nat.mul_comm blockItemSize]

theorem computeLocation_tag :
    (cfg.computeLocation address).tag = address / cfg.blockBytes / cfg.setCount := by
  have hway : cfg.setCount * cfg.blockSize % 2 ^ 32 = cfg.blockSize * cfg.setCount := by
    rw [Nat.mod_eq_of_lt hfits, Nat.mul_comm]
  simp only [computeLocation, hway, blockBytes]
  rw [Nat.div_div_eq_div_mul, Nat.div_div_eq_div_mul, Nat.mul_comm cfg.blockSize blockItemSize,
    Nat.mul_assoc]

theorem computeLocation_offset :
    (cfg.computeLocation address).offset = address % cfg.blockBytes := by
  have hway : cfg.setCount * cfg.blockSize % 2 ^ 32 = cfg.setCount * cfg.blockSize :=
    Nat.mod_eq_of_lt hfits
  simp only [CacheLocation.offset, computeLocation, hway, blockBytes]
  rw [Nat.mod_mul_left_mod, Nat.mul_comm cfg.blockSize, Nat.mod_mul, Nat.mul_comm, Nat.add_comm]

end CacheConfig

namespace CacheCall

variable {cfg : CacheConfig}

/-- A regular or asynchronous access of at least one byte that lies in one block and ends below the
uncached window. -/
def InBlock (cfg : CacheConfig) (address size : Nat) : Prop :=
  0 < size ∧ address % cfg.blockBytes + size ≤ cfg.blockBytes ∧ address + size < 0xf0000000

def WithinBlock (cfg : CacheConfig) : CacheCall → Prop
  | .read type source size => type ≠ .internal ∧ InBlock cfg source size
  | .write _ destination source => InBlock cfg destination source.length
  | _ => False

def block (cfg : CacheConfig) : CacheCall → Nat
  | .read _ address _ | .write _ address _ => address / cfg.blockBytes
  | _ => 0

theorem accessEvents_of_inBlock (hfits : cfg.WayFits) {accessType : AccessType}
    (halloc : cfg.writePolicy ≠ .throughNoalloc) {address size : Nat}
    (hblock : InBlock cfg address size) :
    accessEvents cfg accessType size address size =
      [.use (address / cfg.blockBytes % cfg.setCount)
        (address / cfg.blockBytes / cfg.setCount)] := by
  obtain ⟨hpos, hin, -⟩ := hblock
  obtain ⟨n, rfl⟩ : ∃ n, size = n + 1 := ⟨size - 1, by omega⟩
  have hoffset := computeLocation_offset hfits address
  have hover : cfg.calculateOverflowToNextBlocks (n + 1) (cfg.computeLocation address) = 0 := by
    rw [calculateOverflowToNextBlocks, ← CacheLocation.offset, hoffset]
    omega
  have hevent : blockEvent cfg accessType (cfg.computeLocation address) =
      .use (address / cfg.blockBytes % cfg.setCount) (address / cfg.blockBytes / cfg.setCount) := by
    rw [blockEvent, if_neg (fun h => halloc h.2), computeLocation_row hfits,
      computeLocation_tag hfits]
  simp only [accessEvents, hover, hevent, Nat.lt_irrefl, if_false, Nat.add_one_ne_zero]

/-- An access in one block is one use of the block. -/
theorem events_of_withinBlock (hfits : cfg.WayFits) (henabled : cfg.enabled)
    (halloc : cfg.writePolicy ≠ .throughNoalloc) {call : CacheCall}
    (hcall : call.WithinBlock cfg) :
    call.events cfg =
      [.use (call.block cfg % cfg.setCount) (call.block cfg / cfg.setCount)] := by
  cases call with
  | read type source size =>
    obtain ⟨htype, hblock⟩ := hcall
    have hbypass := Cache.bypasses_of_low henabled hblock.2.2
    simp only [events, hbypass, htype, or_self, Bool.false_eq_true, if_false]
    exact accessEvents_of_inBlock hfits halloc hblock
  | write type destination source =>
    have hbypass := Cache.bypasses_of_low henabled hcall.2.2
    simp only [events, hbypass, Bool.false_eq_true, if_false]
    exact accessEvents_of_inBlock hfits halloc hcall
  | flush | sync | reset => exact hcall.elim

/-- A block was accessed, and fewer distinct other blocks of its set than there are ways were
accessed after its last access.  The latest access is the first of the list. -/
def RecentlyUsed (cfg : CacheConfig) (blocks : List Nat) (b : Nat) : Prop :=
  b ∈ blocks ∧ ((blocks.takeWhile (· ≠ b)).filter
    (· % cfg.setCount = b % cfg.setCount)).toFinset.card < cfg.associativity

instance (cfg : CacheConfig) (blocks : List Nat) (b : Nat) :
    Decidable (RecentlyUsed cfg blocks b) :=
  inferInstanceAs (Decidable (_ ∧ _))

def rowTags (cfg : CacheConfig) (blocks : List Nat) (row : Nat) : List Nat :=
  (blocks.filter (· % cfg.setCount = row)).map (· / cfg.setCount)

/-- A block is the only one of its row with its tag. -/
theorem eq_of_row_tag {n a b : Nat} (hrow : a % n = b % n) (htag : a / n = b / n) : a = b := by
  rw [← Nat.div_add_mod a n, ← Nat.div_add_mod b n, hrow, htag]

theorem mem_rowTags {blocks : List Nat} {b : Nat} :
    b / cfg.setCount ∈ rowTags cfg blocks (b % cfg.setCount) ↔ b ∈ blocks := by
  simp only [rowTags, List.mem_map, List.mem_filter, decide_eq_true_eq]
  constructor
  · rintro ⟨a, ⟨ha, hrow⟩, htag⟩
    exact eq_of_row_tag hrow htag ▸ ha
  · intro hb
    exact ⟨b, ⟨hb, rfl⟩, rfl⟩

theorem since_rowTags (blocks : List Nat) (b : Nat) :
    since (b / cfg.setCount) (rowTags cfg blocks (b % cfg.setCount)) =
      ((blocks.takeWhile (· ≠ b)).filter (· % cfg.setCount = b % cfg.setCount)).map
        (· / cfg.setCount) := by
  unfold rowTags since
  induction blocks with
  | nil => rfl
  | cons a blocks ih =>
    by_cases hab : a = b
    · subst hab
      simp
    by_cases hrow : a % cfg.setCount = b % cfg.setCount
    · have htag : a / cfg.setCount ≠ b / cfg.setCount := fun h => hab (eq_of_row_tag hrow h)
      simpa [hab, hrow, htag] using ih
    · simpa [hab, hrow] using ih

theorem recentlyUsed_iff {blocks : List Nat} {b : Nat} :
    (b / cfg.setCount ∈ rowTags cfg blocks (b % cfg.setCount) ∧
      (since (b / cfg.setCount)
        (rowTags cfg blocks (b % cfg.setCount))).toFinset.card < cfg.associativity) ↔
      RecentlyUsed cfg blocks b := by
  have hcard : (since (b / cfg.setCount)
      (rowTags cfg blocks (b % cfg.setCount))).toFinset.card =
      ((blocks.takeWhile (· ≠ b)).filter
        (· % cfg.setCount = b % cfg.setCount)).toFinset.card := by
    rw [since_rowTags]
    generalize hother : (blocks.takeWhile (· ≠ b)).filter
      (· % cfg.setCount = b % cfg.setCount) = other
    have himage : (other.map (· / cfg.setCount)).toFinset =
        other.toFinset.image (· / cfg.setCount) := by
      ext tag
      simp
    have hrow {a : Nat} (ha : a ∈ (other.toFinset : Set Nat)) :
        a % cfg.setCount = b % cfg.setCount := by
      rw [Finset.mem_coe, List.mem_toFinset, ← hother] at ha
      simpa using (List.mem_filter.mp ha).2
    rw [himage]
    exact Finset.card_image_of_injOn fun x hx y hy htag =>
      eq_of_row_tag ((hrow hx).trans (hrow hy).symm) htag
  rw [hcard, mem_rowTags, RecentlyUsed]

end CacheCall

/-- After accesses in single blocks the rows hold the blocks used last. -/
theorem remembers_of_withinBlock (lib : CLibrary) {cfg : CacheConfig} (henabled : cfg.enabled)
    (hpolicy : cfg.replacementPolicy = .lru) (halloc : cfg.writePolicy ≠ .throughNoalloc)
    (hfits : cfg.WayFits) {calls : List CacheCall}
    (hcalls : ∀ call ∈ calls, call.WithinBlock cfg) :
    ((new lib cfg).run cfg (calls.flatMap (events cfg))).Remembers cfg
      (rowTags cfg (calls.map (block cfg)).reverse) := by
  induction calls using List.reverseRecOn with
  | nil => exact .new lib hpolicy
  | append_singleton calls call ih =>
    have hbefore := ih fun c hc => hcalls c (List.mem_append_left _ hc)
    have hcall := hcalls call (List.mem_append_right _ List.mem_cons_self)
    rw [List.flatMap_append, List.flatMap_cons, List.flatMap_nil, List.append_nil,
      events_of_withinBlock hfits henabled halloc hcall, run_append]
    have hhistory : rowTags cfg ((calls ++ [call]).map (block cfg)).reverse =
        setRow (rowTags cfg (calls.map (block cfg)).reverse)
          (call.block cfg % cfg.setCount) (call.block cfg / cfg.setCount ::
            rowTags cfg (calls.map (block cfg)).reverse
              (call.block cfg % cfg.setCount)) := by
      funext row
      rw [List.map_append, List.reverse_append, List.map_singleton, List.reverse_singleton,
        List.singleton_append, rowTags]
      by_cases hrow : row = call.block cfg % cfg.setCount
      · rw [hrow, setRow_self, List.filter_cons_of_pos (by simp)]
        rfl
      · rw [setRow_of_ne _ _ hrow, List.filter_cons_of_neg (by simpa using Ne.symm hrow)]
        rfl
    rw [hhistory]
    exact hbefore.use hpolicy _ _

/-- Under LRU replacement an access hits if and only if its block was accessed before, and fewer
distinct other blocks of its set than there are ways were accessed after that; and no access ends
in an internal error. -/
theorem lru_hit_law (lib : CLibrary) (cfg : CacheConfig) (henabled : cfg.enabled)
    (hpolicy : cfg.replacementPolicy = .lru) (halloc : cfg.writePolicy ≠ .throughNoalloc)
    (hfits : cfg.WayFits) {B : Type} [LowerMemory B] {P : B → Prop}
    (hlower : LowerMemory.NeverFails P) (mem : B) (hmem : P mem) (calls : List CacheCall)
    (call : CacheCall) (hcalls : ∀ c ∈ calls ++ [call], c.WithinBlock cfg) :
    ∃ c c', CacheCall.ontoAll cfg calls (Cache.new lib cfg mem) = (.ok (), c) ∧
      call.onto cfg c = (.ok (), c') ∧
      if CacheCall.RecentlyUsed cfg (calls.map (CacheCall.block cfg)).reverse (call.block cfg) then
        c'.getHitCount = c.getHitCount + 1 ∧ c'.getMissCount = c.getMissCount
      else
        c'.getHitCount = c.getHitCount ∧ c'.getMissCount = c.getMissCount + 1 := by
  have hcall := hcalls call (List.mem_append_right _ List.mem_cons_self)
  have hbefore := remembers_of_withinBlock lib henabled hpolicy halloc hfits
    fun c hc => hcalls c (List.mem_append_left _ hc)
  obtain ⟨c, hrun, hdir, hcfits, hcmem⟩ := Cache.ontoAll_directory
    (c := Cache.new lib cfg mem) hlower calls (fits_getPolicyInstance lib cfg) hmem
  have hreset : call ≠ .reset := by
    rintro rfl
    exact hcall
  obtain ⟨c', honto, hc'⟩ := Cache.onto_runsTo hlower hreset hcfits hcmem
  refine ⟨c, c', hrun, honto, ?_⟩
  rw [Cache.directory_new] at hdir
  rw [← hdir] at hbefore
  have hfind := (hbefore.find_iff (call.block cfg % cfg.setCount)
    (call.block cfg / cfg.setCount)).trans recentlyUsed_iff
  have hhit := hc'.hitCount
  have hmiss := hc'.missCount
  rw [events_of_withinBlock hfits henabled halloc hcall] at hhit hmiss
  simp only [count, hit, miss, Nat.add_zero] at hhit hmiss
  split
  next hrecent =>
    have hfound := hfind.mpr hrecent
    rw [hhit, hmiss, decide_eq_true hfound, decide_eq_false (by omega)]
    exact ⟨rfl, BitVec.add_zero _⟩
  next hrecent =>
    have hfound := mt hfind.mp hrecent
    rw [hhit, hmiss, decide_eq_false hfound, decide_eq_true (by omega)]
    exact ⟨BitVec.add_zero _, rfl⟩

/-- The blocks 0, 2, 4 and 0 of the first of two sets with two ways. -/
theorem lru_hit_law_smallCache :
    ∃ c c', CacheCall.ontoAll (smallCache .lru)
        [.read .regular 0 4, .write .regular 8 [1], .read .regular 16 2]
        (Cache.new ⟨id, id⟩ (smallCache .lru) fun _ : Nat => (0 : Byte)) = (.ok (), c) ∧
      (CacheCall.read .regular 3 1).onto (smallCache .lru) c = (.ok (), c') ∧
      c'.getHitCount = c.getHitCount ∧ c'.getMissCount = c.getMissCount + 1 := by
  obtain ⟨c, c', hcalls, hcall, hlaw⟩ := lru_hit_law ⟨id, id⟩ (smallCache .lru) rfl rfl (by decide)
    (by simp [CacheConfig.WayFits, smallCache]) flat_neverFails (fun _ => 0) trivial
    [.read .regular 0 4, .write .regular 8 [1], .read .regular 16 2] (.read .regular 3 1)
    (by simp [CacheCall.WithinBlock, CacheCall.InBlock, blockBytes, smallCache, blockItemSize])
  rw [if_neg (by decide)] at hlaw
  exact ⟨c, c', hcalls, hcall, hlaw⟩

/-- A direct mapped cache with more words than 32 bits can count. -/
def wideCache : CacheConfig :=
  ⟨true, 65537, 65536, 1, .lru, .back, by decide, by decide, Nat.one_pos⟩

def hitsAndMisses (cfg : CacheConfig) (calls : List CacheCall) : BitVec 32 × BitVec 32 :=
  let c := (CacheCall.ontoAll cfg calls (Cache.new ⟨id, id⟩ cfg fun _ : Nat => (0 : Byte))).2
  (c.getHitCount, c.getMissCount)

/-- Two reads of the word that ends where the uncached window starts are no hit and no miss.  In the
wide cache all blocks are kept in the first row, so a block of another set evicts the first. -/
theorem lru_hit_law_fails :
    (CacheCall.RecentlyUsed (smallCache .lru) [0x3bffffff] 0x3bffffff ∧
      hitsAndMisses (smallCache .lru)
        [.read .regular 0xeffffffc 4, .read .regular 0xeffffffc 4] = (0, 0)) ∧
      CacheCall.RecentlyUsed wideCache [1, 0] 0 ∧
      hitsAndMisses wideCache
        [.read .regular 0 1, .read .regular 0x40000 1, .read .regular 0 1] = (0, 3) := by
  decide +kernel

end QtRvSim
