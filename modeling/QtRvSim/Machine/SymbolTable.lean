import Mathlib.Logic.Function.Basic
import Mathlib.Data.List.Basic

/-! # The symbol table: the entries of the names and of the values -/

namespace QtRvSim

structure SymbolTableEntry where
  name : String
  value : BitVec 64
  size : BitVec 32
  info : BitVec 8
  other : BitVec 8
  deriving DecidableEq

/-- The maps hold pointers to the entries: here a number, with the entry beside it. -/
structure SymbolTable where
  mapNameToSymbol : String → Option (Nat × SymbolTableEntry) := fun _ => none
  /-- The entries of the multimap, the most recently inserted one first. -/
  mapValueToSymbol : List (Nat × SymbolTableEntry) := []

namespace SymbolTable

/-- The allocator returns `pointer` for the new entry. -/
def addSymbol (t : SymbolTable) (pointer : Nat) (entry : SymbolTableEntry) : SymbolTable where
  mapNameToSymbol := Function.update t.mapNameToSymbol entry.name (some (pointer, entry))
  mapValueToSymbol := (pointer, entry) :: t.mapValueToSymbol

def removeSymbol (t : SymbolTable) (name : String) : SymbolTable :=
  match t.mapNameToSymbol name with
  | none => t
  | some pEntry =>
    { mapNameToSymbol := Function.update t.mapNameToSymbol name none
      mapValueToSymbol := t.mapValueToSymbol.filter (· ≠ pEntry) }

def setSymbol (t : SymbolTable) (pointer : Nat) (entry : SymbolTableEntry) : SymbolTable :=
  (t.removeSymbol entry.name).addSymbol pointer entry

def nameToValue (t : SymbolTable) (name : String) : Option (BitVec 64) :=
  (t.mapNameToSymbol name).map fun pEntry => pEntry.2.value

def locationToName (t : SymbolTable) (value : BitVec 64) : Option String :=
  (t.mapValueToSymbol.find? fun pEntry => pEntry.2.value = value).map fun pEntry => pEntry.2.name

end SymbolTable

inductive SymbolCall where
  | add (entry : SymbolTableEntry)
  | set (entry : SymbolTableEntry)
  | remove (name : String)

/-- The symbols added and not removed, the last one first. The flag tells those that a later
`add_symbol` of the name has overwritten: a removal of the name does not find them. -/
abbrev SymbolRows := List (SymbolTableEntry × Bool)

namespace SymbolRows

def add (rows : SymbolRows) (entry : SymbolTableEntry) : SymbolRows :=
  (entry, false) :: rows.map fun row => (row.1, row.2 || row.1.name == entry.name)

def remove (rows : SymbolRows) (name : String) : SymbolRows :=
  rows.filter fun row => row.2 || row.1.name != name

/-- The rows that a history leaves, its last call first. -/
def ofCalls : List SymbolCall → SymbolRows
  | [] => []
  | .add entry :: earlier => (ofCalls earlier).add entry
  | .set entry :: earlier => ((ofCalls earlier).remove entry.name).add entry
  | .remove name :: earlier => (ofCalls earlier).remove name

/-- Of two rows of a name the older one is overwritten. -/
def Overwriting (rows : SymbolRows) : Prop :=
  rows.Pairwise fun row older => row.1.name = older.1.name → older.2

variable {rows : SymbolRows}

theorem Overwriting.add (h : rows.Overwriting) (entry : SymbolTableEntry) :
    (rows.add entry).Overwriting := by
  refine List.pairwise_cons.mpr ⟨?_, List.pairwise_map.mpr (h.imp ?_)⟩
  · intro row hrow hname
    obtain ⟨old, -, rfl⟩ := List.mem_map.mp hrow
    simp [show entry.name = old.1.name from hname]
  · intro row older holder hname
    simp [holder hname]

theorem Overwriting.remove (h : rows.Overwriting) (name : String) :
    (rows.remove name).Overwriting :=
  h.filter _

theorem overwriting_ofCalls : ∀ calls, (ofCalls calls).Overwriting
  | [] => .nil
  | .add entry :: earlier => (overwriting_ofCalls earlier).add entry
  | .set entry :: earlier => ((overwriting_ofCalls earlier).remove _).add entry
  | .remove name :: earlier => (overwriting_ofCalls earlier).remove name

end SymbolRows

namespace SymbolTable

/-- The table after a history of calls, each with a new pointer. -/
def run : List SymbolCall → SymbolTable
  | [] => {}
  | .add entry :: earlier => (run earlier).addSymbol earlier.length entry
  | .set entry :: earlier => (run earlier).setSymbol earlier.length entry
  | .remove name :: earlier => (run earlier).removeSymbol name

/-- The table has the entries of the rows and finds by name those that are not overwritten.
Pointers from `fresh` on are not in use. -/
structure Holds (t : SymbolTable) (rows : SymbolRows) (fresh : Nat) : Prop where
  rows_eq : rows = t.mapValueToSymbol.map fun p =>
    (p.2, decide (t.mapNameToSymbol p.2.name ≠ some p))
  names : ∀ name p, t.mapNameToSymbol name = some p → p.2.name = name ∧ p ∈ t.mapValueToSymbol
  unused : ∀ p ∈ t.mapValueToSymbol, p.1 < fresh

variable {t : SymbolTable} {rows : SymbolRows} {fresh : Nat}

theorem Holds.addSymbol (h : Holds t rows fresh) (entry : SymbolTableEntry) :
    Holds (t.addSymbol fresh entry) (rows.add entry) (fresh + 1) where
  rows_eq := by
    simp only [SymbolRows.add, SymbolTable.addSymbol, h.rows_eq, List.map_cons, List.map_map,
      Function.update_self]
    congr 1
    · simp
    · refine List.map_congr_left fun p hp => ?_
      have hne : (fresh, entry) ≠ p := by
        rintro rfl
        exact absurd (h.unused _ hp) (Nat.lt_irrefl _)
      by_cases hname : p.2.name = entry.name
      · simp [hname, hne]
      · simp [hname]
  names := by
    intro name p hp
    simp only [SymbolTable.addSymbol, Function.update_apply] at hp ⊢
    split at hp
    · cases hp
      exact ⟨‹name = entry.name›.symm, List.mem_cons_self⟩
    · exact (h.names name p hp).imp_right (List.mem_cons_of_mem _)
  unused := by
    intro p hp
    rcases List.mem_cons.mp hp with rfl | hp
    · exact Nat.lt_succ_self _
    · exact Nat.lt_succ_of_lt (h.unused p hp)

theorem removeSymbol_eq (t : SymbolTable) (name : String) : t.removeSymbol name =
    { mapNameToSymbol := Function.update t.mapNameToSymbol name none
      mapValueToSymbol := t.mapValueToSymbol.filter fun p => t.mapNameToSymbol name ≠ some p } := by
  unfold removeSymbol
  cases hname : t.mapNameToSymbol name with
  | none =>
    rw [← hname, Function.update_eq_self]
    simp [hname]
  | some p => simp [eq_comm]

theorem Holds.removeSymbol (h : Holds t rows fresh) (name : String) :
    Holds (t.removeSymbol name) (rows.remove name) fresh := by
  rw [removeSymbol_eq]
  refine ⟨?_, ?_, fun p hp => h.unused p (List.mem_of_mem_filter hp)⟩
  · rw [SymbolRows.remove, h.rows_eq, List.filter_map]
    have hkept : t.mapValueToSymbol.filter ((fun row => row.2 || row.1.name != name) ∘ fun p =>
          (p.2, decide (t.mapNameToSymbol p.2.name ≠ some p))) =
        t.mapValueToSymbol.filter fun p => t.mapNameToSymbol name ≠ some p := by
      refine List.filter_congr fun p _ => ?_
      by_cases hname : p.2.name = name
      · simp [hname]
      · have hother : t.mapNameToSymbol name ≠ some p := fun hcurrent =>
          hname (h.names name p hcurrent).1
        simp [bne_iff_ne.mpr hname, hother]
    rw [hkept]
    refine List.map_congr_left fun p hp => ?_
    by_cases hname : p.2.name = name
    · simpa [hname] using (List.mem_filter.mp hp).2
    · simp [hname]
  · intro other p hp
    simp only [Function.update_apply] at hp ⊢
    split at hp
    · cases hp
    · obtain ⟨hname, hmem⟩ := h.names other p hp
      refine ⟨hname, List.mem_filter.mpr ⟨hmem, decide_eq_true fun hremoved => ?_⟩⟩
      exact ‹other ≠ name› (hname.symm.trans (h.names name p hremoved).1)

theorem holds_run : ∀ calls, Holds (run calls) (.ofCalls calls) calls.length
  | [] => ⟨rfl, by simp [run], by simp [run]⟩
  | .add entry :: earlier => (holds_run earlier).addSymbol entry
  | .set entry :: earlier => ((holds_run earlier).removeSymbol _).addSymbol entry
  | .remove name :: earlier =>
    let h := (holds_run earlier).removeSymbol name
    ⟨h.rows_eq, h.names, fun p hp => Nat.lt_succ_of_lt (h.unused p hp)⟩

/-- The name was added and has not been removed since. -/
def Added (name : String) : List SymbolCall → Prop
  | [] => False
  | .add entry :: earlier | .set entry :: earlier => entry.name = name ∨ Added name earlier
  | .remove removed :: earlier => removed ≠ name ∧ Added name earlier

/-- The name shown at a location is known, with that location. -/
def Consistent (calls : List SymbolCall) : Prop :=
  ∀ value name, (run calls).locationToName value = some name →
    (run calls).nameToValue name = some value ∧ Added name calls

theorem added_of_names {name : String} : ∀ {calls p},
    (run calls).mapNameToSymbol name = some p → Added name calls
  | .add entry :: earlier, p, hp => by
    simp only [run, addSymbol, Function.update_apply] at hp
    split at hp
    · exact .inl (Eq.symm ‹_›)
    · exact .inr (added_of_names hp)
  | .set entry :: earlier, p, hp => by
    simp only [run, setSymbol, addSymbol, removeSymbol_eq, Function.update_apply] at hp
    split at hp
    · exact .inl (Eq.symm ‹_›)
    · exact .inr (added_of_names (by simpa using hp))
  | .remove removed :: earlier, p, hp => by
    simp only [run, removeSymbol_eq, Function.update_apply] at hp
    split at hp
    · cases hp
    · exact ⟨Ne.symm ‹_›, added_of_names hp⟩

/-- The entry found for a value is right exactly if it is the entry of its name: an overwritten one
hides no newer entry of the name. -/
theorem nameToValue_of_find {calls : List SymbolCall} {value : BitVec 64}
    {p : Nat × SymbolTableEntry}
    (hfind : (run calls).mapValueToSymbol.find? (fun q => q.2.value = value) = some p) :
    (run calls).nameToValue p.2.name = some value ↔
      (run calls).mapNameToSymbol p.2.name = some p := by
  have hholds := holds_run calls
  obtain ⟨hvalue, newer, older, hvalues, hnewer⟩ := List.find?_eq_some_iff_append.mp hfind
  refine ⟨fun hname => ?_, fun hname => by simpa [nameToValue, hname] using hvalue⟩
  obtain ⟨q, hq, hqvalue⟩ := Option.map_eq_some_iff.mp hname
  obtain ⟨hqname, hmem⟩ := hholds.names _ q hq
  have hpairwise := SymbolRows.overwriting_ofCalls calls
  rw [SymbolRows.Overwriting, hholds.rows_eq, List.pairwise_map, hvalues] at hpairwise
  rw [hvalues] at hmem
  rcases List.mem_append.mp hmem with hmem | hmem
  · exact absurd hqvalue (by simpa using hnewer q hmem)
  · rcases List.mem_cons.mp hmem with rfl | hmem
    · exact hq
    · have holder := (List.pairwise_cons.mp (List.pairwise_append.mp hpairwise).2.1).1 q hmem
      exact absurd (hqname.symm ▸ hq) (of_decide_eq_true (holder hqname.symm))

/-- The names of the locations are right exactly if no overwritten symbol is the last row of its
value. -/
theorem consistent_iff (calls : List SymbolCall) : Consistent calls ↔
    ∀ value, ∀ row ∈ (SymbolRows.ofCalls calls).find? (fun row => row.1.value = value),
      row.2 = false := by
  rw [(holds_run calls).rows_eq]
  simp only [Consistent, locationToName, List.find?_map, Option.mem_def, Option.map_eq_some_iff]
  constructor
  · rintro h value row ⟨p, hfind, rfl⟩
    simpa using (nameToValue_of_find hfind).mp (h value p.2.name ⟨p, hfind, rfl⟩).1
  · rintro h value name ⟨p, hfind, rfl⟩
    have hname : (run calls).mapNameToSymbol p.2.name = some p := by
      simpa using h value _ ⟨p, hfind, rfl⟩
    exact ⟨(nameToValue_of_find hfind).mpr hname, added_of_names hname⟩

/-- `x` is added at 1 and then at 2: location 1 still has its name. -/
theorem moved_symbol_shown :
    ¬Consistent [.add ⟨"x", 2, 4, 0, 0⟩, .add ⟨"x", 1, 4, 0, 0⟩] := by
  intro h
  exact absurd (h 1 "x" (by decide)).1 (by decide)

end SymbolTable

end QtRvSim
