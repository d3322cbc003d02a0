/-!
# Maps with integer keys

A finite map from integers, kept as its entries in strictly ascending order of their keys. Two maps
with the same values are therefore equal, and walking one follows the order of the keys whatever
the order of the insertions was.

## Main definitions

* `IntMap`: the maps.
* `IntMap.find?`, `IntMap.keys`: the views.
* `IntMap.alter`, `IntMap.insert`, `IntMap.erase?`, `IntMap.filterMap`: the operations.

## Main statements

* `IntMap.find?_alter`: what an alteration does to a look-up.
* `IntMap.mem_keys_alter`, `IntMap.mem_keys_of_erase?`, `IntMap.mem_keys_of_filterMap`: where the
  keys of a result come from.
-/

namespace SourceMaps

/-- A finite map with integer keys. -/
structure IntMap (ν : Type) where
  /-- The keys with their values. -/
  entries : List (Int × ν)
  /-- Every key is less than those after it. -/
  ascending : entries.Pairwise fun a b => a.1 < b.1
deriving DecidableEq

namespace IntMap

variable {ν μ : Type}

/-- The map without entries. -/
def empty : IntMap ν := ⟨[], .nil⟩

instance : EmptyCollection (IntMap ν) := ⟨empty⟩

instance : Inhabited (IntMap ν) := ⟨empty⟩

/-- The keys in ascending order. -/
def keys (m : IntMap ν) : List Int := m.entries.map (·.1)

/-- The number of entries. -/
def size (m : IntMap ν) : Nat := m.entries.length

/-- Has the map no entries? -/
def isEmpty (m : IntMap ν) : Bool := m.entries.isEmpty

/-- The value of a key. -/
def find? (m : IntMap ν) (k : Int) : Option ν := m.entries.lookup k

/-- Ascending entries with the value of a key replaced by `f` of the value it has, if any. -/
def alterEntries (k : Int) (f : Option ν → ν) : List (Int × ν) → List (Int × ν)
  | [] => [(k, f none)]
  | (j, v) :: rest =>
    if k < j then (k, f none) :: (j, v) :: rest
    else if k = j then (j, f (some v)) :: rest
    else (j, v) :: alterEntries k f rest

/-- An altered entry list has the old keys and the altered one. -/
theorem mem_alterEntries {k j : Int} {f : Option ν → ν} {entries : List (Int × ν)} :
    j ∈ (alterEntries k f entries).map (·.1) ↔ j = k ∨ j ∈ entries.map (·.1) := by
  induction entries with
  | nil => simp [alterEntries]
  | cons e rest ih =>
    obtain ⟨i, v⟩ := e
    rw [alterEntries]
    split
    · simp
    · split <;> simp_all
      constructor <;> rintro (h | h | h) <;> simp [h]

/-- Altering keeps the order of the keys. -/
theorem alterEntries_ascending (k : Int) (f : Option ν → ν) {entries : List (Int × ν)}
    (h : entries.Pairwise fun a b => a.1 < b.1) :
    (alterEntries k f entries).Pairwise fun a b => a.1 < b.1 := by
  induction entries with
  | nil => simp [alterEntries]
  | cons e rest ih =>
    obtain ⟨i, v⟩ := e
    obtain ⟨hi, hrest⟩ := List.pairwise_cons.mp h
    rw [alterEntries]
    split
    case isTrue hk =>
      refine List.pairwise_cons.mpr ⟨fun b hb => ?_, h⟩
      rcases List.mem_cons.mp hb with rfl | hb
      · exact hk
      · exact Int.lt_trans hk (hi b hb)
    case isFalse hk =>
      split
      case isTrue => exact List.pairwise_cons.mpr ⟨hi, hrest⟩
      case isFalse hne =>
        refine List.pairwise_cons.mpr ⟨fun b hb => ?_, ih hrest⟩
        have hb' : b.1 ∈ (alterEntries k f rest).map (·.1) := List.mem_map_of_mem hb
        rcases mem_alterEntries.mp hb' with hb' | hb'
        · show i < b.1
          omega
        · obtain ⟨c, hc, hcb⟩ := List.mem_map.mp hb'
          exact hcb ▸ hi c hc

/-- The map with the value of a key replaced by `f` of the value it has, if any. -/
def alter (m : IntMap ν) (k : Int) (f : Option ν → ν) : IntMap ν :=
  ⟨alterEntries k f m.entries, alterEntries_ascending k f m.ascending⟩

/-- The map with a value for a key. -/
def insert (m : IntMap ν) (k : Int) (v : ν) : IntMap ν := m.alter k fun _ => v

/-- The map of a list of pairs; of a repeated key the last value counts. -/
def ofList (pairs : List (Int × ν)) : IntMap ν :=
  pairs.foldl (fun m (k, v) => m.insert k v) empty

/-- The map without a key that it has. -/
def erase? (m : IntMap ν) (k : Int) : Option (IntMap ν) :=
  if k ∈ m.keys then some ⟨m.entries.filter (·.1 ≠ k), m.ascending.filter _⟩ else none

/-- The map of the values that `f` gives; keys for which it gives none are left out. -/
def filterMap (f : Int → ν → Option μ) (m : IntMap ν) : IntMap μ :=
  ⟨m.entries.filterMap fun (k, v) => (f k v).map (k, ·), by
    refine m.ascending.filterMap _ fun a b h c hc d hd => ?_
    obtain ⟨x, -, rfl⟩ := Option.map_eq_some_iff.mp hc
    obtain ⟨y, -, rfl⟩ := Option.map_eq_some_iff.mp hd
    exact h⟩

/-- Looking a key up in entries with a first one. -/
theorem lookup_cons_eq (i j : Int) (v : ν) (rest : List (Int × ν)) :
    List.lookup j ((i, v) :: rest) = if j = i then some v else List.lookup j rest := by
  rw [List.lookup_cons]
  by_cases h : j = i <;> simp [h, beq_eq_false_iff_ne.mpr]

/-- A key below all the others is not among them. -/
theorem lookup_eq_none_of_lt {j : Int} {entries : List (Int × ν)}
    (h : ∀ e ∈ entries, j < e.1) : List.lookup j entries = none := by
  induction entries with
  | nil => rfl
  | cons e rest ih =>
    obtain ⟨i, v⟩ := e
    have hi : j < i := h (i, v) (by simp)
    rw [lookup_cons_eq, if_neg (by omega)]
    exact ih fun e he => h e (by simp [he])

/-- Looking up the altered key gives the altered value, any other key what it gave before. -/
theorem find?_alter (m : IntMap ν) (k j : Int) (f : Option ν → ν) :
    (m.alter k f).find? j = if j = k then some (f (m.find? k)) else m.find? j := by
  obtain ⟨entries, ascending⟩ := m
  simp only [find?, alter]
  induction entries with
  | nil => rw [alterEntries, lookup_cons_eq]; rfl
  | cons e rest ih =>
    obtain ⟨i, v⟩ := e
    obtain ⟨hi, hrest⟩ := List.pairwise_cons.mp ascending
    rw [alterEntries]
    split
    case isTrue hk =>
      have absent : List.lookup k ((i, v) :: rest) = none :=
        lookup_eq_none_of_lt fun e he => by
          rcases List.mem_cons.mp he with rfl | he
          · exact hk
          · exact Int.lt_trans hk (hi e he)
      rw [lookup_cons_eq, absent]
    case isFalse hk =>
      split
      case isTrue hki =>
        subst hki
        simp only [lookup_cons_eq, if_true]
        split <;> rfl
      case isFalse hki =>
        simp only [lookup_cons_eq, ih hrest, if_neg hki]
        by_cases hj : j = i
        · subst hj
          rw [if_pos rfl, if_pos rfl, if_neg (Ne.symm hki)]
        · rw [if_neg hj, if_neg hj]

/-- The keys after an alteration are the old ones and the altered one. -/
theorem mem_keys_alter {m : IntMap ν} {k j : Int} {f : Option ν → ν} :
    j ∈ (m.alter k f).keys ↔ j = k ∨ j ∈ m.keys :=
  mem_alterEntries

/-- Erasing a key leaves only old keys. -/
theorem mem_keys_of_erase? {m n : IntMap ν} {k j : Int} (h : m.erase? k = some n)
    (hj : j ∈ n.keys) : j ∈ m.keys := by
  simp only [erase?] at h
  split at h
  · cases h
    obtain ⟨e, he, rfl⟩ := List.mem_map.mp hj
    exact List.mem_map_of_mem (List.mem_filter.mp he).1
  · cases h

/-- Filtering leaves only old keys. -/
theorem mem_keys_of_filterMap {m : IntMap ν} {f : Int → ν → Option μ} {j : Int}
    (hj : j ∈ (m.filterMap f).keys) : j ∈ m.keys := by
  obtain ⟨e, he, rfl⟩ := List.mem_map.mp hj
  obtain ⟨⟨k, v⟩, hv, hkv⟩ := List.mem_filterMap.mp he
  obtain ⟨x, -, rfl⟩ := Option.map_eq_some_iff.mp hkv
  exact List.mem_map_of_mem hv

end IntMap

end SourceMaps
