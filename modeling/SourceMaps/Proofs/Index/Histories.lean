import Mathlib.Data.List.Nodup
import SourceMaps.Encode
import SourceMaps.Proofs.Index.Edits

/-!
# Indexes do not depend on their histories

Maps are compared by what they hold under their keys, not by the lists of their keys, and indexes by
their lines or files, not by their sources. An index in layers of ranked maps lists what an index of
integer maps lists, whatever has been done to it. So two indexes that have the same sources and
compare equal list the same keys at every level, walk through the same mappings and encode to the
same map or fail alike.

## Main definitions

* `sameEntries`: comparing lists of entries.
* `RankedMap.sameItems`, `LayeredForwardIndex.sameContents`, `LayeredIndex.sameContents`: comparing
  maps and indexes.
* `RankedMap.SameListing`: maps that list the same keys with related values.

## Main statements

* `RankedMap.Lists.sameItems_eq`: comparing two maps compares the entries that they list.
* `Index.history_independent`: what the history of an index leaves open.
-/

namespace SourceMaps

/-! ### Comparing entries -/

section Entries

variable {κ ν : Type} [DecidableEq κ] {entries entries' : List (κ × ν)}

theorem lookup_eq_some_iff (hnodup : (entries.map (·.1)).Nodup) {k : κ} {v : ν} :
    entries.lookup k = some v ↔ (k, v) ∈ entries := by
  induction entries with
  | nil => simp
  | cons e rest ih =>
    obtain ⟨j, w⟩ := e
    obtain ⟨hj, hrest⟩ := List.nodup_cons.mp hnodup
    by_cases hk : k = j
    · subst hk
      have hnot : (k, v) ∉ rest := fun hmem => hj (List.mem_map.mpr ⟨_, hmem, rfl⟩)
      simp [hnot, eq_comm]
    · have hne : (k == j) = false := beq_eq_false_iff_ne.mpr hk
      simp [List.lookup_cons, hne, hk, ih hrest]

/-- Are there as many entries in both lists, and does the other list have each entry of the first
under its key? -/
def sameEntries [DecidableEq ν] (entries entries' : List (κ × ν)) : Bool :=
  entries.length == entries'.length && entries.all fun e => entries'.lookup e.1 == some e.2

/-- What is listed under a key can be looked up in any other way as well. -/
theorem sameEntries_eq [DecidableEq ν] (hnodup' : (entries'.map (·.1)).Nodup) {find : κ → Option ν}
    (hfind : ∀ k v, (k, v) ∈ entries' ↔ find k = some v) :
    sameEntries entries entries' =
      (entries.length == entries'.length && entries.all fun e => find e.1 == some e.2) := by
  have hlookup (k : κ) : entries'.lookup k = find k := by
    ext v
    rw [lookup_eq_some_iff hnodup', hfind]
  simp only [sameEntries, hlookup]

theorem sameEntries_iff [DecidableEq ν] (hnodup : (entries.map (·.1)).Nodup)
    (hnodup' : (entries'.map (·.1)).Nodup) :
    sameEntries entries entries' = true ↔ ∀ e, e ∈ entries ↔ e ∈ entries' := by
  have hlookup (e : κ × ν) : (entries'.lookup e.1 == some e.2) = true ↔ e ∈ entries' := by
    rw [beq_iff_eq, lookup_eq_some_iff hnodup']
  have hentries : entries.Nodup := List.Nodup.of_map _ hnodup
  have hentries' : entries'.Nodup := List.Nodup.of_map _ hnodup'
  rw [sameEntries, Bool.and_eq_true, beq_iff_eq, List.all_eq_true]
  simp only [hlookup]
  constructor
  · rintro ⟨hlength, hsub⟩
    have hperm : entries.Perm entries' :=
      (List.subperm_of_subset hentries hsub).perm_of_length_le hlength.ge
    exact fun e => hperm.mem_iff
  · intro hmem
    have hperm : entries.Perm entries' :=
      (List.perm_ext_iff_of_nodup hentries hentries').mpr hmem
    exact ⟨hperm.length_eq, fun e => (hmem e).mp⟩

end Entries

theorem IntMap.nodup_keys {ν : Type} (m : IntMap ν) : m.keys.Nodup :=
  m.pairwise_keys.imp ne_of_lt

theorem IntMap.sameEntries_entries {ν : Type} [DecidableEq ν] (m n : IntMap ν) :
    sameEntries m.entries n.entries = (m == n) := by
  rw [Bool.eq_iff_iff, beq_iff_eq, sameEntries_iff m.nodup_keys n.nodup_keys]
  constructor
  · intro hmem
    apply ext_find?
    intro k
    ext v
    rw [find?_eq_some_iff, find?_eq_some_iff]
    exact hmem (k, v)
  · rintro rfl e
    rfl

namespace ReverseIndex

theorem sameEntries_files (a b : ReverseIndex) :
    sameEntries a.files b.files = a.sameContents b := by
  have hlength (index : ReverseIndex) : index.files.length = index.bySlot.size := List.length_map _
  rw [sameEntries_eq b.nodup_keys fun _ _ => mem_files_iff, hlength, hlength]
  rfl

/-- Indexes with the same sources that compare equal are equal. -/
theorem eq_of_sameContents {a b : ReverseIndex} (hregistry : a.registry = b.registry)
    (h : a.sameContents b = true) : a = b := by
  rw [← sameEntries_files, sameEntries_iff a.nodup_keys b.nodup_keys] at h
  apply ext_file? hregistry
  intro s
  ext file
  rw [← mem_files_iff, ← mem_files_iff]
  exact h (s, file)

end ReverseIndex

/-! ### Comparing maps -/

namespace RankedMap

variable {κ ν ω : Type} [DecidableEq κ]

/-- Have both maps the same items, up to `equal`? -/
def sameItems (equal : ν → ν → Bool) (m n : RankedMap κ ν) : Bool :=
  match n.contents with
  | .ok pairs => (m.sameContents equal pairs).toOption.getD false
  | .error _ => false

/-- Both maps list the same keys, with related values. -/
def SameListing (m : RankedMap κ ν) (S : ν → ν → Prop) (n : RankedMap κ ν) : Prop :=
  ∃ found, n.contents = .ok found ∧ m.Lists S found

theorem setValue_of_notMem {values : List (κ × ν)} {k : κ} (h : k ∉ values.map (·.1)) (v : ν) :
    setValue values k v = values ++ [(k, v)] := by
  induction values with
  | nil => rfl
  | cons e rest ih =>
    obtain ⟨j, w⟩ := e
    have hne : j ≠ k := fun heq => h (heq ▸ List.mem_cons_self)
    rw [setValue, if_neg hne, ih fun hmem => h (List.mem_cons_of_mem _ hmem)]
    rfl

theorem merged_eq_self {pairs : List (κ × ν)} (hnodup : (pairs.map (·.1)).Nodup) :
    merged pairs = pairs := by
  -- The pairs are set one by one behind those that have been set before.
  have hfold : ∀ values : List (κ × ν), ((values ++ pairs).map (·.1)).Nodup →
      pairs.foldl (fun values pair => setValue values pair.1 pair.2) values = values ++ pairs := by
    clear hnodup
    induction pairs with
    | nil => exact fun values _ => (List.append_nil values).symm
    | cons pair rest ih =>
      obtain ⟨k, v⟩ := pair
      intro values hnodup
      have hnew : k ∉ values.map (·.1) := by
        rw [List.map_append, List.map_cons] at hnodup
        exact (notMem_of_nodup_middle hnodup).1
      show rest.foldl _ (setValue values k v) = _
      rw [setValue_of_notMem hnew, ih _ (by simpa using hnodup), List.append_assoc]
      rfl
  exact hfold [] hnodup

variable {R : ν → ω → Prop} {m n : RankedMap κ ν} {entries entries' : List (κ × ω)}

omit [DecidableEq κ] in
theorem map_fst_of_forall₂ {found : List (κ × ν)}
    (h : List.Forall₂ (fun e e' => e.1 = e'.1 ∧ R e.2 e'.2) found entries) :
    found.map (·.1) = entries.map (·.1) := by
  induction h with
  | nil => rfl
  | cons he _ ih => rw [List.map_cons, List.map_cons, he.1, ih]

theorem rel_lookup_of_forall₂ {found : List (κ × ν)}
    (h : List.Forall₂ (fun e e' => e.1 = e'.1 ∧ R e.2 e'.2) found entries) (k : κ) :
    Option.Rel R (found.lookup k) (entries.lookup k) := by
  induction h with
  | nil => exact .none
  | @cons e e' _ _ he _ ih =>
    rw [List.lookup_cons, List.lookup_cons, he.1]
    cases k == e'.1 with
    | true => exact .some he.2
    | false => exact ih

theorem all_lookup_of_forall₂ [DecidableEq ω] {found found' : List (κ × ν)}
    (h : List.Forall₂ (fun e e' => e.1 = e'.1 ∧ R e.2 e'.2) found entries)
    (h' : List.Forall₂ (fun e e' => e.1 = e'.1 ∧ R e.2 e'.2) found' entries')
    {equal : ν → ν → Bool}
    (hequal : ∀ v v' w w', R v w → R v' w' → (equal v v' = true ↔ w = w')) :
    (found.all fun e => (found'.lookup e.1).any (equal e.2)) =
      entries.all fun e => entries'.lookup e.1 == some e.2 := by
  have hvalue (v : ν) (k : κ) (w : ω) (hvw : R v w) :
      (found'.lookup k).any (equal v) = (entries'.lookup k == some w) := by
    have hlookup := rel_lookup_of_forall₂ h' k
    generalize found'.lookup k = a at hlookup ⊢
    generalize entries'.lookup k = b at hlookup ⊢
    cases hlookup with
    | none => rfl
    | some hfound =>
      rw [Bool.eq_iff_iff, Option.any_some, hequal _ _ _ _ hvw hfound, beq_iff_eq,
        Option.some.injEq, eq_comm]
  induction h with
  | nil => rfl
  | cons he _ ih => rw [List.all_cons, List.all_cons, ih, hvalue _ _ _ he.2, he.1]

/-- Comparing two maps compares the entries that they list. -/
theorem Lists.sameItems_eq [DecidableEq ω] (h : m.Lists R entries) (h' : n.Lists R entries')
    (hnodup : (entries.map (·.1)).Nodup) (hnodup' : (entries'.map (·.1)).Nodup)
    {equal : ν → ν → Bool}
    (hequal : ∀ v v' w w', R v w → R v' w' → (equal v v' = true ↔ w = w')) :
    sameItems equal m n = sameEntries entries entries' := by
  obtain ⟨found, hcontents, hrelated⟩ := h
  obtain ⟨found', hcontents', hrelated'⟩ := h'
  -- A key that is listed twice would be compared once: none is.
  have hmerged : merged found = found := merged_eq_self (map_fst_of_forall₂ hrelated ▸ hnodup)
  have hmerged' : merged found' = found' := merged_eq_self (map_fst_of_forall₂ hrelated' ▸ hnodup')
  have hsame : m.sameContents equal found' = .ok (sameEntries entries entries') := by
    rw [sameContents, hcontents, sameEntries, ← hrelated.length_eq, ← hrelated'.length_eq,
      ← all_lookup_of_forall₂ hrelated hrelated' hequal]
    show Except.ok ((merged found).length == (merged found').length && _) = _
    rw [hmerged, hmerged']
  rw [sameItems, hcontents']
  show (m.sameContents equal found').toOption.getD false = _
  rw [hsame]
  rfl

theorem Lists.sameListing {S : ν → ν → Prop} (h : m.Lists R entries) (h' : n.Lists R entries)
    (hRS : ∀ v v' w, R v w → R v' w → S v v') : m.SameListing S n := by
  obtain ⟨found, hcontents, hrelated⟩ := h
  obtain ⟨found', hcontents', hrelated'⟩ := h'
  refine ⟨found', hcontents', found, hcontents, ?_⟩
  clear hcontents hcontents'
  induction hrelated generalizing found' with
  | nil =>
    cases hrelated'
    exact .nil
  | cons he _ ih =>
    cases hrelated' with
    | cons he' hrest => exact .cons ⟨he.1.trans he'.1.symm, hRS _ _ _ he.2 he'.2⟩ (ih _ hrest)

theorem Lists.sameItems_entries [DecidableEq ω] {R : ν → ω → Prop} {m n : RankedMap Int ν}
    {p q : IntMap ω} (h : m.Lists R p.entries) (h' : n.Lists R q.entries) {equal : ν → ν → Bool}
    (hequal : ∀ v v' w w', R v w → R v' w' → (equal v v' = true ↔ w = w')) :
    sameItems equal m n = (p == q) := by
  rw [h.sameItems_eq h' p.nodup_keys q.nodup_keys hequal, IntMap.sameEntries_entries]

end RankedMap

namespace RankedGrid

variable {α : Type} {ranked ranked' : RankedGrid α} {grid grid' : Grid α}

/-- Have both grids the same items in the same columns of the same lines? -/
def sameItems [DecidableEq α] (ranked ranked' : RankedGrid α) : Bool :=
  RankedMap.sameItems (RankedMap.sameItems (· == ·)) ranked ranked'

/-- Both grids list the same lines with the same columns and their items. -/
def SameListing (ranked ranked' : RankedGrid α) : Prop :=
  RankedMap.SameListing ranked (fun columns columns' => columns.SameListing Eq columns') ranked'

theorem Lists.sameItems_eq [DecidableEq α] (h : ranked.Lists grid) (h' : ranked'.Lists grid') :
    ranked.sameItems ranked' = (grid == grid') := by
  apply RankedMap.Lists.sameItems_entries h h'
  intro columns columns' plain plain' hcolumns hcolumns'
  rw [hcolumns.sameItems_entries hcolumns', beq_iff_eq]
  rintro items items' _ _ rfl rfl
  exact beq_iff_eq

theorem Lists.sameListing (h : ranked.Lists grid) (h' : ranked'.Lists grid) :
    ranked.SameListing ranked' := by
  apply RankedMap.Lists.sameListing h h'
  intro columns columns' plain hcolumns hcolumns'
  apply hcolumns.sameListing hcolumns'
  rintro items _ _ rfl rfl
  rfl

end RankedGrid

/-! ### Comparing indexes -/

namespace LayeredForwardIndex

variable {layered layered' : LayeredForwardIndex} {index index' : ForwardIndex}

/-- Have both indexes the same lines? -/
def sameContents (layered layered' : LayeredForwardIndex) : Bool :=
  layered.lines.sameItems layered'.lines

theorem Mirrors.sameContents_eq (h : Mirrors layered index) (h' : Mirrors layered' index') :
    layered.sameContents layered' = (Index.forward index).sameContents (.forward index') :=
  h.lines.lists.sameItems_eq h'.lines.lists

theorem Mirrors.eq_of_sameContents (h : Mirrors layered index) (h' : Mirrors layered' index')
    (hregistry : layered.registry = layered'.registry)
    (hsame : layered.sameContents layered' = true) : index = index' := by
  rw [h.sameContents_eq h'] at hsame
  apply ForwardIndex.ext_grid
  · rw [← h.registry_eq, hregistry, h'.registry_eq]
  · exact beq_iff_eq.mp hsame

end LayeredForwardIndex

namespace LayeredIndex

variable {layered layered' : LayeredIndex} {index index' : ReverseIndex}

/-- Have both indexes the same files? -/
def sameContents (layered layered' : LayeredIndex) : Bool :=
  RankedMap.sameItems RankedGrid.sameItems layered.files layered'.files

theorem Mirrors.sameContents_eq (h : Mirrors layered index) (h' : Mirrors layered' index') :
    layered.sameContents layered' = (Index.reverse index).sameContents (.reverse index') := by
  show _ = index.sameContents index'
  rw [← ReverseIndex.sameEntries_files]
  apply h.lists.sameItems_eq h'.lists index.nodup_keys index'.nodup_keys
  intro ranked ranked' file file' hfile hfile'
  rw [hfile.sameItems_eq hfile', beq_iff_eq]

theorem Mirrors.eq_of_sameContents (h : Mirrors layered index) (h' : Mirrors layered' index')
    (hregistry : layered.registry = layered'.registry)
    (hsame : layered.sameContents layered' = true) : index = index' := by
  rw [h.sameContents_eq h'] at hsame
  apply ReverseIndex.eq_of_sameContents
  · rw [← h.registry_eq, hregistry, h'.registry_eq]
  · exact hsame

end LayeredIndex

/-! ### Histories -/

/-- Whatever has been done to two indexes over declared sources, in whichever order and by whichever
detours: if their sources are the same and they compare equal, they list the same keys at every
level with the same positions, walk through the same mappings and encode alike, to equal maps or
with the same fault. -/
theorem Index.history_independent (sources sources' : List Text) :
    (∀ revisions revisions' : List (Revision (LineEdit OriginalPosition)),
      let index := (ForwardIndex.ofSources sources).revised revisions
      let index' := (ForwardIndex.ofSources sources').revised revisions'
      let layered := (LayeredForwardIndex.ofSources sources).revised revisions
      let layered' := (LayeredForwardIndex.ofSources sources').revised revisions'
      layered.registry = index.registry ∧ layered.mappings = some index.mappings ∧
      layered.sameContents layered' = (forward index).sameContents (forward index') ∧
      (layered.registry = layered'.registry → layered.sameContents layered' = true →
        layered.lines.SameListing layered'.lines ∧ layered.mappings = layered'.mappings ∧
        ∀ options surroundings, (forward index).encode options surroundings =
          (forward index').encode options surroundings)) ∧
    (∀ revisions revisions' : List (Revision FileEdit),
      let index := (ReverseIndex.ofSources sources).revised revisions
      let index' := (ReverseIndex.ofSources sources').revised revisions'
      let layered := (LayeredIndex.ofSources sources).revised revisions
      let layered' := (LayeredIndex.ofSources sources').revised revisions'
      layered.registry = index.registry ∧ layered.mappings = some index.mappings ∧
      layered.sameContents layered' = (reverse index).sameContents (reverse index') ∧
      (layered.registry = layered'.registry → layered.sameContents layered' = true →
        layered.files.SameListing RankedGrid.SameListing layered'.files ∧
        layered.mappings = layered'.mappings ∧
        ∀ options surroundings, (reverse index).encode options surroundings =
          (reverse index').encode options surroundings)) := by
  constructor
  · intro revisions revisions' index index' layered layered'
    have h : layered.Mirrors index := LayeredForwardIndex.mirrors_run sources revisions
    have h' : layered'.Mirrors index' := LayeredForwardIndex.mirrors_run sources' revisions'
    refine ⟨h.registry_eq, h.mappings_eq, h.sameContents_eq h', ?_⟩
    intro hregistry hsame
    have heq : index = index' := h.eq_of_sameContents h' hregistry hsame
    rw [← heq] at h' ⊢
    refine ⟨h.lines.lists.sameListing h'.lines.lists, ?_, fun _ _ => rfl⟩
    rw [h.mappings_eq, h'.mappings_eq]
  · intro revisions revisions' index index' layered layered'
    have h : layered.Mirrors index := LayeredIndex.mirrors_run sources revisions
    have h' : layered'.Mirrors index' := LayeredIndex.mirrors_run sources' revisions'
    refine ⟨h.registry_eq, h.mappings_eq, h.sameContents_eq h', ?_⟩
    intro hregistry hsame
    have heq : index = index' := h.eq_of_sameContents h' hregistry hsame
    rw [← heq] at h' ⊢
    refine ⟨h.lists.sameListing h'.lists fun _ _ _ => RankedGrid.Lists.sameListing, ?_,
      fun _ _ => rfl⟩
    rw [h.mappings_eq, h'.mappings_eq]

/-- Two lines, the second of them first. -/
def Revision.straight : List (Revision (LineEdit OriginalPosition)) :=
  [.add ⟨1, 4, "a", 0, 0, some "n"⟩,
    .edit (.assign 0 [.assign 9 [], .assign 3 [⟨"b", 1, 1, none⟩]])]

/-- The same lines by way of others. -/
def Revision.roundabout : List (Revision (LineEdit OriginalPosition)) :=
  [.add ⟨7, 0, "b", 5, 5, none⟩, .edit .clear, .register "b",
    .edit (.assign 0 [.assign 3 [], .assign 5 [], .clear, .assign 3 [⟨"b", 1, 1, none⟩], .erase 8,
      .assign 6 [⟨"c", 2, 2, none⟩]]),
    .add ⟨2, 0, "a", 3, 3, none⟩, .add ⟨1, 4, "a", 0, 0, some "n"⟩,
    .edit (.within 0 (.assign 9 [])), .edit (.within 0 (.erase 6)), .edit (.erase 2),
    .edit (.erase 7)]

/-- Files of two sources, the second of them first. -/
def Revision.straightByFile : List (Revision FileEdit) :=
  [.add ⟨1, 4, "a", 0, 0, some "n"⟩, .edit (.assign "b" [.assign 1 [.assign 1 [⟨0, 3, none⟩]]])]

/-- The same files by way of others. -/
def Revision.roundaboutByFile : List (Revision FileEdit) :=
  [.edit (.assign "b" [.assign 4 []]), .add ⟨2, 0, "a", 3, 3, none⟩, .edit .clear,
    .add ⟨0, 3, "b", 1, 1, none⟩, .add ⟨1, 4, "a", 0, 0, some "n"⟩, .add ⟨9, 9, "a", 0, 2, none⟩,
    .edit (.within "a" (.within 0 (.erase 2))), .edit (.erase "c")]

theorem Index.history_independent_roundabout :
    (let layered := (LayeredForwardIndex.ofSources ["b", "a"]).revised Revision.straight
      let layered' := (LayeredForwardIndex.ofSources ["b"]).revised Revision.roundabout
      layered.registry = layered'.registry ∧ layered.sameContents layered' = true ∧
      layered.lines.values ≠ layered'.lines.values ∧
      layered.lines.SameListing layered'.lines) ∧
    (let layered := (LayeredIndex.ofSources ["b", "a"]).revised Revision.straightByFile
      let layered' := (LayeredIndex.ofSources []).revised Revision.roundaboutByFile
      layered.registry = layered'.registry ∧ layered.sameContents layered' = true ∧
      layered.files.values ≠ layered'.files.values ∧
      layered.files.SameListing RankedGrid.SameListing layered'.files) := by
  obtain ⟨hforward, -⟩ := history_independent ["b", "a"] ["b"]
  obtain ⟨-, -, -, hlines⟩ := hforward Revision.straight Revision.roundabout
  obtain ⟨-, hreverse⟩ := history_independent ["b", "a"] []
  obtain ⟨-, -, -, hfiles⟩ := hreverse Revision.straightByFile Revision.roundaboutByFile
  refine ⟨⟨rfl, by decide, by decide, ?_⟩, rfl, by decide, by decide, ?_⟩
  · exact (hlines rfl (by decide)).1
  · exact (hfiles rfl (by decide)).1

end SourceMaps
