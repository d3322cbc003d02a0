import SourceMaps.Proofs.Index.Files

/-!
# Reverse indexes that were built

Adding a mapping never leaves anything empty behind, so an index that was built from sources and
mappings has a file, a line or a column exactly where a look-up finds something. Such an index is
fixed by its sources and its look-ups.

## Main definitions

* `ReverseIndex.fileOf`: the file of a source, empty if there is none.
* `ReverseIndex.Full`: indexes that keep nothing empty.
* `ReverseIndex.Built`: the indexes that declaring, registering and adding lead to.

## Main statements

* `ReverseIndex.Built.full`: built indexes keep nothing empty.
* `ReverseIndex.Full.mem_keys_iff`: where they have files.
* `ReverseIndex.Full.ext`, `ReverseIndex.Full.keys_eq`: what look-ups determine.
-/

namespace SourceMaps

theorem Grid.add_ne_empty {α : Type} (grid : Grid α) (l c : Int) (item : α) :
    grid.add l c item ≠ ∅ := by
  intro h
  have hline := congrArg (·.find? l) h
  simp [Grid.add, IntMap.find?_alter] at hline

namespace ReverseIndex

variable {index a b : ReverseIndex} {s : Text}

/-- The file of a source; a source without one has the empty file. -/
def fileOf (index : ReverseIndex) (s : Text) : Grid GeneratedPosition := (index.file? s).getD ∅

theorem lookup_eq_fileOf (index : ReverseIndex) (s : Text) (l c : Int) :
    index.lookup s l c = (index.fileOf s).lookup l c := lookup_eq_file? index s l c

/-! ### Nothing is empty -/

/-- Indexes that keep nothing empty: no file is empty, and neither is a line or a column of one. -/
def Full (index : ReverseIndex) : Prop :=
  ∀ s file, index.file? s = some file → file ≠ ∅ ∧ Grid.Full file

theorem Full.fileOf (h : index.Full) (s : Text) : (index.fileOf s).Full := by
  unfold ReverseIndex.fileOf
  cases hfile : index.file? s with
  | none => exact Grid.full_empty
  | some file => exact (h s file hfile).2

theorem Full.file?_iff (h : index.Full) {file : Grid GeneratedPosition} :
    index.file? s = some file ↔ index.fileOf s = file ∧ file ≠ ∅ := by
  unfold ReverseIndex.fileOf
  cases hfile : index.file? s with
  | none =>
    simp only [Option.getD_none, reduceCtorEq, false_iff]
    exact fun ⟨hempty, hne⟩ => hne hempty.symm
  | some found =>
    simp only [Option.some.injEq, Option.getD_some]
    exact ⟨fun heq => ⟨heq, heq ▸ (h s found hfile).1⟩, And.left⟩

theorem Full.of_file?_eq (h : a.Full) (hfile : b.file? = a.file?) : b.Full := by
  intro s file hs
  rw [hfile] at hs
  exact h s file hs

theorem full_ofSources (sources : List Text) : (ofSources sources).Full := nofun

theorem Full.add (h : index.Full) (s : Text) (l c : Int) (p : GeneratedPosition) :
    (index.add s l c p).Full := by
  intro t file hfile
  rw [ReverseIndex.add, file?_alterFile] at hfile
  by_cases ht : t = s
  · rw [if_pos ht, Option.some.injEq] at hfile
    subst hfile
    exact ⟨Grid.add_ne_empty _ l c p, (h.fileOf s).add l c p⟩
  · rw [if_neg ht] at hfile
    exact h t file hfile

/-! ### Indexes that were built -/

/-- The indexes that are built from declared sources by declaring and registering sources and by
adding mappings, in any order. -/
inductive Built : ReverseIndex → Prop where
  | ofSources (sources : List Text) : Built (ofSources sources)
  | declare {index : ReverseIndex} (h : Built index) (source : Text) : Built (index.declare source)
  | register {index : ReverseIndex} (h : Built index) (source : Text) :
      Built (index.register source)
  | add {index : ReverseIndex} (h : Built index) (source : Text) (line column : Int)
      (p : GeneratedPosition) : Built (index.add source line column p)

theorem Built.full (h : index.Built) : index.Full := by
  induction h with
  | ofSources sources => exact full_ofSources sources
  | @declare index _ source ih => exact ih.of_file?_eq (index.file?_declare source)
  | @register index _ source ih => exact ih.of_file?_eq (index.file?_register source)
  | add _ source line column p ih => exact ih.add source line column p

theorem built_ofMappings (sources : List Text) (mappings : List Mapping) :
    (ofMappings sources mappings).Built := by
  have hfold {index : ReverseIndex} (h : index.Built) :
      (mappings.foldl (fun index m => index.add m.source m.line m.column m.generated)
        index).Built := by
    induction mappings generalizing index with
    | nil => exact h
    | cons m rest ih => exact ih (h.add m.source m.line m.column m.generated)
  exact hfold (.ofSources sources)

/-! ### What look-ups determine -/

theorem Full.mem_keys_iff (h : index.Full) : s ∈ index.keys ↔ ∃ l c, index.lookup s l c ≠ [] := by
  have hfile : s ∈ index.keys ↔ index.fileOf s ≠ ∅ := by
    rw [ReverseIndex.mem_keys_iff, Option.isSome_iff_exists]
    simp [h.file?_iff]
  rw [hfile]
  simp only [lookup_eq_fileOf]
  constructor
  · intro hne
    by_contra hnone
    apply hne
    apply (h.fileOf s).ext Grid.full_empty
    intro l c
    by_contra hl
    exact hnone ⟨l, c, hl⟩
  · rintro ⟨l, c, hl⟩ hempty
    rw [hempty] at hl
    exact hl rfl

/-- Indexes with the same sources that keep nothing empty and find something in the same places have
the same keys at every level. -/
theorem Full.keys_eq (ha : a.Full) (hb : b.Full) (hregistry : a.registry = b.registry)
    (hlookup : ∀ s l c, a.lookup s l c ≠ [] ↔ b.lookup s l c ≠ []) :
    a.keys = b.keys ∧ (∀ s, (a.fileOf s).keys = (b.fileOf s).keys) ∧
      ∀ s l, ((a.fileOf s).line l).keys = ((b.fileOf s).line l).keys := by
  refine ⟨?_, fun s => ?_, fun s l => ?_⟩
  · have hmem : ∀ s, s ∈ a.keys ↔ s ∈ b.keys := by
      intro s
      rw [ha.mem_keys_iff, hb.mem_keys_iff]
      exact exists_congr fun l => exists_congr fun c => hlookup s l c
    have hperm : a.keys.Perm b.keys :=
      (List.perm_ext_iff_of_nodup a.nodup_keys b.nodup_keys).mpr hmem
    exact hperm.eq_of_pairwise (fun s t _ _ hst hts => absurd hts hst.asymm)
      (hregistry ▸ a.pairwise_keys) b.pairwise_keys
  · apply IntMap.keys_eq_of_mem_iff
    intro l
    rw [(ha.fileOf s).mem_keys_iff, (hb.fileOf s).mem_keys_iff]
    simp only [← lookup_eq_fileOf, hlookup]
  · apply IntMap.keys_eq_of_mem_iff
    intro c
    rw [(ha.fileOf s).mem_keys_line_iff, (hb.fileOf s).mem_keys_line_iff, ← lookup_eq_fileOf,
      ← lookup_eq_fileOf, hlookup]

/-- Indexes with the same sources and the same look-ups that keep nothing empty are equal. -/
theorem Full.ext (ha : a.Full) (hb : b.Full) (hregistry : a.registry = b.registry)
    (hlookup : ∀ s l c, a.lookup s l c = b.lookup s l c) : a = b := by
  apply ext_file? hregistry
  intro s
  have hfile : a.fileOf s = b.fileOf s := by
    apply (ha.fileOf s).ext (hb.fileOf s)
    intro l c
    rw [← lookup_eq_fileOf, ← lookup_eq_fileOf, hlookup]
  apply Option.ext
  intro file
  rw [ha.file?_iff, hb.file?_iff, hfile]

end ReverseIndex

end SourceMaps
