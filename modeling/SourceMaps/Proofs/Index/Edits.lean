import SourceMaps.Proofs.Index.Layers

/-!
# Edits of indexes

Beside adding mappings, the maps that an index is made of can be changed directly: a key is assigned
a value, erased, or its value is changed in place, and a map can be cleared. Maps that are assigned
were made by edits themselves, so an edit describes such a map by its history, and every kind of
index makes it for itself. An index of integer maps and an index in layers of ranked maps then go
through the same edits and hold the same under every key.

## Main definitions

* `Edit`: changes to a map.
* `Dictionary`, `Editable`: the operations of a kind of maps, and how values are made and changed.
* `Dictionary.Simulates`: two kinds of maps whose operations do the same.
* `ColumnEdit`, `LineEdit`, `FileEdit`: edits of the levels of an index.
* `Revision`: changes to an index.
* `LayeredForwardIndex`: forward indexes in layers of ranked maps.

## Main statements

* `Dictionary.Simulates.apply`, `Dictionary.Simulates.related`: one edit and whole histories.
* `RankedMap.simulates_intMap`: a level of ranked maps does what a level of integer maps does.
* `LayeredForwardIndex.mirrors_run`, `LayeredIndex.mirrors_run`: indexes after the same revisions.
-/

namespace SourceMaps

/-! ### Edits -/

/-- A change to a map. The value of an assignment is only described, and `ε` are the changes to a
value in place. -/
inductive Edit (κ δ ε : Type) where
  | assign (key : κ) (description : δ)
  | erase (key : κ)
  | within (key : κ) (change : ε)
  | clear

/-- The operations of a kind of maps. Where there is nothing to erase, erasing leaves the map. -/
structure Dictionary (κ ν σ : Type) where
  find? : σ → κ → Option ν
  assign : κ → ν → σ → σ
  erase : κ → σ → σ
  clear : σ → σ

/-- How values are made from descriptions and how they are changed. -/
structure Editable (δ ε ν : Type) where
  make : δ → ν
  change : ε → ν → ν

section Edits

variable {κ δ ε ν ω σ τ : Type}

/-- The map after an edit. A change within a key that has no value leaves the map. -/
def Edit.apply (map : Dictionary κ ν σ) (value : Editable δ ε ν) (s : σ) : Edit κ δ ε → σ
  | .assign k description => map.assign k (value.make description) s
  | .erase k => map.erase k s
  | .within k change =>
    match map.find? s k with
    | none => s
    | some v => map.assign k (value.change change v) s
  | .clear => map.clear s

/-- Maps are made by a history of edits and changed by one more. -/
def Dictionary.editable (map : Dictionary κ ν σ) (empty : σ) (value : Editable δ ε ν) :
    Editable (List (Edit κ δ ε)) (Edit κ δ ε) σ where
  make history := history.foldl (Edit.apply map value) empty
  change edit s := edit.apply map value s

/-- Values are made and changed alike. -/
def Editable.Related (R : ν → ω → Prop) (value : Editable δ ε ν) (value' : Editable δ ε ω) : Prop :=
  (∀ description, R (value.make description) (value'.make description)) ∧
    ∀ change v w, R v w → R (value.change change v) (value'.change change w)

/-- The operations of two kinds of maps do the same to maps related by `S`, with values related by
`R`. -/
structure Dictionary.Simulates (map : Dictionary κ ν σ) (map' : Dictionary κ ω τ)
    (R : ν → ω → Prop) (S : σ → τ → Prop) : Prop where
  find? : ∀ {s t}, S s t → ∀ k, Option.Rel R (map.find? s k) (map'.find? t k)
  assign : ∀ {s t v w}, S s t → R v w → ∀ k, S (map.assign k v s) (map'.assign k w t)
  erase : ∀ {s t}, S s t → ∀ k, S (map.erase k s) (map'.erase k t)
  clear : ∀ {s t}, S s t → S (map.clear s) (map'.clear t)

variable {map : Dictionary κ ν σ} {map' : Dictionary κ ω τ} {R : ν → ω → Prop} {S : σ → τ → Prop}
  {value : Editable δ ε ν} {value' : Editable δ ε ω}

namespace Dictionary.Simulates

theorem apply (h : map.Simulates map' R S) (hvalue : Editable.Related R value value')
    {s : σ} {t : τ} (hs : S s t) (edit : Edit κ δ ε) :
    S (edit.apply map value s) (edit.apply map' value' t) := by
  cases edit with
  | assign k description => exact h.assign hs (hvalue.1 description) k
  | erase k => exact h.erase hs k
  | clear => exact h.clear hs
  | within k change =>
    have hfind := h.find? hs k
    simp only [Edit.apply]
    generalize map.find? s k = found at hfind ⊢
    generalize map'.find? t k = found' at hfind ⊢
    cases hfind with
    | none => exact hs
    | some hfound => exact h.assign hs (hvalue.2 change _ _ hfound) k

theorem related (h : map.Simulates map' R S) (hvalue : Editable.Related R value value')
    {empty : σ} {empty' : τ} (hempty : S empty empty') :
    Editable.Related S (map.editable empty value) (map'.editable empty' value') := by
  constructor
  · intro history
    exact List.foldl_rel hempty fun edit _ s t hs => h.apply hvalue hs edit
  · intro edit s t hs
    exact h.apply hvalue hs edit

end Dictionary.Simulates

end Edits

/-! ### Levels -/

/-- Edits of the columns of a line. The items of a column are assigned or changed at will. -/
abbrev ColumnEdit (α : Type) := Edit Int (List α) (List α → List α)

/-- Edits of the lines of a file. -/
abbrev LineEdit (α : Type) := Edit Int (List (ColumnEdit α)) (ColumnEdit α)

/-- Edits of the files of a reverse index. -/
abbrev FileEdit := Edit Text (List (LineEdit GeneratedPosition)) (LineEdit GeneratedPosition)

/-- Lists are what they are described as. -/
def listItems (α : Type) : Editable (List α) (List α → List α) (List α) := ⟨id, fun f => f⟩

namespace IntMap

variable {ν : Type}

/-- The operations of integer maps. -/
def dictionary : Dictionary Int ν (IntMap ν) where
  find? := find?
  assign k v m := m.insert k v
  erase k m := (m.erase? k).getD m
  clear _ := ∅

theorem find?_getD_erase? (m : IntMap ν) (k j : Int) :
    ((m.erase? k).getD m).find? j = if j = k then none else m.find? j := by
  cases herase : m.erase? k with
  | none =>
    have hk : m.find? k = none := by
      rw [find?_eq_none_iff, ← isSome_erase?_iff, herase]
      exact Bool.false_ne_true
    by_cases hj : j = k
    · rw [if_pos hj, hj]
      exact hk
    · rw [if_neg hj]
      rfl
  | some left =>
    apply Option.ext
    intro v
    show left.find? j = some v ↔ _
    rw [find?_eq_some_iff, entries_of_erase? herase, List.mem_filter, ← find?_eq_some_iff]
    by_cases hj : j = k
    · simp [hj]
    · simp [hj]

theorem insert_self {m : IntMap ν} {k : Int} {v : ν} (h : m.find? k = some v) :
    m.insert k v = m := by
  apply ext_find?
  intro j
  rw [insert, find?_alter]
  by_cases hj : j = k
  · rw [if_pos hj, hj, h]
  · rw [if_neg hj]

end IntMap

namespace RankedMap

variable {κ ν ω ρ : Type} [DecidableEq κ] [LinearOrder ρ]

/-- The operations of ranked maps. -/
def dictionary (rank : κ → Option ρ) : Dictionary κ ν (RankedMap κ ν) where
  find? m k := (m.get k).toOption
  assign k v m := (m.act (set rank k v)).2
  erase k m := (m.act (erase rank k)).2
  clear m := (m.act (clear rank)).2

namespace Mirrors

variable {rank : κ → Option ρ} {R : ν → ω → Prop} {m : RankedMap κ ν} {find find' : κ → Option ω}
  {k : κ}

theorem set (h : Mirrors rank R m find) (hk : (rank k).isSome) {v : ν} {w : ω} (hvw : R v w)
    (hfind : ∀ j, find' j = if j = k then some w else find j) :
    Mirrors rank R (m.act (set rank k v)).2 find' := by
  obtain ⟨p, hp, hvalue⟩ := h
  have hset : p.set rank k v = (.ok (), p.put k v) := if_pos (.inr hk)
  have hstep := hp.set k v
  rw [hset] at hstep
  refine ⟨p.put k v, hstep.2, ?_⟩
  intro j
  show Option.Rel R (if j = k then some v else p.value j) (find' j)
  rw [hfind]
  by_cases hj : j = k
  · rw [if_pos hj, if_pos hj]
    exact .some hvw
  · rw [if_neg hj, if_neg hj]
    exact hvalue j

theorem erase (h : Mirrors rank R m find)
    (injective : ∀ j k r, rank j = some r → rank k = some r → j = k)
    (hfind : ∀ j, find' j = if j = k then none else find j) :
    Mirrors rank R (m.act (erase rank k)).2 find' := by
  obtain ⟨p, hp, hvalue⟩ := h
  have hstep := hp.erase (hp.find?_of_injective injective (k := k))
  unfold Plain.erase at hstep
  by_cases hk : (p.value k).isSome
  · rw [if_pos hk] at hstep
    refine ⟨p.drop k, hstep.2, ?_⟩
    intro j
    show Option.Rel R (if j = k then none else p.value j) (find' j)
    rw [hfind]
    by_cases hj : j = k
    · rw [if_pos hj, if_pos hj]
      exact .none
    · rw [if_neg hj, if_neg hj]
      exact hvalue j
  · rw [if_neg hk] at hstep
    refine ⟨p, hstep.2, ?_⟩
    intro j
    rw [hfind]
    by_cases hj : j = k
    · subst hj
      rw [if_pos rfl, Option.not_isSome_iff_eq_none.mp hk]
      exact .none
    · rw [if_neg hj]
      exact hvalue j

theorem clear (h : Mirrors rank R m find) :
    Mirrors rank R (m.act (clear rank)).2 fun _ => none := by
  obtain ⟨p, hp, -⟩ := h
  rw [hp.clear]
  exact mirrors_empty rank R

end Mirrors

/-- With every key as its own rank, ranked maps do what integer maps do. -/
theorem simulates_intMap (R : ν → ω → Prop) :
    (dictionary (some : Int → Option Int)).Simulates IntMap.dictionary R
      fun m n => Mirrors some R m n.find? where
  find? h k := h.get k
  assign h hvw k := h.set rfl hvw (IntMap.find?_alter _ k · _)
  erase h k := h.erase RankedGrid.some_injective (IntMap.find?_getD_erase? _ k)
  clear h := h.clear

end RankedMap

namespace Grid

variable {α : Type}

/-- How the columns of a line are made and edited. -/
def columns : Editable (List (ColumnEdit α)) (ColumnEdit α) (IntMap (List α)) :=
  IntMap.dictionary.editable ∅ (listItems α)

/-- How grids are made and edited. -/
def lines : Editable (List (LineEdit α)) (LineEdit α) (Grid α) :=
  IntMap.dictionary.editable ∅ columns

end Grid

namespace RankedGrid

variable {α : Type}

/-- How the columns of a line are made and edited. -/
def columns : Editable (List (ColumnEdit α)) (ColumnEdit α) (RankedMap Int (List α)) :=
  (RankedMap.dictionary some).editable .empty (listItems α)

/-- How grids are made and edited. -/
def lines : Editable (List (LineEdit α)) (LineEdit α) (RankedGrid α) :=
  (RankedMap.dictionary some).editable .empty columns

theorem related_listItems : Editable.Related Eq (listItems α) (listItems α) := by
  constructor
  · intro items
    rfl
  · rintro change items _ rfl
    rfl

theorem related_columns :
    Editable.Related (fun m (n : IntMap (List α)) => RankedMap.Mirrors some Eq m n.find?)
      columns Grid.columns :=
  (RankedMap.simulates_intMap Eq).related related_listItems (RankedMap.mirrors_empty some Eq)

theorem related_lines : Editable.Related (Mirrors (α := α)) lines Grid.lines :=
  (RankedMap.simulates_intMap _).related related_columns mirrors_empty

end RankedGrid

/-! ### Indexes -/

/-- A change to an index. What is added is a mapping, which indexes of either direction file in
their own way. -/
inductive Revision (ε : Type) where
  | declare (source : Text)
  | register (source : Text)
  | add (mapping : Mapping)
  | edit (change : ε)

namespace ForwardIndex

/-- The lines of an index. -/
def dictionary : Dictionary Int (IntMap (List OriginalPosition)) ForwardIndex where
  find? index line := index.grid.find? line
  assign line columns index := index.setLine line columns
  erase line index := (index.eraseLine line).toOption.getD index
  clear := clear

/-- The index after a revision. -/
def revise (index : ForwardIndex) : Revision (LineEdit OriginalPosition) → ForwardIndex
  | .declare s => index.declare s
  | .register s => index.register s
  | .add m => index.add m.generatedLine m.generatedColumn m.original
  | .edit change => change.apply dictionary Grid.columns index

/-- The index after revisions in order. -/
def revised (index : ForwardIndex) (revisions : List (Revision (LineEdit OriginalPosition))) :
    ForwardIndex :=
  revisions.foldl revise index

theorem dictionary_erase (index : ForwardIndex) (line : Int) :
    dictionary.erase line index =
      { index with grid := (index.grid.erase? line).getD index.grid } := by
  show (index.eraseLine line).toOption.getD index = _
  unfold eraseLine
  cases index.grid.erase? line <;> rfl

theorem setLine_self {index : ForwardIndex} {line : Int} {columns : IntMap (List OriginalPosition)}
    (h : index.grid.find? line = some columns) : index.setLine line columns = index := by
  show (⟨index.registry, index.grid.insert line columns⟩ : ForwardIndex) = index
  rw [IntMap.insert_self h]

/-- Erasing a column is an edit within its line. -/
theorem revise_eraseColumn (index : ForwardIndex) (line column : Int) :
    index.revise (.edit (.within line (.erase column))) =
      (index.eraseColumn line column).toOption.getD index := by
  simp only [revise, Edit.apply, dictionary, eraseColumn]
  cases hline : index.grid.find? line with
  | none => rfl
  | some columns =>
    show index.setLine line ((columns.erase? column).getD columns) = _
    cases herase : columns.erase? column with
    | some left =>
      simp only [herase]
      rfl
    | none =>
      simp only [herase]
      exact setLine_self hline

end ForwardIndex

/-- A forward index in two layers of ranked maps. -/
structure LayeredForwardIndex where
  /-- The sources. -/
  registry : Registry
  /-- The lines of columns. -/
  lines : RankedGrid OriginalPosition

namespace LayeredForwardIndex

/-- The index without mappings over declared sources. -/
def ofSources (sources : List Text) : LayeredForwardIndex := ⟨⟨sources⟩, .empty⟩

/-- Files a position; its source is registered. -/
def add? (layered : LayeredForwardIndex) (line column : Int) (p : OriginalPosition) :
    Option LayeredForwardIndex :=
  (layered.lines.add? line column p).map fun lines => ⟨layered.registry.register p.source, lines⟩

/-- The lines of an index. -/
def dictionary : Dictionary Int (RankedMap Int (List OriginalPosition)) LayeredForwardIndex where
  find? layered := (RankedMap.dictionary some).find? layered.lines
  assign line columns layered :=
    { layered with lines := (RankedMap.dictionary some).assign line columns layered.lines }
  erase line layered :=
    { layered with lines := (RankedMap.dictionary some).erase line layered.lines }
  clear layered := { layered with lines := (RankedMap.dictionary some).clear layered.lines }

/-- The index after a revision. -/
def revise (layered : LayeredForwardIndex) :
    Revision (LineEdit OriginalPosition) → LayeredForwardIndex
  | .declare s => { layered with registry := layered.registry.declare s }
  | .register s => { layered with registry := layered.registry.register s }
  | .add m => (layered.add? m.generatedLine m.generatedColumn m.original).getD layered
  | .edit change => change.apply dictionary RankedGrid.columns layered

/-- The index after revisions in order. -/
def revised (layered : LayeredForwardIndex)
    (revisions : List (Revision (LineEdit OriginalPosition))) : LayeredForwardIndex :=
  revisions.foldl revise layered

/-- All mappings, as they are listed. -/
def mappings (layered : LayeredForwardIndex) : Option (List Mapping) :=
  layered.lines.cells.map fun found => found.map fun (line, column, p) =>
    ⟨line, column, p.source, p.line, p.column, p.name⟩

/-- Both indexes have the same sources and the same lines. -/
structure Mirrors (layered : LayeredForwardIndex) (index : ForwardIndex) : Prop where
  registry_eq : layered.registry = index.registry
  lines : RankedGrid.Mirrors layered.lines index.grid

variable {layered : LayeredForwardIndex} {index : ForwardIndex}

theorem simulates : dictionary.Simulates ForwardIndex.dictionary
    (fun m n => RankedMap.Mirrors some Eq m n.find?) Mirrors where
  find? h k := (RankedMap.simulates_intMap _).find? h.lines k
  assign h hvw k := ⟨h.registry_eq, (RankedMap.simulates_intMap _).assign h.lines hvw k⟩
  erase {_ index} h k := by
    rw [ForwardIndex.dictionary_erase]
    exact ⟨h.registry_eq, (RankedMap.simulates_intMap _).erase h.lines k⟩
  clear h := ⟨h.registry_eq, (RankedMap.simulates_intMap _).clear h.lines⟩

theorem Mirrors.add? (h : Mirrors layered index) (l c : Int) (p : OriginalPosition) :
    ∃ left, layered.add? l c p = some left ∧ Mirrors left (index.add l c p) := by
  obtain ⟨left, hleft, hmirrors⟩ := RankedGrid.Mirrors.add? h.lines l c p
  refine ⟨⟨layered.registry.register p.source, left⟩, ?_, ?_, hmirrors⟩
  · rw [LayeredForwardIndex.add?, hleft]
    rfl
  · rw [h.registry_eq]
    rfl

theorem Mirrors.revise (h : Mirrors layered index)
    (revision : Revision (LineEdit OriginalPosition)) :
    Mirrors (layered.revise revision) (index.revise revision) := by
  cases revision with
  | declare s => exact ⟨congrArg (·.declare s) h.registry_eq, h.lines⟩
  | register s => exact ⟨congrArg (·.register s) h.registry_eq, h.lines⟩
  | edit change => exact simulates.apply RankedGrid.related_columns h change
  | add m =>
    obtain ⟨left, hleft, hmirrors⟩ := h.add? m.generatedLine m.generatedColumn m.original
    unfold LayeredForwardIndex.revise
    simp only [hleft]
    exact hmirrors

theorem mirrors_run (sources : List Text)
    (revisions : List (Revision (LineEdit OriginalPosition))) :
    Mirrors ((ofSources sources).revised revisions)
      ((ForwardIndex.ofSources sources).revised revisions) := by
  exact List.foldl_rel ⟨rfl, RankedGrid.mirrors_empty⟩ fun revision _ _ _ h => h.revise revision

theorem Mirrors.mappings_eq (h : Mirrors layered index) :
    layered.mappings = some index.mappings := by
  rw [mappings, h.lines.lists.cells_eq]
  rfl

end LayeredForwardIndex

namespace ReverseIndex

/-- The files of an index. -/
def dictionary : Dictionary Text (Grid GeneratedPosition) ReverseIndex where
  find? := file?
  assign s file index := index.setFile s file
  erase s index := (index.eraseFile s).toOption.getD index
  clear := clear

/-- The index after a revision. -/
def revise (index : ReverseIndex) : Revision FileEdit → ReverseIndex
  | .declare s => index.declare s
  | .register s => index.register s
  | .add m => index.add m.source m.line m.column m.generated
  | .edit change => change.apply dictionary Grid.lines index

/-- The index after revisions in order. -/
def revised (index : ReverseIndex) (revisions : List (Revision FileEdit)) : ReverseIndex :=
  revisions.foldl revise index

theorem registry_dictionary_erase (index : ReverseIndex) (s : Text) :
    (dictionary.erase s index).registry = index.registry := by
  show ((index.eraseFile s).toOption.getD index).registry = _
  by_cases hs : s ∈ index.keys
  · obtain ⟨left, herase, hleft⟩ := eraseFile_of_mem hs
    rw [herase]
    exact hleft.registry_eq
  · rw [eraseFile_of_notMem hs]
    rfl

theorem file?_dictionary_erase (index : ReverseIndex) (s t : Text) :
    (dictionary.erase s index).file? t = if t = s then none else index.file? t := by
  show ((index.eraseFile s).toOption.getD index).file? t = _
  by_cases hs : s ∈ index.keys
  · obtain ⟨left, herase, hleft⟩ := eraseFile_of_mem hs
    rw [herase]
    exact hleft.file?_eq t
  · rw [eraseFile_of_notMem hs]
    show index.file? t = _
    by_cases ht : t = s
    · rw [if_pos ht, ht]
      exact Option.not_isSome_iff_eq_none.mp (mt mem_keys_iff.mpr hs)
    · rw [if_neg ht]

theorem setFile_self {index : ReverseIndex} {s : Text} {file : Grid GeneratedPosition}
    (h : index.file? s = some file) : index.setFile s file = index := by
  have hs : s ∈ index.registry.sources :=
    mem_sources_of_mem_keys (mem_keys_iff.mpr (by rw [h]; rfl))
  apply ext_file?
  · exact if_pos hs
  · intro t
    rw [setFile, file?_alterFile]
    by_cases ht : t = s
    · rw [if_pos ht, ht, h]
    · rw [if_neg ht]

/-- Erasing a column is an edit within its line, which is one within its file. -/
theorem revise_eraseColumn (index : ReverseIndex) (s : Text) (line column : Int) :
    index.revise (.edit (.within s (.within line (.erase column)))) =
      (index.eraseColumn s line column).toOption.getD index := by
  simp only [revise, Edit.apply, dictionary, eraseColumn]
  cases hfile : index.file? s with
  | none => rfl
  | some file =>
    simp only [Grid.lines, Dictionary.editable, Edit.apply, IntMap.dictionary]
    cases hline : file.find? line with
    | none => exact setFile_self hfile
    | some columns =>
      show index.setFile s (file.insert line ((columns.erase? column).getD columns)) = _
      cases herase : columns.erase? column with
      | some left =>
        simp only [herase]
        rfl
      | none =>
        simp only [herase]
        show index.setFile s (file.insert line columns) = index
        rw [IntMap.insert_self hline]
        exact setFile_self hfile

end ReverseIndex

namespace LayeredIndex

/-- The files of an index. Assigning one registers its source. -/
def dictionary : Dictionary Text (RankedGrid GeneratedPosition) LayeredIndex where
  find? layered := (RankedMap.dictionary layered.registry.slot?).find? layered.files
  assign s file layered :=
    let registry := layered.registry.register s
    ⟨registry, (RankedMap.dictionary registry.slot?).assign s file layered.files⟩
  erase s layered :=
    { layered with files := (RankedMap.dictionary layered.registry.slot?).erase s layered.files }
  clear layered :=
    { layered with files := (RankedMap.dictionary layered.registry.slot?).clear layered.files }

/-- The index after a revision. -/
def revise (layered : LayeredIndex) : Revision FileEdit → LayeredIndex
  | .declare s => { layered with registry := layered.registry.declare s }
  | .register s => { layered with registry := layered.registry.register s }
  | .add m => (layered.add? m.source m.line m.column m.generated).getD layered
  | .edit change => change.apply dictionary RankedGrid.lines layered

/-- The index after revisions in order. -/
def revised (layered : LayeredIndex) (revisions : List (Revision FileEdit)) : LayeredIndex :=
  revisions.foldl revise layered

variable {layered : LayeredIndex} {index : ReverseIndex}

theorem simulates :
    dictionary.Simulates ReverseIndex.dictionary RankedGrid.Mirrors Mirrors where
  find? h k := h.files.get k
  assign {layered index file file'} h hfile s := by
    have hregistry : layered.registry.register s = index.registry.register s :=
      congrArg (·.register s) h.registry_eq
    have hfiles := h.files_of_extends (Registry.extends_register index.registry s)
    have hs := Registry.isSome_slot?_register index.registry s
    refine ⟨hregistry, ?_⟩
    show RankedMap.Mirrors _ _ ((layered.files.act (RankedMap.set
      (layered.registry.register s).slot? s file)).2) _
    rw [hregistry]
    exact hfiles.set hs hfile fun t => index.file?_alterFile s t fun _ => file'
  erase {layered index} h s := by
    have hinjective : ∀ s t n, index.registry.slot? s = some n → index.registry.slot? t = some n →
        s = t := fun _ _ _ => Registry.slot?_inj
    have hfiles := h.files.erase hinjective (index.file?_dictionary_erase s)
    refine ⟨h.registry_eq.trans (index.registry_dictionary_erase s).symm, ?_⟩
    show RankedMap.Mirrors _ _ ((layered.files.act (RankedMap.erase
      layered.registry.slot? s)).2) _
    rw [index.registry_dictionary_erase, h.registry_eq]
    exact hfiles
  clear {layered index} h := by
    refine ⟨h.registry_eq, ?_⟩
    show RankedMap.Mirrors _ _ ((layered.files.act (RankedMap.clear layered.registry.slot?)).2) _
    rw [h.registry_eq]
    exact h.files.clear

theorem Mirrors.revise (h : Mirrors layered index) (revision : Revision FileEdit) :
    Mirrors (layered.revise revision) (index.revise revision) := by
  cases revision with
  | declare s =>
    have hfiles := h.files_of_extends (Registry.extends_declare index.registry s)
    refine ⟨congrArg (·.declare s) h.registry_eq, ?_⟩
    rw [← index.file?_declare s] at hfiles
    exact hfiles
  | register s =>
    have hfiles := h.files_of_extends (Registry.extends_register index.registry s)
    refine ⟨congrArg (·.register s) h.registry_eq, ?_⟩
    rw [← index.file?_register s] at hfiles
    exact hfiles
  | edit change => exact simulates.apply RankedGrid.related_lines h change
  | add m =>
    obtain ⟨left, hleft, hmirrors⟩ := h.add? m.source m.line m.column m.generated
    unfold LayeredIndex.revise
    simp only [hleft]
    exact hmirrors

theorem mirrors_run (sources : List Text) (revisions : List (Revision FileEdit)) :
    Mirrors ((ofSources sources).revised revisions)
      ((ReverseIndex.ofSources sources).revised revisions) := by
  exact List.foldl_rel (mirrors_ofSources sources) fun revision _ _ _ h => h.revise revision

end LayeredIndex

end SourceMaps
