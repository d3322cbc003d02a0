import SourceMaps.Proofs.Index.Built
import SourceMaps.Proofs.Index.Forward
import SourceMaps.Proofs.RankedMap

/-!
# Indexes in layers of ranked maps

An index can be kept with a ranked map at every level: maps of lists for the columns of a line, maps
of these for lines, and for a reverse index a third level for the files, whose ranks are the slots
of the sources. A level is made on demand when something is filed. Key by key such an index holds
what an index of integer maps holds, so the walks through the two are equal, and filing never fails.

## Main definitions

* `RankedMap.alter?`: changes the value of a key, which is given one first if it has none.
* `RankedMap.walk`: visits the listed keys with their values.
* `RankedMap.Lists`: a ranked map lists entries.
* `RankedMap.Mirrors`: a ranked map holds what a look-up finds.
* `RankedGrid`, `LayeredIndex`: grids and reverse indexes in layers.

## Main statements

* `RankedMap.Mirrors.alter?`, `RankedMap.Mirrors.lists`: what one level does.
* `RankedGrid.Mirrors.add?`, `LayeredIndex.Mirrors.add?`: filing in layers.
* `Index.holds_added`: what an index holds after filing.
-/

namespace SourceMaps

/-- Steps that keep a relation and never fail do so one after the other. -/
theorem exists_foldlM {α σ τ : Type} {R : σ → τ → Prop} {f : σ → α → Option σ} {g : τ → α → τ}
    (step : ∀ s t a, R s t → ∃ left, f s a = some left ∧ R left (g t a)) {s : σ} {t : τ}
    (h : R s t) (items : List α) :
    ∃ left, items.foldlM f s = some left ∧ R left (items.foldl g t) := by
  induction items generalizing s t with
  | nil => exact ⟨s, rfl, h⟩
  | cons a rest ih =>
    obtain ⟨next, hnext, hrelated⟩ := step s t a h
    obtain ⟨left, hleft, hlast⟩ := ih hrelated
    refine ⟨left, ?_, hlast⟩
    rw [List.foldlM_cons, hnext]
    exact hleft

namespace RankedMap

variable {κ ν ω ρ β : Type}

section Parts

variable [DecidableEq κ] [LT ρ] [DecidableLT ρ]

/-- What an action answers and leaves, unless it fails. -/
def answer? {α : Type} (m : RankedMap κ ν) (action : Action κ ν α) : Option (α × RankedMap κ ν) :=
  match m.act action with
  | (.ok a, left) => some (a, left)
  | (.error _, _) => none

/-- Changes the value of a key. A key without a value is given `start` first. -/
def alter? (rank : κ → Option ρ) (k : κ) (start : ν) (f : ν → Option ν) (m : RankedMap κ ν) :
    Option (RankedMap κ ν) := do
  let (found, left) ← m.answer? (setDefault rank k start)
  let v ← f found
  let ((), left) ← left.answer? (set rank k v)
  return left

/-- Visits the listed keys with their values, unless one of them has none or a visit fails. -/
def walk (visit : κ → ν → Option (List β)) (m : RankedMap κ ν) : Option (List β) := do
  let found ← m.contents.toOption
  let parts ← found.mapM fun (k, v) => visit k v
  return parts.flatten

end Parts

variable [DecidableEq κ] [LinearOrder ρ] {rank : κ → Option ρ} {m : RankedMap κ ν}
  {p : Plain κ ν} {k : κ}

theorem Agrees.answer? {α : Type} {action : Action κ ν α} {a : α}
    (h : Agrees rank (m.act action) (.ok a, p)) :
    ∃ left, m.answer? action = some (a, left) ∧ InStep rank left p := by
  obtain ⟨hanswer, hleft⟩ := h
  rw [RankedMap.answer?]
  generalize m.act action = outcome at hanswer hleft ⊢
  obtain ⟨answer, left⟩ := outcome
  obtain rfl : answer = .ok a := hanswer
  exact ⟨left, rfl, hleft⟩

theorem InStep.alter? (h : InStep rank m p) (hk : (rank k).isSome) {start v : ν}
    {f : ν → Option ν} (hf : f ((p.value k).getD start) = some v) :
    ∃ left p', m.alter? rank k start f = some left ∧ InStep rank left p' ∧
      ∀ j, p'.value j = if j = k then some v else p.value j := by
  have hset (q : Plain κ ν) (v : ν) : q.set rank k v = (.ok (), q.put k v) := if_pos (.inr hk)
  -- Whether or not the key had a value, both maps now have what it had or else `start`.
  obtain ⟨q, hdefault, hothers⟩ : ∃ q,
      p.setDefault rank k start = (.ok ((p.value k).getD start), q) ∧
        ∀ j, j ≠ k → q.value j = p.value j := by
    rw [Plain.setDefault, hset]
    cases hfound : p.value k with
    | some found => exact ⟨p, rfl, fun _ _ => rfl⟩
    | none => exact ⟨p.put k start, rfl, fun j hj => if_neg hj⟩
  have hstep := h.setDefault k start
  rw [hdefault] at hstep
  obtain ⟨m₁, hanswer, hm₁⟩ := hstep.answer?
  have hstep' := hm₁.set k v
  rw [hset] at hstep'
  obtain ⟨m₂, hanswer', hm₂⟩ := hstep'.answer?
  refine ⟨m₂, q.put k v, ?_, hm₂, fun j => ?_⟩
  · simp [RankedMap.alter?, hanswer, hf, hanswer']
  · show (if j = k then some v else q.value j) = _
    by_cases hj : j = k
    · rw [if_pos hj, if_pos hj]
    · rw [if_neg hj, if_neg hj, hothers j hj]

/-! ### Listings -/

variable {R : ν → ω → Prop} {entries : List (κ × ω)}

/-- A ranked map lists the keys of entries, with values that are related to theirs. -/
def Lists (R : ν → ω → Prop) (m : RankedMap κ ν) (entries : List (κ × ω)) : Prop :=
  ∃ found, m.contents = .ok found ∧
    List.Forall₂ (fun e e' => e.1 = e'.1 ∧ R e.2 e'.2) found entries

namespace Lists

theorem imp {S : ν → ω → Prop} (h : m.Lists R entries) (hRS : ∀ v w, R v w → S v w) :
    m.Lists S entries := by
  obtain ⟨found, hcontents, hrelated⟩ := h
  exact ⟨found, hcontents, hrelated.imp fun _ _ he => ⟨he.1, hRS _ _ he.2⟩⟩

/-- A walk visits what a walk through the entries visits. -/
theorem walk_eq (h : m.Lists R entries) {visit : κ → ν → Option (List β)}
    (visit' : κ → ω → List β) (hvisit : ∀ k v w, R v w → visit k v = some (visit' k w)) :
    m.walk visit = some (entries.flatMap fun e => visit' e.1 e.2) := by
  obtain ⟨found, hcontents, hrelated⟩ := h
  have hvisits : found.mapM (fun e => visit e.1 e.2) =
      some (entries.map fun e => visit' e.1 e.2) := by
    clear hcontents
    induction hrelated with
    | nil => rfl
    | @cons e e' found entries he _ ih =>
      rw [List.mapM_cons, hvisit e.1 e.2 e'.2 he.2, he.1, ih]
      rfl
  rw [walk, hcontents]
  show (found.mapM (fun e => visit e.1 e.2) >>= fun parts => some parts.flatten) = _
  rw [hvisits, List.flatMap_def]
  rfl

end Lists

/-! ### Agreement -/

variable {find : κ → Option ω}

theorem isSome_iff_of_rel {a : Option ν} {b : Option ω} (h : Option.Rel R a b) :
    a.isSome ↔ b.isSome := by
  cases h with
  | some _ => exact Iff.rfl
  | none => exact Iff.rfl

theorem getD_of_rel {a : Option ν} {b : Option ω} (h : Option.Rel R a b) {v : ν} {w : ω}
    (hdefault : R v w) : R (a.getD v) (b.getD w) := by
  cases h with
  | some hvalue => exact hvalue
  | none => exact hdefault

/-- A ranked map in step holds under every key what a look-up finds there. -/
def Mirrors (rank : κ → Option ρ) (R : ν → ω → Prop) (m : RankedMap κ ν)
    (find : κ → Option ω) : Prop :=
  ∃ p, InStep rank m p ∧ ∀ k, Option.Rel R (p.value k) (find k)

theorem mirrors_empty (rank : κ → Option ρ) (R : ν → ω → Prop) :
    Mirrors rank R empty fun _ => none :=
  ⟨Plain.empty, InStep.empty rank, fun _ => .none⟩

namespace Mirrors

theorem get (h : Mirrors rank R m find) (k : κ) :
    Option.Rel R (m.get k).toOption (find k) := by
  obtain ⟨p, hp, hvalue⟩ := h
  have hget : (m.get k).toOption = p.value k := by
    rw [RankedMap.get, hp.lookup_eq]
    cases p.value k <;> rfl
  rw [hget]
  exact hvalue k

theorem mem_keys_iff (h : Mirrors rank R m find) : k ∈ m.keys ↔ (find k).isSome := by
  obtain ⟨p, hp, hvalue⟩ := h
  rw [hp.mem_keys_iff_value, isSome_iff_of_rel (hvalue k)]

/-- Only the ranks of keys that are found matter. -/
theorem of_rank_eq {rank' : κ → Option ρ} (h : Mirrors rank R m find)
    (hrank : ∀ k, (find k).isSome → rank' k = rank k) : Mirrors rank' R m find := by
  have hkeys (k : κ) (hk : k ∈ m.keys) : rank' k = rank k := hrank k (h.mem_keys_iff.mp hk)
  obtain ⟨p, hp, hvalue⟩ := h
  exact ⟨p, hp.of_rank_eq hkeys, hvalue⟩

/-- Altering a value alters what is found. It fails only if the change of the value does. -/
theorem alter? (h : Mirrors rank R m find) (hk : (rank k).isSome) {start : ν} {start' : ω}
    (hstart : R start start') {f : ν → Option ν} {g : ω → ω}
    (hf : ∀ v w, R v w → ∃ changed, f v = some changed ∧ R changed (g w)) {find' : κ → Option ω}
    (hfind : ∀ j, find' j = if j = k then some (g ((find k).getD start')) else find j) :
    ∃ left, m.alter? rank k start f = some left ∧ Mirrors rank R left find' := by
  obtain ⟨p, hp, hvalue⟩ := h
  obtain ⟨changed, hchanged, hR⟩ := hf _ _ (getD_of_rel (hvalue k) hstart)
  obtain ⟨left, p', hleft, hp', hvalue'⟩ := hp.alter? hk hchanged
  refine ⟨left, hleft, p', hp', fun j => ?_⟩
  rw [hvalue', hfind]
  by_cases hj : j = k
  · rw [if_pos hj, if_pos hj]
    exact .some hR
  · rw [if_neg hj, if_neg hj]
    exact hvalue j

/-- The keys are listed like those of entries in the strict order of the ranks. -/
theorem keys_eq (h : Mirrors rank R m find)
    (injective : ∀ j k r, rank j = some r → rank k = some r → j = k) {entries : List (κ × ω)}
    (hordered : (entries.map (·.1)).Pairwise (Before rank))
    (hfind : ∀ k w, (k, w) ∈ entries ↔ find k = some w) : m.keys = entries.map (·.1) := by
  have hmem (k : κ) : k ∈ m.keys ↔ k ∈ entries.map (·.1) := by
    rw [h.mem_keys_iff, Option.isSome_iff_exists]
    simp [hfind]
  obtain ⟨p, hp, -⟩ := h
  -- Both lists have these keys in the strict order of the ranks, which leaves no choice.
  have hnodup : (entries.map (·.1)).Nodup := hordered.imp Before.ne
  have hperm : m.keys.Perm (entries.map (·.1)) :=
    (List.perm_ext_iff_of_nodup hp.nodup_keys hnodup).mpr hmem
  exact hperm.eq_of_pairwise (fun j k _ _ hjk hkj => absurd hkj hjk.asymm)
    (hp.pairwise_before injective) hordered

/-- The map lists entries that are found, in the strict order of their ranks. -/
theorem lists (h : Mirrors rank R m find)
    (injective : ∀ j k r, rank j = some r → rank k = some r → j = k) {entries : List (κ × ω)}
    (hordered : (entries.map (·.1)).Pairwise (Before rank))
    (hfind : ∀ k w, (k, w) ∈ entries ↔ find k = some w) : m.Lists R entries := by
  have hfound : ∀ e ∈ entries, find e.1 = some e.2 := fun e he => (hfind e.1 e.2).mp he
  rw [Lists, contents, h.keys_eq injective hordered hfind]
  clear hordered hfind
  induction entries with
  | nil => exact ⟨[], rfl, .nil⟩
  | cons e rest ih =>
    obtain ⟨found, hkeys, hrelated⟩ := ih fun e he => hfound e (List.mem_cons_of_mem _ he)
    have hget := h.get e.1
    rw [hfound e List.mem_cons_self] at hget
    cases hv : m.get e.1 with
    | error missing =>
      rw [hv] at hget
      cases hget
    | ok v =>
      rw [hv] at hget
      obtain ⟨hvalue⟩ := hget
      refine ⟨(e.1, v) :: found, ?_, .cons ⟨rfl, hvalue⟩ hrelated⟩
      rw [List.map_cons, List.mapM_cons, hv, hkeys]
      rfl

end Mirrors

end RankedMap

/-! ### Grids -/

/-- Items filed by line and column, in two layers of ranked maps. -/
abbrev RankedGrid (α : Type) := RankedMap Int (RankedMap Int (List α))

namespace RankedGrid

variable {α : Type} {ranked : RankedGrid α} {grid : Grid α}

/-- Files an item; a line or a column that is not there is made. -/
def add? (line column : Int) (item : α) (ranked : RankedGrid α) : Option (RankedGrid α) :=
  ranked.alter? some line .empty fun columns =>
    columns.alter? some column [] fun items => some (items ++ [item])

/-- All items with their places, as they are listed. -/
def cells (ranked : RankedGrid α) : Option (List (Int × Int × α)) :=
  ranked.walk fun line columns =>
    columns.walk fun column items => some (items.map (line, column, ·))

/-- The grid of cells that are filed one after the other. -/
def ofCells (found : List (Int × Int × α)) : Option (RankedGrid α) :=
  found.foldlM (fun ranked (line, column, item) => ranked.add? line column item) .empty

/-- Both grids have the same columns in the same lines. -/
def Mirrors (ranked : RankedGrid α) (grid : Grid α) : Prop :=
  RankedMap.Mirrors some (fun columns plain => RankedMap.Mirrors some Eq columns plain.find?) ranked
    grid.find?

theorem mirrors_empty : Mirrors (.empty : RankedGrid α) ∅ := RankedMap.mirrors_empty some _

theorem some_injective (j k r : Int) (hj : some j = some r) (hk : some k = some r) : j = k :=
  Option.some.inj (hj.trans hk.symm)

theorem pairwise_before {ν : Type} (m : IntMap ν) :
    (m.entries.map (·.1)).Pairwise (RankedMap.Before some) :=
  m.pairwise_keys.imp fun hlt => ⟨_, _, rfl, rfl, hlt⟩

theorem Mirrors.add? (h : Mirrors ranked grid) (l c : Int) (item : α) :
    ∃ left, ranked.add? l c item = some left ∧ Mirrors left (grid.add l c item) := by
  have hcolumns (columns : RankedMap Int (List α)) (plain : IntMap (List α))
      (h : RankedMap.Mirrors some Eq columns plain.find?) :
      ∃ left, columns.alter? some c [] (fun items => some (items ++ [item])) = some left ∧
        RankedMap.Mirrors some Eq left
          (plain.alter c fun items => items.getD [] ++ [item]).find? := by
    refine h.alter? rfl rfl (g := (· ++ [item])) ?_ (IntMap.find?_alter plain c · _)
    rintro items _ rfl
    exact ⟨items ++ [item], rfl, rfl⟩
  have hempty : RankedMap.Mirrors some Eq .empty (∅ : IntMap (List α)).find? :=
    RankedMap.mirrors_empty some Eq
  exact RankedMap.Mirrors.alter? h rfl hempty hcolumns (IntMap.find?_alter grid l · _)

/-- Both grids list the same lines. -/
theorem Mirrors.keys_eq (h : Mirrors ranked grid) : ranked.keys = grid.keys :=
  RankedMap.Mirrors.keys_eq h some_injective (pairwise_before grid)
    fun _ _ => IntMap.find?_eq_some_iff.symm

/-- The grid lists the lines, and each line the columns, of another one. -/
def Lists (ranked : RankedGrid α) (grid : Grid α) : Prop :=
  RankedMap.Lists (fun columns plain => columns.Lists Eq plain.entries) ranked grid.entries

theorem lists_entries {ν ω : Type} {R : ν → ω → Prop} {m : RankedMap Int ν} {n : IntMap ω}
    (h : RankedMap.Mirrors some R m n.find?) : m.Lists R n.entries :=
  h.lists some_injective (pairwise_before n) fun _ _ => IntMap.find?_eq_some_iff.symm

theorem Mirrors.lists (h : Mirrors ranked grid) : ranked.Lists grid :=
  (lists_entries h).imp fun _ _ hcolumns => lists_entries hcolumns

theorem Lists.cells_eq (h : ranked.Lists grid) : ranked.cells = some grid.cells := by
  refine RankedMap.Lists.walk_eq h
    (fun l (columns : IntMap (List α)) => columns.entries.flatMap fun e => e.2.map (l, e.1, ·)) ?_
  intro l columns plain hcolumns
  refine hcolumns.walk_eq (fun c items => items.map (l, c, ·)) ?_
  rintro c items _ rfl
  rfl

theorem mirrors_ofCells (found : List (Int × Int × α)) :
    ∃ ranked, ofCells found = some ranked ∧ Mirrors ranked (Grid.addCells ∅ found) :=
  exists_foldlM (fun _ _ cell h => h.add? cell.1 cell.2.1 cell.2.2) mirrors_empty found

end RankedGrid

/-! ### Reverse indexes -/

/-- A reverse index in three layers of ranked maps. -/
structure LayeredIndex where
  /-- The sources, whose slots are the ranks of the files. -/
  registry : Registry
  /-- The files of sources. -/
  files : RankedMap Text (RankedGrid GeneratedPosition)

namespace LayeredIndex

variable {layered : LayeredIndex} {index : ReverseIndex}

/-- The index without mappings over declared sources. -/
def ofSources (sources : List Text) : LayeredIndex := ⟨⟨sources⟩, .empty⟩

/-- Files a position; its source is registered, and a file that is not there is made. -/
def add? (source : Text) (line column : Int) (p : GeneratedPosition) (layered : LayeredIndex) :
    Option LayeredIndex := do
  let registry := layered.registry.register source
  let files ← layered.files.alter? registry.slot? source .empty (·.add? line column p)
  return ⟨registry, files⟩

/-- The index of a list of mappings over declared sources. -/
def ofMappings (sources : List Text) (mappings : List Mapping) : Option LayeredIndex :=
  mappings.foldlM (fun layered m => layered.add? m.source m.line m.column m.generated)
    (ofSources sources)

/-- All mappings, as they are listed. -/
def mappings (layered : LayeredIndex) : Option (List Mapping) :=
  layered.files.walk fun source file => do
    let found ← file.cells
    return found.map fun cell => Mapping.ofGenerated source cell.1 cell.2.1 cell.2.2

/-- Both indexes have the same sources and, for each of them, the same file. -/
structure Mirrors (layered : LayeredIndex) (index : ReverseIndex) : Prop where
  registry_eq : layered.registry = index.registry
  files : RankedMap.Mirrors index.registry.slot? RankedGrid.Mirrors layered.files index.file?

theorem mirrors_ofSources (sources : List Text) :
    Mirrors (ofSources sources) (.ofSources sources) :=
  ⟨rfl, RankedMap.mirrors_empty _ _⟩

/-- More sources change the ranks of no file that there is. -/
theorem Mirrors.files_of_extends (h : Mirrors layered index) {registry : Registry}
    (hextends : registry.Extends index.registry) :
    RankedMap.Mirrors registry.slot? RankedGrid.Mirrors layered.files index.file? := by
  apply h.files.of_rank_eq
  intro s hs
  exact hextends.slot?_eq (ReverseIndex.mem_sources_of_mem_keys (ReverseIndex.mem_keys_iff.mpr hs))

theorem Mirrors.add? (h : Mirrors layered index) (s : Text) (l c : Int) (p : GeneratedPosition) :
    ∃ left, layered.add? s l c p = some left ∧ Mirrors left (index.add s l c p) := by
  have hfiles := h.files_of_extends (Registry.extends_register index.registry s)
  have hs := Registry.isSome_slot?_register index.registry s
  obtain ⟨left, hleft, hmirrors⟩ := hfiles.alter? hs RankedGrid.mirrors_empty
    (fun _ _ hfile => hfile.add? l c p)
    fun t => index.file?_alterFile s t fun file => Grid.add (file.getD ∅) l c p
  refine ⟨⟨index.registry.register s, left⟩, ?_, rfl, hmirrors⟩
  rw [LayeredIndex.add?, h.registry_eq, hleft]
  rfl

theorem Mirrors.lists (h : Mirrors layered index) :
    layered.files.Lists RankedGrid.Lists index.files :=
  (h.files.lists (fun _ _ _ => Registry.slot?_inj) index.pairwise_keys
    fun _ _ => ReverseIndex.mem_files_iff).imp fun _ _ hfile => hfile.lists

theorem Mirrors.mappings_eq (h : Mirrors layered index) :
    layered.mappings = some index.mappings := by
  refine h.lists.walk_eq (fun s file => (Grid.cells file).map fun cell =>
    Mapping.ofGenerated s cell.1 cell.2.1 cell.2.2) ?_
  intro s ranked file hfile
  rw [hfile.cells_eq]
  rfl

theorem mirrors_ofMappings (sources : List Text) (mappings : List Mapping) :
    ∃ layered, ofMappings sources mappings = some layered ∧
      Mirrors layered (.ofMappings sources mappings) :=
  exists_foldlM (fun _ _ m h => h.add? m.source m.line m.column m.generated)
    (mirrors_ofSources sources) mappings

end LayeredIndex

/-! ### What is added is what there is -/

/-- Whatever is added in whichever order, an index lists it in the stable sort of the generated
positions, or of the slots and original positions, finds at each position what was added there in
the order in which it came, and keeps nothing empty. An index in layers of ranked maps takes all of
it, holds the same under every key and lists it in the same order. -/
theorem Index.holds_added (sources : List Text) (added : List Mapping) :
    let registry : Registry := ⟨withNew sources (added.map (·.source))⟩
    let forward := ForwardIndex.ofMappings sources added
    let reverse := ReverseIndex.ofMappings sources added
    (forward.registry = registry ∧ forward.mappings = sortOn Mapping.place added ∧
      (∀ l c, forward.lookup l c =
        (added.filter (·.place = toLex (l, c))).map (·.original)) ∧
      forward.grid.Full ∧
      ∃ ranked, RankedGrid.ofCells (added.map Mapping.cell) = some ranked ∧
        ranked.Mirrors forward.grid ∧ ranked.cells = some forward.grid.cells) ∧
    (reverse.registry = registry ∧
      reverse.mappings = sortOn (fun m => m.original.rank registry) added ∧
      (∀ s l c, reverse.lookup s l c =
        (added.filter (·.origin = (s, l, c))).map (·.generated)) ∧
      reverse.Full ∧
      ∃ layered, LayeredIndex.ofMappings sources added = some layered ∧
        layered.Mirrors reverse ∧ layered.mappings = some reverse.mappings) := by
  intro registry forward reverse
  have hregistry : Registry.registerAll ⟨sources⟩ (added.map (·.source)) = registry :=
    congrArg Registry.mk (Registry.sources_registerAll ⟨sources⟩ _)
  have hforward : forward.registry = registry :=
    (ForwardIndex.registry_ofMappings sources added).trans hregistry
  have hreverse : reverse.registry = registry :=
    (ReverseIndex.registry_ofMappings sources added).trans hregistry
  obtain ⟨ranked, hranked, hgrid⟩ := RankedGrid.mirrors_ofCells (added.map Mapping.cell)
  rw [← ForwardIndex.grid_ofMappings sources added] at hgrid
  obtain ⟨layered, hlayered, hindex⟩ := LayeredIndex.mirrors_ofMappings sources added
  refine ⟨⟨hforward, ?_, ?_, ?_, ranked, hranked, hgrid, hgrid.lists.cells_eq⟩,
    hreverse, ?_, ?_, ?_, layered, hlayered, hindex, hindex.mappings_eq⟩
  · exact ForwardIndex.mappings_ofMappings sources added
  · exact ForwardIndex.lookup_ofMappings sources added
  · exact ForwardIndex.full_ofMappings sources added
  · rw [← hreverse]
    exact ReverseIndex.mappings_ofMappings sources added
  · exact ReverseIndex.lookup_ofMappings sources added
  · exact (ReverseIndex.built_ofMappings sources added).full

/-- Sources come in the order in which they were declared or first seen, not in that of their names,
and positions of one place in that of their arrival. -/
example :
    ((LayeredIndex.ofMappings ["z"]
        [⟨7, 0, "b", 1, 0, none⟩, ⟨5, 2, "a", 0, 0, none⟩, ⟨4, 0, "b", 1, 0, some "n"⟩,
          ⟨9, -1, "z", -3, 8, none⟩, ⟨0, 0, "b", 0, 6, none⟩]).bind (·.mappings)) =
      some [⟨9, -1, "z", -3, 8, none⟩, ⟨0, 0, "b", 0, 6, none⟩, ⟨7, 0, "b", 1, 0, none⟩,
        ⟨4, 0, "b", 1, 0, some "n"⟩, ⟨5, 2, "a", 0, 0, none⟩] := by
  decide

end SourceMaps
