import SourceMaps.Proofs.SourcePath.Archive
import SourceMaps.Proofs.SourcePath.Uri

/-!
# Source paths: what a name designates

The name of a source leads back to the place where the source is put: as a relative path from the
directory of the map file, or as a file URI.

## Main definitions

* `NormalPath.LeadsTo`: relative paths that lead down from a directory.
* `Relocation.target`, `Relocation.home`: where a source and the map file are put.

## Main statements

* `Relocation.relativize_designates`: every name leads to its source, so that sources in different
  places have different names.
-/

namespace SourceMaps

namespace NormalPath

variable {directory target : NormalPath} {name : Text} {components : List Text}

/-- A relative path that leads to the target from the directory without going up, and that is not
taken for a file URI. -/
structure LeadsTo (directory target : NormalPath) (name : Text) : Prop where
  relative : name.head? ≠ some ↑ '/'
  noUp : (".." : Text) ∉ name.splitOn ↑ '/'
  noScheme : ¬("file://" : Text) <+: name
  resolve_eq : resolve directory.toText name = target

/-- The parts of a relative path between its slashes. -/
theorem relative_parts (hplain : ∀ component ∈ components, IsPlain component) :
    ∃ parts : List Text, parts ≠ [] ∧ relative components = Text.join "/" parts ∧
      ∀ part ∈ parts, (part ≠ [] ∧ ↑ '/' ∉ part) ∧ part ≠ ".." := by
  cases components with
  | nil => exact ⟨["."], List.cons_ne_nil _ _, rfl, by decide⟩
  | cons component rest =>
    refine ⟨component :: rest, List.cons_ne_nil _ _, if_neg (by simp), fun part hpart => ?_⟩
    exact ⟨(hplain part hpart).ne_nil_and_noSlash, (hplain part hpart).ne_up⟩

theorem leadsTo_relative (h : directory.IsAbsolute)
    (hplain : ∀ component ∈ components, IsPlain component) :
    directory.LeadsTo ⟨directory.root, directory.components ++ components⟩
      (relative components) := by
  obtain ⟨parts, hne, hname, hparts⟩ := relative_parts hplain
  have hsplit : (relative components).splitOn ↑ '/' = parts := by
    rw [hname]
    exact List.splitOn_intercalate _ (fun part hpart => (hparts part hpart).1.2) hne
  refine ⟨?_, ?_, ?_, resolve_toText_relative h hplain⟩
  · rw [hname]
    exact Text.head?_join_ne fun part hpart => (hparts part hpart).1
  · rw [hsplit]
    exact fun hup => (hparts _ hup).2 rfl
  · -- The slashes of a scheme would have an empty part between them.
    rintro ⟨rest, hrest⟩
    have hempty : [] ∈ (relative components).splitOn ↑ '/' := by
      have hscheme : relative components = "file:" ++ ↑ '/' :: ↑ '/' :: rest := hrest.symm
      rw [hscheme, Text.splitOn_append_cons, List.splitOn_cons_eq_if_modifyHead,
        if_pos (beq_self_eq_true _)]
      exact List.mem_append_right _ List.mem_cons_self
    rw [hsplit] at hempty
    exact (hparts _ hempty).1.1 rfl

theorem LeadsTo.not_isUriOf (h : directory.LeadsTo target name) (other : NormalPath) :
    ¬other.IsUriOf name := by
  rintro ⟨encoded, -, hname, -⟩
  exact h.noScheme ⟨encoded, hname.symm⟩

theorem isScalar_toText_ofText {text : Text} (h : text.IsScalar) :
    (ofText text).toText.IsScalar := by
  intro c hc
  rcases mem_toText_ofText hc with rfl | hmem
  · decide
  · exact h c hmem

theorem isScalar_toText_resolve {directory text : Text} (hdirectory : directory.IsScalar)
    (h : text.IsScalar) : (resolve directory text).toText.IsScalar := by
  unfold resolve
  split
  · exact isScalar_toText_ofText h
  split
  · exact isScalar_toText_ofText (List.forall_mem_append.mpr ⟨hdirectory, h⟩)
  · have hslashed : (directory ++ "/").IsScalar :=
      List.forall_mem_append.mpr ⟨hdirectory, by decide⟩
    exact isScalar_toText_ofText (List.forall_mem_append.mpr ⟨hslashed, h⟩)

end NormalPath

namespace Relocation

variable {r : Relocation} {directory path mapFile : Text}

theorem mem_of_given {text : Option Text} {found : Text} (h : given text = some found) :
    found ∈ text :=
  (Option.filter_eq_some_iff.mp h).1

theorem isScalar_insideArchive (h : path.IsScalar) : (SourcePath.insideArchive path).IsScalar := by
  unfold SourcePath.insideArchive
  split
  · next inside hcut =>
    have heq := (Text.occursFirst_of_cutAt? hcut).eq
    exact fun c hc => h c (heq ▸ List.mem_append_right _ (List.mem_append_right _ hc))
  · exact nofun

theorem isScalar_baseName (h : path.IsScalar) : (SourcePath.baseName path).IsScalar := by
  intro c hc
  exact h c (List.mem_reverse.mp (List.takeWhile_subset _ (List.mem_reverse.mp hc)))

theorem isScalar_place (hpublic : given r.publicPath = none)
    (houtput : ∀ text ∈ r.outputDirectory, text.IsScalar)
    (htable : ∀ entry ∈ r.table, entry.2.IsScalar) (hpath : path.IsScalar) :
    (r.place path).IsScalar := by
  have hbase : r.base.IsScalar := by
    unfold base
    rw [hpublic, Option.none_or]
    cases hgiven : given r.outputDirectory with
    | none => exact nofun
    | some text => exact houtput text (mem_of_given hgiven)
  unfold place
  split
  · exact List.forall_mem_append.mpr ⟨hbase, isScalar_insideArchive hpath⟩
  · refine List.forall_mem_append.mpr ⟨List.forall_mem_append.mpr ⟨hbase, by decide⟩, ?_⟩
    cases hgiven : given (r.table.lookup path) with
    | none => exact isScalar_baseName hpath
    | some text =>
      obtain ⟨before, after, hentry, -⟩ := List.lookup_eq_some_iff.mp (mem_of_given hgiven)
      exact htable (path, text) (by simp [hentry])

/-- Where a source is put, seen from the working directory. -/
def target (r : Relocation) (directory path : Text) : NormalPath :=
  NormalPath.resolve directory (r.place path)

/-- The directory of the map file, seen from the working directory. -/
def home (directory mapFile : Text) : NormalPath := (NormalPath.resolve directory mapFile).parent

theorem relativize_of_within? {components : List Text} (hpublic : given r.publicPath = none)
    (hmap : given r.mapFile = some mapFile)
    (h : (r.target directory path).within? (home directory mapFile) = some components) :
    r.relativize directory path = NormalPath.relative components := by
  unfold relativize
  rw [target, home] at h
  simp only [hpublic, hmap, h]

theorem relativize_of_outside (hpublic : given r.publicPath = none)
    (hmap : given r.mapFile = some mapFile)
    (h : (r.target directory path).within? (home directory mapFile) = none) :
    r.relativize directory path = (r.target directory path).toUri := by
  unfold relativize
  rw [target, home] at h
  simp only [hpublic, hmap, h]
  rfl

theorem leadsTo_relativize (hpublic : given r.publicPath = none)
    (hmap : given r.mapFile = some mapFile) (hdirectory : directory.head? = some ↑ '/') (path : Text)
    (h : (home directory mapFile).IsAtOrAbove (r.target directory path)) :
    (home directory mapFile).LeadsTo (r.target directory path) (r.relativize directory path) := by
  obtain ⟨components, htarget⟩ := NormalPath.isAtOrAbove_iff.mp h
  rw [relativize_of_within? hpublic hmap (NormalPath.within?_eq_some_iff.mpr htarget), htarget]
  refine NormalPath.leadsTo_relative (NormalPath.isAbsolute_resolve hdirectory mapFile).parent
    fun component hcomponent => ?_
  refine (NormalPath.isAbsolute_resolve hdirectory (r.place path)).plain component ?_
  rw [← target, htarget]
  exact List.mem_append_right _ hcomponent

theorem isUriOf_relativize (hpublic : given r.publicPath = none)
    (hmap : given r.mapFile = some mapFile) (hdirectory : directory.head? = some ↑ '/') {path : Text}
    (hscalar : (r.target directory path).toText.IsScalar)
    (h : ¬(home directory mapFile).IsAtOrAbove (r.target directory path)) :
    (r.target directory path).IsUriOf (r.relativize directory path) := by
  have hnone : (r.target directory path).within? (home directory mapFile) = none := by
    rw [← NormalPath.isSome_within?_iff, Option.isSome_iff_ne_none] at h
    exact Classical.not_not.mp h
  rw [relativize_of_outside hpublic hmap hnone]
  exact NormalPath.isUriOf_toUri (NormalPath.isAbsolute_resolve hdirectory _) hscalar

/-- The name of a source leads from the directory of the map file to where the source is put, or is
a file URI of that place if it lies outside of the directory. Sources in different places have
different names. -/
theorem relativize_designates (r : Relocation) {directory mapFile : Text}
    (hpublic : given r.publicPath = none) (hmap : given r.mapFile = some mapFile)
    (hdirectory : directory.head? = some ↑ '/') (hscalar : directory.IsScalar)
    (houtput : ∀ text ∈ r.outputDirectory, text.IsScalar)
    (htable : ∀ entry ∈ r.table, entry.2.IsScalar) :
    (∀ path : Text, path.IsScalar → (r.target directory path).IsAbsolute ∧
      ((home directory mapFile).IsAtOrAbove (r.target directory path) →
        (home directory mapFile).LeadsTo (r.target directory path) (r.relativize directory path)) ∧
      (¬(home directory mapFile).IsAtOrAbove (r.target directory path) →
        (r.target directory path).IsUriOf (r.relativize directory path))) ∧
    ∀ first second : Text, first.IsScalar → second.IsScalar →
      r.target directory first ≠ r.target directory second →
      r.relativize directory first ≠ r.relativize directory second := by
  have habsolute (path : Text) : (r.target directory path).IsAbsolute :=
    NormalPath.isAbsolute_resolve hdirectory _
  have hleads := leadsTo_relativize hpublic hmap hdirectory
  have huri (path : Text) (hpath : path.IsScalar) :=
    isUriOf_relativize hpublic hmap hdirectory
      (NormalPath.isScalar_toText_resolve hscalar (isScalar_place hpublic houtput htable hpath))
  refine ⟨fun path hpath => ⟨habsolute path, hleads path, huri path hpath⟩, ?_⟩
  intro first second hfirst hsecond hne heq
  have hleads' := hleads second
  have huri' := huri second hsecond
  rw [← heq] at hleads' huri'
  by_cases hhome : (home directory mapFile).IsAtOrAbove (r.target directory first) <;>
    by_cases hhome' : (home directory mapFile).IsAtOrAbove (r.target directory second)
  · exact hne ((hleads first hhome).resolve_eq.symm.trans (hleads' hhome').resolve_eq)
  · exact (hleads first hhome).not_isUriOf _ (huri' hhome')
  · exact (hleads' hhome').not_isUriOf _ (huri first hfirst hhome)
  · exact hne ((huri first hfirst hhome).unique (habsolute first) (huri' hhome') (habsolute second))

/-- Two sources below a root of two slashes, of which the second is moved out of the directory of the
map file. -/
theorem relativize_designates_doubleRoot :
    let r : Relocation :=
      { outputDirectory := some "out/./é", mapFile := some "out//main.js.map",
        table := [("b.cljs", "../../elsewhere/ü.cljs")] }
    let directory := home "//srv" "out//main.js.map"
    given r.publicPath = none ∧ given r.mapFile = some "out//main.js.map" ∧
      directory.IsAtOrAbove (r.target "//srv" "x/a.cljs") ∧
      directory.LeadsTo (r.target "//srv" "x/a.cljs") (r.relativize "//srv" "x/a.cljs") ∧
      r.relativize "//srv" "x/a.cljs" = "é/a.cljs" ∧
      ¬directory.IsAtOrAbove (r.target "//srv" "b.cljs") ∧
      (r.target "//srv" "b.cljs").IsUriOf (r.relativize "//srv" "b.cljs") ∧
      r.relativize "//srv" "b.cljs" = "file:////srv/elsewhere/%C3%BC.cljs" ∧
      r.relativize "//srv" "x/a.cljs" ≠ r.relativize "//srv" "b.cljs" := by
  intro r directory
  have hmap : given r.mapFile = some "out//main.js.map" := rfl
  have hroot : ("//srv" : Text).head? = some ↑ '/' := rfl
  have hwithin : directory.IsAtOrAbove (r.target "//srv" "x/a.cljs") := by decide +kernel
  have houtside : ¬directory.IsAtOrAbove (r.target "//srv" "b.cljs") := by decide +kernel
  obtain ⟨heach, hdistinct⟩ :=
    relativize_designates r rfl hmap hroot (by decide) (by decide) (by decide)
  exact ⟨rfl, hmap, hwithin, (heach "x/a.cljs" (by decide)).2.1 hwithin, by decide +kernel,
    houtside, (heach "b.cljs" (by decide)).2.2 houtside, by decide +kernel,
    hdistinct "x/a.cljs" "b.cljs" (by decide) (by decide) (by decide +kernel)⟩

end Relocation

end SourceMaps
