import SourceMaps.CommandLine.Files
import SourceMaps.Proofs.Outcome

/-!
# Trees of files: reading what was written

Writing a file changes what stands at its place and turns no directory into a file, so every path
that led somewhere leads there still. The file that was written is read back.

## Main definitions

* `FileTree.Writable`: the paths that a file can be written to.
* `FileTree.Fits`: contents that are not too large for a file.

## Main statements

* `FileTree.write_eq_ok_iff`: these are the paths for which writing succeeds.
* `FileTree.read_of_write`: a file that was written is read back.
-/

namespace SourceMaps.CommandLine.FileTree

variable {tree tree' : FileTree} {path : FilePath} {place : List Text} {contents : Bytes}

/-- A file can be written where the path leads to a place that is no directory. -/
def Writable (tree : FileTree) (path : FilePath) : Prop :=
  ∃ place, tree.locate path = .ok place ∧ tree.node place ≠ .directory

theorem write_of_locate (h : tree.locate path = .ok place) (hnode : tree.node place ≠ .directory)
    (contents : Bytes) : tree.write path contents = .ok (tree.put place contents) := by
  rw [write, h, ok_bind]
  cases hfound : tree.node place with
  | directory => exact absurd hfound hnode
  | file _ => rfl
  | missing => rfl

theorem write_eq_ok_iff : tree.write path contents = .ok tree' ↔
    ∃ place, tree.locate path = .ok place ∧ tree.node place ≠ .directory ∧
      tree' = tree.put place contents := by
  constructor
  · intro h
    obtain ⟨place, hplace, h⟩ := bind_eq_ok_iff.mp h
    refine ⟨place, hplace, ?_⟩
    cases hfound : tree.node place with
    | directory =>
      rw [hfound] at h
      cases h
    | file _ =>
      rw [hfound] at h
      cases h
      exact ⟨nofun, rfl⟩
    | missing =>
      rw [hfound] at h
      cases h
      exact ⟨nofun, rfl⟩
  · rintro ⟨place, hplace, hnode, rfl⟩
    exact write_of_locate hplace hnode contents

/-! ### What stands where after writing -/

@[simp]
theorem node_put_self (tree : FileTree) (place : List Text) (contents : Bytes) :
    (tree.put place contents).node place = .file contents := by
  rw [node, put, List.lookup_cons_self]

theorem lookup_filter_of_ne {other : List Text} (h : other ≠ place)
    (files : List (List Text × Bytes)) :
    (files.filter (·.1 ≠ place)).lookup other = files.lookup other := by
  induction files with
  | nil => rfl
  | cons file files ih =>
    obtain ⟨first, bytes⟩ := file
    by_cases hfirst : first = place
    · have hne : (other == first) = false := beq_eq_false_iff_ne.mpr (hfirst ▸ h)
      rw [List.filter_cons_of_neg (by simp [hfirst]), List.lookup_cons, hne, ih]
    · rw [List.filter_cons_of_pos (by simp [hfirst]), List.lookup_cons, List.lookup_cons, ih]

theorem lookup_put_of_ne {other : List Text} (h : other ≠ place) :
    (tree.put place contents).files.lookup other = tree.files.lookup other := by
  have hne : (other == place) = false := beq_eq_false_iff_ne.mpr h
  rw [put, List.lookup_cons, hne, lookup_filter_of_ne h]

theorem mem_put {file : List Text × Bytes} (h : file ∈ tree.files) (place : List Text)
    (contents : Bytes) :
    ∃ bytes, (file.1, bytes) ∈ (tree.put place contents).files := by
  by_cases hplace : file.1 = place
  · exact ⟨contents, by simp [put, hplace]⟩
  · exact ⟨file.2, List.mem_cons_of_mem _ (List.mem_filter.mpr ⟨h, by simp [hplace]⟩)⟩

/-- A directory stays one when a file is written somewhere else. -/
theorem node_put_of_directory {other : List Text} (hnode : tree.node place ≠ .directory)
    (h : tree.node other = .directory) :
    (tree.put place contents).node other = .directory := by
  have hne : other ≠ place := by
    rintro rfl
    exact hnode h
  unfold node at h ⊢
  rw [lookup_put_of_ne hne]
  cases hlookup : tree.files.lookup other with
  | some bytes =>
    rw [hlookup] at h
    cases h
  | none =>
    rw [hlookup] at h
    simp only at h ⊢
    split at h
    · next hleads =>
      rw [if_pos]
      refine hleads.imp_right fun hany => ?_
      obtain ⟨file, hfile, hprefix⟩ := List.any_eq_true.mp hany
      obtain ⟨bytes, hmem⟩ := mem_put hfile place contents
      exact List.any_eq_true.mpr ⟨_, hmem, hprefix⟩
    · cases h

theorem walk_put (hnode : tree.node place ≠ .directory) {start goal components : List Text}
    (h : tree.walk start components = .ok goal) :
    (tree.put place contents).walk start components = .ok goal := by
  induction components generalizing start with
  | nil => exact h
  | cons component components ih =>
    rw [walk] at h ⊢
    cases hstart : tree.node start with
    | file bytes =>
      rw [hstart] at h
      cases h
    | missing =>
      rw [hstart] at h
      cases h
    | directory =>
      rw [hstart] at h
      rw [node_put_of_directory hnode hstart]
      simp only at h ⊢
      split at h
      · next hup => rw [if_pos hup, ih h]
      · next hup => rw [if_neg hup, ih h]

theorem locate_put (hnode : tree.node place ≠ .directory) {goal : List Text}
    (h : tree.locate path = .ok goal) : (tree.put place contents).locate path = .ok goal :=
  walk_put hnode h

/-! ### Contents that fit -/

/-- Contents that are not too large for a file. -/
def Fits (tree : FileTree) (contents : Bytes) : Prop := tree.fitting contents = contents

theorem fits_of_limit_eq_none (h : tree.limit = none) (contents : Bytes) : tree.Fits contents := by
  rw [Fits, fitting, h]

theorem fitting_of_write {written : Bytes} (h : tree.write path contents = .ok tree') :
    tree'.fitting written = tree.fitting written := by
  obtain ⟨place, -, -, rfl⟩ := write_eq_ok_iff.mp h
  rfl

theorem Fits.of_write {written : Bytes} (h : tree.Fits written)
    (hwrite : tree.write path contents = .ok tree') : tree'.Fits written :=
  (fitting_of_write hwrite).trans h

/-- What is written of contents is a beginning of them. -/
theorem fitting_prefix (tree : FileTree) (contents : Bytes) :
    tree.fitting contents <+: contents := by
  unfold fitting
  split
  · exact List.take_prefix _ contents
  · exact List.prefix_refl contents

theorem Writable.exists_write (h : tree.Writable path) (contents : Bytes) :
    ∃ tree', tree.write path contents = .ok tree' := by
  obtain ⟨place, hplace, hnode⟩ := h
  exact ⟨_, write_of_locate hplace hnode contents⟩

/-- A file that was written is read back. -/
theorem read_of_write (h : tree.write path contents = .ok tree') :
    tree'.read path = .ok contents := by
  obtain ⟨place, hplace, hnode, rfl⟩ := write_eq_ok_iff.mp h
  rw [read, locate_put hnode hplace, ok_bind, node_put_self]
  rfl

end SourceMaps.CommandLine.FileTree
