import SourceMaps.Proofs.Text.Parts
import SourceMaps.SourcePath

/-!
# Source paths: the output location

Where a source is put when its name is not made relative to a map file. A source outside of archives
comes under the output location. One within an archive is told by a separator that ends in a slash,
but its path is cut at the separator without the slash: it comes under the output location only if
nothing before the separator reads like the end of an archive's name already.

## Main definitions

* `SourcePath.archiveMark`: the separator without its slash.

## Main statements

* `Relocation.relativize_placed`: when a source comes under the output location, and with which name.
* `Relocation.relativize_markedTwice`: a source that comes beside it.
-/

namespace SourceMaps

namespace SourcePath

variable {path before after outer inside : Text}

/-- What ends the name of an archive. -/
def archiveMark : Text := ".jar!"

theorem isArchived_iff : isArchived path = true ↔ archiveSeparator <:+: path := Text.holds_iff

theorem insideArchive_eq (h : Text.OccursFirst archiveMark path outer inside) :
    insideArchive path = inside := by
  have hcut : Text.cutAt? archiveSeparator.dropLast path = some (outer, inside) :=
    Text.cutAt?_eq_some_iff.mpr h
  rw [insideArchive, hcut]

/-- The first separator begins at a mark. -/
theorem eq_of_occursFirst_separator (h : Text.OccursFirst archiveSeparator path before after) :
    path = before ++ (archiveMark ++ ("/" ++ after)) := h.eq

theorem exists_occursFirst_mark (h : Text.OccursFirst archiveSeparator path before after) :
    ∃ outer inside, Text.OccursFirst archiveMark path outer inside :=
  Text.exists_occursFirst
    ⟨before, "/" ++ after, by rw [eq_of_occursFirst_separator h, List.append_assoc]⟩

/-- A slash follows the first mark only if that is the mark of the first separator. -/
theorem unmarked_of_slash (h : Text.OccursFirst archiveSeparator path before after)
    (hmark : Text.OccursFirst archiveMark path outer inside) (hslash : "/" <+: inside) :
    ¬archiveMark <:+: before := by
  rintro ⟨first, second, hbefore⟩
  obtain ⟨rest, rfl⟩ := hslash
  have hseparator : before.length ≤ outer.length := h.first outer rest hmark.eq
  have hfirst : outer.length ≤ first.length := by
    refine hmark.first first (second ++ (archiveMark ++ ("/" ++ after))) ?_
    rw [eq_of_occursFirst_separator h, ← hbefore]
    simp only [List.append_assoc]
  have hlength := congrArg List.length hbefore
  have hfive : archiveMark.length = 5 := rfl
  simp only [List.length_append] at hlength
  omega

/-- Without a mark before the first separator the path is cut there. -/
theorem inside_eq_of_unmarked (h : Text.OccursFirst archiveSeparator path before after)
    (hmark : Text.OccursFirst archiveMark path outer inside) (hnone : ¬archiveMark <:+: before) :
    inside = "/" ++ after := by
  have hpath := eq_of_occursFirst_separator h
  have heq := hmark.eq.symm.trans hpath
  rcases Text.eq_or_infix_of_occurs (by decide) heq (hmark.first _ _ hpath) with rfl | hmarked
  · exact List.append_cancel_left (List.append_cancel_left heq)
  · exact absurd hmarked hnone

end SourcePath

namespace Relocation

open SourcePath (archiveMark archiveSeparator)

variable {r : Relocation}

theorem relativize_eq_place (h : (given r.publicPath).isSome ∨ given r.mapFile = none)
    (directory path : Text) : r.relativize directory path = r.place path := by
  unfold relativize
  simp only
  split
  · next hpublic hmap => simp [hpublic, hmap] at h
  · rfl

theorem place_of_notArchived {path : Text} (h : ¬archiveSeparator <:+: path) :
    r.base ++ ("/" : Text) <+: r.place path := by
  rw [place, if_neg (mt SourcePath.isArchived_iff.mp h)]
  exact List.prefix_append _ _

theorem place_of_occursFirst {path before after outer inside : Text}
    (h : Text.OccursFirst archiveSeparator path before after)
    (hmark : Text.OccursFirst archiveMark path outer inside) : r.place path = r.base ++ inside := by
  have hmarked : archiveSeparator <:+: path := ⟨before, after, by rw [h.eq, List.append_assoc]⟩
  rw [place, if_pos (SourcePath.isArchived_iff.mpr hmarked), SourcePath.insideArchive_eq hmark]

/-- A source comes under the output location, unless it lies within an archive and its path holds the
mark of an archive before the first separator. What follows the first mark is put behind the output
location as it is. -/
theorem relativize_placed (r : Relocation)
    (h : (given r.publicPath).isSome ∨ given r.mapFile = none) (directory path : Text) :
    (¬archiveSeparator <:+: path → r.base ++ ("/" : Text) <+: r.relativize directory path) ∧
    ∀ before after, Text.OccursFirst archiveSeparator path before after →
      (∃ outer inside, Text.OccursFirst archiveMark path outer inside ∧
        r.relativize directory path = r.base ++ inside) ∧
      (r.base ++ ("/" : Text) <+: r.relativize directory path ↔ ¬archiveMark <:+: before) ∧
      (r.relativize directory path = r.base ++ "/" ++ after ↔ ¬archiveMark <:+: before) := by
  rw [relativize_eq_place h]
  refine ⟨place_of_notArchived, fun before after hfirst => ?_⟩
  obtain ⟨outer, inside, hmark⟩ := SourcePath.exists_occursFirst_mark hfirst
  have hcut := SourcePath.inside_eq_of_unmarked hfirst hmark
  have hnone := SourcePath.unmarked_of_slash hfirst hmark
  rw [place_of_occursFirst hfirst hmark, List.append_assoc, List.prefix_append_right_inj,
    List.append_right_inj]
  refine ⟨⟨outer, inside, hmark, rfl⟩, ⟨hnone, fun h => ?_⟩, ⟨fun h => hnone ?_, hcut⟩⟩
  · exact ⟨after, (hcut h).symm⟩
  · exact ⟨after, h.symm⟩

/-- A path with three marks, of which the first is that of the first separator. -/
theorem relativize_placed_nested :
    let r : Relocation := { publicPath := some "js", mapFile := some "main.js.map" }
    let path : Text := "file:/m2/a.jar!/b.jar!/.jar!c.cljs"
    ((given r.publicPath).isSome ∨ given r.mapFile = none) ∧
      Text.OccursFirst archiveSeparator path "file:/m2/a" "b.jar!/.jar!c.cljs" ∧
      r.base ++ ("/" : Text) <+: r.relativize "/" path ∧
      r.relativize "/" path = r.base ++ "/" ++ "b.jar!/.jar!c.cljs" := by
  intro r path
  have hpublic : (given r.publicPath).isSome ∨ given r.mapFile = none := .inl rfl
  have hfirst : Text.OccursFirst archiveSeparator path "file:/m2/a" "b.jar!/.jar!c.cljs" :=
    Text.occursFirst_of_cutAt? (by decide)
  have hnone : ¬archiveMark <:+: ("file:/m2/a" : Text) := by decide
  obtain ⟨-, hunder, hname⟩ := (relativize_placed r hpublic "/" path).2 _ _ hfirst
  exact ⟨hpublic, hfirst, hunder.mpr hnone, hname.mpr hnone⟩

/-- A mark before the separator: the source comes beside the output location. -/
theorem relativize_markedTwice :
    let r : Relocation := { outputDirectory := some "out" }
    let path : Text := "lib.jar!x.jar!/core.cljs"
    given r.mapFile = none ∧ Text.OccursFirst archiveSeparator path "lib.jar!x" "core.cljs" ∧
      r.relativize "/" path = "outx.jar!/core.cljs" ∧
      ¬r.base ++ ("/" : Text) <+: r.relativize "/" path ∧
      r.relativize "/" path ≠ r.base ++ "/" ++ "core.cljs" := by
  refine ⟨rfl, Text.occursFirst_of_cutAt? (by decide), by decide, by decide, by decide⟩

end Relocation

end SourceMaps
