import SourceMaps.Proofs.CommandLine.Run
import SourceMaps.Proofs.Document.Surrogates

/-!
# What encoding a file keeps

The map that encoding writes has the file, the contents, the number of lines and the sources of the
map that was read, but never a source root. So the map that is read back agrees with the first one
outside the mappings exactly if that one has no source root and no texts that JSON joins.

## Main definitions

* `SourceMap.SameFrame`: maps that agree outside their mappings and names.
* `SourceMap.HasSettledFrame`: maps whose texts there survive being written as JSON.

## Main statements

* `SourceMap.sameFrame_paired_iff`: when a map that is written anew and read back agrees with the
  first one.
* `load_paired_of_write`: a map of version 3 is found in its file, with its surrogates joined.
* `load_of_encode`: the map that is found in the file that encoding wrote.
-/

namespace SourceMaps

namespace SourceMap

variable {map written : SourceMap}

/-- Two maps agree on everything but their mappings and names, where a source that is null counts as
the empty text. -/
structure SameFrame (a b : SourceMap) : Prop where
  file : a.file = b.file
  sourceRoot : a.sourceRoot = b.sourceRoot
  lineCount : a.lineCount = b.lineCount
  sourcesContent : a.sourcesContent = b.sourcesContent
  sources : a.sourceNames = b.sourceNames

/-- In the file, the sources and the contents no high surrogate stands right before a low one. -/
structure HasSettledFrame (map : SourceMap) : Prop where
  file : ∀ t ∈ map.file, t.IsSettled
  sourcesContent : ∀ contents ∈ map.sourcesContent, ∀ entry ∈ contents, ∀ t ∈ entry, t.IsSettled
  sources : ∀ source ∈ map.sources, ∀ t ∈ source, t.IsSettled

theorem IsScalar.hasSettledFrame (h : map.IsScalar) : map.HasSettledFrame :=
  ⟨h.isSettled.file, h.isSettled.sourcesContent, h.isSettled.sources⟩

/-! ### Joining surrogates -/

theorem sourceNames_paired (map : SourceMap) :
    map.paired.sourceNames = map.sourceNames.map Text.paired := by
  rw [sourceNames, sourceNames, paired, List.map_map, List.map_map]
  refine List.map_congr_left fun source _ => ?_
  cases source <;> rfl

theorem map_paired_sourceNames_eq_self_iff :
    map.sourceNames.map Text.paired = map.sourceNames ↔
      ∀ source ∈ map.sources, ∀ t ∈ source, t.IsSettled := by
  rw [sourceNames, List.map_map, List.map_inj_left]
  refine forall₂_congr fun source _ => ?_
  cases source with
  | none => simp [Text.paired]
  | some t => simp [Text.paired_eq_self_iff]

theorem map_paired_contents_eq_self_iff {contents : Option (List (Option Text))} :
    contents.map (List.map (Option.map Text.paired)) = contents ↔
      ∀ texts ∈ contents, ∀ entry ∈ texts, ∀ t ∈ entry, t.IsSettled := by
  cases contents with
  | none => simp
  | some texts => simp [map_paired_texts_eq_self_iff]

/-- A map that is written anew and read back agrees with the first one outside the mappings exactly
if that one has no source root and its texts there are settled. -/
theorem sameFrame_paired_iff (h : map.reencode = .ok written) :
    written.paired.SameFrame map ↔ map.sourceRoot = none ∧ map.HasSettledFrame := by
  obtain ⟨hfile, hroot, hcount, hcontents, -⟩ := frame_of_reencode h
  -- Each field is that of the map, joined; so it is the same exactly if there is nothing to join.
  have hfilePaired : written.paired.file = map.file ↔ ∀ t ∈ map.file, t.IsSettled := by
    rw [paired, hfile]
    exact map_paired_eq_self_iff
  have hrootPaired : written.paired.sourceRoot = map.sourceRoot ↔ map.sourceRoot = none := by
    rw [paired, hroot]
    exact eq_comm
  have hcountPaired : written.paired.lineCount = map.lineCount := hcount
  have hcontentsPaired : written.paired.sourcesContent = map.sourcesContent ↔
      ∀ contents ∈ map.sourcesContent, ∀ entry ∈ contents, ∀ t ∈ entry, t.IsSettled := by
    rw [paired, hcontents]
    exact map_paired_contents_eq_self_iff
  have hsourcesPaired : written.paired.sourceNames = map.sourceNames ↔
      ∀ source ∈ map.sources, ∀ t ∈ source, t.IsSettled := by
    rw [sourceNames_paired, sourceNames_of_reencode h]
    exact map_paired_sourceNames_eq_self_iff
  constructor
  · intro same
    exact ⟨hrootPaired.mp same.sourceRoot, hfilePaired.mp same.file,
      hcontentsPaired.mp same.sourcesContent, hsourcesPaired.mp same.sources⟩
  · rintro ⟨hnone, settled⟩
    exact {
      file := hfilePaired.mpr settled.file
      sourceRoot := hrootPaired.mpr hnone
      lineCount := hcountPaired
      sourcesContent := hcontentsPaired.mpr settled.sourcesContent
      sources := hsourcesPaired.mpr settled.sources }

end SourceMap

namespace CommandLine

section Commands

variable {decompress? : Bytes → Option Bytes} {tree tree' : FileTree} {arguments : List Text}
  {verbose pretty : Bool} {name file : Text} {map : SourceMap}

/-- A map of version 3 is found in the file that it was written to, with its surrogates joined. -/
theorem load_paired_of_write (version : map.version = 3)
    (lineCount : ∀ i ∈ map.lineCount, Json.FewDigits i)
    (hwrite : tree.write (.ofText file) (fileBytes map pretty) = .ok tree') :
    tree'.load decompress? false file = .ok map.paired :=
  load_eq_ok_iff.mpr ⟨_, FileTree.read_of_write hwrite,
    SourceMap.ofBytes_render version lineCount _ (by decide)⟩

/-- If a JSON file was encoded with status zero, the map in the written file has the file, the
number of lines, the contents and, with null as the empty text, the sources of the map in the first
one, where each high surrogate is joined to the low one right behind it. But it has no source root.
So outside the mappings the two maps agree exactly if there was no source root and nothing to
join. -/
theorem load_of_encode {output errors : Text}
    (invoked : Invocation.ofArguments arguments =
      .ok ⟨verbose, false, .encode (some name) ⟨some file, pretty⟩⟩)
    (ran : runOn decompress? tree arguments = (.finished 0 output errors, tree')) :
    ∃ map back, tree.load decompress? false name = .ok map ∧
      tree'.load decompress? false file = .ok back ∧
      back.file = map.file.map Text.paired ∧
      back.sourceRoot = none ∧
      back.lineCount = map.lineCount ∧
      back.sourcesContent = map.sourcesContent.map (List.map (Option.map Text.paired)) ∧
      back.sources = map.sourceNames.map (fun source => some source.paired) ∧
      (back.SameFrame map ↔ map.sourceRoot = none ∧ map.HasSettledFrame) := by
  obtain ⟨map, written, hload, hwritten, -, hwrite⟩ := of_runOn_encode invoked ran
  obtain ⟨hfile, hroot, hcount, hcontents, hversion⟩ := SourceMap.frame_of_reencode hwritten
  -- The number of lines was read, so it has few digits and can be read again.
  obtain ⟨bytes, -, hbytes⟩ := load_eq_ok_iff.mp hload
  have hfew : ∀ i ∈ written.lineCount, Json.FewDigits i :=
    hcount ▸ (SourceMap.of_ofBytes hbytes).2
  have hsources : written.paired.sources = map.sourceNames.map fun s => some s.paired := by
    rw [SourceMap.paired, SourceMap.sources_of_reencode hwritten, List.map_map]
    rfl
  refine ⟨map, written.paired, hload, load_paired_of_write hversion hfew hwrite, ?_, ?_, hcount, ?_,
    hsources, SourceMap.sameFrame_paired_iff hwritten⟩
  · rw [SourceMap.paired, hfile]
  · rw [SourceMap.paired, hroot]
    rfl
  · rw [SourceMap.paired, hcontents]

/-- A tree with one file, which holds a map. -/
def shelf (map : SourceMap) : FileTree where
  files := [(["in.map"], fileBytes map false)]

/-- What encoding that file leaves. -/
def shelfWith (written map : SourceMap) : FileTree where
  files := [(["out.map"], fileBytes written false), (["in.map"], fileBytes map false)]

theorem load_shelf (decompress? : Bytes → Option Bytes) (portable : map.Portable) :
    (shelf map).load decompress? false "in.map" = .ok map := by
  have hpath : FilePath.ofText "in.map" = ⟨"", ["in.map"]⟩ := by decide
  have hread : (shelf map).read (.ofText "in.map") = .ok (fileBytes map false) := by
    rw [hpath]
    rfl
  exact load_of_read portable hread

theorem write_shelf (map written : SourceMap) :
    (shelf map).write (.ofText "out.map") (fileBytes written false) =
      .ok (shelfWith written map) := by
  have hpath : FilePath.ofText "out.map" = ⟨"", ["out.map"]⟩ := by decide
  rw [hpath]
  rfl

theorem encode_accepted : Invocation.ofArguments ["encode", "in.map", "-o", "out.map"] =
    .ok ⟨false, false, .encode (some "in.map") ⟨some "out.map", false⟩⟩ := by decide

theorem runOn_shelf {written : SourceMap} (decompress? : Bytes → Option Bytes)
    (portable : map.Portable) (h : map.reencode = .ok written) :
    runOn decompress? (shelf map) ["encode", "in.map", "-o", "out.map"] =
      (success (line "Wrote out.map"), shelfWith written map) :=
  runOn_encode encode_accepted (load_shelf decompress? portable) h rfl (write_shelf map written)

/-- A map with a source that is null, one that is listed twice, contents of another length and a
number of lines, but no source root. -/
def furnished : SourceMap where
  sources := [some "src/ü.js", none, some "src/ü.js"]
  names := ["x"]
  mappings := "AAAAA;ACAA"
  file := some ""
  sourcesContent := some [some "one\n", none]
  lineCount := some (-7)

theorem portable_furnished : furnished.Portable where
  sources := by decide
  names := by decide
  mappings := by decide
  file := by decide
  sourceRoot := by decide
  sourcesContent := by decide
  version := rfl
  lineCount := by
    rintro i ⟨⟩
    simp [Json.FewDigits, Json.digitLimit]

theorem load_of_encode_furnished : ∃ tree' back,
    runOn Zstd.decompress? (shelf furnished) ["encode", "in.map", "-o", "out.map"] =
      (.finished 0 (line "Wrote out.map") "", tree') ∧
    tree'.load Zstd.decompress? false "out.map" = .ok back ∧ back.SameFrame furnished ∧
    back.sources = ([some "src/ü.js", some "", some "src/ü.js"] : List (Option Text)) := by
  have hreencode : furnished.reencode =
      .ok { furnished with sources := [some "src/ü.js", some "", some "src/ü.js"] } := by cbv
  have hran := runOn_shelf Zstd.decompress? portable_furnished hreencode
  obtain ⟨map, back, hload, hback, -, -, -, -, hsources, hsame⟩ :=
    load_of_encode encode_accepted hran
  obtain rfl : furnished = map :=
    Except.ok.inj ((load_shelf _ portable_furnished).symm.trans hload)
  have hsettled := portable_furnished.toIsScalar.hasSettledFrame
  refine ⟨_, back, hran, hback, hsame.mpr ⟨rfl, hsettled⟩, hsources.trans ?_⟩
  decide

/-- A map whose source is relative to a root. -/
def rooted : SourceMap where
  sources := [some "a.js"]
  names := []
  mappings := "AAAA"
  sourceRoot := some "src/"

theorem portable_rooted : rooted.Portable where
  sources := by decide
  names := by decide
  mappings := by decide
  file := by decide
  sourceRoot := by decide
  sourcesContent := by decide
  version := rfl
  lineCount := nofun

/-- Encoding says that it went well, and what it wrote is no longer relative to the root. -/
theorem load_of_encode_rooted : ∃ tree' back,
    (shelf rooted).load Zstd.decompress? false "in.map" = .ok rooted ∧
    runOn Zstd.decompress? (shelf rooted) ["encode", "in.map", "-o", "out.map"] =
      (.finished 0 (line "Wrote out.map") "", tree') ∧
    tree'.load Zstd.decompress? false "out.map" = .ok back ∧
    back = { rooted with sourceRoot := none } ∧ ¬ back.SameFrame rooted := by
  have hreencode : rooted.reencode = .ok { rooted with sourceRoot := none } := by cbv
  have hportable := SourceMap.portable_of_reencode hreencode portable_rooted
  refine ⟨_, _, load_shelf _ portable_rooted, runOn_shelf _ portable_rooted hreencode,
    load_of_write hportable (write_shelf _ _), rfl, fun same => ?_⟩
  exact absurd same.sourceRoot (by decide)

end Commands

end CommandLine

end SourceMaps
