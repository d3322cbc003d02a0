import SourceMaps.Compose
import SourceMaps.Proofs.Blob.Reading
import SourceMaps.Proofs.Decode
import SourceMaps.Proofs.MappingsText
import SourceMaps.Proofs.SegmentLines

/-!
# Faults that are reported

Reading, decoding, composing and encoding maps can fail, but only with faults of input or of values.
Records of a blob are read after its size has been checked, sources are looked up that have been
registered, and segments are put on lines that are not negative, so the other sorts of faults do not
occur.

## Main definitions

* `Reports`: computations all of whose faults are reported.

## Main statements

* `SourceMap.reports_ofBytes`, `Blob.reports_loadWith`: reading maps.
* `ForwardIndex.reports_ofMap`, `ReverseIndex.reports_ofMap`: decoding them.
* `ReverseIndex.reports_compose`, `Index.reports_encode`: composing and encoding indexes.
-/

namespace SourceMaps

/-- Only faults of input or of values end the computation. -/
abbrev Reports {α : Type} (x : Except Fault α) : Prop :=
  FailsOnly (fun fault => fault.kind.isReported = true) x

/-! ### Reading JSON -/

namespace SourceMap

theorem reports_readText (object : Json) (field : Text) : Reports (readText object field) := by
  unfold readText
  split
  · exact .ok _
  · exact .ok _
  · exact .ok _
  · exact .error rfl

theorem reports_readItems (field : Text) (items : List Json) : Reports (readItems field items) := by
  induction items with
  | nil => exact .ok _
  | cons item rest ih =>
    cases item with
    | text t => exact ih.map (t :: ·)
    | _ => exact .error rfl

theorem reports_readNullableItems (field : Text) (items : List Json) :
    Reports (readNullableItems field items) := by
  induction items with
  | nil => exact .ok _
  | cons item rest ih =>
    cases item with
    | text t => exact ih.map (some t :: ·)
    | null => exact ih.map (none :: ·)
    | _ => exact .error rfl

theorem reports_readList (object : Json) (field : Text) : Reports (readList object field) := by
  unfold readList
  split
  · exact .ok _
  · exact .ok _
  · exact .error rfl

theorem reports_readMappings (object : Json) : Reports (readMappings object) := by
  unfold readMappings
  split
  · exact .ok _
  · exact .ok _
  · exact .error rfl

theorem reports_readContents (object : Json) : Reports (readContents object) := by
  unfold readContents
  split
  · exact .ok _
  · exact .ok _
  · refine (reports_readList object _).bind fun items _ => ?_
    exact (reports_readNullableItems _ items).bind fun contents _ => .ok _

theorem reports_readLineCount (object : Json) : Reports (readLineCount object) := by
  unfold readLineCount
  split
  · exact .ok _
  · exact .ok _
  · exact .ok _
  · exact .error rfl

theorem reports_ofJson (value : Json) : Reports (ofJson value) := by
  unfold ofJson
  simp only
  split
  · exact .error rfl
  split
  · exact .error rfl
  split
  · exact .error rfl
  refine (reports_readMappings value).bind fun mappings _ => ?_
  refine (reports_readText value "file").bind fun file _ => ?_
  refine (reports_readText value "sourceRoot").bind fun root _ => ?_
  refine (reports_readContents value).bind fun contents _ => ?_
  refine (reports_readLineCount value).bind fun lines _ => ?_
  refine (reports_readList value "sources").bind fun items _ => ?_
  refine (reports_readNullableItems "sources" items).bind fun sources _ => ?_
  refine (reports_readList value "names").bind fun items _ => ?_
  exact (reports_readItems "names" items).bind fun names _ => .ok _

theorem reports_readFault (text : Text) (e : Json.ReadError) :
    (readFault text e).kind.isReported = true := by
  cases e <;> rfl

/-- Bytes that are no map are reported. -/
theorem reports_ofBytes (bytes : Bytes) : Reports (ofBytes bytes) := by
  unfold ofBytes
  split
  · exact .error rfl
  · next text _ =>
    split
    · exact reports_ofJson _
    · next e _ => exact .error (reports_readFault text e)

end SourceMap

/-- Bytes that are no blob are reported: no record is read before the data are known to hold it. -/
theorem Blob.reports_loadWith (decompress? : Bytes → Option Bytes) (data : Bytes)
    (file : Option Text) : Reports (loadWith decompress? data file) := by
  intro fault hfault
  show fault.kind.isReported = true
  rw [kind_of_loadWith hfault]
  rfl

/-! ### Decoding and composing -/

theorem reports_resolved (map : SourceMap) : Reports map.resolved := by
  intro fault hfault
  show fault.kind.isReported = true
  rw [SourceMap.kind_of_resolved hfault]
  rfl

theorem ForwardIndex.reports_ofMap (map : SourceMap) : Reports (ofMap map) :=
  (reports_resolved map).map _

theorem ReverseIndex.reports_ofMap (map : SourceMap) : Reports (ofMap map) :=
  (reports_resolved map).map _

theorem ReverseIndex.reports_compose (first second : ReverseIndex) (between : Option Text) :
    Reports (first.compose second between) := by
  have hfile : Reports (second.intermediateFile between) := by
    unfold intermediateFile
    split
    · exact .ok _
    · exact .ok _
    · exact .error rfl
  exact hfile.bind fun _ _ => .ok _

/-! ### Encoding -/

namespace MappingsText

theorem reports_encode (values : List Int) : Reports (Vlq.encode values) := by
  rcases Vlq.encode_cases values with ⟨-, text, htext⟩ | ⟨v, -, -, hfault⟩
  · rw [htext]
    exact .ok _
  · rw [hfault]
    exact .error rfl

theorem reports_writeSegments (cursor : Cursor) (segments : List Segment) :
    Reports (writeSegments cursor segments) := by
  induction segments generalizing cursor with
  | nil => exact .ok _
  | cons segment rest ih =>
    rw [writeSegments_cons]
    refine (reports_encode _).bind fun piece _ => ?_
    exact (ih _).bind fun others _ => .ok _

theorem reports_writeLines (cursor : Cursor) (lines : List (List Segment)) :
    Reports (writeLines cursor lines) := by
  induction lines generalizing cursor with
  | nil => exact .ok _
  | cons segments rest ih =>
    refine (reports_writeSegments _ segments).bind fun pieces _ => ?_
    exact (ih _).bind fun others _ => .ok _

end MappingsText

/-- Mappings from registered sources, on lines that are there, can be placed; what their numbers do
not fit in is reported. -/
theorem Index.reports_encode {index : Index} (options : EncodeOptions)
    (surroundings : Surroundings)
    (registered : ∀ m ∈ index.mappings, m.source ∈ index.registry.sources)
    (lines : ∀ m ∈ index.mappings, 0 ≤ m.generatedLine) :
    Reports (index.encode options surroundings) := by
  rw [encode, Index.segmentLines_eq {} registered lines, ok_bind]
  refine FailsOnly.bind ?_ fun mappings _ => .ok _
  exact (MappingsText.reports_writeLines _ _).bind fun spelled _ => .ok _

end SourceMaps
