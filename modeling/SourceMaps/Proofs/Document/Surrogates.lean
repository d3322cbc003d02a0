import SourceMaps.Proofs.Document

/-!
# Map documents with surrogates

The JSON text of a map spells a high surrogate right before a low one like the code point that the
two make up. So every map of version 3 can be written, and what is read back is the map with such
neighbours joined in all its texts.

## Main definitions

* `SourceMap.paired`: the map with its surrogates joined.

## Main statements

* `SourceMap.render_paired`: it is written like the map.
* `SourceMap.ofBytes_render`: it is what is read back.
-/

namespace SourceMaps

namespace Json

variable {layout : Layout} {depth : Nat}

theorem writeAt_text_paired (t : Text) :
    writeAt layout depth (.text t.paired) = writeAt layout depth (.text t) := by
  rw [writeAt, writeAt, Text.jsonQuoted, Text.jsonQuoted, flatMap_jsonEscaped_paired]

theorem writeAt_list_map_congr {α : Type} {f g : α → Json}
    (h : ∀ a, writeAt layout (depth + 1) (f a) = writeAt layout (depth + 1) (g a))
    (items : List α) :
    writeAt layout depth (.list (items.map f)) = writeAt layout depth (.list (items.map g)) := by
  rw [writeAt, writeAt, writeItems_eq_map, writeItems_eq_map, List.map_map, List.map_map]
  exact congrArg _ (List.map_congr_left fun a _ => h a)

end Json

namespace SourceMap

variable {map : SourceMap}

/-- The map with each high surrogate joined to the low one right behind it. -/
def paired (map : SourceMap) : SourceMap where
  sources := map.sources.map (Option.map Text.paired)
  names := map.names.map Text.paired
  mappings := map.mappings.paired
  file := map.file.map Text.paired
  sourceRoot := map.sourceRoot.map Text.paired
  sourcesContent := map.sourcesContent.map (List.map (Option.map Text.paired))
  lineCount := map.lineCount
  version := map.version

theorem isSettled_of_mem_map_paired {text : Option Text} {t : Text}
    (h : t ∈ text.map Text.paired) : t.IsSettled := by
  obtain ⟨s, -, rfl⟩ := Option.mem_map.mp h
  exact s.isSettled_paired

theorem isSettled_of_mem_texts {texts : List (Option Text)} :
    ∀ text ∈ texts.map (Option.map Text.paired), ∀ t ∈ text, t.IsSettled := by
  intro text htext t ht
  obtain ⟨source, -, rfl⟩ := List.mem_map.mp htext
  exact isSettled_of_mem_map_paired ht

theorem isSettled_paired (map : SourceMap) : map.paired.AllTexts Text.IsSettled where
  sources := isSettled_of_mem_texts
  names name hname := by
    obtain ⟨t, -, rfl⟩ := List.mem_map.mp hname
    exact t.isSettled_paired
  mappings := map.mappings.isSettled_paired
  file _ ht := isSettled_of_mem_map_paired ht
  sourceRoot _ ht := isSettled_of_mem_map_paired ht
  sourcesContent contents hcontents := by
    obtain ⟨texts, -, rfl⟩ := Option.mem_map.mp hcontents
    exact isSettled_of_mem_texts

/-! ### What joining changes -/

theorem map_paired_eq_self_iff {text : Option Text} :
    text.map Text.paired = text ↔ ∀ t ∈ text, t.IsSettled := by
  cases text with
  | none => simp
  | some t => simp [Text.paired_eq_self_iff]

theorem map_paired_texts_eq_self_iff {texts : List (Option Text)} :
    texts.map (Option.map Text.paired) = texts ↔ ∀ text ∈ texts, ∀ t ∈ text, t.IsSettled := by
  have h := List.map_inj_left (l := texts) (f := Option.map Text.paired) (g := id)
  rw [List.map_id] at h
  exact h.trans (forall₂_congr fun _ _ => map_paired_eq_self_iff)

/-! ### Writing -/

section Writing

variable (layout : Json.Layout) (depth : Nat)

theorem writeAt_textOrNull_paired (text : Option Text) :
    Json.writeAt layout depth (textOrNull (text.map Text.paired)) =
      Json.writeAt layout depth (textOrNull text) := by
  cases text with
  | none => rfl
  | some t => exact Json.writeAt_text_paired t

theorem writeAt_texts_paired (texts : List (Option Text)) :
    Json.writeAt layout depth (.list ((texts.map (Option.map Text.paired)).map textOrNull)) =
      Json.writeAt layout depth (.list (texts.map textOrNull)) := by
  rw [List.map_map]
  exact Json.writeAt_list_map_congr (writeAt_textOrNull_paired layout (depth + 1)) texts

theorem writeAt_names_paired (names : List Text) :
    Json.writeAt layout depth (.list ((names.map Text.paired).map .text)) =
      Json.writeAt layout depth (.list (names.map .text)) := by
  rw [List.map_map]
  exact Json.writeAt_list_map_congr (fun _ => Json.writeAt_text_paired _) names

/-- The spelling of a field that may be unset. -/
def spelledField (field : Text × Option Json) : Option Text :=
  (field.2.map (Json.writeAt layout depth)).map (field.1.jsonQuoted ++ layout.colon ++ ·)

theorem writeFields_setFields (fields : List (Text × Option Json)) :
    Json.writeFields layout depth (setFields fields) =
      (fields.map (spelledField layout depth)).filterMap id := by
  rw [Json.writeFields_eq_map, setFields, List.map_filterMap, List.filterMap_map]
  refine List.filterMap_congr fun field _ => ?_
  rw [Option.map_map, Function.comp_apply, id_eq, spelledField, Option.map_map]
  rfl

theorem map_spelledField_paired (map : SourceMap) :
    map.paired.fieldsOf.map (spelledField layout depth) =
      map.fieldsOf.map (spelledField layout depth) := by
  simp only [fieldsOf, paired, List.map_cons, List.map_nil, spelledField, Option.map_some,
    Option.map_map, Function.comp_def, writeAt_textOrNull_paired, writeAt_texts_paired,
    writeAt_names_paired, Json.writeAt_text_paired]

end Writing

/-- A map is written like the one with its surrogates joined. -/
theorem render_paired (map : SourceMap) (layout : Json.Layout) :
    map.paired.render layout = map.render layout := by
  rw [render, render, toJson_eq, toJson_eq, Json.write, Json.write, Json.writeAt, Json.writeAt,
    writeFields_setFields, writeFields_setFields, map_spelledField_paired]

/-- The bytes of a written map of version 3 are read back with the surrogates joined, also with
blanks behind them. -/
theorem ofBytes_render (version : map.version = 3)
    (lineCount : ∀ i ∈ map.lineCount, Json.FewDigits i) (layout : Json.Layout) {blanks : Text}
    (hblanks : ∀ c ∈ blanks, Json.isBlank c = true) :
    ofBytes (Utf8.encode (map.render layout ++ blanks)) = .ok map.paired := by
  rw [← render_paired]
  exact ofBytes_of_legible (legible_of_isSettled map.isSettled_paired version lineCount) version
    layout hblanks

end SourceMap

end SourceMaps
