import SourceMaps.Document
import SourceMaps.Proofs.Json.Fields
import SourceMaps.Proofs.Json.RoundTrip
import SourceMaps.Proofs.Text.Utf8

/-!
# Map documents: reading what was written

The JSON object of a map has a field for everything that the map has and none for what is unset,
except that the file is null. Reading the object looks up the same fields, so it gives the map back,
and so do the text of the object and the bytes of that text.

## Main definitions

* `SourceMap.IsScalar`: the maps without surrogates in their texts.
* `SourceMap.Portable`: the maps that have a JSON form.
* `SourceMap.AllTexts`: a property of all texts of a map.

## Main statements

* `SourceMap.ofJson_toJson`: the object of a map is read back.
* `SourceMap.ofBytes_of_legible`: so are the bytes of its text, if the object can be read back.
* `SourceMap.ofText_render`: so are its text and the bytes of its text, in both layouts.
-/

namespace SourceMaps.SourceMap

/-- The texts of a list in which null is allowed hold no surrogates. -/
def AreScalar (texts : List (Option Text)) : Prop := ∀ text ∈ texts, ∀ t ∈ text, t.IsScalar

instance (texts : List (Option Text)) : Decidable (AreScalar texts) :=
  inferInstanceAs (Decidable (∀ text ∈ texts, ∀ t ∈ text, t.IsScalar))

/-- No text of the map holds a surrogate. -/
structure IsScalar (map : SourceMap) : Prop where
  sources : AreScalar map.sources
  names : ∀ name ∈ map.names, name.IsScalar
  mappings : map.mappings.IsScalar
  file : ∀ t ∈ map.file, t.IsScalar
  sourceRoot : ∀ t ∈ map.sourceRoot, t.IsScalar
  sourcesContent : ∀ contents ∈ map.sourcesContent, AreScalar contents

/-- The maps that have a JSON form: no text holds a surrogate, the version is the one that is read,
and the number of lines has no more digits than are read. -/
structure Portable (map : SourceMap) : Prop extends IsScalar map where
  version : map.version = 3
  lineCount : ∀ i ∈ map.lineCount, Json.FewDigits i

/-- All texts of the map have a property. -/
structure AllTexts (P : Text → Prop) (map : SourceMap) : Prop where
  sources : ∀ source ∈ map.sources, ∀ t ∈ source, P t
  names : ∀ name ∈ map.names, P name
  mappings : P map.mappings
  file : ∀ t ∈ map.file, P t
  sourceRoot : ∀ t ∈ map.sourceRoot, P t
  sourcesContent : ∀ contents ∈ map.sourcesContent, ∀ entry ∈ contents, ∀ t ∈ entry, P t

variable {map : SourceMap}

/-- Texts without surrogates have no pairs of them. -/
theorem IsScalar.isSettled (h : map.IsScalar) : map.AllTexts Text.IsSettled where
  sources source hsource t ht := (h.sources source hsource t ht).isSettled
  names name hname := (h.names name hname).isSettled
  mappings := h.mappings.isSettled
  file t ht := (h.file t ht).isSettled
  sourceRoot t ht := (h.sourceRoot t ht).isSettled
  sourcesContent contents hcontents entry hentry t ht :=
    (h.sourcesContent contents hcontents entry hentry t ht).isSettled

/-! ### The object -/

theorem legible_textOrNull {text : Option Text} (h : ∀ t ∈ text, t.IsSettled) :
    (textOrNull text).Legible := by
  cases text with
  | none => exact .null
  | some t => exact .text (h t rfl)

theorem legible_nullableList {texts : List (Option Text)}
    (h : ∀ text ∈ texts, ∀ t ∈ text, t.IsSettled) :
    (Json.list (texts.map textOrNull)).Legible := by
  refine .list fun item hitem => ?_
  obtain ⟨text, htext, rfl⟩ := List.mem_map.mp hitem
  exact legible_textOrNull (h text htext)

/-- The fields of a map, with those that may be unset. -/
def fieldsOf (map : SourceMap) : List (Text × Option Json) :=
  [("version", some (.int map.version)),
    ("file", some (textOrNull map.file)),
    ("sourceRoot", map.sourceRoot.map .text),
    ("sources", some (.list (map.sources.map textOrNull))),
    ("lineCount", map.lineCount.map .int),
    ("mappings", some (.text map.mappings)),
    ("names", some (.list (map.names.map .text))),
    ("sourcesContent", map.sourcesContent.map fun contents => .list (contents.map textOrNull))]

/-- The fields that are set. -/
def setFields (fields : List (Text × Option Json)) : List (Text × Json) :=
  fields.filterMap fun field => field.2.map (field.1, ·)

theorem toJson_eq (map : SourceMap) : map.toJson = .object (setFields map.fieldsOf) := by
  unfold toJson fieldsOf
  cases map.sourceRoot <;> cases map.lineCount <;> cases map.sourcesContent <;> rfl

theorem sublist_setFields (fields : List (Text × Option Json)) :
    ((setFields fields).map (·.1)).Sublist (fields.map (·.1)) := by
  induction fields with
  | nil => exact .slnil
  | cons field fields ih =>
    obtain ⟨name, value⟩ := field
    cases value with
    | none => exact ih.cons name
    | some value => exact ih.cons_cons name

theorem lookup_setFields {fields : List (Text × Option Json)} (h : (fields.map (·.1)).Nodup)
    (name : Text) : (setFields fields).lookup name = (fields.lookup name).join := by
  induction fields with
  | nil => rfl
  | cons field fields ih =>
    obtain ⟨first, value⟩ := field
    obtain ⟨hnotMem, hrest⟩ := List.nodup_cons.mp h
    have ih := ih hrest
    by_cases hname : name = first
    · subst hname
      cases value with
      | none =>
        -- No other field has the name of one that is unset.
        have hnone : (setFields fields).lookup name = none := by
          refine List.lookup_eq_none_iff.mpr fun field hfield => bne_iff_ne.mpr ?_
          rintro rfl
          exact hnotMem ((sublist_setFields fields).subset (List.mem_map_of_mem hfield))
        rw [List.lookup_cons_self]
        exact hnone
      | some value =>
        show List.lookup name ((name, value) :: setFields fields) = _
        rw [List.lookup_cons_self, List.lookup_cons_self, Option.join_some]
    · have hne : (name == first) = false := beq_eq_false_iff_ne.mpr hname
      rw [List.lookup_cons, hne]
      cases value with
      | none => exact ih
      | some value =>
        show List.lookup name ((first, value) :: setFields fields) = _
        rw [List.lookup_cons, hne]
        exact ih

theorem names_fieldsOf (map : SourceMap) : map.fieldsOf.map (·.1) =
    ["version", "file", "sourceRoot", "sources", "lineCount", "mappings", "names",
      "sourcesContent"] := rfl

theorem nodup_fieldsOf (map : SourceMap) : (map.fieldsOf.map (·.1)).Nodup := by
  rw [names_fieldsOf]
  decide

theorem field?_toJson (map : SourceMap) (name : Text) :
    map.toJson.field? name = (map.fieldsOf.lookup name).join := by
  rw [toJson_eq, Json.field?, lookup_setFields map.nodup_fieldsOf]

/-- The object of a map of version 3 can be read back, if no text has a high surrogate right before a
low one and the number of lines has few digits. -/
theorem legible_of_isSettled (h : map.AllTexts Text.IsSettled) (version : map.version = 3)
    (lineCount : ∀ i ∈ map.lineCount, Json.FewDigits i) : map.toJson.Legible := by
  have hversion : Json.FewDigits map.version := by
    rw [version, Json.FewDigits]
    show (Nat.digits 10 3).length ≤ _
    rw [Nat.digits_of_lt 10 3 (by decide) (by decide)]
    decide
  have hnames : (Json.list (map.names.map .text)).Legible := by
    refine .list fun item hitem => ?_
    obtain ⟨name, hname, rfl⟩ := List.mem_map.mp hitem
    exact .text (h.names name hname)
  have hfields : ∀ field ∈ map.fieldsOf, ∀ value ∈ field.2, value.Legible := by
    simp only [fieldsOf, List.forall_mem_cons, Option.mem_def, Option.some.injEq, forall_eq',
      Option.map_eq_some_iff, forall_exists_index, and_imp, forall_apply_eq_imp_iff₂,
      List.not_mem_nil, false_implies, implies_true, and_true]
    exact ⟨.int hversion, legible_textOrNull h.file, fun t ht => .text (h.sourceRoot t ht),
      legible_nullableList h.sources, fun i hi => .int (lineCount i hi), .text h.mappings,
      hnames, fun contents hcontents => legible_nullableList (h.sourcesContent contents hcontents)⟩
  rw [toJson_eq]
  refine .object ((sublist_setFields _).nodup map.nodup_fieldsOf) ?_ ?_
  · intro field hfield
    have hname := (sublist_setFields _).subset (List.mem_map_of_mem hfield)
    have hall : ∀ name ∈ map.fieldsOf.map (·.1), name.IsScalar := by
      rw [names_fieldsOf]
      decide
    exact hall field.1 hname
  · intro field hfield
    obtain ⟨source, hsource, hset⟩ := List.mem_filterMap.mp hfield
    obtain ⟨value, hvalue, rfl⟩ := Option.map_eq_some_iff.mp hset
    exact hfields source hsource value hvalue

theorem legible_toJson (h : map.Portable) : map.toJson.Legible :=
  legible_of_isSettled h.toIsScalar.isSettled h.version h.lineCount

/-! ### Reading the object -/

theorem readNullableItems_map (field : Text) (texts : List (Option Text)) :
    readNullableItems field (texts.map textOrNull) = .ok texts := by
  induction texts with
  | nil => rfl
  | cons text texts ih =>
    cases text with
    | none => rw [List.map_cons, textOrNull, readNullableItems, ih, map_ok]
    | some t => rw [List.map_cons, textOrNull, readNullableItems, ih, map_ok]

theorem readItems_map (field : Text) (texts : List Text) :
    readItems field (texts.map .text) = .ok texts := by
  induction texts with
  | nil => rfl
  | cons text texts ih => rw [List.map_cons, readItems, ih, map_ok]

theorem readText_toJson {field : Text} {text : Option Text}
    (h : map.toJson.field? field = some (textOrNull text) ∨
      map.toJson.field? field = text.map .text) :
    readText map.toJson field = .ok text := by
  unfold readText
  cases text with
  | none => rcases h with h | h <;> rw [h] <;> rfl
  | some t => rcases h with h | h <;> rw [h] <;> rfl

theorem readContents_toJson (map : SourceMap) :
    readContents map.toJson = .ok map.sourcesContent := by
  have hfield : map.toJson.field? "sourcesContent" =
      map.sourcesContent.map fun contents => .list (contents.map textOrNull) :=
    map.field?_toJson _
  rw [readContents, readList, hfield]
  cases map.sourcesContent with
  | none => rfl
  | some contents =>
    simp only [Option.map_some, ok_bind, readNullableItems_map]
    rfl

theorem readLineCount_toJson (map : SourceMap) :
    readLineCount map.toJson = .ok map.lineCount := by
  have hfield : map.toJson.field? "lineCount" = map.lineCount.map .int := map.field?_toJson _
  rw [readLineCount, hfield]
  cases map.lineCount <;> rfl

/-- The object of a map of version 3 is read back. -/
theorem ofJson_toJson (h : map.version = 3) : ofJson map.toJson = .ok map := by
  have hobject : isObject map.toJson = true := by
    rw [toJson_eq]
    rfl
  have hversion : map.toJson.field? "version" = some (.int 3) := by
    rw [← h]
    exact map.field?_toJson _
  have hsections : map.toJson.field? "sections" = none := map.field?_toJson _
  have hmappings : readMappings map.toJson = .ok map.mappings := by
    rw [readMappings, map.field?_toJson]
    rfl
  have hfile : readText map.toJson "file" = .ok map.file :=
    readText_toJson (.inl (map.field?_toJson _))
  have hroot : readText map.toJson "sourceRoot" = .ok map.sourceRoot :=
    readText_toJson (.inr (map.field?_toJson _))
  have hsources : readList map.toJson "sources" = .ok (map.sources.map textOrNull) := by
    rw [readList, map.field?_toJson]
    rfl
  have hnames : readList map.toJson "names" = .ok (map.names.map .text) := by
    rw [readList, map.field?_toJson]
    rfl
  rw [ofJson]
  simp only [hobject, hversion, hsections, hmappings, hfile, hroot, readContents_toJson,
    readLineCount_toJson, hsources, hnames, readNullableItems_map, readItems_map, ok_bind]
  have hself : { map with version := 3 } = map := by rw [← h]
  exact congrArg Except.ok hself

/-- Maps that are read have the version that is supported, and their number of lines is that of its
field. -/
theorem of_ofJson {value : Json} (h : ofJson value = .ok map) :
    map.version = 3 ∧ ∀ i ∈ map.lineCount, value.field? "lineCount" = some (.int i) := by
  unfold ofJson at h
  simp only at h
  split at h
  · cases h
  split at h
  · cases h
  split at h
  · cases h
  obtain ⟨mappings, -, h⟩ := bind_eq_ok_iff.mp h
  obtain ⟨file, -, h⟩ := bind_eq_ok_iff.mp h
  obtain ⟨sourceRoot, -, h⟩ := bind_eq_ok_iff.mp h
  obtain ⟨sourcesContent, -, h⟩ := bind_eq_ok_iff.mp h
  obtain ⟨lineCount, hcount, h⟩ := bind_eq_ok_iff.mp h
  obtain ⟨sourceItems, -, h⟩ := bind_eq_ok_iff.mp h
  obtain ⟨sources, -, h⟩ := bind_eq_ok_iff.mp h
  obtain ⟨nameItems, -, h⟩ := bind_eq_ok_iff.mp h
  obtain ⟨names, -, h⟩ := bind_eq_ok_iff.mp h
  cases h
  refine ⟨rfl, fun i hi => ?_⟩
  unfold readLineCount at hcount
  split at hcount
  · cases hcount
    cases hi
  · cases hcount
    cases hi
  · next hfield =>
    cases hcount
    cases hi
    exact hfield
  · cases hcount

/-! ### Text and bytes -/

theorem parse_render (h : map.Portable) (layout : Json.Layout) {blanks : Text}
    (hblanks : ∀ c ∈ blanks, Json.isBlank c = true) :
    Json.parse (map.render layout ++ blanks) = .ok map.toJson :=
  Json.parse_write (legible_toJson h) layout hblanks

theorem isAscii_render (h : map.Portable) (layout : Json.Layout) : (map.render layout).IsAscii :=
  (Json.denotes_writeAt (legible_toJson h) layout 0).ascii

/-- The bytes of a map whose object can be read back are read back, also with blanks behind them. -/
theorem ofBytes_of_legible (h : map.toJson.Legible) (version : map.version = 3)
    (layout : Json.Layout) {blanks : Text} (hblanks : ∀ c ∈ blanks, Json.isBlank c = true) :
    ofBytes (Utf8.encode (map.render layout ++ blanks)) = .ok map := by
  have hascii : (map.render layout ++ blanks).IsAscii :=
    Text.isAscii_append.mpr
      ⟨(Json.denotes_writeAt h layout 0).ascii, Json.isAscii_of_isBlank hblanks⟩
  have hparse : Json.parse (map.render layout ++ blanks) = .ok map.toJson :=
    Json.parse_write h layout hblanks
  rw [ofBytes, Json.decodeBytes_encode hascii]
  simp only [hparse]
  exact ofJson_toJson version

/-- The bytes of a written map are read back, also with blanks behind it. -/
theorem ofBytes_encode (h : map.Portable) (layout : Json.Layout) {blanks : Text}
    (hblanks : ∀ c ∈ blanks, Json.isBlank c = true) :
    ofBytes (Utf8.encode (map.render layout ++ blanks)) = .ok map :=
  ofBytes_of_legible (legible_toJson h) h.version layout hblanks

/-- Maps that are read have the version that is supported and a number of lines of few digits. -/
theorem of_ofBytes {bytes : Bytes} (h : ofBytes bytes = .ok map) :
    map.version = 3 ∧ ∀ i ∈ map.lineCount, Json.FewDigits i := by
  unfold ofBytes at h
  split at h
  · cases h
  · split at h
    · next value hvalue =>
      obtain ⟨hversion, hcount⟩ := of_ofJson h
      exact ⟨hversion, fun i hi => Json.fewDigits_of_parse hvalue (hcount i hi)⟩
    · cases h

/-- Maps that are read have a JSON form, if their texts hold no surrogates. -/
theorem portable_of_ofBytes {bytes : Bytes} (h : ofBytes bytes = .ok map) (scalar : map.IsScalar) :
    map.Portable := ⟨scalar, (of_ofBytes h).1, (of_ofBytes h).2⟩

/-- A map of version 3 whose texts hold no surrogates is read back from its text and from the bytes
of the text, in both layouts. -/
theorem ofText_ofBytes_render (h : map.Portable) (layout : Json.Layout) :
    ofText (map.render layout) = .ok map ∧
      ofBytes (Utf8.encode (map.render layout)) = .ok map := by
  have hblanks : ∀ c ∈ ([] : Text), Json.isBlank c = true := nofun
  have hparse := parse_render h layout hblanks
  have hbytes := ofBytes_encode h layout hblanks
  rw [List.append_nil] at hparse hbytes
  -- The text starts with an ASCII character, which is no byte order mark.
  have hmark : (map.render layout).head? ≠ some Json.byteOrderMark := by
    intro hhead
    have hlt := (isAscii_render h layout _ (List.mem_of_mem_head? hhead)).2
    exact absurd hlt (by decide)
  refine ⟨?_, hbytes⟩
  rw [ofText, Json.parseText, if_neg hmark, hparse]
  exact ofJson_toJson h.version

/-- A map with texts of all kinds: null, empty, past U+FFFF, with quotes and control characters. -/
def sampler : SourceMap where
  sources := [some "dir/ü.js", none, some "😀"]
  names := ["say \"hi\"", "back\\slash", ""]
  mappings := "AAAAA;;,ACDEC"
  file := some ""
  sourcesContent := some [some "one\n\ttwo\r\u0001", none]
  lineCount := some (-120)

theorem ofText_ofBytes_render_sampler :
    sampler.Portable ∧
    ofText (sampler.render .indented) = .ok sampler ∧
    ofBytes (Utf8.encode (sampler.render .indented)) = .ok sampler := by
  have hportable : sampler.Portable := {
    version := rfl
    sources := by decide
    names := by decide
    mappings := by decide
    file := by decide
    sourceRoot := by decide
    sourcesContent := by decide
    lineCount := by
      rintro i ⟨⟩
      simp [Json.FewDigits, Json.digitLimit] }
  exact ⟨hportable, ofText_ofBytes_render hportable .indented⟩

end SourceMaps.SourceMap
