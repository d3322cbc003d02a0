import SourceMaps.Proofs.Compose
import SourceMaps.Proofs.RoundTrip

/-!
# Merging maps

Two maps are merged by decoding both into reverse indexes, composing these and encoding the result.
Read back, the merged map has at each generated position what tracing its origins in the second map
on through the first one gives, however the stages in between order and group the mappings.

## Main definitions

* `ForwardIndex.traced`: the origins of a position, traced through two maps.

## Main statements

* `flatMap_filter_map_perm`: related pairs are the same from either side.
* `ReverseIndex.mappings_compose_perm`: the mappings of a composition, as pairs.
* `ReverseIndex.lookup_merged`: the origins that a merged map gives.
-/

namespace SourceMaps

theorem map_filter_cons {α β : Type} (p : α → Bool) (f : α → β) (a : α) (rest : List α) :
    ((a :: rest).filter p).map f = (if p a then [f a] else []) ++ (rest.filter p).map f := by
  by_cases ha : p a = true
  · rw [List.filter_cons_of_pos ha, if_pos ha]
    rfl
  · rw [List.filter_cons_of_neg ha, if_neg ha]
    rfl

theorem map_filter_eq_flatMap {α β : Type} (p : α → Bool) (f : α → β) (items : List α) :
    (items.filter p).map f = items.flatMap fun a => if p a then [f a] else [] := by
  induction items with
  | nil => rfl
  | cons a rest ih => rw [map_filter_cons, ih, List.flatMap_cons]

/-- What two lists give in related pairs is the same whichever list leads, up to the order. -/
theorem flatMap_filter_map_perm {α β γ : Type} (xs : List α) (ys : List β)
    (related : α → β → Bool) (f : α → β → γ) :
    (xs.flatMap fun x => (ys.filter (related x)).map (f x)).Perm
      (ys.flatMap fun y => (xs.filter (related · y)).map (f · y)) := by
  induction xs with
  | nil => simp
  | cons x xs ih =>
    have hsplit : (fun y => ((x :: xs).filter (related · y)).map (f · y)) = fun y =>
        (if related x y then [f x y] else []) ++ (xs.filter (related · y)).map (f · y) := by
      funext y
      exact map_filter_cons _ _ x xs
    rw [List.flatMap_cons, map_filter_eq_flatMap, hsplit]
    exact (ih.append_left _).trans (List.flatMap_append_perm ys _ _)

/-- The origin of the file between, for a position that came from there: a name of the position goes
before that of the origin. -/
def OriginalPosition.via (p q : OriginalPosition) : OriginalPosition :=
  { q with name := p.name.or q.name }

/-- The origins of a generated position that came from the file between, traced on through the map
that the file between was generated with. -/
def ForwardIndex.traced (first second : ForwardIndex) (between : Text) (line column : Int) :
    List OriginalPosition :=
  ((second.lookup line column).filter (·.source = between)).flatMap fun p =>
    (first.lookup p.line p.column).map p.via

namespace ReverseIndex

/-- The mappings of a composition are the related pairs of mappings. -/
theorem mappings_compose_perm (sources sources' : List Text) (mappings mappings' : List Mapping)
    (between : Text) :
    ((ofMappings sources mappings).through
      (((ofMappings sources' mappings').file? between).getD ∅)).mappings.Perm
        (mappings.flatMap fun m =>
          (mappings'.filter (·.origin = (between, m.generatedLine, m.generatedColumn))).map
            fun n => m.led n.generated) := by
  rw [mappings_through, mappings_ofMappings]
  simp only [← lookup_eq_file?, lookup_ofMappings, List.map_map]
  exact (sortOn_perm _ _).flatMap_right _

/-- The origins of a place among the related pairs are those that tracing gives. -/
theorem origins_perm_traced (sources sources' : List Text) (mappings mappings' : List Mapping)
    (between : Text) (line column : Int) :
    (((mappings.flatMap fun m =>
      (mappings'.filter (·.origin = (between, m.generatedLine, m.generatedColumn))).map
        fun n => m.led n.generated).filter (·.place = toLex (line, column))).map (·.original)).Perm
      (ForwardIndex.traced (.ofMappings sources mappings) (.ofMappings sources' mappings')
        between line column) := by
  -- A pair belongs to the place if its second mapping does, whichever mapping is chosen first.
  have hrelated (m : Mapping) :
      (mappings'.filter (·.origin = (between, m.generatedLine, m.generatedColumn))).filter
          (·.place = toLex (line, column)) =
        ((mappings'.filter (·.place = toLex (line, column))).filter (·.source = between)).filter
          (fun n => m.place = toLex (n.line, n.column)) := by
    simp only [List.filter_filter, ← Bool.decide_and]
    refine List.filter_congr fun n _ => decide_eq_decide.mpr ?_
    simp only [Mapping.origin, Prod.mk.injEq, Mapping.place_eq_iff]
    constructor
    · rintro ⟨hplace, hsource, hline, hcolumn⟩
      exact ⟨⟨hline.symm, hcolumn.symm⟩, hsource, hplace⟩
    · rintro ⟨⟨hline, hcolumn⟩, hsource, hplace⟩
      exact ⟨hplace, hsource, hline.symm, hcolumn.symm⟩
  have hpairs : ((mappings.flatMap fun m =>
      (mappings'.filter (·.origin = (between, m.generatedLine, m.generatedColumn))).map
        fun n => m.led n.generated).filter (·.place = toLex (line, column))).map (·.original) =
      mappings.flatMap fun m =>
        (((mappings'.filter (·.place = toLex (line, column))).filter
          (·.source = between)).filter (fun n => m.place = toLex (n.line, n.column))).map
            fun n => n.original.via m.original := by
    rw [List.filter_flatMap, List.map_flatMap]
    congr 1
    funext m
    rw [← hrelated, List.filter_map, List.map_map]
    rfl
  have htraced : ForwardIndex.traced (.ofMappings sources mappings) (.ofMappings sources' mappings')
      between line column =
        ((mappings'.filter (·.place = toLex (line, column))).filter (·.source = between)).flatMap
          fun n => (mappings.filter (fun m => m.place = toLex (n.line, n.column))).map
            fun m => n.original.via m.original := by
    simp only [ForwardIndex.traced, ForwardIndex.lookup_ofMappings, List.filter_map,
      List.flatMap_map, List.map_map]
    rfl
  rw [hpairs, htraced]
  exact flatMap_filter_map_perm mappings _ _ _

/-- Two maps that can be decoded are merged through any file between. The merged map, written with
options that leave lines and sources as they are, has the sources of the first map, and reading it
back gives at each generated position the origins that tracing through both maps gives, each as
often as there are ways to it. -/
theorem lookup_merged {first second : SourceMap} {forward forward' : ForwardIndex}
    (hfirst : ForwardIndex.ofMap first = .ok forward)
    (hsecond : ForwardIndex.ofMap second = .ok forward') (between : Text)
    {options : EncodeOptions} (faithful : options.Faithful) (surroundings : Surroundings) :
    ∃ reverse reverse' composed, ofMap first = .ok reverse ∧ ofMap second = .ok reverse' ∧
      reverse.compose reverse' (some between) = .ok composed ∧
      ∀ merged, (Index.reverse composed).encode options surroundings = .ok merged →
        merged.sources = first.sources.map (fun s => some (s.getD [])) ∧
        ∃ read, ForwardIndex.ofMap merged = .ok read ∧
          ∀ line column, (read.lookup line column).Perm
            (forward.traced forward' between line column) := by
  obtain ⟨mappings, hmappings, rfl⟩ := map_eq_ok_iff.mp hfirst
  obtain ⟨mappings', hmappings', rfl⟩ := map_eq_ok_iff.mp hsecond
  let reverse := ofMappings first.sourceNames mappings
  let reverse' := ofMappings second.sourceNames mappings'
  let composed := reverse.through ((reverse'.file? between).getD ∅)
  have hreverse : ofMap first = .ok reverse := by rw [ofMap, hmappings, map_ok]
  have hreverse' : ofMap second = .ok reverse' := by rw [ofMap, hmappings', map_ok]
  have hpairs := mappings_compose_perm first.sourceNames second.sourceNames mappings mappings'
    between
  have hlines : ∀ m ∈ composed.mappings, 0 ≤ m.generatedLine := by
    intro m hm
    obtain ⟨m₁, -, hm⟩ := List.mem_flatMap.mp (hpairs.mem_iff.mp hm)
    obtain ⟨m₂, hm₂, rfl⟩ := List.mem_map.mp hm
    exact (SourceMap.mapping_of_resolved hmappings' m₂ (List.mem_filter.mp hm₂).1).2
  have hnames : composed.registry.sources = first.sourceNames := by
    rw [registry_through, registry_ofMappings, SourceMap.registerAll_resolved hmappings]
  refine ⟨reverse, reverse', composed, hreverse, hreverse', rfl, fun merged written => ?_⟩
  have hread := (Index.reverse composed).ofMap_of_encode composed.registered_mappings hlines written
  refine ⟨?_, _, hread, ?_⟩
  · rw [Index.sources_of_encode written]
    simp only [faithful.nameSource_eq]
    show composed.registry.sources.map some = _
    rw [hnames, SourceMap.sourceNames, List.map_map]
    rfl
  · intro line column
    have hcarried : options.carried surroundings = id := funext (faithful.carried_eq surroundings)
    rw [ForwardIndex.lookup_ofMappings, hcarried, List.map_id]
    have hsorted : ((sortOn Mapping.place composed.mappings).filter
        (·.place = toLex (line, column))).Perm
          (composed.mappings.filter (·.place = toLex (line, column))) :=
      (sortOn_perm _ _).filter _
    exact ((hsorted.trans (hpairs.filter _)).map _).trans
      (origins_perm_traced _ _ mappings mappings' between line column)

/-- A first stage: one position of the file between has two origins, one of them without a name. -/
def translated : SourceMap :=
  { sources := [some "a", none], names := ["x"], mappings := "AAAAA,ACAA" }

/-- A second stage: two positions come from one of the file between, a third from another file. -/
def minified : SourceMap :=
  { sources := [some "mid", some "other"], names := ["n"], mappings := "AAAA,EAAAA,ECAA" }

theorem lookup_merged_minified :
    ∃ (reverse reverse' composed : ReverseIndex) (merged : SourceMap) (read : ForwardIndex),
    ofMap translated = .ok reverse ∧ ofMap minified = .ok reverse' ∧
    reverse.compose reverse' (some "mid") = .ok composed ∧
    (Index.reverse composed).encode { verbatim := true } {} = .ok merged ∧
    merged.sources = [some ("a" : Text), some ("" : Text)] ∧ ForwardIndex.ofMap merged = .ok read ∧
    (read.lookup 0 0).Perm [⟨"a", 0, 0, some "x"⟩, ⟨"", 0, 0, none⟩] ∧
    (read.lookup 0 2).Perm [⟨"a", 0, 0, some "n"⟩, ⟨"", 0, 0, some "n"⟩] ∧
    read.lookup 0 4 = [] := by
  have hfirst : translated.resolved =
      .ok [⟨0, 0, "a", 0, 0, some "x"⟩, ⟨0, 0, "", 0, 0, none⟩] := by cbv
  have hsecond : minified.resolved = .ok [⟨0, 0, "mid", 0, 0, none⟩,
      ⟨0, 2, "mid", 0, 0, some "n"⟩, ⟨0, 4, "other", 0, 0, none⟩] := by cbv
  have hwritten : (do
      let reverse ← ofMap translated
      let reverse' ← ofMap minified
      let composed ← reverse.compose reverse' (some "mid")
      (Index.reverse composed).encode { verbatim := true } {}) = .ok {
        sources := [some "a", some ""]
        names := ["x", "n"]
        mappings := "AAAAA,ACAA,EDAAC,ACAAA" } := by cbv
  have faithful : EncodeOptions.Faithful { verbatim := true } := ⟨rfl, rfl, le_refl _⟩
  obtain ⟨reverse, reverse', composed, hreverse, hreverse', hcomposed, hmerged⟩ :=
    lookup_merged (congrArg (ForwardIndex.ofMappings translated.sourceNames <$> ·) hfirst)
      (congrArg (ForwardIndex.ofMappings minified.sourceNames <$> ·) hsecond) "mid" faithful {}
  rw [hreverse, ok_bind, hreverse', ok_bind, hcomposed, ok_bind] at hwritten
  obtain ⟨hsources, read, hread, hlookup⟩ := hmerged _ hwritten
  refine ⟨reverse, reverse', composed, _, read, hreverse, hreverse', hcomposed, hwritten, hsources,
    hread, hlookup 0 0, hlookup 0 2, ?_⟩
  exact (hlookup 0 4).eq_nil

end ReverseIndex

end SourceMaps
