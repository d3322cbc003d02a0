import Mathlib.Algebra.Order.Field.Rat
import Mathlib.Tactic.NormNum
import SourceMaps.Proofs.Document

/-!
# Map documents: which values are maps

What a JSON value must be to be read as a map, as a table of conditions: an object of version 3
without sections, whose other fields have the shapes that the table gives. The conditions say
nothing of how a value is read. They are checked in the order of the table, and a value that is
refused is refused for the first of them that it breaks.

## Main definitions

* `Json.number?`: the rational number that a value is.
* `SourceMap.Shape`, `SourceMap.Condition`: what the fields hold, and what the value must meet.
* `SourceMap.conditions`: the table.
* `SourceMap.FirstFails`: the fault of the first condition that fails.
* `SourceMap.IsReadFrom`: the map that a value stands for.

## Main statements

* `SourceMap.checks_ofJson`: reading a value checks the conditions of the table.
* `SourceMap.ofJson_exact`: the values that are read, the faults of the others, and what the map
  depends on.
-/

namespace SourceMaps

/-! ### Numbers -/

/-- The rational number that a binary64 number is, if it is one. -/
def Double.value? : Double → Option ℚ
  | .finite negative significand exponent =>
    some ((if negative then -1 else 1) * significand * 2 ^ exponent)
  | _ => none

/-- The rational number that a value is. Truth values are none. -/
def Json.number? : Json → Option ℚ
  | .int i => some i
  | .double x => x.value?
  | _ => none

theorem Double.ratio_spec (significand : Nat) (exponent : Int) :
    ((ratio significand exponent).1 : ℚ) =
        significand * 2 ^ exponent * (ratio significand exponent).2 ∧
      ((ratio significand exponent).2 : ℚ) ≠ 0 := by
  unfold ratio
  split
  · next h =>
    obtain ⟨k, rfl⟩ := Int.eq_ofNat_of_zero_le h
    simp [Nat.shiftLeft_eq]
  · next h =>
    obtain ⟨k, hk⟩ := Int.eq_ofNat_of_zero_le (show 0 ≤ -exponent by omega)
    obtain rfl : exponent = -k := by omega
    simp [Nat.shiftLeft_eq]

theorem Double.equalsInt_iff {x : Double} {i : Int} :
    x.equalsInt i = true ↔ x.value? = some (i : ℚ) := by
  cases x with
  | infinite negative => simp [equalsInt, value?]
  | nan => simp [equalsInt, value?]
  | finite negative significand exponent =>
    obtain ⟨hvalue, hne⟩ := ratio_spec significand exponent
    have hcast : ∀ n : ℤ, (n = i * (ratio significand exponent).2) ↔
        (n : ℚ) = i * (ratio significand exponent).2 := by
      intro n
      exact_mod_cast Iff.rfl
    simp only [equalsInt, value?, beq_iff_eq, hcast, Option.some.injEq]
    cases negative with
    | false =>
      simp only [Bool.false_eq_true, if_false, Int.cast_natCast, hvalue, one_mul]
      exact mul_left_inj' hne
    | true =>
      simp only [if_true, Int.cast_neg, Int.cast_natCast, hvalue, neg_mul, one_mul]
      rw [← neg_mul]
      exact mul_left_inj' hne

namespace SourceMap

theorem isThree_iff {version : Json} : isThree version = true ↔ version.number? = some 3 := by
  cases version with
  | int i =>
    rw [isThree, Json.number?, decide_eq_true_iff, Option.some.injEq]
    norm_cast
  | double x =>
    rw [isThree, Json.number?, Double.equalsInt_iff]
    norm_num
  | _ => simp [isThree, Json.number?]

theorem isObject_iff {value : Json} : isObject value = true ↔ ∃ fields, value = .object fields := by
  cases value with
  | object fields => exact ⟨fun _ => ⟨fields, rfl⟩, fun _ => rfl⟩
  | _ => exact ⟨nofun, nofun⟩

/-! ### Conditions -/

/-- What a field holds. -/
inductive Shape where
  | text
  | integer
  /-- A list of texts, and of nulls where they are allowed. -/
  | texts (nulls : Bool)

/-- The items of a list of texts. -/
def IsItem (nulls : Bool) (item : Json) : Prop :=
  (∃ t, item = .text t) ∨ (nulls = true ∧ item = .null)

/-- The values of a shape. -/
def Shape.Fits : Shape → Json → Prop
  | .text, found => ∃ t, found = .text t
  | .integer, found => ∃ i, found = .int i
  | .texts nulls, found => ∃ items, found = .list items ∧ ∀ item ∈ items, IsItem nulls item

/-- The fault of a field whose value is not of the shape. A list is faulty for the first item that
is wrong. -/
inductive Shape.Misfits (field : Text) : Shape → Json → Fault → Prop
  | text {found : Json} : (∀ t, found ≠ .text t) → Misfits field .text found (.notText field)
  | integer {found : Json} :
    (∀ i, found ≠ .int i) → Misfits field .integer found (.notInteger field)
  | list {nulls : Bool} {found : Json} :
    (∀ items, found ≠ .list items) → Misfits field (.texts nulls) found (.notList field)
  | item {nulls : Bool} {before after : List Json} {found : Json} :
    (∀ item ∈ before, IsItem nulls item) → ¬IsItem nulls found →
      Misfits field (.texts nulls) (.list (before ++ found :: after)) (.notTexts field found)

/-- A condition on the value of a map. -/
inductive Condition where
  | isObject
  | isVersionThree
  | hasNoSections
  /-- A field is missing or of a shape, or null where that is allowed. -/
  | field (name : Text) (shape : Shape) (nullable : Bool)

namespace Condition

/-- Values that meet a condition. -/
def Holds (value : Json) : Condition → Prop
  | .isObject => ∃ fields, value = .object fields
  | .isVersionThree => ∃ version, value.field? "version" = some version ∧ version.number? = some 3
  | .hasNoSections => value.field? "sections" = none
  | .field name shape nullable =>
    ∀ found, value.field? name = some found → (nullable = true ∧ found = .null) ∨ shape.Fits found

/-- The fault of a value that does not meet a condition. -/
inductive FailsWith (value : Json) : Condition → Fault → Prop
  | isObject : (∀ fields, value ≠ .object fields) → FailsWith value .isObject .notAnObject
  | isVersionThree :
    (∀ version, value.field? "version" = some version → version.number? ≠ some 3) →
      FailsWith value .isVersionThree (.version ((value.field? "version").getD .null))
  | hasNoSections {found : Json} :
    value.field? "sections" = some found → FailsWith value .hasNoSections .sections
  | field {name : Text} {shape : Shape} {nullable : Bool} {found : Json} {fault : Fault} :
    value.field? name = some found → ¬(nullable = true ∧ found = .null) →
      shape.Misfits name found fault → FailsWith value (.field name shape nullable) fault

end Condition

/-- The conditions in the order in which they are checked. -/
def conditions : List Condition :=
  [.isObject, .isVersionThree, .hasNoSections,
    .field "mappings" .text false,
    .field "file" .text true,
    .field "sourceRoot" .text true,
    .field "sourcesContent" (.texts true) true,
    .field "lineCount" .integer true,
    .field "sources" (.texts true) false,
    .field "names" (.texts false) false]

/-- The fields that the conditions are about. -/
def keys : List Text :=
  ["version", "sections", "mappings", "file", "sourceRoot", "sourcesContent", "lineCount",
    "sources", "names"]

/-- The first of the conditions that fails does so with this fault. -/
inductive FirstFails (value : Json) : List Condition → Fault → Prop
  | here {c : Condition} {cs : List Condition} {fault : Fault} :
    c.FailsWith value fault → FirstFails value (c :: cs) fault
  | later {c : Condition} {cs : List Condition} {fault : Fault} :
    c.Holds value → FirstFails value cs fault → FirstFails value (c :: cs) fault

/-- A list of texts as a value, or null. -/
def textsOrNull (texts : Option (List (Option Text))) : Json :=
  (texts.map fun items => .list (items.map textOrNull)).getD .null

/-- A number as a value, or null. -/
def integerOrNull (number : Option Int) : Json := (number.map .int).getD .null

/-- The map has the fields of the value, and what is missing there is empty or unset. -/
structure IsReadFrom (map : SourceMap) (value : Json) : Prop where
  version : map.version = 3
  mappings : (value.field? "mappings").getD (.text []) = .text map.mappings
  file : (value.field? "file").getD .null = textOrNull map.file
  sourceRoot : (value.field? "sourceRoot").getD .null = textOrNull map.sourceRoot
  sourcesContent : (value.field? "sourcesContent").getD .null = textsOrNull map.sourcesContent
  lineCount : (value.field? "lineCount").getD .null = integerOrNull map.lineCount
  sources : (value.field? "sources").getD (.list []) = .list (map.sources.map textOrNull)
  names : (value.field? "names").getD (.list []) = .list (map.names.map .text)

/-! ### A condition holds or fails, not both -/

variable {value found : Json} {field : Text} {fault fault' : Fault}

theorem Shape.Misfits.not_fits {shape : Shape} (h : shape.Misfits field found fault) :
    ¬shape.Fits found := by
  intro hfits
  cases h with
  | text h =>
    obtain ⟨t, ht⟩ := hfits
    exact h t ht
  | integer h =>
    obtain ⟨i, hi⟩ := hfits
    exact h i hi
  | list h =>
    obtain ⟨items, hitems, -⟩ := hfits
    exact h items hitems
  | item hbefore hfound =>
    obtain ⟨items, hitems, hall⟩ := hfits
    cases hitems
    exact hfound (hall _ (by simp))

open Classical in
/-- The first wrong item of a list is what a search for one finds. -/
theorem find?_wrong {nulls : Bool} {before : List Json} (after : List Json)
    (hbefore : ∀ item ∈ before, IsItem nulls item) (hfound : ¬IsItem nulls found) :
    (before ++ found :: after).find? (fun item => decide ¬IsItem nulls item) = some found := by
  refine List.find?_eq_some_iff_append.mpr ⟨by simpa using hfound, before, after, rfl, ?_⟩
  intro item hitem
  simpa using hbefore item hitem

theorem Shape.Misfits.unique {shape : Shape} (h : shape.Misfits field found fault)
    (h' : shape.Misfits field found fault') : fault = fault' := by
  cases h with
  | text => cases h'; rfl
  | integer => cases h'; rfl
  | list hlist =>
    cases h' with
    | list => rfl
    | item => exact absurd rfl (hlist _)
  | @item nulls before after bad hbefore hbad =>
    generalize hitems : before ++ bad :: after = items at h'
    have hfirst := find?_wrong after hbefore hbad
    rw [hitems] at hfirst
    cases h' with
    | list hlist => exact absurd rfl (hlist _)
    | item hbefore' hbad' =>
      rw [find?_wrong _ hbefore' hbad'] at hfirst
      cases hfirst
      rfl

theorem Condition.FailsWith.not_holds {c : Condition} (h : c.FailsWith value fault) :
    ¬c.Holds value := by
  intro hholds
  cases h with
  | isObject h =>
    obtain ⟨fields, hfields⟩ := hholds
    exact h fields hfields
  | isVersionThree h =>
    obtain ⟨version, hversion, hthree⟩ := hholds
    exact h version hversion hthree
  | hasNoSections h =>
    rw [Condition.Holds, h] at hholds
    cases hholds
  | field hfound hnull hmisfits =>
    rcases hholds _ hfound with hholds | hfits
    · exact hnull hholds
    · exact hmisfits.not_fits hfits

theorem Condition.FailsWith.unique {c : Condition} (h : c.FailsWith value fault)
    (h' : c.FailsWith value fault') : fault = fault' := by
  cases h with
  | isObject => cases h'; rfl
  | isVersionThree => cases h'; rfl
  | hasNoSections => cases h'; rfl
  | field hfound _ hmisfits =>
    cases h' with
    | field hfound' _ hmisfits' =>
      rw [hfound] at hfound'
      cases hfound'
      exact hmisfits.unique hmisfits'

theorem FirstFails.not_holds {cs : List Condition} (h : FirstFails value cs fault) :
    ¬∀ c ∈ cs, c.Holds value := by
  intro hall
  induction h with
  | here hfails => exact hfails.not_holds (hall _ List.mem_cons_self)
  | later _ _ ih => exact ih fun c hc => hall c (List.mem_cons_of_mem _ hc)

theorem FirstFails.unique {cs : List Condition} (h : FirstFails value cs fault)
    (h' : FirstFails value cs fault') : fault = fault' := by
  induction h with
  | here hfails =>
    cases h' with
    | here hfails' => exact hfails.unique hfails'
    | later hholds _ => exact absurd hholds hfails.not_holds
  | later hholds _ ih =>
    cases h' with
    | here hfails' => exact absurd hholds hfails'.not_holds
    | later _ h' => exact ih h'

theorem Condition.FailsWith.kind {c : Condition} (h : c.FailsWith value fault) :
    fault.kind = .format := by
  cases h with
  | isObject => rfl
  | isVersionThree => rfl
  | hasNoSections => rfl
  | field _ _ hmisfits => cases hmisfits <;> rfl

theorem FirstFails.kind {cs : List Condition} (h : FirstFails value cs fault) :
    fault.kind = .format := by
  induction h with
  | here hfails => exact hfails.kind
  | later _ _ ih => exact ih

/-! ### Steps that check conditions -/

variable {α β : Type}

/-- The step checks the conditions, in order, and returns what is read from the value. -/
def Checks (value : Json) (cs : List Condition) (Reads : α → Prop) : Except Fault α → Prop
  | .ok a => (∀ c ∈ cs, c.Holds value) ∧ Reads a
  | .error fault => FirstFails value cs fault

namespace Checks

variable {c : Condition} {cs : List Condition} {Reads : α → Prop} {x : Except Fault α}

theorem cons (hc : c.Holds value) (h : Checks value cs Reads x) : Checks value (c :: cs) Reads x := by
  cases x with
  | ok a => exact ⟨List.forall_mem_cons.mpr ⟨hc, h.1⟩, h.2⟩
  | error fault => exact .later hc h

/-- A step that checks one condition, and what follows. -/
theorem bind {Reads' : β → Prop} {f : α → Except Fault β} (hx : Checks value [c] Reads x)
    (hf : ∀ a, Reads a → Checks value cs Reads' (f a)) :
    Checks value (c :: cs) Reads' (x >>= f) := by
  cases x with
  | ok a => exact (hf a hx.2).cons (List.forall_mem_singleton.mp hx.1)
  | error fault =>
    cases hx with
    | here hfails => exact .here hfails
    | later _ hnil => cases hnil

theorem map {Reads' : β → Prop} {g : α → β} (h : Checks value cs Reads x)
    (hreads : ∀ a, Reads a → Reads' (g a)) : Checks value cs Reads' (g <$> x) := by
  cases x with
  | ok a => exact ⟨h.1, hreads a h.2⟩
  | error fault => exact h

theorem single {a : α} (hc : c.Holds value) (ha : Reads a) :
    Checks value [c] Reads (.ok a) :=
  ⟨List.forall_mem_singleton.mpr hc, ha⟩

theorem exists_ok_iff (h : Checks value cs Reads x) :
    (∃ a, x = .ok a) ↔ ∀ c ∈ cs, c.Holds value := by
  cases x with
  | ok a => exact ⟨fun _ => h.1, fun _ => ⟨a, rfl⟩⟩
  | error fault => exact ⟨nofun, fun hall => absurd hall h.not_holds⟩

theorem eq_error_iff (h : Checks value cs Reads x) :
    x = .error fault ↔ FirstFails value cs fault := by
  cases x with
  | ok a => exact ⟨nofun, fun hfails => absurd h.1 hfails.not_holds⟩
  | error fault' =>
    constructor
    · rintro ⟨⟩
      exact h
    · intro hfails
      rw [h.unique hfails]

end Checks

/-! ### The readers -/

theorem checks_readText (value : Json) (field : Text) :
    Checks value [.field field .text true]
      (fun text => (value.field? field).getD .null = textOrNull text) (readText value field) := by
  unfold readText
  split
  · next h => exact .single (by simp [Condition.Holds, h]) (by rw [h]; rfl)
  · next h => exact .single (by simp [Condition.Holds, h]) (by rw [h]; rfl)
  · next t h => exact .single (by simp [Condition.Holds, Shape.Fits, h]) (by rw [h]; rfl)
  · next hnull htext h => exact .here (.field h (fun hfound => hnull hfound.2) (.text htext))

theorem checks_readMappings (value : Json) :
    Checks value [.field "mappings" .text false]
      (fun text => (value.field? "mappings").getD (.text []) = .text text)
      (readMappings value) := by
  unfold readMappings
  split
  · next h => exact .single (by simp [Condition.Holds, h]) (by rw [h]; rfl)
  · next t h => exact .single (by simp [Condition.Holds, Shape.Fits, h]) (by rw [h]; rfl)
  · next htext h => exact .here (.field h (by simp) (.text htext))

theorem checks_readLineCount (value : Json) :
    Checks value [.field "lineCount" .integer true]
      (fun number => (value.field? "lineCount").getD .null = integerOrNull number)
      (readLineCount value) := by
  unfold readLineCount
  split
  · next h => exact .single (by simp [Condition.Holds, h]) (by rw [h]; rfl)
  · next h => exact .single (by simp [Condition.Holds, h]) (by rw [h]; rfl)
  · next i h => exact .single (by simp [Condition.Holds, Shape.Fits, h]) (by rw [h]; rfl)
  · next hnull hint h => exact .here (.field h (fun hfound => hnull hfound.2) (.integer hint))

theorem Shape.Misfits.cons {nulls : Bool} {item : Json} {items : List Json}
    (hitem : IsItem nulls item) (h : (texts nulls).Misfits field (.list items) fault) :
    (texts nulls).Misfits field (.list (item :: items)) fault := by
  generalize hlist : Json.list items = found at h
  cases h with
  | list hne => exact absurd hlist.symm (hne items)
  | @item _ before after bad hbefore hbad =>
    cases hlist
    have hall := List.forall_mem_cons.mpr ⟨hitem, hbefore⟩
    exact @Misfits.item field nulls (item :: before) after bad hall hbad

/-- The step returns the texts that the items are, or fails for the first item that is none. -/
def ReadsItems (field : Text) (nulls : Bool) (written : α → Json) (items : List Json) :
    Except Fault (List α) → Prop
  | .ok texts => items = texts.map written ∧ ∀ item ∈ items, IsItem nulls item
  | .error fault => (Shape.texts nulls).Misfits field (.list items) fault

namespace ReadsItems

variable {nulls : Bool} {written : α → Json} {items : List Json} {texts : Except Fault (List α)}

theorem cons {item : Json} {text : α} (hitem : IsItem nulls item) (hwritten : item = written text)
    (h : ReadsItems field nulls written items texts) :
    ReadsItems field nulls written (item :: items) ((text :: ·) <$> texts) := by
  cases texts with
  | ok texts => exact ⟨by rw [hwritten, h.1, List.map_cons], List.forall_mem_cons.mpr ⟨hitem, h.2⟩⟩
  | error fault => exact Shape.Misfits.cons hitem h

theorem refuse {item : Json} (h : ¬IsItem nulls item) (items : List Json) :
    ReadsItems field nulls written (item :: items) (.error (.notTexts field item)) :=
  @Shape.Misfits.item field nulls [] items item nofun h

end ReadsItems

theorem readsItems_readItems (field : Text) (items : List Json) :
    ReadsItems field false .text items (readItems field items) := by
  induction items with
  | nil => exact ⟨rfl, nofun⟩
  | cons item items ih =>
    cases item with
    | text t => exact ih.cons (.inl ⟨t, rfl⟩) rfl
    | _ => exact .refuse (by simp [IsItem]) items

theorem readsItems_readNullableItems (field : Text) (items : List Json) :
    ReadsItems field true textOrNull items (readNullableItems field items) := by
  induction items with
  | nil => exact ⟨rfl, nofun⟩
  | cons item items ih =>
    cases item with
    | text t => exact ih.cons (.inl ⟨t, rfl⟩) rfl
    | null => exact ih.cons (.inr ⟨rfl, rfl⟩) rfl
    | _ => exact .refuse (by simp [IsItem]) items

theorem ReadsItems.eq_of_nil {nulls : Bool} {written : α → Json} {texts : Except Fault (List α)}
    (h : ReadsItems field nulls written [] texts) : texts = .ok [] := by
  cases texts with
  | ok texts => rw [List.map_eq_nil_iff.mp h.1.symm]
  | error fault => exact absurd ⟨[], rfl, nofun⟩ (Shape.Misfits.not_fits h)

theorem Checks.items {nulls nullable : Bool} {written : α → Json} {items : List Json}
    {texts : Except Fault (List α)} (hfield : value.field? field = some (.list items))
    (h : ReadsItems field nulls written items texts) :
    Checks value [.field field (.texts nulls) nullable] (fun texts => items = texts.map written)
      texts := by
  cases texts with
  | ok texts =>
    refine .single (fun found hfound => .inr ⟨items, ?_, h.2⟩) h.1
    rw [hfield] at hfound
    exact (Option.some.inj hfound).symm
  | error fault => exact .here (.field hfield (by simp) h)

theorem holds_isVersionThree (h : isThree ((value.field? "version").getD .null) = true) :
    Condition.isVersionThree.Holds value := by
  cases hversion : value.field? "version" with
  | none =>
    rw [hversion] at h
    cases h
  | some version =>
    rw [hversion, Option.getD_some] at h
    exact ⟨version, hversion, isThree_iff.mp h⟩

/-- A list of texts is read by the reader of its items. -/
theorem checks_readList {nulls : Bool} {written : α → Json}
    {read : List Json → Except Fault (List α)}
    (hread : ∀ items, ReadsItems field nulls written items (read items)) (value : Json) :
    Checks value [.field field (.texts nulls) false]
      (fun texts => (value.field? field).getD (.list []) = .list (texts.map written))
      (readList value field >>= read) := by
  unfold readList
  split
  · next h =>
    rw [ok_bind, (hread []).eq_of_nil]
    exact .single (by simp [Condition.Holds, h]) (by rw [h]; rfl)
  · next items h =>
    rw [ok_bind, ← id_map (read items)]
    refine (Checks.items h (hread items)).map fun texts htexts => ?_
    rw [h, Option.getD_some, htexts, id]
  · next hlist h => exact .here (.field h (by simp) (.list hlist))

theorem checks_readContents (value : Json) :
    Checks value [.field "sourcesContent" (.texts true) true]
      (fun texts => (value.field? "sourcesContent").getD .null = textsOrNull texts)
      (readContents value) := by
  unfold readContents
  split
  · next h => exact .single (by simp [Condition.Holds, h]) (by rw [h]; rfl)
  · next h => exact .single (by simp [Condition.Holds, h]) (by rw [h]; rfl)
  · next found hnull h =>
    unfold readList
    rw [h]
    split
    · next hnone => cases hnone
    · next items hitems =>
      cases hitems
      rw [ok_bind, bind_pure_comp]
      refine (Checks.items h (readsItems_readNullableItems _ items)).map fun texts htexts => ?_
      rw [htexts]
      rfl
    · next hlist hfound =>
      cases hfound
      exact .here (.field h (fun hfound => hnull hfound.2) (.list hlist))

theorem checks_ofJson (value : Json) :
    Checks value conditions (fun map : SourceMap => map.IsReadFrom value) (ofJson value) := by
  unfold ofJson
  simp only
  split
  · next hobject =>
    refine .here (.isObject fun fields hfields => ?_)
    rw [isObject_iff.mpr ⟨fields, hfields⟩] at hobject
    cases hobject
  next hobject =>
  refine .cons (isObject_iff.mp (by simpa using hobject)) ?_
  split
  · next hthree =>
    refine .here (.isVersionThree fun version hversion hnumber => ?_)
    rw [hversion, Option.getD_some, isThree_iff.mpr hnumber] at hthree
    cases hthree
  next hthree =>
  refine .cons (holds_isVersionThree (by simpa using hthree)) ?_
  split
  · next hsections =>
    obtain ⟨found, hfound⟩ := Option.isSome_iff_exists.mp hsections
    exact .here (.hasNoSections hfound)
  next hsections =>
  refine .cons (Option.not_isSome_iff_eq_none.mp hsections) ?_
  refine (checks_readMappings value).bind fun mappings hmappings => ?_
  refine (checks_readText value _).bind fun file hfile => ?_
  refine (checks_readText value _).bind fun sourceRoot hroot => ?_
  refine (checks_readContents value).bind fun sourcesContent hcontents => ?_
  refine (checks_readLineCount value).bind fun lineCount hcount => ?_
  -- The items of a list are read right after the list.
  rw [← bind_assoc]
  refine (checks_readList (readsItems_readNullableItems _) value).bind fun sources hsources => ?_
  rw [← bind_assoc]
  refine (checks_readList (readsItems_readItems _) value).bind fun names hnames => ?_
  exact ⟨nofun, rfl, hmappings, hfile, hroot, hcontents, hcount, hsources, hnames⟩

/-! ### What the map depends on -/

theorem textOrNull_injective : Function.Injective textOrNull := by
  intro text text' h
  cases text <;> cases text' <;> cases h <;> rfl

theorem textsOrNull_injective : Function.Injective textsOrNull := by
  intro texts texts' h
  cases texts with
  | none =>
    cases texts' with
    | none => rfl
    | some items' => cases h
  | some items =>
    cases texts' with
    | none => cases h
    | some items' => exact congrArg some (textOrNull_injective.list_map (Json.list.inj h))

theorem integerOrNull_injective : Function.Injective integerOrNull := by
  intro number number' h
  cases number <;> cases number' <;> cases h <;> rfl

theorem IsReadFrom.unique {map map' : SourceMap} (h : map.IsReadFrom value)
    (h' : map'.IsReadFrom value) : map = map' := by
  obtain ⟨sources, names, mappings, file, sourceRoot, sourcesContent, lineCount, version⟩ := map
  obtain ⟨sources', names', mappings', file', sourceRoot', sourcesContent', lineCount', version'⟩ :=
    map'
  have hsources : sources = sources' :=
    textOrNull_injective.list_map (Json.list.inj (h.sources.symm.trans h'.sources))
  have hnames : names = names' :=
    List.map_injective_iff.mpr (fun _ _ => Json.text.inj)
      (Json.list.inj (h.names.symm.trans h'.names))
  have hmappings : mappings = mappings' := Json.text.inj (h.mappings.symm.trans h'.mappings)
  have hfile : file = file' := textOrNull_injective (h.file.symm.trans h'.file)
  have hroot : sourceRoot = sourceRoot' :=
    textOrNull_injective (h.sourceRoot.symm.trans h'.sourceRoot)
  have hcontents : sourcesContent = sourcesContent' :=
    textsOrNull_injective (h.sourcesContent.symm.trans h'.sourcesContent)
  have hcount : lineCount = lineCount' :=
    integerOrNull_injective (h.lineCount.symm.trans h'.lineCount)
  have hversion : version = version' := h.version.trans h'.version.symm
  subst hsources hnames hmappings hfile hroot hcontents hcount hversion
  rfl

theorem ofJson_congr {other : Json} (hobject : isObject other = isObject value)
    (h : ∀ key ∈ keys, other.field? key = value.field? key) : ofJson other = ofJson value := by
  simp only [keys, List.forall_mem_cons] at h
  obtain ⟨hversion, hsections, hmappings, hfile, hroot, hcontents, hcount, hsources, hnames, -⟩ := h
  simp only [ofJson, readMappings, readText, readContents, readLineCount, readList, hobject,
    hversion, hsections, hmappings, hfile, hroot, hcontents, hcount, hsources, hnames]

/-- A value is read if it meets the conditions, and refused for the first that it does not meet
otherwise. The map that is read holds the fields of the value and depends on no others, and it is
read again from its own object. -/
theorem ofJson_exact (value : Json) :
    ((∃ map, ofJson value = .ok map) ↔ ∀ c ∈ conditions, c.Holds value) ∧
    (∀ fault, ofJson value = .error fault ↔ FirstFails value conditions fault) ∧
    (∀ fault, FirstFails value conditions fault → fault.kind = .format) ∧
    ∀ map, ofJson value = .ok map →
      (∀ other, other.IsReadFrom value ↔ other = map) ∧
      (∀ fields, (∀ key ∈ keys, (Json.object fields).field? key = value.field? key) →
        ofJson (.object fields) = .ok map) ∧
      ofJson map.toJson = .ok map := by
  have hchecks := checks_ofJson value
  refine ⟨hchecks.exists_ok_iff, fun fault => hchecks.eq_error_iff, fun fault h => h.kind, ?_⟩
  intro map hmap
  rw [hmap] at hchecks
  obtain ⟨hall, hread⟩ := hchecks
  refine ⟨fun other => ⟨fun hother => hother.unique hread, ?_⟩, fun fields hfields => ?_,
    ofJson_toJson hread.version⟩
  · rintro rfl
    exact hread
  · obtain ⟨own, rfl⟩ := hall .isObject List.mem_cons_self
    rw [← hmap]
    exact ofJson_congr rfl hfields

/-- A map with version `3.0`, a null source, null contents and a field that no map has. -/
def legacy : Json :=
  .object [("version", .double (.finite false 0x18000000000000 (-51))), ("x", .bool true),
    ("sources", .list [.null, .text "b.js"]), ("mappings", .text "AAAA;ACAA"),
    ("sourcesContent", .null)]

/-- An object with a source that is no text and a number of lines that is no integer. The second is
checked first. -/
def misshapen : Json :=
  .object [("sources", .list [.null, .int 1]), ("version", .int 3),
    ("lineCount", .double (.finite false 0x18000000000000 (-51)))]

theorem ofJson_legacy :
    ofJson legacy = .ok { sources := [none, some "b.js"], names := [], mappings := "AAAA;ACAA" } ∧
    (∀ c ∈ conditions, c.Holds legacy) ∧
    FirstFails misshapen conditions (.notInteger "lineCount") ∧
    Fault.kind (.notInteger "lineCount") = .format := by
  have hread : ofJson legacy =
      .ok { sources := [none, some "b.js"], names := [], mappings := "AAAA;ACAA" } := rfl
  have hrefused : FirstFails misshapen conditions (.notInteger "lineCount") :=
    ((ofJson_exact misshapen).2.1 _).mp rfl
  exact ⟨hread, (ofJson_exact legacy).1.mp ⟨_, hread⟩, hrefused,
    (ofJson_exact misshapen).2.2.1 _ hrefused⟩

end SourceMap

end SourceMaps
