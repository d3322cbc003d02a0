import Mathlib.Data.List.DropRight
import Mathlib.Data.List.Forall2
import SourceMaps.Proofs.Blob.Reading
import SourceMaps.Proofs.Text.Utf8
import SourceMaps.Zstd.Frame

/-!
# Blobs: how they are laid out

A blob is written as a header, two tables of pointers and the mappings, with any bytes behind them.
The pointers of the tables may select ranges anywhere in the data, in any order and overlapping.
From such data exactly the sources, contents and mappings are read that they were laid out for.

## Main definitions

* `Blob.layOut`: the bytes of a header, two tables, the mappings and what follows.
* `Blob.Pointer.Selects`: the bytes that a pointer refers to.
* `Blob.IsLaidOut`: data laid out for given sources, contents and mappings.

## Main statements

* `Blob.pointersAt_append`: the pointers of a table are found again.
* `Blob.loadWith_of_isLaidOut`: what was laid out is read back.
-/

namespace SourceMaps.Blob

variable {data before after : Bytes}

/-! ### Writing -/

/-- The lowest bytes of a number, lowest first. -/
def numberBytes (n : Nat) : (count : Nat) → Bytes
  | 0 => []
  | count + 1 => .ofNat n :: numberBytes (n / 256) count

/-- A record of two numbers. -/
def recordBytes (first second : Nat) : Bytes := numberBytes first 4 ++ numberBytes second 4

/-- The record of a pointer. -/
def Pointer.bytes (p : Pointer) : Bytes := recordBytes p.offset p.length

/-- The header, the pointers to the names and to the contents, the mappings, and what follows. -/
def layOut (names contents : List Pointer) (mappings further : Bytes) : Bytes :=
  recordBytes names.length mappings.length ++ (names.flatMap Pointer.bytes ++
    (contents.flatMap Pointer.bytes ++ (mappings ++ further)))

/-- ASCII characters as bytes. -/
def asciiBytes (text : Text) : Bytes := text.map fun c => .ofNat c.toNat

/-! ### What is laid out -/

namespace Pointer

/-- Both numbers fit in four bytes. -/
def Fits (p : Pointer) : Prop := p.offset < 2 ^ 32 ∧ p.length < 2 ^ 32

instance (p : Pointer) : Decidable p.Fits :=
  inferInstanceAs (Decidable (p.offset < 2 ^ 32 ∧ p.length < 2 ^ 32))

/-- The pointer refers to the given bytes of the data. An empty range may lie anywhere. -/
def Selects (p : Pointer) (data bytes : Bytes) : Prop :=
  p.length = bytes.length ∧
    (bytes ≠ [] → ∃ before after, data = before ++ bytes ++ after ∧ p.offset = before.length)

/-- The pointer refers to the UTF-8 form of a name that does not end in NUL, padded with zeros. -/
def HoldsName (p : Pointer) (data : Bytes) (name : Text) : Prop :=
  name.IsScalar ∧ name.getLast? ≠ some (.ofNat 0) ∧
    ∃ zeros, p.Selects data (Utf8.encode name ++ List.replicate zeros 0)

/-- The pointer refers to a frame with the UTF-8 form of the contents, or to nothing if there are
none. -/
def HoldsContents (p : Pointer) (decompress? : Bytes → Option Bytes) (data : Bytes) :
    Option Text → Prop
  | none => p.length = 0
  | some text => text.IsScalar ∧ ∃ frame, frame ≠ [] ∧ p.Selects data frame ∧
      decompress? frame = some (Utf8.encode text)

end Pointer

/-- Data laid out for sources, their contents and a mappings text. -/
inductive IsLaidOut (decompress? : Bytes → Option Bytes) (data : Bytes) (sources : List Text)
    (contents : List (Option Text)) (mappings : Text) : Prop where
  | intro (names frames : List Pointer) (further : Bytes)
      (hdata : data = layOut names frames (asciiBytes mappings) further)
      (hcount : names.length < 2 ^ 32) (hsize : mappings.length < 2 ^ 32)
      (hlength : frames.length = names.length) (hfits : ∀ p ∈ names ++ frames, p.Fits)
      (hnames : List.Forall₂ (fun p name => p.HoldsName data name) names sources)
      (hcontents : List.Forall₂ (fun p text => p.HoldsContents decompress? data text) frames contents)
      (hascii : ∀ c ∈ mappings, c.toNat < 0x80)

/-! ### Numbers and pointers -/

theorem length_numberBytes (n count : Nat) : (numberBytes n count).length = count := by
  induction count generalizing n with
  | zero => rfl
  | succ count ih => rw [numberBytes, List.length_cons, ih]

theorem length_recordBytes (first second : Nat) :
    (recordBytes first second).length = recordSize := by
  rw [recordBytes, List.length_append, length_numberBytes, length_numberBytes]
  rfl

theorem length_flatMap_bytes (ps : List Pointer) :
    (ps.flatMap Pointer.bytes).length = ps.length * recordSize := by
  induction ps with
  | nil => exact (Nat.zero_mul _).symm
  | cons p ps ih =>
    rw [List.flatMap_cons, List.length_append, ih, Pointer.bytes, length_recordBytes,
      List.length_cons, Nat.add_one_mul, Nat.add_comm]

theorem number_cons (byte : UInt8) (bytes : Bytes) :
    Bytes.number false (byte :: bytes) = 256 * Bytes.number false bytes + byte.toNat := by
  simp [Bytes.number, List.foldl_append]

/-- A number that fits is found again from its bytes. -/
theorem number_numberBytes {n count : Nat} (h : n < 256 ^ count) :
    Bytes.number false (numberBytes n count) = n := by
  induction count generalizing n with
  | zero =>
    have hzero : n = 0 := by simpa using h
    rw [hzero]
    rfl
  | succ count ih =>
    have hquotient : n / 256 < 256 ^ count := by
      rw [Nat.pow_succ] at h
      exact Nat.div_lt_of_lt_mul (by omega)
    rw [numberBytes, number_cons, ih hquotient, UInt8.toNat_ofNat']
    omega

theorem number_append {n : Nat} (h : n < 2 ^ 32) :
    number (before ++ (numberBytes n 4 ++ after)) before.length = n := by
  rw [number, List.drop_left, List.take_left' (length_numberBytes n 4), number_numberBytes h]

/-- The two numbers of a record are found again. -/
theorem numbers_append {first second : Nat} (h : first < 2 ^ 32) (h' : second < 2 ^ 32) :
    number (before ++ (recordBytes first second ++ after)) before.length = first ∧
      number (before ++ (recordBytes first second ++ after)) (before.length + 4) = second := by
  constructor
  · rw [recordBytes, List.append_assoc]
    exact number_append h
  · have hsecond := @number_append (before ++ numberBytes first 4) after second h'
    rw [List.length_append, length_numberBytes, List.append_assoc] at hsecond
    rw [recordBytes, List.append_assoc]
    exact hsecond

/-- The pointers of a table are found again. -/
theorem pointersAt_append {ps : List Pointer} (h : ∀ p ∈ ps, p.Fits) :
    pointersAt (before ++ (ps.flatMap Pointer.bytes ++ after)) before.length ps.length = ps := by
  induction ps generalizing before with
  | nil => rfl
  | cons p ps ih =>
    obtain ⟨⟨hoffset, hlength⟩, hps⟩ := List.forall_mem_cons.mp h
    obtain ⟨hfirst, hsecond⟩ :=
      @numbers_append before (ps.flatMap Pointer.bytes ++ after) _ _ hoffset hlength
    have hrest := @ih (before ++ p.bytes) hps
    rw [List.length_append, Pointer.bytes, length_recordBytes, List.append_assoc] at hrest
    rw [List.length_cons, pointersAt, pointerAt, List.flatMap_cons, List.append_assoc]
    rw [Pointer.bytes, hfirst, hsecond, hrest]

/-! ### Ranges -/

namespace Pointer

variable {p : Pointer} {bytes : Bytes}

theorem Selects.not_overruns (h : p.Selects data bytes) : ¬p.Overruns data := by
  rintro ⟨hne, hlt⟩
  obtain ⟨hlength, hrange⟩ := h
  have hbytes : bytes ≠ [] := by
    rintro rfl
    exact hne hlength
  obtain ⟨before, after, rfl, hoffset⟩ := hrange hbytes
  simp only [List.length_append] at hlt
  omega

theorem Selects.range_eq (h : p.Selects data bytes) : p.range data = bytes := by
  obtain ⟨hlength, hrange⟩ := h
  rw [range, hlength]
  by_cases hbytes : bytes = []
  · rw [hbytes, List.length_nil, List.take_zero]
  · obtain ⟨before, after, rfl, hoffset⟩ := hrange hbytes
    rw [hoffset, List.append_assoc, List.drop_left, List.take_left]

end Pointer

/-! ### Zeros at the end -/

theorem trimZeros_append_replicate {bytes : Bytes} (h : bytes.getLast? ≠ some 0) (zeros : Nat) :
    trimZeros (bytes ++ List.replicate zeros 0) = bytes := by
  show (bytes ++ List.replicate zeros 0).rdropWhile (· = 0) = bytes
  induction zeros with
  | zero =>
    rw [List.replicate_zero, List.append_nil, List.rdropWhile_eq_self_iff]
    intro hne hzero
    rw [List.getLast?_eq_some_getLast hne] at h
    exact h (congrArg some (of_decide_eq_true hzero))
  | succ zeros ih =>
    rw [List.replicate_succ', ← List.append_assoc, List.rdropWhile_concat_pos _ _ _ rfl, ih]

/-- Only NUL has a zero among its bytes. -/
theorem ne_zero_of_mem_encodeCodePoint {c : CodePoint} (h : c ≠ .ofNat 0) :
    ∀ byte ∈ Utf8.encodeCodePoint c, byte ≠ 0 := by
  have hlt := c.isLt
  have hpos : 0 < c.toNat := Nat.pos_of_ne_zero fun hzero =>
    h ((CodePoint.ofNat_toNat c).symm.trans (congrArg CodePoint.ofNat hzero))
  have hne : ∀ n, 0 < n → n < 256 → UInt8.ofNat n ≠ 0 := by
    intro n hpos hn hzero
    have hn : n % 256 = 0 := by simpa using congrArg UInt8.toNat hzero
    omega
  unfold Utf8.encodeCodePoint
  simp only [Nat.shiftRight_eq_div_pow]
  split_ifs
  all_goals
    simp only [List.forall_mem_cons, List.not_mem_nil, false_imp_iff, implies_true, and_true]
  · exact hne _ hpos (by omega)
  · exact ⟨hne _ (by omega) (by omega), hne _ (by omega) (by omega)⟩
  · exact ⟨hne _ (by omega) (by omega), hne _ (by omega) (by omega), hne _ (by omega) (by omega)⟩
  · exact ⟨hne _ (by omega) (by omega), hne _ (by omega) (by omega), hne _ (by omega) (by omega),
      hne _ (by omega) (by omega)⟩

theorem getLast?_encode_ne_zero {name : Text} (h : name.getLast? ≠ some (.ofNat 0)) :
    (Utf8.encode name).getLast? ≠ some 0 := by
  rcases List.eq_nil_or_concat' name with rfl | ⟨front, c, rfl⟩
  · exact nofun
  · rw [List.getLast?_concat] at h
    have hc : c ≠ .ofNat 0 := fun hc => h (congrArg some hc)
    have hbytes : Utf8.encodeCodePoint c ≠ [] := by
      unfold Utf8.encodeCodePoint
      simp only
      split_ifs <;> exact List.cons_ne_nil _ _
    rw [Utf8.encode, List.flatMap_append, List.flatMap_singleton,
      List.getLast?_append_of_ne_nil _ hbytes]
    intro hzero
    exact ne_zero_of_mem_encodeCodePoint hc 0 (List.mem_of_getLast? hzero) rfl

/-! ### Reading back -/

namespace Pointer

variable {p : Pointer} {decompress? : Bytes → Option Bytes}

theorem HoldsName.name_eq {name : Text} (h : p.HoldsName data name) : p.name data = name := by
  obtain ⟨hscalar, hlast, zeros, hselects⟩ := h
  rw [Pointer.name, hselects.range_eq, trimZeros_append_replicate (getLast?_encode_ne_zero hlast),
    Utf8.decodeLossy_encode hscalar]

theorem HoldsContents.not_overruns {contents : Option Text}
    (h : p.HoldsContents decompress? data contents) : ¬p.Overruns data := by
  cases contents with
  | none => exact fun hover => hover.1 h
  | some text =>
    obtain ⟨-, frame, -, hselects, -⟩ := h
    exact hselects.not_overruns

theorem HoldsContents.decompress?_ne_none {contents : Option Text}
    (h : p.HoldsContents decompress? data contents) (hrange : p.range data ≠ []) :
    decompress? (p.range data) ≠ none := by
  cases contents with
  | none =>
    have hlength : p.length = 0 := h
    rw [range, hlength, List.take_zero] at hrange
    exact absurd rfl hrange
  | some text =>
    obtain ⟨-, frame, -, hselects, hframe⟩ := h
    rw [hselects.range_eq, hframe]
    exact Option.some_ne_none _

theorem HoldsContents.contents_eq {contents : Option Text}
    (h : p.HoldsContents decompress? data contents) :
    p.contents decompress? data = contents := by
  cases contents with
  | none =>
    have hlength : p.length = 0 := h
    rw [Pointer.contents, range, hlength, List.take_zero, if_pos rfl]
  | some text =>
    obtain ⟨hscalar, frame, hne, hselects, hframe⟩ := h
    rw [Pointer.contents, hselects.range_eq, if_neg hne, hframe, Option.map_some,
      Utf8.decodeLossy_encode hscalar]

end Pointer

variable {decompress? : Bytes → Option Bytes} {names frames : List Pointer}
  {mappings further : Bytes}

theorem header_layOut (hcount : names.length < 2 ^ 32) (hsize : mappings.length < 2 ^ 32) :
    header (layOut names frames mappings further) = ⟨names.length, mappings.length⟩ := by
  obtain ⟨hfirst, hsecond⟩ := @numbers_append [] (names.flatMap Pointer.bytes ++
    (frames.flatMap Pointer.bytes ++ (mappings ++ further))) _ _ hcount hsize
  rw [header, layOut]
  exact congrArg₂ Header.mk hfirst hsecond

theorem namePointers_layOut (hcount : names.length < 2 ^ 32) (hsize : mappings.length < 2 ^ 32)
    (hfits : ∀ p ∈ names, p.Fits) : namePointers (layOut names frames mappings further) = names := by
  have hread := @pointersAt_append (recordBytes names.length mappings.length)
    (frames.flatMap Pointer.bytes ++ (mappings ++ further)) names hfits
  rw [length_recordBytes] at hread
  rw [namePointers, header_layOut hcount hsize]
  exact hread

theorem contentPointers_layOut (hcount : names.length < 2 ^ 32) (hsize : mappings.length < 2 ^ 32)
    (hlength : frames.length = names.length) (hfits : ∀ p ∈ frames, p.Fits) :
    contentPointers (layOut names frames mappings further) = frames := by
  have hread := @pointersAt_append
    (recordBytes names.length mappings.length ++ names.flatMap Pointer.bytes)
    (mappings ++ further) frames hfits
  rw [List.length_append, length_recordBytes, length_flatMap_bytes, hlength,
    List.append_assoc] at hread
  rw [contentPointers, header_layOut hcount hsize]
  exact hread

/-- The mappings stand behind the header and the tables. -/
theorem layOut_eq : layOut names frames mappings further =
    recordBytes names.length mappings.length ++
      (names.flatMap Pointer.bytes ++ frames.flatMap Pointer.bytes) ++ (mappings ++ further) := by
  simp only [layOut, List.append_assoc]

theorem mappingsStart_layOut (hcount : names.length < 2 ^ 32) (hsize : mappings.length < 2 ^ 32)
    (hlength : frames.length = names.length) :
    mappingsStart (layOut names frames mappings further) = (recordBytes names.length mappings.length ++
      (names.flatMap Pointer.bytes ++ frames.flatMap Pointer.bytes)).length := by
  rw [mappingsStart, header_layOut hcount hsize, List.length_append, List.length_append,
    length_recordBytes, length_flatMap_bytes, length_flatMap_bytes, hlength, Nat.add_assoc]

theorem mappingsBytes_layOut (hcount : names.length < 2 ^ 32) (hsize : mappings.length < 2 ^ 32)
    (hlength : frames.length = names.length) :
    mappingsBytes (layOut names frames mappings further) = mappings := by
  rw [mappingsBytes, mappingsStart_layOut hcount hsize hlength, header_layOut hcount hsize, layOut_eq,
    List.drop_left, List.take_left]

theorem isComplete_layOut (hcount : names.length < 2 ^ 32) (hsize : mappings.length < 2 ^ 32)
    (hlength : frames.length = names.length) (hne : names ≠ []) :
    IsComplete (layOut names frames mappings further) := by
  have hstart := @mappingsStart_layOut names frames mappings further hcount hsize hlength
  refine ⟨?_, ?_, ?_⟩
  · rw [layOut, List.length_append, length_recordBytes]
    omega
  · rw [header_layOut hcount hsize]
    exact mt List.length_eq_zero_iff.mp hne
  · rw [hstart, header_layOut hcount hsize, layOut_eq]
    simp only [List.length_append]
    omega

/-- Laid out data are not malformed if every pointer refers to something in them. -/
theorem not_isMalformed_layOut (hcount : names.length < 2 ^ 32) (hsize : mappings.length < 2 ^ 32)
    (hlength : frames.length = names.length) (hfits : ∀ p ∈ names ++ frames, p.Fits)
    (hne : names ≠ []) (hdata : data = layOut names frames mappings further)
    (hrange : ∀ p ∈ names ++ frames, ¬p.Overruns data)
    (hframe : ∀ p ∈ frames, p.range data ≠ [] → decompress? (p.range data) ≠ none)
    (hascii : ∀ byte ∈ mappings, byte < 0x80) : ¬IsMalformed decompress? data := by
  subst hdata
  obtain ⟨hnamesFit, hframesFit⟩ := List.forall_mem_append.mp hfits
  have hcomplete := @isComplete_layOut names frames mappings further hcount hsize hlength hne
  rintro (hlt | hzero | hlt | ⟨p, hp, hover⟩ | ⟨p, hp, hsome, hnone⟩ | ⟨byte, hbyte, hle⟩)
  · exact Nat.not_lt.mpr hcomplete.headed hlt
  · exact hcomplete.sourced hzero
  · exact Nat.not_lt.mpr hcomplete.sized hlt
  · rw [namePointers_layOut hcount hsize hnamesFit,
      contentPointers_layOut hcount hsize hlength hframesFit] at hp
    exact hrange p hp hover
  · rw [contentPointers_layOut hcount hsize hlength hframesFit] at hp
    exact hframe p hp hsome hnone
  · rw [mappingsBytes_layOut hcount hsize hlength] at hbyte
    exact UInt8.not_le.mpr (hascii byte hbyte) hle

theorem exists_of_forall₂_of_mem {α β : Type} {R : α → β → Prop} {as : List α} {bs : List β}
    (h : List.Forall₂ R as bs) : ∀ a ∈ as, ∃ b, R a b := by
  induction h with
  | nil => exact nofun
  | cons hab _ ih => exact List.forall_mem_cons.mpr ⟨⟨_, hab⟩, ih⟩

theorem byte_lt_of_mem_asciiBytes {text : Text} (h : ∀ c ∈ text, c.toNat < 0x80) :
    ∀ byte ∈ asciiBytes text, byte < 0x80 := by
  intro byte hbyte
  obtain ⟨c, hc, rfl⟩ := List.mem_map.mp hbyte
  rw [UInt8.lt_iff_toNat_lt, Utf8.toNat_byte (h c hc)]
  exact h c hc

theorem map_asciiBytes {text : Text} (h : ∀ c ∈ text, c.toNat < 0x80) :
    (asciiBytes text).map (fun byte => CodePoint.ofNat byte.toNat) = text := by
  rw [asciiBytes, List.map_map]
  refine (List.map_congr_left fun c hc => ?_).trans text.map_id
  rw [Function.comp_apply, Utf8.toNat_byte (h c hc), CodePoint.ofNat_toNat]
  rfl

/-- Data laid out for sources, contents and mappings are read as a map that has just these and no
names. -/
theorem loadWith_of_isLaidOut {sources : List Text} {contents : List (Option Text)}
    {mappings : Text}
    (h : IsLaidOut decompress? data sources contents mappings) (hne : sources ≠ [])
    (file : Option Text) :
    loadWith decompress? data file = .ok {
      sources := sources.map some
      names := []
      mappings := mappings
      file := file
      sourcesContent := some contents } := by
  obtain ⟨names, frames, further, hdata, hcount, hsize, hlength, hfits, hnames, hcontents, hascii⟩ := h
  obtain ⟨hnamesFit, hframesFit⟩ := List.forall_mem_append.mp hfits
  have hsize : (asciiBytes mappings).length < 2 ^ 32 := by rwa [asciiBytes, List.length_map]
  have hnamePointers : namePointers data = names := by
    rw [hdata, namePointers_layOut hcount hsize hnamesFit]
  have hcontentPointers : contentPointers data = frames := by
    rw [hdata, contentPointers_layOut hcount hsize hlength hframesFit]
  have hmappings : mappingsBytes data = asciiBytes mappings := by
    rw [hdata, mappingsBytes_layOut hcount hsize hlength]
  have hnamesNe : names ≠ [] := by
    rintro rfl
    exact hne (List.forall₂_nil_left_iff.mp hnames)
  have hrange : ∀ p ∈ names ++ frames, ¬p.Overruns data := by
    refine List.forall_mem_append.mpr ⟨fun p hp => ?_, fun p hp => ?_⟩
    · obtain ⟨name, -, -, zeros, hselects⟩ := exists_of_forall₂_of_mem hnames p hp
      exact hselects.not_overruns
    · obtain ⟨text, htext⟩ := exists_of_forall₂_of_mem hcontents p hp
      exact htext.not_overruns
  have hframe : ∀ p ∈ frames, p.range data ≠ [] → decompress? (p.range data) ≠ none := by
    intro p hp
    obtain ⟨text, htext⟩ := exists_of_forall₂_of_mem hcontents p hp
    exact htext.decompress?_ne_none
  have hwell := not_isMalformed_layOut hcount hsize hlength hfits hnamesNe hdata hrange hframe
    (byte_lt_of_mem_asciiBytes hascii)
  have hsources : names.map (·.name data) = sources := by
    rw [← List.forall₂_eq_eq_eq, List.forall₂_map_left_iff]
    exact hnames.imp fun p name h => h.name_eq
  have htexts : frames.map (·.contents decompress? data) = contents := by
    rw [← List.forall₂_eq_eq_eq, List.forall₂_map_left_iff]
    exact hcontents.imp fun p text h => h.contents_eq
  rw [loadWith_of_not_isMalformed hwell, found, hnamePointers, hcontentPointers, hmappings,
    map_asciiBytes hascii, htexts, ← hsources, List.map_map]
  rfl

/-- A frame with one plain block of three bytes. -/
def plainFrame : Bytes := [0x28, 0xB5, 0x2F, 0xFD, 0x20, 0x03, 0x19, 0x00, 0x00, 0x68, 0xC3, 0xA9]

/-- A name of which the end is another name, contents that are absent, and a frame. -/
def packed : Bytes :=
  layOut [⟨49, 7⟩, ⟨51, 4⟩] [⟨0xFFFFFFFF, 0⟩, ⟨56, 12⟩] (asciiBytes "AAAA;ACAA")
    ([0xC3, 0xA9, 0x2E, 0x74, 0x73, 0, 0] ++ plainFrame)

theorem loadWith_of_isLaidOut_packed :
    IsLaidOut Zstd.decompress? packed ["é.ts", ".ts"] [none, some "hé"] "AAAA;ACAA" ∧
    loadWith Zstd.decompress? packed (some "app.js") = .ok {
      sources := [some "é.ts", some ".ts"]
      names := []
      mappings := "AAAA;ACAA"
      file := some "app.js"
      sourcesContent := some [none, some "hé"] } := by
  have hframe : Zstd.decompress? plainFrame = some (Utf8.encode "hé") := by decide +kernel
  have h : IsLaidOut Zstd.decompress? packed ["é.ts", ".ts"] [none, some "hé"] "AAAA;ACAA" := by
    refine .intro _ _ _ rfl (by decide) (by decide) rfl (by decide) ?_ ?_ (by decide)
    · refine .cons ⟨by decide, by decide, 2, rfl, fun _ => ?_⟩
        (.cons ⟨by decide, by decide, 1, rfl, fun _ => ?_⟩ .nil)
      · exact ⟨packed.take 49, packed.drop 56, by decide +kernel, rfl⟩
      · exact ⟨packed.take 51, packed.drop 55, by decide +kernel, rfl⟩
    · refine .cons rfl (.cons ⟨by decide, plainFrame, by decide, ⟨rfl, fun _ => ?_⟩, hframe⟩ .nil)
      exact ⟨packed.take 56, [], by decide +kernel, rfl⟩
  exact ⟨h, loadWith_of_isLaidOut h (by decide) (some "app.js")⟩

end SourceMaps.Blob
