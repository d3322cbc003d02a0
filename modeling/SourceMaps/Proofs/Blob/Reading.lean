import SourceMaps.Blob
import SourceMaps.Proofs.Outcome

/-!
# Blobs: how they are read

The size of a blob is checked once, against its header. Behind that check every record lies within
the data, so the tables are lists of pointers, and all that can still go wrong is that a pointer runs
past the end, that a frame cannot be decompressed, or that the mappings are not ASCII.

## Main definitions

* `Blob.header`, `Blob.namePointers`, `Blob.contentPointers`, `Blob.mappingsBytes`: what stands where
  in a blob.
* `Blob.IsMalformed`: what can be wrong with a blob.
* `Blob.found`: the map that is found through the pointers.

## Main statements

* `Blob.loadWith_of_not_isMalformed`: what is not malformed is read, and as what.
* `Blob.kind_of_loadWith`: whatever ends the reading of a blob is a flaw of its format.
* `Blob.loadWith_refuses_iff`: exactly the malformed blobs are refused.
-/

namespace SourceMaps.Blob

variable {data : Bytes} {decompress? : Bytes → Option Bytes} {file : Option Text} {α β : Type}

/-! ### What stands where -/

/-- The header at the start of the data. -/
def header (data : Bytes) : Header := ⟨number data 0, number data 4⟩

/-- The pointer whose record starts at an offset. -/
def pointerAt (data : Bytes) (offset : Nat) : Pointer := ⟨number data offset, number data (offset + 4)⟩

/-- The pointers of a table whose first record starts at an offset. -/
def pointersAt (data : Bytes) : (start count : Nat) → List Pointer
  | _, 0 => []
  | start, count + 1 => pointerAt data start :: pointersAt data (start + recordSize) count

/-- The pointers to the names of the sources. -/
def namePointers (data : Bytes) : List Pointer :=
  pointersAt data recordSize (header data).sourceCount

/-- The pointers to the contents of the sources. -/
def contentPointers (data : Bytes) : List Pointer :=
  pointersAt data (recordSize + (header data).sourceCount * recordSize) (header data).sourceCount

/-- Where the mappings start, behind the header and both tables. -/
def mappingsStart (data : Bytes) : Nat :=
  recordSize + (header data).sourceCount * recordSize + (header data).sourceCount * recordSize

/-- The bytes of the mappings. -/
def mappingsBytes (data : Bytes) : Bytes :=
  (data.drop (mappingsStart data)).take (header data).mappingsLength

theorem length_pointersAt (data : Bytes) (start count : Nat) :
    (pointersAt data start count).length = count := by
  induction count generalizing start with
  | zero => rfl
  | succ count ih => rw [pointersAt, List.length_cons, ih]

namespace Pointer

/-- The bytes of a range. -/
def range (p : Pointer) (data : Bytes) : Bytes := (data.drop p.offset).take p.length

/-- A range that is not empty and runs past the end of the data. -/
def Overruns (p : Pointer) (data : Bytes) : Prop := p.length ≠ 0 ∧ data.length < p.offset + p.length

/-- The name in a range. -/
def name (p : Pointer) (data : Bytes) : Text := Utf8.decodeLossy (trimZeros (p.range data))

/-- The contents in a range, of which there are none if it is empty. -/
def contents (p : Pointer) (decompress? : Bytes → Option Bytes) (data : Bytes) : Option Text :=
  if p.range data = [] then none else (decompress? (p.range data)).map Utf8.decodeLossy

end Pointer

/-- What can be wrong with a blob. -/
inductive IsMalformed (decompress? : Bytes → Option Bytes) (data : Bytes) : Prop where
  | short (h : data.length < recordSize)
  | sourceless (h : (header data).sourceCount = 0)
  | truncated (h : data.length < mappingsStart data + (header data).mappingsLength)
  | overrun (p : Pointer) (hp : p ∈ namePointers data ++ contentPointers data)
      (h : p.Overruns data)
  | incompressible (p : Pointer) (hp : p ∈ contentPointers data) (hrange : p.range data ≠ [])
      (h : decompress? (p.range data) = none)
  | beyondAscii (byte : UInt8) (hbyte : byte ∈ mappingsBytes data) (h : 0x80 ≤ byte)

/-- The map that is found through the pointers. -/
def found (decompress? : Bytes → Option Bytes) (data : Bytes) (file : Option Text) : SourceMap where
  sources := (namePointers data).map fun p => some (p.name data)
  names := []
  mappings := (mappingsBytes data).map fun byte => CodePoint.ofNat byte.toNat
  file := file
  sourcesContent := some ((contentPointers data).map fun p => p.contents decompress? data)

/-! ### Records and ranges -/

/-- A record that lies within the data is there. -/
theorem readRecord_of_le (make : Nat → Nat → α) {start : Nat}
    (h : start + recordSize ≤ data.length) :
    readRecord make data start = .ok (make (number data start) (number data (start + 4))) := by
  have hoffset : recordOffset data.length start = .ok start := by
    have hneg : ¬((start : Int) < 0) := by omega
    unfold recordOffset
    rw [if_neg (fun hcond => hneg hcond.1), if_neg (fun hcond => hneg hcond.1)]
    simp only [if_neg hneg, Int.toNat_natCast]
    rw [if_neg (by omega)]
  rw [readRecord, readPair, hoffset]
  rfl

namespace Pointer

variable {p : Pointer}

theorem slice_of_overruns (h : p.Overruns data) :
    p.slice data = .error (.pointerOutOfRange p.offset p.length data.length) := by
  rw [slice, if_neg h.1, if_pos h.2]

theorem slice_of_not_overruns (h : ¬p.Overruns data) : p.slice data = .ok (p.range data) := by
  unfold slice
  split
  · next hlength => rw [range, hlength, List.take_zero]
  · next hlength => rw [if_neg fun hlt => h ⟨hlength, hlt⟩, range]

theorem text_of_overruns (h : p.Overruns data) :
    p.text data = .error (.pointerOutOfRange p.offset p.length data.length) := by
  rw [text, slice_of_overruns h, map_error]

theorem text_of_not_overruns (h : ¬p.Overruns data) : p.text data = .ok (p.name data) := by
  rw [text, slice_of_not_overruns h, map_ok, name]

theorem not_overruns_of_text {text : Text} (h : p.text data = .ok text) : ¬p.Overruns data := by
  intro hover
  rw [text_of_overruns hover] at h
  cases h

theorem kind_of_text {fault : Fault} (h : p.text data = .error fault) : fault.kind = .format := by
  by_cases hover : p.Overruns data
  · rw [text_of_overruns hover] at h
    cases h
    rfl
  · rw [text_of_not_overruns hover] at h
    cases h

end Pointer

theorem readContents_of_overruns {p : Pointer} (h : p.Overruns data) (source : Text) :
    readContents decompress? data source p =
      .error (.pointerOutOfRange p.offset p.length data.length) := by
  rw [readContents, Pointer.slice_of_overruns h, error_bind]

/-- The contents in a range that does not run past the end are there or cannot be decompressed. -/
theorem readContents_of_not_overruns {p : Pointer} (h : ¬p.Overruns data) (source : Text) :
    readContents decompress? data source p =
      if p.range data ≠ [] ∧ decompress? (p.range data) = none then .error (.incompressible source)
      else .ok (p.contents decompress? data) := by
  rw [readContents, Pointer.slice_of_not_overruns h, ok_bind, Pointer.contents]
  cases p.range data with
  | nil => rfl
  | cons byte rest =>
    cases hframe : decompress? (byte :: rest) with
    | none =>
      rw [if_pos ⟨List.cons_ne_nil byte rest, rfl⟩]
      simp only [hframe]
      rfl
    | some bytes =>
      rw [if_neg fun hnone => Option.some_ne_none bytes hnone.2, if_neg (List.cons_ne_nil byte rest)]
      simp only [hframe]
      rfl

theorem not_overruns_of_readContents {p : Pointer} {source : Text} {contents : Option Text}
    (h : readContents decompress? data source p = .ok contents) : ¬p.Overruns data := by
  intro hover
  rw [readContents_of_overruns hover] at h
  cases h

theorem decompresses_of_readContents {p : Pointer} {source : Text} {contents : Option Text}
    (h : readContents decompress? data source p = .ok contents) :
    ¬(p.range data ≠ [] ∧ decompress? (p.range data) = none) := by
  intro hnone
  rw [readContents_of_not_overruns (not_overruns_of_readContents h), if_pos hnone] at h
  cases h

theorem kind_of_readContents {p : Pointer} {source : Text} {fault : Fault}
    (h : readContents decompress? data source p = .error fault) : fault.kind = .format := by
  by_cases hover : p.Overruns data
  · rw [readContents_of_overruns hover] at h
    cases h
    rfl
  · rw [readContents_of_not_overruns hover] at h
    split at h <;> cases h
    rfl

/-! ### Tables -/

section Tables

variable {read : α → Pointer → Except Fault β} {start count : Nat} {items : List α}

theorem readTable_cons (item : α) (h : start + recordSize ≤ data.length) :
    readTable data read start (item :: items) = do
      let first ← read item (pointerAt data start)
      let others ← readTable data read (start + recordSize) items
      return first :: others := by
  have hpointer : Pointer.read data start = .ok (pointerAt data start) :=
    readRecord_of_le Pointer.mk h
  rw [readTable, hpointer, ok_bind]

/-- Reading a table that lies within the data fails only if reading through a pointer does. -/
theorem failsOnly_readTable {P : Fault → Prop} (hread : ∀ a p, FailsOnly P (read a p))
    (hcount : items.length = count) (h : start + count * recordSize ≤ data.length) :
    FailsOnly P (readTable data read start items) := by
  subst hcount
  induction items generalizing start with
  | nil => exact .ok _
  | cons item rest ih =>
    rw [List.length_cons, Nat.add_one_mul] at h
    rw [readTable_cons item (by omega)]
    refine (hread item _).bind fun first _ => ?_
    exact (ih (by omega)).bind fun others _ => .ok _

theorem readTable_eq_map {f : Pointer → β}
    (hread : ∀ a, ∀ p ∈ pointersAt data start count, read a p = .ok (f p))
    (hcount : items.length = count) (h : start + count * recordSize ≤ data.length) :
    readTable data read start items = .ok ((pointersAt data start count).map f) := by
  subst hcount
  induction items generalizing start with
  | nil => rfl
  | cons item rest ih =>
    rw [List.length_cons, Nat.add_one_mul] at h
    rw [List.length_cons, pointersAt] at hread ⊢
    rw [readTable_cons item (by omega), hread item _ List.mem_cons_self, ok_bind,
      ih (fun a p hp => hread a p (List.mem_cons_of_mem _ hp)) (by omega), ok_bind]
    rfl

/-- If a table was read, then something was read through each of its pointers. -/
theorem exists_of_mem_pointersAt {others : List β}
    (hread : readTable data read start items = .ok others) (hcount : items.length = count)
    (h : start + count * recordSize ≤ data.length) :
    ∀ p ∈ pointersAt data start count, ∃ a b, read a p = .ok b := by
  subst hcount
  induction items generalizing start others with
  | nil => exact nofun
  | cons item rest ih =>
    rw [List.length_cons, Nat.add_one_mul] at h
    rw [readTable_cons item (by omega)] at hread
    obtain ⟨first, hfirst, hread⟩ := bind_eq_ok_iff.mp hread
    obtain ⟨others, hothers, -⟩ := bind_eq_ok_iff.mp hread
    exact List.forall_mem_cons.mpr ⟨⟨item, first, hfirst⟩, ih hothers (by omega)⟩

theorem length_of_readTable {others : List β} (h : readTable data read start items = .ok others) :
    others.length = items.length := by
  induction items generalizing start others with
  | nil =>
    cases h
    rfl
  | cons item rest ih =>
    rw [readTable] at h
    obtain ⟨p, -, h⟩ := bind_eq_ok_iff.mp h
    obtain ⟨first, -, h⟩ := bind_eq_ok_iff.mp h
    obtain ⟨others, hothers, h⟩ := bind_eq_ok_iff.mp h
    cases h
    rw [List.length_cons, List.length_cons, ih hothers]

end Tables

/-! ### ASCII -/

theorem decodeAscii_of_forall {bytes : Bytes} (h : ∀ byte ∈ bytes, byte < 0x80) (position : Nat) :
    decodeAscii position bytes = .ok (bytes.map fun byte => CodePoint.ofNat byte.toNat) := by
  induction bytes generalizing position with
  | nil => rfl
  | cons byte rest ih =>
    obtain ⟨hbyte, hrest⟩ := List.forall_mem_cons.mp h
    rw [decodeAscii, if_pos hbyte, ih hrest, map_ok, List.map_cons]

theorem lt_of_decodeAscii {bytes : Bytes} {position : Nat} {text : Text}
    (h : decodeAscii position bytes = .ok text) : ∀ byte ∈ bytes, byte < 0x80 := by
  induction bytes generalizing position text with
  | nil => exact nofun
  | cons byte rest ih =>
    rw [decodeAscii] at h
    split at h
    · next hbyte =>
      obtain ⟨others, hothers, -⟩ := map_eq_ok_iff.mp h
      exact List.forall_mem_cons.mpr ⟨hbyte, ih hothers⟩
    · cases h

/-! ### Blobs -/

/-- Data that hold all that their header declares, with at least one source. -/
structure IsComplete (data : Bytes) : Prop where
  headed : recordSize ≤ data.length
  sourced : (header data).sourceCount ≠ 0
  sized : mappingsStart data + (header data).mappingsLength ≤ data.length

theorem header_read (h : recordSize ≤ data.length) : Header.read data 0 = .ok (header data) :=
  @readRecord_of_le data Header Header.mk 0 (by rwa [Nat.zero_add])

/-- Behind the check of the size there are the tables and the mappings. -/
theorem loadWith_of_isComplete (h : IsComplete data) :
    loadWith decompress? data file = do
      let sources ← readTable data (fun _ p => p.text data) recordSize
        (List.replicate (header data).sourceCount ())
      let contents ← readTable data (readContents decompress? data)
        (recordSize + (header data).sourceCount * recordSize) sources
      match decodeAscii 0 (mappingsBytes data) with
      | .error cause => throw (.mappingsNotAscii cause)
      | .ok mappings =>
        return {
          sources := sources.map some, names := [], mappings, file
          sourcesContent := some contents } := by
  obtain ⟨headed, sourced, sized⟩ := h
  unfold loadWith
  simp only
  have hsized := Nat.not_lt.mpr sized
  unfold mappingsStart at hsized
  rw [if_neg (Nat.not_lt.mpr headed), header_read headed, ok_bind, if_neg sourced, if_neg hsized]
  rfl

theorem loadWith_of_not_isComplete (h : ¬IsComplete data) :
    ∃ fault, loadWith decompress? data file = .error fault ∧ fault.kind = .format := by
  unfold loadWith
  simp only
  split
  · exact ⟨_, rfl, rfl⟩
  next headed =>
  rw [header_read (Nat.not_lt.mp headed), ok_bind]
  split
  · exact ⟨_, rfl, rfl⟩
  next sourced =>
  split
  · exact ⟨_, rfl, rfl⟩
  next sized => exact absurd ⟨Nat.not_lt.mp headed, sourced, Nat.not_lt.mp sized⟩ h

theorem IsComplete.names_le (h : IsComplete data) :
    recordSize + (header data).sourceCount * recordSize ≤ data.length := by
  have hsized := h.sized
  unfold mappingsStart at hsized
  omega

theorem IsComplete.contents_le (h : IsComplete data) :
    recordSize + (header data).sourceCount * recordSize + (header data).sourceCount * recordSize ≤
      data.length := by
  have hsized := h.sized
  unfold mappingsStart at hsized
  omega

/-- Whatever ends the reading of a blob is a flaw of its format. -/
theorem kind_of_loadWith {fault : Fault} (h : loadWith decompress? data file = .error fault) :
    fault.kind = .format := by
  by_cases hcomplete : IsComplete data
  · have hfails : FailsOnly (fun fault : Fault => fault.kind = .format)
        (loadWith decompress? data file) := by
      rw [loadWith_of_isComplete hcomplete]
      refine (failsOnly_readTable (fun _ _ _ => Pointer.kind_of_text) List.length_replicate
        hcomplete.names_le).bind fun sources hsources => ?_
      have hcount := (length_of_readTable hsources).trans List.length_replicate
      refine (failsOnly_readTable (fun _ _ _ => kind_of_readContents) hcount
        hcomplete.contents_le).bind fun contents _ => ?_
      split
      · exact .error rfl
      · exact .ok _
    exact hfails fault h
  · obtain ⟨found, hfound, hkind⟩ := loadWith_of_not_isComplete hcomplete
    rw [hfound] at h
    cases h
    exact hkind

/-- What is not malformed is read. -/
theorem loadWith_of_not_isMalformed (h : ¬IsMalformed decompress? data) :
    loadWith decompress? data file = .ok (found decompress? data file) := by
  have hcomplete : IsComplete data :=
    ⟨Nat.not_lt.mp fun hlt => h (.short hlt), fun hzero => h (.sourceless hzero),
      Nat.not_lt.mp fun hlt => h (.truncated hlt)⟩
  have hnames : readTable data (fun _ p => p.text data) recordSize
      (List.replicate (header data).sourceCount ()) =
        .ok ((namePointers data).map (·.name data)) := by
    refine readTable_eq_map (fun _ p hp => ?_) List.length_replicate hcomplete.names_le
    exact Pointer.text_of_not_overruns fun hover => h (.overrun p (List.mem_append_left _ hp) hover)
  have hcount : ((namePointers data).map (·.name data)).length = (header data).sourceCount := by
    rw [List.length_map, namePointers, length_pointersAt]
  have hcontents : readTable data (readContents decompress? data)
      (recordSize + (header data).sourceCount * recordSize)
      ((namePointers data).map (·.name data)) =
        .ok ((contentPointers data).map (·.contents decompress? data)) := by
    refine readTable_eq_map (fun source p hp => ?_) hcount hcomplete.contents_le
    have hover : ¬p.Overruns data := fun hover => h (.overrun p (List.mem_append_right _ hp) hover)
    rw [readContents_of_not_overruns hover, if_neg fun hnone =>
      h (.incompressible p hp hnone.1 hnone.2)]
  have hascii : ∀ byte ∈ mappingsBytes data, byte < 0x80 := fun byte hbyte =>
    UInt8.not_le.mp fun hle => h (.beyondAscii byte hbyte hle)
  rw [loadWith_of_isComplete hcomplete, hnames, ok_bind, hcontents, ok_bind,
    decodeAscii_of_forall hascii]
  simp only [List.map_map]
  rfl

/-- What is malformed is not read. -/
theorem not_isMalformed_of_loadWith {map : SourceMap}
    (h : loadWith decompress? data file = .ok map) : ¬IsMalformed decompress? data := by
  have hcomplete : IsComplete data := Classical.byContradiction fun hcomplete => by
    obtain ⟨fault, hfault, -⟩ := @loadWith_of_not_isComplete data decompress? file hcomplete
    rw [h] at hfault
    cases hfault
  rw [loadWith_of_isComplete hcomplete] at h
  obtain ⟨sources, hsources, h⟩ := bind_eq_ok_iff.mp h
  obtain ⟨contents, hcontents, h⟩ := bind_eq_ok_iff.mp h
  have hcount := (length_of_readTable hsources).trans List.length_replicate
  have hnames := exists_of_mem_pointersAt hsources List.length_replicate hcomplete.names_le
  have hframes := exists_of_mem_pointersAt hcontents hcount hcomplete.contents_le
  rintro (hlt | hzero | hlt | ⟨p, hp, hover⟩ | ⟨p, hp, hrange, hnone⟩ | ⟨byte, hbyte, hle⟩)
  · exact Nat.not_lt.mpr hcomplete.headed hlt
  · exact hcomplete.sourced hzero
  · exact Nat.not_lt.mpr hcomplete.sized hlt
  · rcases List.mem_append.mp hp with hp | hp
    · obtain ⟨_, _, hread⟩ := hnames p hp
      exact Pointer.not_overruns_of_text hread hover
    · obtain ⟨_, _, hread⟩ := hframes p hp
      exact not_overruns_of_readContents hread hover
  · obtain ⟨_, _, hread⟩ := hframes p hp
    exact decompresses_of_readContents hread ⟨hrange, hnone⟩
  · split at h
    · cases h
    · next mappings hmappings =>
      exact UInt8.not_le.mpr (lt_of_decodeAscii hmappings byte hbyte) hle

/-- Exactly the malformed blobs are refused, always for a flaw of their format. All others are read
as a map with as many sources and as many contents as their header declares. -/
theorem loadWith_refuses_iff (decompress? : Bytes → Option Bytes) (data : Bytes)
    (file : Option Text) :
    ((∃ fault, loadWith decompress? data file = .error fault ∧ fault.kind = .format) ↔
      IsMalformed decompress? data) ∧
    ((∃ map contents, loadWith decompress? data file = .ok map ∧
        map.sources.length = (header data).sourceCount ∧ map.sourcesContent = some contents ∧
        contents.length = (header data).sourceCount) ↔
      ¬IsMalformed decompress? data) := by
  constructor
  · constructor
    · rintro ⟨fault, hfault, -⟩
      refine Classical.byContradiction fun h => ?_
      rw [loadWith_of_not_isMalformed h] at hfault
      cases hfault
    · intro h
      cases hload : loadWith decompress? data file with
      | ok map => exact absurd h (not_isMalformed_of_loadWith hload)
      | error fault => exact ⟨fault, rfl, kind_of_loadWith hload⟩
  · constructor
    · rintro ⟨map, -, hload, -⟩
      exact not_isMalformed_of_loadWith hload
    · intro h
      refine ⟨_, _, loadWith_of_not_isMalformed h, ?_, rfl, ?_⟩
      · rw [found, List.length_map, namePointers, length_pointersAt]
      · rw [List.length_map, contentPointers, length_pointersAt]

end SourceMaps.Blob
