import SourceMaps.Blob
import SourceMaps.Proofs.Document

/-!
# Blobs: the texts of their maps

The texts of a blob are decoded from ASCII or lossily from UTF-8, so they hold no surrogates, and
the map of a blob has a JSON form.

## Main statements

* `Blob.portable_of_loadWith`: the map of a blob has a JSON form.
-/

namespace SourceMaps

namespace Blob

variable {data : Bytes} {text : Text}

/-- What is read through a table is read for its items, one by one. -/
theorem exists_of_mem_readTable {α β : Type} {read : α → Pointer → Except Fault β} {start : Nat}
    {items : List α} {found : List β} (h : readTable data read start items = .ok found) :
    ∀ b ∈ found, ∃ item p, read item p = .ok b := by
  induction items generalizing start found with
  | nil =>
    cases h
    exact nofun
  | cons item rest ih =>
    rw [readTable] at h
    obtain ⟨p, -, h⟩ := bind_eq_ok_iff.mp h
    obtain ⟨first, hfirst, h⟩ := bind_eq_ok_iff.mp h
    obtain ⟨others, hothers, h⟩ := bind_eq_ok_iff.mp h
    cases h
    exact List.forall_mem_cons.mpr ⟨⟨item, p, hfirst⟩, ih hothers⟩

theorem isScalar_of_text {p : Pointer} (h : p.text data = .ok text) : text.IsScalar := by
  obtain ⟨bytes, -, rfl⟩ := map_eq_ok_iff.mp h
  exact Utf8.isScalar_decodeLossy _

theorem isScalar_of_readContents {decompress? : Bytes → Option Bytes} {source : Text} {p : Pointer}
    {contents : Option Text} (h : readContents decompress? data source p = .ok contents) :
    ∀ t ∈ contents, t.IsScalar := by
  obtain ⟨frame, -, h⟩ := bind_eq_ok_iff.mp h
  split at h
  · cases h
    exact nofun
  · split at h
    · cases h
      intro t ht
      obtain rfl := Option.some.inj ht
      exact Utf8.isScalar_decodeLossy _
    · cases h

/-- The map of a blob has a JSON form, if the name of its file has one. -/
theorem portable_of_loadWith {decompress? : Bytes → Option Bytes} {file : Option Text}
    {map : SourceMap} (h : loadWith decompress? data file = .ok map)
    (hfile : ∀ t ∈ file, t.IsScalar) : map.Portable := by
  unfold loadWith at h
  simp only at h
  split at h
  · cases h
  obtain ⟨header, -, h⟩ := bind_eq_ok_iff.mp h
  split at h
  · cases h
  split at h
  · cases h
  obtain ⟨sources, hsources, h⟩ := bind_eq_ok_iff.mp h
  obtain ⟨contents, hcontents, h⟩ := bind_eq_ok_iff.mp h
  split at h
  · cases h
  · next mappings hmappings =>
    cases h
    have hscalar : ∀ source ∈ sources, source.IsScalar := by
      intro source hsource
      obtain ⟨-, p, hp⟩ := exists_of_mem_readTable hsources source hsource
      exact isScalar_of_text hp
    have hcontents : SourceMap.AreScalar contents := by
      intro content hcontent
      obtain ⟨source, p, hp⟩ := exists_of_mem_readTable hcontents content hcontent
      exact isScalar_of_readContents hp
    refine ⟨⟨?_, nofun, Utf8.isScalar_decodeAscii hmappings, hfile, nofun, ?_⟩, rfl, nofun⟩
    · rintro entry hentry t rfl
      obtain ⟨source, hsource, ht⟩ := List.mem_map.mp hentry
      exact Option.some.inj ht ▸ hscalar source hsource
    · rintro _ ⟨⟩
      exact hcontents

end Blob

end SourceMaps
