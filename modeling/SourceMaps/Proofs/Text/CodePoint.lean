import Mathlib.Data.List.Basic
import SourceMaps.Text.CodePoint

/-!
# Texts: joining and classes

What stands in texts that are joined, and two classes of texts: those without surrogates, which have
a UTF-8 form, and those of ASCII characters, of which each is one byte.

## Main definitions

* `Text.IsScalar`: texts without surrogates.
* `Text.IsAscii`: texts of ASCII characters other than NUL.
-/

namespace SourceMaps

namespace CodePoint

theorem ofNat_toNat (c : CodePoint) : ofNat c.toNat = c := by
  rw [ofNat, dif_pos c.isLt]

theorem not_isSurrogate_iff {c : CodePoint} :
    c.isSurrogate = false ↔ c.toNat < 0xD800 ∨ 0xE000 ≤ c.toNat := by
  simp only [isSurrogate, Bool.and_eq_false_iff, decide_eq_false_iff_not]
  omega

end CodePoint

namespace Text

variable {first second text : Text}

/-! ### Joined texts -/

theorem mem_join {separator : Text} {parts : List Text} {c : CodePoint}
    (h : c ∈ join separator parts) : c ∈ separator ∨ ∃ part ∈ parts, c ∈ part := by
  induction parts with
  | nil => simp [join] at h
  | cons part rest ih =>
    cases rest with
    | nil => exact .inr ⟨part, by simp, by simpa [join] using h⟩
    | cons next others =>
      rw [join, List.intercalate_cons_cons] at h
      rcases List.mem_append.mp h with h | h
      · rcases List.mem_append.mp h with h | h
        · exact .inr ⟨part, by simp, h⟩
        · exact .inl h
      · obtain hseparator | ⟨found, hfound, hmem⟩ := ih h
        · exact .inl hseparator
        · exact .inr ⟨found, List.mem_cons_of_mem part hfound, hmem⟩

theorem join_cons_cons (separator first second : Text) (parts : List Text) :
    join separator (first :: second :: parts) =
      first ++ (separator ++ join separator (second :: parts)) := by
  rw [join, List.intercalate_cons_cons, List.append_assoc]
  rfl

theorem join_concat (separator : Text) {parts : List Text} (h : parts ≠ []) (part : Text) :
    join separator (parts ++ [part]) = join separator parts ++ separator ++ part := by
  induction parts with
  | nil => exact absurd rfl h
  | cons first rest ih =>
    cases rest with
    | nil => simp [join, List.intercalate]
    | cons next others =>
      have hrest := ih (by simp)
      simp only [join, List.cons_append, List.intercalate_cons_cons] at hrest ⊢
      rw [hrest]
      simp only [List.append_assoc]

/-! ### Classes -/

/-- A text of scalar values, without surrogates. -/
def IsScalar (text : Text) : Prop := ∀ c ∈ text, c.isSurrogate = false

/-- A text of ASCII characters other than NUL. -/
def IsAscii (text : Text) : Prop := ∀ c ∈ text, 0 < c.toNat ∧ c.toNat < 0x80

instance (text : Text) : Decidable text.IsScalar :=
  inferInstanceAs (Decidable (∀ c ∈ text, c.isSurrogate = false))

instance (text : Text) : Decidable text.IsAscii :=
  inferInstanceAs (Decidable (∀ c ∈ text, 0 < c.toNat ∧ c.toNat < 0x80))

theorem isAscii_append : (first ++ second).IsAscii ↔ first.IsAscii ∧ second.IsAscii :=
  List.forall_mem_append

theorem isAscii_cons {c : CodePoint} :
    IsAscii (c :: text) ↔ (0 < c.toNat ∧ c.toNat < 0x80) ∧ text.IsAscii :=
  List.forall_mem_cons

theorem isAscii_join {separator : Text} {parts : List Text} (hseparator : separator.IsAscii)
    (hparts : ∀ part ∈ parts, part.IsAscii) : (join separator parts).IsAscii := by
  intro c hc
  rcases mem_join hc with hc | ⟨part, hpart, hc⟩
  · exact hseparator c hc
  · exact hparts part hpart c hc

theorem IsAscii.isScalar (h : text.IsAscii) : text.IsScalar := by
  intro c hc
  have hlt := (h c hc).2
  rw [CodePoint.not_isSurrogate_iff]
  omega

end Text

end SourceMaps
