import SourceMaps.Proofs.SourcePath.Normal
import SourceMaps.Proofs.Text.Numeral
import SourceMaps.Proofs.Text.Utf8

/-!
# Source paths: file URIs

A reader of percent encodings, and what it finds in the file URI of a path.

## Main definitions

* `Uri.unreserved`: the characters that stand for themselves in the path of a URI.
* `Uri.percentDecode?`: the bytes that a percent encoding spells.
* `NormalPath.IsUriOf`: the file URIs of a path.

## Main statements

* `Uri.percentDecode?_flatMap_uriEscaped`: escaped bytes are found again.
* `NormalPath.isUriOf_toUri`: the file URI of an absolute path is one.
* `NormalPath.IsUriOf.unique`: a file URI belongs to one absolute path.
-/

namespace SourceMaps

namespace Uri

/-- The characters that stand for themselves; the slash is one of them, between the components of a
path. -/
def unreserved : Text :=
  "ABCDEFGHIJKLMNOPQRSTUVWXYZabcdefghijklmnopqrstuvwxyz0123456789-._~/"

/-- The bytes of a percent encoding. There are none if a percent sign is not followed by two
hexadecimal digits, or if some other character is not an unreserved one. -/
def percentDecode? : Text → Option Bytes
  | [] => some []
  | c :: rest =>
    if c = ↑ '%' then
      match rest with
      | high :: low :: rest => do
        let high ← Numeral.hexDigit? high
        let low ← Numeral.hexDigit? low
        (UInt8.ofNat (16 * high + low) :: ·) <$> percentDecode? rest
      | _ => none
    else if c ∈ unreserved then (UInt8.ofNat c.toNat :: ·) <$> percentDecode? rest
    else none

open NormalPath (isUriSafe uriEscaped)

theorem mem_unreserved_of_isUriSafe : ∀ n < 256, isUriSafe (.ofNat n) = true →
    CodePoint.ofNat n ≠ ↑ '%' ∧ CodePoint.ofNat n ∈ unreserved := by
  decide +kernel

theorem percentDecode?_escaped {high low : CodePoint} {h l : Nat}
    (hhigh : Numeral.hexDigit? high = some h) (hlow : Numeral.hexDigit? low = some l) (rest : Text) :
    percentDecode? (↑ '%' :: high :: low :: rest) =
      (UInt8.ofNat (16 * h + l) :: ·) <$> percentDecode? rest := by
  simp [percentDecode?, hhigh, hlow]

theorem percentDecode?_unreserved {c : CodePoint} (hpercent : c ≠ ↑ '%') (h : c ∈ unreserved)
    (rest : Text) :
    percentDecode? (c :: rest) = (UInt8.ofNat c.toNat :: ·) <$> percentDecode? rest := by
  rw [percentDecode?.eq_def]
  simp only [if_neg hpercent, if_pos h]

theorem hexDigit?_upperCase : ∀ d < 16, Numeral.hexDigit?
    (if d < 10 then .ofNat ('0'.toNat + d) else .ofNat ('A'.toNat + (d - 10))) = some d := by
  decide

/-- One escaped byte is read off, whatever follows it. -/
theorem percentDecode?_uriEscaped_append (byte : UInt8) (rest : Text) :
    percentDecode? (uriEscaped byte ++ rest) = (byte :: ·) <$> percentDecode? rest := by
  have hlt := byte.toNat_lt
  unfold uriEscaped
  simp only
  split
  · next hsafe =>
    obtain ⟨hpercent, hmem⟩ := mem_unreserved_of_isUriSafe byte.toNat hlt (by simpa using hsafe)
    have hvalue : (CodePoint.ofNat byte.toNat).toNat = byte.toNat := by
      rw [CodePoint.ofNat, dif_pos (by omega)]
    rw [List.singleton_append, percentDecode?_unreserved hpercent hmem, hvalue, UInt8.ofNat_toNat]
  · have hsplit : 16 * (byte.toNat / 16) + byte.toNat % 16 = byte.toNat := by omega
    rw [List.cons_append, List.cons_append, List.cons_append, List.nil_append,
      percentDecode?_escaped (hexDigit?_upperCase _ (by omega)) (hexDigit?_upperCase _ (by omega)),
      hsplit, UInt8.ofNat_toNat]

theorem percentDecode?_flatMap_uriEscaped (bytes : Bytes) :
    percentDecode? (bytes.flatMap uriEscaped) = some bytes := by
  induction bytes with
  | nil => rfl
  | cons byte bytes ih =>
    rw [List.flatMap_cons, percentDecode?_uriEscaped_append, ih]
    rfl

end Uri

namespace NormalPath

variable {path : NormalPath} {name : Text}

/-- Behind the scheme stands a percent encoding that begins with a slash and spells the UTF-8 form of
the path. -/
def IsUriOf (path : NormalPath) (name : Text) : Prop :=
  ∃ encoded bytes, name = "file://" ++ encoded ∧ encoded.head? = some ↑ '/' ∧
    Uri.percentDecode? encoded = some bytes ∧ Utf8.decodeLossy bytes = path.toText

theorem isUriOf_toUri (h : path.IsAbsolute) (hscalar : path.toText.IsScalar) :
    path.IsUriOf path.toUri := by
  refine ⟨_, _, rfl, ?_, Uri.percentDecode?_flatMap_uriEscaped _, Utf8.decodeLossy_encode hscalar⟩
  rw [toText]
  rcases h.rooted with hroot | hroot <;> rw [hroot] <;> rfl

/-- A file URI belongs to one absolute path. -/
theorem IsUriOf.unique (h : path.IsUriOf name) (habsolute : path.IsAbsolute) {other : NormalPath}
    (hother : other.IsUriOf name) (hother' : other.IsAbsolute) : path = other := by
  obtain ⟨encoded, bytes, hname, -, hbytes, htext⟩ := h
  obtain ⟨encoded', bytes', hname', -, hbytes', htext'⟩ := hother
  obtain rfl := List.append_cancel_left (hname.symm.trans hname')
  obtain rfl := Option.some.inj (hbytes.symm.trans hbytes')
  rw [← ofText_toText habsolute, ← htext, htext', ofText_toText hother']

end NormalPath

end SourceMaps
