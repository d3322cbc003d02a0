import Mathlib.Algebra.Group.Nat.Defs
import SourceMaps.Json.Encoding
import SourceMaps.Proofs.Outcome
import SourceMaps.Proofs.Text.CodePoint

/-!
# UTF-8: ASCII texts and lossy decoding

An ASCII text is encoded byte by byte. Without a NUL among them the bytes of JSON text are taken for
UTF-8, and they are decoded to the same text. Lossy decoding, which takes any bytes, never answers a
surrogate, and finds every text without surrogates again from its bytes.

## Main statements

* `Json.decodeBytes_encode`: an ASCII text is found again from its bytes.
* `Utf8.isScalar_decodeLossy`: lossily decoded texts hold no surrogates.
* `Utf8.decodeLossy_encode`: a text without surrogates is found again from its bytes.
-/

namespace SourceMaps

/-! ### ASCII texts -/

namespace Utf8

variable {text : Text}

/-- The byte of an ASCII character. -/
theorem toNat_byte {c : CodePoint} (h : c.toNat < 0x80) :
    (UInt8.ofNat c.toNat).toNat = c.toNat := by
  rw [UInt8.toNat_ofNat']
  omega

theorem encode_eq_map (h : text.IsAscii) : encode text = text.map fun c => UInt8.ofNat c.toNat := by
  induction text with
  | nil => rfl
  | cons c text ih =>
    obtain ⟨⟨-, hc⟩, htext⟩ := Text.isAscii_cons.mp h
    rw [encode, List.flatMap_cons, encodeCodePoint, if_pos hc, List.map_cons, ← ih htext]
    rfl

theorem bytes_of_isAscii (h : text.IsAscii) : ∀ byte ∈ encode text, 0 < byte ∧ byte < 0x80 := by
  intro byte hbyte
  rw [encode_eq_map h] at hbyte
  obtain ⟨c, hc, rfl⟩ := List.mem_map.mp hbyte
  obtain ⟨hpos, hlt⟩ := h c hc
  rw [UInt8.lt_iff_toNat_lt, UInt8.lt_iff_toNat_lt, toNat_byte hlt]
  exact ⟨hpos, hlt⟩

theorem decodeFrom_encode (h : text.IsAscii) (position : Nat) :
    decodeFrom position none (encode text) = .ok text := by
  rw [encode_eq_map h]
  induction text generalizing position with
  | nil => rfl
  | cons c text ih =>
    obtain ⟨⟨-, hc⟩, htext⟩ := Text.isAscii_cons.mp h
    have hbyte : UInt8.ofNat c.toNat < 0x80 := by
      rw [UInt8.lt_iff_toNat_lt, toNat_byte hc]
      exact hc
    rw [List.map_cons, decodeFrom, if_pos hbyte, ih htext, toNat_byte hc, CodePoint.ofNat_toNat,
      map_ok]

end Utf8

namespace Json

/-- Bytes that start with an ASCII character other than NUL have no byte order mark. -/
theorem markedEncoding?_eq_none {bytes : Bytes} (h : ∀ byte ∈ bytes, 0 < byte ∧ byte < 0x80) :
    markedEncoding? bytes = none := by
  cases bytes with
  | nil => rfl
  | cons byte bytes =>
    obtain ⟨hpos, hlt⟩ := h byte (by simp)
    have hmarks : (0x00 : UInt8) ≠ byte ∧ 0xFF ≠ byte ∧ 0xFE ≠ byte ∧ 0xEF ≠ byte := by
      refine ⟨?_, ?_, ?_, ?_⟩
      all_goals
        rintro rfl
        revert hpos hlt
        decide
    simp [markedEncoding?, hmarks]

theorem unmarkedEncoding_of_bytes {bytes : Bytes} (h : ∀ byte ∈ bytes, 0 < byte ∧ byte < 0x80) :
    unmarkedEncoding bytes = .utf8 := by
  have hne : ∀ byte ∈ bytes, byte ≠ 0 := by
    intro byte hbyte hzero
    exact absurd (hzero ▸ (h byte hbyte).1) (by decide)
  match bytes with
  | [] | [a] | [a, b, c] => rfl
  | [a, b] => simp [unmarkedEncoding, hne]
  | a :: b :: c :: d :: rest => simp [unmarkedEncoding, hne]

/-- An ASCII text is found again from its bytes. -/
theorem decodeBytes_encode {text : Text} (h : text.IsAscii) :
    decodeBytes (Utf8.encode text) = .ok text := by
  have hbytes := Utf8.bytes_of_isAscii h
  rw [decodeBytes, encodingOf, markedEncoding?_eq_none hbytes, unmarkedEncoding_of_bytes hbytes]
  exact Utf8.decodeFrom_encode h 0

end Json

/-! ### Lossy decoding -/

namespace Utf8

/-- A pending code point that cannot become a surrogate, whatever bytes follow that it admits. One
byte before the end its bits are outside the surrogates; two bytes before, only the lower half of
the bytes may follow `0xD`; three bytes before, no leading zero may be made up for. -/
structure Pending.IsSafe (p : Pending) : Prop where
  low : 0x80 ≤ p.low
  high : p.high ≤ 0xBF
  bits : (p.owed = 1 ∧ (p.value < 0x360 ∨ 0x380 ≤ p.value)) ∨
    (p.owed = 2 ∧ (p.value ≠ 0xD ∨ p.high ≤ 0x9F)) ∨
    (p.owed = 3 ∧ (p.value ≠ 0 ∨ 0x90 ≤ p.low))

theorem isSafe_lead? {byte : UInt8} {p : Pending} (h : lead? false byte = some p) : p.IsSafe := by
  have hlt := byte.toNat_lt
  unfold lead? at h
  simp only [Bool.false_eq_true, if_false] at h
  split_ifs at h
  all_goals
    obtain rfl := Option.some.inj h
    constructor
    all_goals
      dsimp only
      omega

theorem isSurrogate_ofNat {n : Nat} (h : n < 0xD800 ∨ 0xE000 ≤ n) :
    (CodePoint.ofNat n).isSurrogate = false := by
  unfold CodePoint.ofNat
  split
  · exact CodePoint.not_isSurrogate_iff.mpr h
  · rfl

/-- A byte more completes a code point that is no surrogate, or leaves one that cannot become
one. -/
theorem Pending.IsSafe.push {p : Pending} (h : p.IsSafe) {byte : UInt8}
    (hadmits : p.admits byte = true) :
    ((p.push byte).owed = 0 → (CodePoint.ofNat (p.push byte).value).isSurrogate = false) ∧
      ((p.push byte).owed ≠ 0 → (p.push byte).IsSafe) := by
  obtain ⟨hlow, hhigh, hbits⟩ := h
  simp only [admits, Bool.and_eq_true, decide_eq_true_eq] at hadmits
  have howed : (p.push byte).owed = p.owed - 1 := rfl
  have hvalue : (p.push byte).value = p.value * 64 + (byte.toNat - 0x80) := rfl
  constructor
  · intro hzero
    apply isSurrogate_ofNat
    omega
  · intro hne
    refine ⟨Nat.le_refl _, Nat.le_refl _, ?_⟩
    omega

/-- Lossy decoding never answers a surrogate. -/
theorem isScalar_decodeLossyFrom {pending : Option Pending} (h : ∀ p ∈ pending, p.IsSafe)
    (bytes : Bytes) : (decodeLossyFrom pending bytes).IsScalar := by
  induction bytes generalizing pending with
  | nil =>
    cases pending with
    | none => exact nofun
    | some p => exact List.forall_mem_singleton.mpr (by decide)
  | cons byte rest ih =>
    rw [decodeLossyFrom]
    split
    · next p hp =>
      obtain ⟨hmem, hadmits⟩ := Option.filter_eq_some_iff.mp hp
      obtain ⟨hdone, hmore⟩ := (h p hmem).push hadmits
      by_cases howed : (p.push byte).owed = 0
      · rw [if_pos howed]
        exact List.forall_mem_cons.mpr ⟨hdone howed, ih nofun⟩
      · rw [if_neg howed]
        exact ih fun q hq => Option.some.inj hq ▸ hmore howed
    · have hreplacement : CodePoint.replacement.isSurrogate = false := by decide
      refine List.forall_mem_append.mpr ⟨?_, ?_⟩
      · split
        · exact List.forall_mem_singleton.mpr hreplacement
        · exact nofun
      · split
        · next hbyte =>
          rw [UInt8.lt_iff_toNat_lt] at hbyte
          refine List.forall_mem_cons.mpr ⟨isSurrogate_ofNat ?_, ih nofun⟩
          exact .inl (Nat.lt_trans hbyte (by decide))
        · split
          · exact List.forall_mem_cons.mpr ⟨hreplacement, ih nofun⟩
          · next p hp => exact ih fun q hq => Option.some.inj hq ▸ isSafe_lead? hp

theorem isScalar_decodeLossy (bytes : Bytes) : (decodeLossy bytes).IsScalar :=
  isScalar_decodeLossyFrom (by simp) bytes

theorem isScalar_decodeAscii {position : Nat} {bytes : Bytes} {text : Text}
    (h : decodeAscii position bytes = .ok text) : text.IsScalar := by
  induction bytes generalizing position text with
  | nil =>
    cases h
    exact nofun
  | cons byte rest ih =>
    rw [decodeAscii] at h
    split at h
    · next hbyte =>
      obtain ⟨others, hothers, rfl⟩ := map_eq_ok_iff.mp h
      rw [UInt8.lt_iff_toNat_lt] at hbyte
      refine List.forall_mem_cons.mpr ⟨isSurrogate_ofNat ?_, ih hothers⟩
      exact .inl (Nat.lt_trans hbyte (by decide))
    · cases h

/-! ### Lossy decoding of what was encoded -/

/-- The last bytes of a code point, of which each holds six bits. -/
def continuations (n : Nat) : (count : Nat) → Bytes
  | 0 => []
  | count + 1 => .ofNat (0x80 + n / 64 ^ count % 64) :: continuations n count

/-- A first byte that begins a code point, `count` bytes before its end, and admits the next one. -/
def Leads (byte : UInt8) (n count : Nat) : Prop :=
  ∃ p, lead? false byte = some p ∧ p.owed = count ∧ p.value = n / 64 ^ count ∧
    p.low ≤ 0x80 + n / 64 ^ (count - 1) % 64 ∧ 0x80 + n / 64 ^ (count - 1) % 64 ≤ p.high

theorem toNat_continuation (n : Nat) : (UInt8.ofNat (0x80 + n % 64)).toNat = 0x80 + n % 64 := by
  rw [UInt8.toNat_ofNat']
  omega

theorem leads_two {n : Nat} (h : 0x80 ≤ n) (h' : n < 0x800) : Leads (.ofNat (0xC0 + n / 64)) n 1 := by
  have hbyte : (UInt8.ofNat (0xC0 + n / 64)).toNat = 0xC0 + n / 64 := by
    rw [UInt8.toNat_ofNat']
    omega
  unfold Leads lead?
  simp only [hbyte]
  rw [if_neg (by omega), if_pos (by omega)]
  exact ⟨_, rfl, rfl, by dsimp only; omega, by dsimp only; omega, by dsimp only; omega⟩

/-- Surrogates have no first byte. -/
theorem leads_three {n : Nat} (h : 0x800 ≤ n) (h' : n < 0x10000) (hn : n < 0xD800 ∨ 0xE000 ≤ n) :
    Leads (.ofNat (0xE0 + n / 4096)) n 2 := by
  have hbyte : (UInt8.ofNat (0xE0 + n / 4096)).toNat = 0xE0 + n / 4096 := by
    rw [UInt8.toNat_ofNat']
    omega
  unfold Leads lead?
  simp only [hbyte, Bool.false_eq_true, if_false]
  rw [if_neg (by omega), if_neg (by omega)]
  by_cases hzero : n / 4096 = 0
  · rw [if_pos (by omega)]
    exact ⟨_, rfl, rfl, by dsimp only; omega, by dsimp only; omega, by dsimp only; omega⟩
  rw [if_neg (by omega)]
  by_cases hsurrogates : n / 4096 = 0xD
  · rw [if_pos (by omega)]
    exact ⟨_, rfl, rfl, by dsimp only; omega, by dsimp only; omega, by dsimp only; omega⟩
  · rw [if_neg (by omega), if_pos (by omega)]
    exact ⟨_, rfl, rfl, by dsimp only; omega, by dsimp only; omega, by dsimp only; omega⟩

theorem leads_four {n : Nat} (h : 0x10000 ≤ n) (h' : n < 0x110000) :
    Leads (.ofNat (0xF0 + n / 262144)) n 3 := by
  have hbyte : (UInt8.ofNat (0xF0 + n / 262144)).toNat = 0xF0 + n / 262144 := by
    rw [UInt8.toNat_ofNat']
    omega
  unfold Leads lead?
  simp only [hbyte, Bool.false_eq_true, if_false]
  rw [if_neg (by omega), if_neg (by omega), if_neg (by omega), if_neg (by omega), if_neg (by omega)]
  by_cases hzero : n / 262144 = 0
  · rw [if_pos (by omega)]
    exact ⟨_, rfl, rfl, by dsimp only; omega, by dsimp only; omega, by dsimp only; omega⟩
  rw [if_neg (by omega)]
  by_cases hlast : n / 262144 = 4
  · rw [if_neg (by omega), if_pos (by omega)]
    exact ⟨_, rfl, rfl, by dsimp only; omega, by dsimp only; omega, by dsimp only; omega⟩
  · rw [if_pos (by omega)]
    exact ⟨_, rfl, rfl, by dsimp only; omega, by dsimp only; omega, by dsimp only; omega⟩

theorem decodeLossyFrom_of_admits {p : Pending} {byte : UInt8} (h : p.admits byte = true)
    (rest : Bytes) :
    decodeLossyFrom (some p) (byte :: rest) =
      if (p.push byte).owed = 0 then .ofNat (p.push byte).value :: decodeLossyFrom none rest
      else decodeLossyFrom (some (p.push byte)) rest := by
  rw [decodeLossyFrom]
  simp [Option.filter, h]

theorem decodeLossyFrom_of_lead? {p : Pending} {byte : UInt8} (h : lead? false byte = some p)
    (rest : Bytes) : decodeLossyFrom none (byte :: rest) = decodeLossyFrom (some p) rest := by
  have hbyte : ¬byte < 0x80 := by
    rw [UInt8.lt_iff_toNat_lt]
    intro hlt
    have hlt : byte.toNat < 0x80 := hlt
    rw [lead?, if_pos (by omega)] at h
    cases h
  rw [decodeLossyFrom]
  simp only [Option.filter_none, Option.isSome_none, Bool.false_eq_true, if_false,
    List.nil_append, if_neg hbyte, h]

theorem Pending.admits_continuation {p : Pending} {n : Nat} (hlow : p.low ≤ 0x80 + n % 64)
    (hhigh : 0x80 + n % 64 ≤ p.high) : p.admits (.ofNat (0x80 + n % 64)) = true := by
  simp only [admits, toNat_continuation, Bool.and_eq_true, decide_eq_true_eq]
  exact ⟨hlow, hhigh⟩

theorem Pending.value_push_continuation {p : Pending} {n count : Nat}
    (hvalue : p.value = n / 64 ^ (count + 1)) :
    (p.push (.ofNat (0x80 + n / 64 ^ count % 64))).value = n / 64 ^ count := by
  rw [Nat.pow_succ, ← Nat.div_div_eq_div_mul] at hvalue
  simp only [push, toNat_continuation, hvalue]
  omega

/-- Continuation bytes complete a pending code point that admits the first of them. -/
theorem decodeLossyFrom_continuations {p : Pending} {n count : Nat} (howed : p.owed = count + 1)
    (hvalue : p.value = n / 64 ^ (count + 1)) (hlow : p.low ≤ 0x80 + n / 64 ^ count % 64)
    (hhigh : 0x80 + n / 64 ^ count % 64 ≤ p.high) (rest : Bytes) :
    decodeLossyFrom (some p) (continuations n (count + 1) ++ rest) =
      .ofNat n :: decodeLossyFrom none rest := by
  induction count generalizing p with
  | zero =>
    have hdone : (p.push (.ofNat (0x80 + n / 64 ^ 0 % 64))).owed = 0 := by
      simp only [Pending.push, howed]
    rw [continuations, List.cons_append,
      decodeLossyFrom_of_admits (Pending.admits_continuation hlow hhigh), if_pos hdone,
      Pending.value_push_continuation hvalue, Nat.pow_zero, Nat.div_one]
    rfl
  | succ count ih =>
    have hmore : (p.push (.ofNat (0x80 + n / 64 ^ (count + 1) % 64))).owed = count + 1 := by
      simp only [Pending.push, howed, Nat.add_sub_cancel]
    have hlast := Nat.mod_lt (n / 64 ^ count) (by decide : 0 < 64)
    rw [continuations, List.cons_append,
      decodeLossyFrom_of_admits (Pending.admits_continuation hlow hhigh), if_neg (by omega)]
    exact ih hmore (Pending.value_push_continuation hvalue) (Nat.le_add_right _ _)
      (by simp only [Pending.push]; omega)

/-- The bytes of a code point beyond ASCII: a first byte, and six bits in each of the others. -/
theorem exists_leads_of_encodeCodePoint {c : CodePoint} (h : c.isSurrogate = false)
    (hn : 0x80 ≤ c.toNat) : ∃ byte count, Leads byte c.toNat (count + 1) ∧
      encodeCodePoint c = byte :: continuations c.toNat (count + 1) := by
  have hscalar := CodePoint.not_isSurrogate_iff.mp h
  have hlt := c.isLt
  unfold encodeCodePoint
  simp only [Nat.shiftRight_eq_div_pow]
  rw [if_neg (by omega)]
  split
  · next htwo => exact ⟨_, 0, leads_two hn htwo, rfl⟩
  split
  · next htwo hthree => exact ⟨_, 1, leads_three (by omega) hthree hscalar, rfl⟩
  · next htwo hthree => exact ⟨_, 2, leads_four (by omega) hlt, rfl⟩

theorem decodeLossyFrom_encodeCodePoint {c : CodePoint} (h : c.isSurrogate = false) (rest : Bytes) :
    decodeLossyFrom none (encodeCodePoint c ++ rest) = c :: decodeLossyFrom none rest := by
  by_cases hn : c.toNat < 0x80
  · have hbyte : UInt8.ofNat c.toNat < 0x80 := by
      rw [UInt8.lt_iff_toNat_lt, toNat_byte hn]
      exact hn
    rw [encodeCodePoint, if_pos hn, List.singleton_append, decodeLossyFrom]
    simp only [Option.filter_none, Option.isSome_none, Bool.false_eq_true, if_false,
      List.nil_append, if_pos hbyte, toNat_byte hn, CodePoint.ofNat_toNat]
  · obtain ⟨byte, count, ⟨p, hlead, howed, hvalue, hlow, hhigh⟩, hbytes⟩ :=
      exists_leads_of_encodeCodePoint h (Nat.le_of_not_lt hn)
    rw [hbytes, List.cons_append, decodeLossyFrom_of_lead? hlead,
      decodeLossyFrom_continuations howed hvalue hlow hhigh, CodePoint.ofNat_toNat]

/-- A text without surrogates is found again from its bytes. -/
theorem decodeLossy_encode {text : Text} (h : text.IsScalar) : decodeLossy (encode text) = text := by
  rw [decodeLossy]
  induction text with
  | nil => rfl
  | cons c text ih =>
    obtain ⟨hc, htext⟩ := List.forall_mem_cons.mp h
    rw [encode, List.flatMap_cons, decodeLossyFrom_encodeCodePoint hc]
    exact congrArg (c :: ·) (ih htext)

end Utf8

end SourceMaps
