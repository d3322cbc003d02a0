import SourceMaps.Json.Reader
import SourceMaps.Json.Writer
import SourceMaps.Proofs.Outcome
import SourceMaps.Proofs.Text.CodePoint
import SourceMaps.Proofs.Text.Numeral
import SourceMaps.Proofs.Text.Surrogates

/-!
# JSON strings: reading what was quoted

Inside the quotes every code point is spelled on its own: as it stands, by a short escape, by its
unit, or by the two units of a pair. Each spelling is read as pieces that join to its code point,
whatever comes before and after. A lone surrogate is spelled by its unit as well, which joins with
nothing unless its partner stands beside it, so a quoted text without such neighbours is read back.

## Main definitions

* `Json.Spells`: a spelling inside the quotes and the code point that is read.

## Main statements

* `Json.spells_jsonEscaped`: code points are spelled so that they are read back.
* `Json.readString_jsonQuoted`: so are texts.
* `Json.flatMap_jsonEscaped_paired`: neighbours that form a pair are spelled like what they make up.
-/

namespace SourceMaps

namespace Json

/-! ### Pieces -/

theorem push_ok (piece : Piece) (pieces : List Piece) (rest : Text) :
    push piece (.ok (pieces, rest)) = .ok (piece :: pieces, rest) := rfl

theorem foldr_push_ok (first pieces : List Piece) (rest : Text) :
    first.foldr push (.ok (pieces, rest)) = .ok (first ++ pieces, rest) := by
  induction first with
  | nil => rfl
  | cons piece first ih => rw [List.foldr_cons, ih, push_ok, List.cons_append]

/-- A piece that joins with no other stands for itself. -/
theorem assemble_cons {piece : Piece} (h : ∀ next, piece.joined? next = none)
    (rest : List Piece) : assemble (piece :: rest) = piece.alone :: assemble rest := by
  cases rest with
  | nil => rfl
  | cons next rest => rw [assemble, h next]

theorem assemble_cons_cons {piece next : Piece} (h : piece.joined? next = none)
    (rest : List Piece) :
    assemble (piece :: next :: rest) = piece.alone :: assemble (next :: rest) := by
  rw [assemble, h]

theorem assemble_pair {piece next : Piece} {c : CodePoint} (h : piece.joined? next = some c)
    (rest : List Piece) : assemble (piece :: next :: rest) = c :: assemble rest := by
  rw [assemble, h]

theorem assemble_unit_plain (unit : Nat) (c : CodePoint) (rest : List Piece) :
    assemble (.unit unit :: .plain c :: rest) = .ofNat unit :: c :: assemble rest := by
  rw [assemble_cons_cons rfl, assemble_cons fun _ => rfl, Piece.alone, Piece.alone]

theorem assemble_unit_unit {unit next : Nat} (h : Utf16.pair? unit next = none)
    (rest : List Piece) :
    assemble (.unit unit :: .unit next :: rest) = .ofNat unit :: assemble (.unit next :: rest) := by
  have hjoined : (Piece.unit unit).joined? (.unit next) = none := h
  exact assemble_cons_cons hjoined rest

/-! ### Spellings -/

/-- A text that, inside the quotes, is read as pieces which make up a code point, whatever follows
and whatever unit comes before. Something has to follow, at least the closing quote. -/
def Spells (spelling : Text) (c : CodePoint) : Prop :=
  ∃ pieces : List Piece,
    (∀ opening rest, rest ≠ [] →
      readPieces opening (spelling ++ rest) = pieces.foldr push (readPieces opening rest)) ∧
    (∀ others, assemble (pieces ++ others) = c :: assemble others) ∧
    ∀ unit others, assemble (.unit unit :: (pieces ++ others)) = .ofNat unit :: c :: assemble others

theorem spells_plain {c : CodePoint} (hquote : c ≠ '"') (hslash : c ≠ '\\')
    (hcontrol : 0x20 ≤ c.toNat) : Spells [c] c := by
  refine ⟨[.plain c], fun opening rest _ => ?_, fun others => assemble_cons (fun _ => rfl) others,
    fun unit others => assemble_unit_plain unit c others⟩
  have hvisible : ¬c.toNat < 0x20 := by omega
  rw [List.singleton_append, readPieces.eq_def]
  simp only [if_neg hquote, if_neg hslash, if_neg hvisible]
  rfl

theorem spells_short {e c : CodePoint} (hunit : e ≠ 'u') (hshort : shortEscape? e = some c) :
    Spells ['\\', e] c := by
  refine ⟨[.plain c], fun opening rest _ => ?_, fun others => assemble_cons (fun _ => rfl) others,
    fun unit others => assemble_unit_plain unit c others⟩
  have hslash : (↑ '\\' : CodePoint) ≠ '"' := by decide
  rw [List.cons_append, List.singleton_append, readPieces.eq_def]
  simp only [if_neg hslash, if_true, if_neg hunit, hshort]
  rfl

theorem unit?_hexDigit {a b c d : Nat} (ha : a < 16) (hb : b < 16) (hc : c < 16) (hd : d < 16) :
    unit? (Numeral.hexDigit a) (Numeral.hexDigit b) (Numeral.hexDigit c) (Numeral.hexDigit d) =
      some (((a * 16 + b) * 16 + c) * 16 + d) := by
  rw [unit?, Numeral.hexDigit?_hexDigit ha, Numeral.hexDigit?_hexDigit hb,
    Numeral.hexDigit?_hexDigit hc, Numeral.hexDigit?_hexDigit hd]
  rfl

theorem readPieces_unitEscape {unit : Nat} (hunit : unit < 0x10000) (opening : Text) {rest : Text}
    (hrest : rest ≠ []) :
    readPieces opening (unitEscape unit ++ rest) = push (.unit unit) (readPieces opening rest) := by
  obtain ⟨next, rest, rfl⟩ := List.exists_cons_of_ne_nil hrest
  have hspelling : unitEscape unit ++ next :: rest =
      ↑ '\\' :: ↑ 'u' :: (Numeral.hex 4 unit ++ next :: rest) := rfl
  have hslash : (↑ '\\' : CodePoint) ≠ '"' := by decide
  have hvalue : ((unit / 4096 % 16 * 16 + unit / 256 % 16) * 16 + unit / 16 % 16) * 16 +
      unit % 16 = unit := by omega
  have hread := unit?_hexDigit (Nat.mod_lt (unit / 4096) (by decide : 0 < 16))
    (Nat.mod_lt (unit / 256) (by decide : 0 < 16)) (Nat.mod_lt (unit / 16) (by decide : 0 < 16))
    (Nat.mod_lt unit (by decide : 0 < 16))
  rw [hspelling, Numeral.hex_four, readPieces.eq_def]
  simp only [List.cons_append, List.nil_append, if_neg hslash, if_true, hread, hvalue]

theorem spells_unit {c : CodePoint} (hc : c.isSurrogate = false) (hunit : c.toNat < 0x10000) :
    Spells (unitEscape c.toNat) c := by
  rw [CodePoint.not_isSurrogate_iff] at hc
  have hlone : ∀ next, (Piece.unit c.toNat).joined? next = none := by
    intro next
    cases next with
    | plain d => rfl
    | unit low => exact Utf16.pair?_eq_none_of_high (by omega)
  have hread (others : List Piece) : assemble (.unit c.toNat :: others) = c :: assemble others := by
    rw [assemble_cons hlone, Piece.alone, CodePoint.ofNat_toNat]
  refine ⟨[.unit c.toNat], fun opening rest hrest => readPieces_unitEscape hunit opening hrest,
    hread, fun unit others => ?_⟩
  show assemble (.unit unit :: .unit c.toNat :: others) = _
  rw [assemble_unit_unit (Utf16.pair?_eq_none_of_low (by omega)), hread]

/-- A code point past U+FFFF is spelled by its two surrogates. -/
theorem spells_pair {c : CodePoint} (h : 0x10000 ≤ c.toNat) :
    Spells (unitEscape (0xD800 + (c.toNat - 0x10000) / 0x400) ++
      unitEscape (0xDC00 + (c.toNat - 0x10000) % 0x400)) c := by
  have hlt := c.isLt
  have hhigh : 0xD800 + (c.toNat - 0x10000) / 0x400 < 0xDC00 := by omega
  have hlow : 0xDC00 + (c.toNat - 0x10000) % 0x400 < 0xE000 := by omega
  have hread (others : List Piece) :
      assemble (.unit (0xD800 + (c.toNat - 0x10000) / 0x400) ::
        .unit (0xDC00 + (c.toNat - 0x10000) % 0x400) :: others) = c :: assemble others := by
    have hvalue : 0x10000 + (0xD800 + (c.toNat - 0x10000) / 0x400 - 0xD800) * 0x400 +
        (0xDC00 + (c.toNat - 0x10000) % 0x400 - 0xDC00) = c.toNat := by omega
    refine assemble_pair ?_ others
    rw [Piece.joined?, Utf16.pair?, if_pos ⟨by omega, hhigh, by omega, hlow⟩, hvalue,
      CodePoint.ofNat_toNat]
  refine ⟨[.unit (0xD800 + (c.toNat - 0x10000) / 0x400),
    .unit (0xDC00 + (c.toNat - 0x10000) % 0x400)], fun opening rest hrest => ?_, hread,
    fun unit others => ?_⟩
  · have hne : unitEscape (0xDC00 + (c.toNat - 0x10000) % 0x400) ++ rest ≠ [] := by simp [hrest]
    rw [List.append_assoc, readPieces_unitEscape (by omega) opening hne,
      readPieces_unitEscape (by omega) opening hrest]
    rfl
  · -- The first of the two is a high surrogate, which ends no pair.
    show assemble (.unit unit :: .unit _ :: .unit _ :: others) = _
    rw [assemble_unit_unit (Utf16.pair?_eq_none_of_low (.inl hhigh)), hread]

/-- Code points other than surrogates are spelled so that they are read back. -/
theorem spells_jsonEscaped {c : CodePoint} (h : c.isSurrogate = false) :
    Spells c.jsonEscaped c := by
  unfold CodePoint.jsonEscaped
  split
  · next hc => exact hc ▸ spells_short (e := '"') (by decide) rfl
  split
  · next hc => exact hc ▸ spells_short (e := '\\') (by decide) rfl
  split
  · next hc => exact hc ▸ spells_short (e := 'n') (by decide) rfl
  split
  · next hc => exact hc ▸ spells_short (e := 'r') (by decide) rfl
  split
  · next hc => exact hc ▸ spells_short (e := 't') (by decide) rfl
  split
  · next hc =>
    have hback : c = .ofNat 0x08 := by rw [← hc, CodePoint.ofNat_toNat]
    exact hback ▸ spells_short (e := 'b') (by decide) rfl
  split
  · next hc =>
    have hfeed : c = .ofNat 0x0C := by rw [← hc, CodePoint.ofNat_toNat]
    exact hfeed ▸ spells_short (e := 'f') (by decide) rfl
  split
  · next hquote hslash _ _ _ _ _ hprintable => exact spells_plain hquote hslash hprintable.1
  split
  · next hunit => exact spells_unit h hunit
  · next hunit => exact spells_pair (by omega)

/-! ### Escaped units -/

theorem jsonEscaped_of_le {c : CodePoint} (h : 0x7F ≤ c.toNat) :
    c.jsonEscaped = if c.toNat < 0x10000 then unitEscape c.toNat
      else unitEscape (0xD800 + (c.toNat - 0x10000) / 0x400) ++
        unitEscape (0xDC00 + (c.toNat - 0x10000) % 0x400) := by
  have hne (d : CodePoint) (hd : d.toNat < 0x7F) : c ≠ d := by
    rintro rfl
    omega
  rw [CodePoint.jsonEscaped, if_neg (hne _ (by decide)), if_neg (hne _ (by decide)),
    if_neg (hne _ (by decide)), if_neg (hne _ (by decide)), if_neg (hne _ (by decide)),
    if_neg (by omega), if_neg (by omega), if_neg (by omega)]

theorem jsonEscaped_of_isSurrogate {c : CodePoint} (h : c.isSurrogate = true) :
    c.jsonEscaped = unitEscape c.toNat := by
  have hrange : 0xD800 ≤ c.toNat ∧ c.toNat ≤ 0xDFFF := by
    simpa [CodePoint.isSurrogate] using h
  rw [jsonEscaped_of_le (by omega), if_pos (by omega)]

/-- The code point of a pair is spelled by the two of them. -/
theorem jsonEscaped_of_pair? {high low joint : CodePoint}
    (h : Utf16.pair? high.toNat low.toNat = some joint) :
    joint.jsonEscaped = high.jsonEscaped ++ low.jsonEscaped := by
  obtain ⟨hrange, hvalue⟩ := Utf16.pair?_eq_some_iff.mp h
  have hhigh : 0xD800 + (joint.toNat - 0x10000) / 0x400 = high.toNat := by omega
  have hlow : 0xDC00 + (joint.toNat - 0x10000) % 0x400 = low.toNat := by omega
  rw [jsonEscaped_of_le (by omega), if_neg (by omega), hhigh, hlow, jsonEscaped_of_le (by omega),
    if_pos (by omega), jsonEscaped_of_le (by omega), if_pos (by omega)]

/-- Neighbours that form a pair are spelled like the code point that they make up. -/
theorem flatMap_jsonEscaped_paired (text : Text) :
    text.paired.flatMap (·.jsonEscaped) = text.flatMap (·.jsonEscaped) := by
  fun_induction Text.paired text with
  | case1 => rfl
  | case2 c => rfl
  | case3 c d rest joint hjoint ih =>
    rw [List.flatMap_cons, List.flatMap_cons, List.flatMap_cons, ih, jsonEscaped_of_pair? hjoint,
      List.append_assoc]
  | case4 c d rest _ ih =>
    rw [List.flatMap_cons, ih]
    rfl

/-! ### Texts -/

theorem readPieces_flatMap {text : Text} (h : text.IsSettled) (opening rest : Text) :
    ∃ pieces, readPieces opening (text.flatMap (·.jsonEscaped) ++ ↑ '"' :: rest) =
      .ok (pieces, rest) ∧ assemble pieces = text ∧
      ∀ unit, (∀ c ∈ text.head?, Utf16.pair? unit c.toNat = none) →
        assemble (.unit unit :: pieces) = .ofNat unit :: text := by
  -- A surrogate needs to know how the rest goes on behind its unit, hence the last part.
  induction text with
  | nil =>
    refine ⟨[], ?_, rfl, fun _ _ => rfl⟩
    rw [List.flatMap_nil, List.nil_append, readPieces.eq_def]
    simp only [if_true]
  | cons c text ih =>
    obtain ⟨hnext, htext⟩ := Text.isSettled_cons.mp h
    obtain ⟨pieces, hpieces, hassemble, hunit⟩ := ih htext
    rw [List.flatMap_cons, List.append_assoc]
    cases hc : c.isSurrogate with
    | false =>
      obtain ⟨first, hfirst, hjoin, hbehind⟩ := spells_jsonEscaped hc
      refine ⟨first ++ pieces, ?_, by rw [hjoin, hassemble], fun unit _ => ?_⟩
      · rw [hfirst opening _ (by simp), hpieces, foldr_push_ok]
      · rw [hbehind, hassemble]
    | true =>
      have hlone : assemble (.unit c.toNat :: pieces) = c :: text := by
        rw [hunit c.toNat hnext, CodePoint.ofNat_toNat]
      have hrange : 0xD800 ≤ c.toNat ∧ c.toNat ≤ 0xDFFF := by
        simpa [CodePoint.isSurrogate] using hc
      refine ⟨.unit c.toNat :: pieces, ?_, hlone, fun unit hpair => ?_⟩
      · rw [jsonEscaped_of_isSurrogate hc, readPieces_unitEscape (by omega) opening (by simp),
          hpieces, push_ok]
      · rw [assemble_unit_unit (hpair c rfl), hlone]

/-- A quoted text is read back from behind its opening quote. -/
theorem readString_jsonQuoted {text : Text} (h : text.IsSettled) (opening rest : Text) :
    readString opening (text.flatMap (·.jsonEscaped) ++ ↑ '"' :: rest) = .ok (text, rest) := by
  obtain ⟨pieces, hpieces, hassemble, -⟩ := readPieces_flatMap h opening rest
  rw [readString, hpieces, ok_bind]
  exact congrArg (fun t => Except.ok (t, rest)) hassemble

end Json

end SourceMaps
