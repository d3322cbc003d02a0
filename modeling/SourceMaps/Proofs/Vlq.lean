import Mathlib.Data.List.Forall2
import Mathlib.Data.List.SplitBy
import Mathlib.Data.Nat.Digits.Defs
import Mathlib.Tactic.Ring
import SourceMaps.Proofs.Index.Registry
import SourceMaps.Proofs.Outcome
import SourceMaps.Vlq

/-!
# Base64 VLQ: numbers and their texts

The last character of a number is the only one that is not marked as continued, so a text falls
into its numbers in one way, and a reader finds them whatever follows. Spellings are such texts, so
integers written one after the other are read back one by one.

## Main definitions

* `Vlq.IsNumber`: the texts of one number.
* `Vlq.raw`, `Vlq.value`: the number that its groups make up, and the integer that it stands for.
* `Vlq.numbers`: a text cut into the texts of its numbers.

## Main statements

* `Vlq.decodeFrom_number`: reading one number, whatever follows.
* `Vlq.decode_eq_ok_iff`: the texts that can be decoded are numbers in a row.
* `Vlq.decode_of_encode`: spelled integers are read back.
* `Vlq.mem_alphabet_of_decode`, `Vlq.mem_alphabet_of_encode`: what such texts are made of.
* `Vlq.encode_cases`: integers are spelled unless one of them is too wide.
* `Vlq.decode_encode`: spelling and reading, for every list of integers.
-/

namespace SourceMaps.Vlq

/-! ### Digits -/

theorem length_alphabet : alphabet.length = 64 := rfl

set_option maxRecDepth 4000 in
/-- No character stands for two digits. -/
theorem nodup_alphabet : alphabet.Nodup := by decide

theorem character_eq {d : Nat} (h : d < alphabet.length) : character d = alphabet[d] := by
  rw [character, List.getD_eq_getElem?_getD, List.getElem?_eq_getElem h, Option.getD_some]

theorem character_mem {d : Nat} (h : d < 64) : character d ∈ alphabet := by
  rw [← length_alphabet] at h
  rw [character_eq h]
  exact List.getElem_mem h

theorem digit?_character {d : Nat} (h : d < 64) : digit? (character d) = some d := by
  have hmem := character_mem h
  rw [← length_alphabet] at h
  rw [digit?, idxOf?_of_mem hmem, character_eq h, nodup_alphabet.idxOf_getElem]

/-- Digits and characters determine each other. -/
theorem digit?_eq_some_iff {c : CodePoint} {d : Nat} :
    digit? c = some d ↔ d < 64 ∧ c = character d := by
  constructor
  · intro h
    have hmem : c ∈ alphabet := by
      by_contra hc
      rw [digit?, List.idxOf?_eq_none_iff.mpr hc] at h
      cases h
    rw [digit?, idxOf?_of_mem hmem] at h
    obtain rfl : alphabet.idxOf c = d := by simpa using h
    have hlt := List.idxOf_lt_length_of_mem hmem
    refine ⟨hlt, ?_⟩
    rw [character_eq hlt, List.getElem_idxOf]
  · rintro ⟨hd, rfl⟩
    exact digit?_character hd

theorem mem_alphabet_of_digit? {c : CodePoint} {d : Nat} (h : digit? c = some d) :
    c ∈ alphabet := by
  obtain ⟨hd, rfl⟩ := digit?_eq_some_iff.mp h
  exact character_mem hd

/-- The value of a digit, zero for what is no digit. -/
def digit (c : CodePoint) : Nat := (digit? c).getD 0

theorem digit_eq {c : CodePoint} {d : Nat} (h : digit? c = some d) : digit c = d := by
  rw [digit, h, Option.getD_some]

/-! ### Numbers -/

/-- The texts of one number: all characters but the last are marked as continued. -/
inductive IsNumber : Text → Prop where
  | last {c : CodePoint} {d : Nat} (hc : digit? c = some d) (hd : d < 32) : IsNumber [c]
  | more {c : CodePoint} {d : Nat} {n : Text} (hc : digit? c = some d) (hd : 32 ≤ d)
      (hn : IsNumber n) : IsNumber (c :: n)

/-- The groups of five bits that the characters of a number hold. -/
def groupsOf (number : Text) : List Nat := number.map fun c => digit c % 32

/-- The number with the groups of a text, the first of them the lowest. -/
def raw (number : Text) : Nat := Nat.ofDigits 32 (groupsOf number)

/-- The integer that the text of a number spells. -/
def value (number : Text) : Int := unzigzag (raw number)

theorem raw_cons (c : CodePoint) (n : Text) : raw (c :: n) = digit c % 32 + 32 * raw n := by
  rw [raw, groupsOf, List.map_cons, Nat.ofDigits_cons]
  rfl

theorem IsNumber.ne_nil {n : Text} (h : IsNumber n) : n ≠ [] := by
  cases h <;> simp

theorem IsNumber.mem_alphabet {n : Text} (h : IsNumber n) : ∀ c ∈ n, c ∈ alphabet := by
  induction h with
  | last hc _ => simpa using mem_alphabet_of_digit? hc
  | more hc _ _ ih =>
    intro c hmem
    rcases List.mem_cons.mp hmem with rfl | hmem
    · exact mem_alphabet_of_digit? hc
    · exact ih c hmem

/-- A number is its first group and, further up, the others. -/
theorem shiftLeft_add (a b shift : Nat) :
    (a + 32 * b) <<< shift = a <<< shift + b <<< (shift + 5) := by
  simp only [Nat.shiftLeft_eq]
  ring

/-- Reading a number adds it, shifted, to what was read before; then the integer is complete and the
reader starts over behind it. -/
theorem decodeFrom_number {n : Text} (h : IsNumber n) (whole rest : Text)
    (offset before shift : Nat) :
    decodeFrom whole offset before shift (n ++ rest) =
      if InRange (unzigzag (before + raw n <<< shift)) then
        (unzigzag (before + raw n <<< shift) :: ·) <$>
          decodeFrom whole (offset + n.length) 0 0 rest
      else .error (.wideNumber whole) := by
  induction h generalizing offset before shift with
  | @last c d hc hd =>
    have hraw : raw [c] = d % 32 := by
      rw [raw_cons, digit_eq hc]
      rfl
    rw [List.singleton_append, decodeFrom, hc]
    simp only [hraw, if_neg (Nat.not_le.mpr hd), List.length_singleton]
  | @more c d n hc hd hn ih =>
    have hraw : before + raw (c :: n) <<< shift =
        before + (d % 32) <<< shift + raw n <<< (shift + 5) := by
      rw [raw_cons, digit_eq hc, shiftLeft_add, Nat.add_assoc]
    rw [List.cons_append, decodeFrom, hc]
    simp only [if_pos hd]
    rw [ih, hraw, List.length_cons, Nat.add_assoc offset, Nat.add_comm 1]

/-- What can be read begins with a number, unless nothing is left of it. -/
theorem exists_number_of_decodeFrom {whole text : Text} {offset before shift : Nat}
    {values : List Int} (h : decodeFrom whole offset before shift text = .ok values) :
    text = [] ∧ shift = 0 ∨ ∃ n rest, IsNumber n ∧ text = n ++ rest := by
  induction text generalizing offset before shift values with
  | nil =>
    rw [decodeFrom] at h
    split at h
    · next hshift => exact .inl ⟨rfl, hshift⟩
    · cases h
  | cons c rest ih =>
    rw [decodeFrom] at h
    cases hc : digit? c with
    | none => simp [hc] at h
    | some d =>
      simp only [hc] at h
      by_cases hd : 32 ≤ d
      · rw [if_pos hd] at h
        rcases ih h with ⟨-, hshift⟩ | ⟨n, others, hn, rfl⟩
        · omega
        · exact .inr ⟨c :: n, others, hn.more hc hd, rfl⟩
      · exact .inr ⟨[c], rest, .last hc (by omega), rfl⟩

/-- At the beginning of a number nothing is kept of those before it. -/
theorem decodeFrom_start {n : Text} (h : IsNumber n) (whole rest : Text) (offset : Nat) :
    decodeFrom whole offset 0 0 (n ++ rest) =
      if InRange (value n) then
        (value n :: ·) <$> decodeFrom whole (offset + n.length) 0 0 rest
      else .error (.wideNumber whole) := by
  have hvalue : unzigzag (0 + raw n <<< 0) = value n := by
    rw [Nat.shiftLeft_zero, Nat.zero_add, value]
  rw [decodeFrom_number h, hvalue]

/-- A text can be decoded exactly if it is a row of numbers that stand for integers in range, and
these are what is read. -/
theorem decodeFrom_eq_ok_iff {whole text : Text} {offset : Nat} {values : List Int} :
    decodeFrom whole offset 0 0 text = .ok values ↔
      ∃ ns : List Text, (∀ n ∈ ns, IsNumber n ∧ InRange (value n)) ∧
        text = ns.flatten ∧ values = ns.map value := by
  constructor
  · intro h
    -- The induction is on the length of what is left to read.
    induction hlength : text.length using Nat.strongRecOn generalizing text offset values with
    | ind length ih =>
      rcases exists_number_of_decodeFrom h with ⟨rfl, -⟩ | ⟨n, rest, hn, rfl⟩
      · cases h
        exact ⟨[], by simp, rfl, rfl⟩
      · rw [decodeFrom_start hn] at h
        have hshorter : rest.length < length := by
          have hpos := List.length_pos_iff.mpr hn.ne_nil
          rw [List.length_append] at hlength
          omega
        split at h
        · next hrange =>
          obtain ⟨others, hothers, rfl⟩ := map_eq_ok_iff.mp h
          obtain ⟨ns, hns, rfl, rfl⟩ := ih rest.length hshorter hothers rfl
          refine ⟨n :: ns, ?_, rfl, rfl⟩
          exact List.forall_mem_cons.mpr ⟨⟨hn, hrange⟩, hns⟩
        · cases h
  · rintro ⟨ns, hns, rfl, rfl⟩
    induction ns generalizing offset with
    | nil => rfl
    | cons n ns ih =>
      obtain ⟨⟨hn, hrange⟩, hns⟩ := List.forall_mem_cons.mp hns
      rw [List.flatten_cons, decodeFrom_start hn, if_pos hrange, ih hns, map_ok, List.map_cons]

theorem decode_eq_ok_iff {text : Text} {values : List Int} :
    decode text = .ok values ↔
      ∃ ns : List Text, (∀ n ∈ ns, IsNumber n ∧ InRange (value n)) ∧
        text = ns.flatten ∧ values = ns.map value :=
  decodeFrom_eq_ok_iff

theorem mem_alphabet_of_decode {text : Text} {values : List Int} (h : decode text = .ok values) :
    ∀ c ∈ text, c ∈ alphabet := by
  obtain ⟨ns, hns, rfl, -⟩ := decode_eq_ok_iff.mp h
  intro c hc
  obtain ⟨n, hn, hc⟩ := List.mem_flatten.mp hc
  exact (hns n hn).1.mem_alphabet c hc

/-! ### Cutting a text into its numbers -/

/-- The texts of the numbers of a text: a number goes on behind a character that is marked as
continued. -/
def numbers (text : Text) : List Text := text.splitBy fun c _ => 32 ≤ digit c

theorem IsNumber.numbers_append {n : Text} (h : IsNumber n) (rest : Text) :
    numbers (n ++ rest) = n :: numbers rest := by
  have hone : numbers n = [n] := by
    refine List.splitBy_of_isChain h.ne_nil ?_
    induction h with
    | last _ _ => exact List.isChain_singleton _
    | more hc hd hn ih =>
      obtain ⟨c', n', rfl⟩ := List.exists_cons_of_ne_nil hn.ne_nil
      exact List.isChain_cons_cons.mpr ⟨by simpa [digit_eq hc] using hd, ih⟩
  have hlast : ∀ c ∈ n.getLast?, ¬32 ≤ digit c := by
    clear hone
    induction h with
    | @last c d hc hd =>
      intro c' hc'
      obtain rfl : c = c' := by simpa using hc'
      rw [digit_eq hc]
      omega
    | more hc hd hn ih =>
      obtain ⟨c', n', rfl⟩ := List.exists_cons_of_ne_nil hn.ne_nil
      rwa [List.getLast?_cons_cons]
  have hcut : numbers (n ++ rest) = numbers n ++ numbers rest :=
    List.splitBy_append fun c hc _ _ => by simpa using hlast c hc
  rw [hcut, hone]
  rfl

/-- Numbers in a row are found again. -/
theorem numbers_flatten {ns : List Text} (h : ∀ n ∈ ns, IsNumber n) :
    numbers ns.flatten = ns := by
  induction ns with
  | nil => rfl
  | cons n ns ih =>
    obtain ⟨hn, hns⟩ := List.forall_mem_cons.mp h
    rw [List.flatten_cons, hn.numbers_append, ih hns]

/-! ### Integers -/

/-- The sign and the magnitude of an integer determine it. -/
theorem unzigzag_zigzag (value : Int) : unzigzag (zigzag value) = value := by
  unfold unzigzag zigzag
  split <;> split <;> omega

/-- The text that is written for a number is one of its texts. -/
theorem isNumber_groups (n : Nat) :
    IsNumber ((groups n).map character) ∧ raw ((groups n).map character) = n := by
  induction n using Nat.strongRecOn with
  | ind n ih =>
    rw [groups]
    by_cases hn : n < 32
    · have hdigit := digit?_character (show n < 64 by omega)
      have hmod : n % 32 = n := Nat.mod_eq_of_lt hn
      rw [if_pos hn, List.map_singleton, raw_cons, digit_eq hdigit]
      exact ⟨.last hdigit hn, hmod⟩
    · obtain ⟨hnumber, hraw⟩ := ih (n / 32) (by omega)
      have hdigit := digit?_character (show n % 32 + 32 < 64 by omega)
      rw [if_neg hn, List.map_cons, raw_cons, hraw, digit_eq hdigit]
      exact ⟨hnumber.more hdigit (by omega), by omega⟩

theorem encodeInt_eq_ok_iff {value : Int} {text : Text} :
    encodeInt value = .ok text ↔ InRange value ∧ text = (groups (zigzag value)).map character := by
  unfold encodeInt
  split
  · next h => simp [h, eq_comm]
  · next h => simp [h]

/-- The spelling of an integer is a number that stands for it. -/
theorem isNumber_of_encodeInt {v : Int} {text : Text} (h : encodeInt v = .ok text) :
    IsNumber text ∧ value text = v ∧ InRange v := by
  obtain ⟨hrange, rfl⟩ := encodeInt_eq_ok_iff.mp h
  obtain ⟨hnumber, hraw⟩ := isNumber_groups (zigzag v)
  refine ⟨hnumber, ?_, hrange⟩
  rw [value, hraw, unzigzag_zigzag]

/-! ### Lists of integers -/

theorem encode_cons_iff {value : Int} {rest : List Int} {text : Text} :
    encode (value :: rest) = .ok text ↔
      ∃ first others, encodeInt value = .ok first ∧ encode rest = .ok others ∧
        text = first ++ others := by
  rw [encode, bind_eq_ok_iff]
  constructor
  · rintro ⟨first, hfirst, h⟩
    obtain ⟨others, hothers, h⟩ := bind_eq_ok_iff.mp h
    cases h
    exact ⟨first, others, hfirst, hothers, rfl⟩
  · rintro ⟨first, others, hfirst, hothers, rfl⟩
    exact ⟨first, hfirst, bind_eq_ok_iff.mpr ⟨others, hothers, rfl⟩⟩

/-- Integers that were spelled are read back. -/
theorem decode_of_encode {values : List Int} {text : Text} (h : encode values = .ok text) :
    decode text = .ok values := by
  refine decode_eq_ok_iff.mpr ?_
  induction values generalizing text with
  | nil =>
    cases h
    exact ⟨[], by simp, rfl, rfl⟩
  | cons v rest ih =>
    obtain ⟨first, others, hfirst, hothers, rfl⟩ := encode_cons_iff.mp h
    obtain ⟨ns, hns, rfl, rfl⟩ := ih hothers
    obtain ⟨hnumber, rfl, hrange⟩ := isNumber_of_encodeInt hfirst
    exact ⟨first :: ns, List.forall_mem_cons.mpr ⟨⟨hnumber, hrange⟩, hns⟩, rfl, rfl⟩

/-- Spellings are made of base64 characters. -/
theorem mem_alphabet_of_encode {values : List Int} {text : Text} (h : encode values = .ok text) :
    ∀ c ∈ text, c ∈ alphabet :=
  mem_alphabet_of_decode (decode_of_encode h)

theorem encode_ne_nil {values : List Int} {text : Text} (hvalues : values ≠ [])
    (h : encode values = .ok text) : text ≠ [] := by
  -- An empty text would be read back as no integers.
  rintro rfl
  have hread := decode_of_encode h
  cases hread
  exact hvalues rfl

/-- Integers are spelled if all of them are in range; otherwise one that is not is reported. -/
theorem encode_cases (values : List Int) :
    ((∀ v ∈ values, InRange v) ∧ ∃ text, encode values = .ok text) ∨
      ∃ v ∈ values, ¬InRange v ∧ encode values = .error (.unspeakable v) := by
  induction values with
  | nil => exact .inl ⟨by simp, [], rfl⟩
  | cons v rest ih =>
    by_cases hv : InRange v
    · have hfirst : encodeInt v = .ok ((groups (zigzag v)).map character) :=
        encodeInt_eq_ok_iff.mpr ⟨hv, rfl⟩
      rcases ih with ⟨hrest, others, hothers⟩ | ⟨w, hw, hwide, hfault⟩
      · exact .inl ⟨List.forall_mem_cons.mpr ⟨hv, hrest⟩, _,
          encode_cons_iff.mpr ⟨_, others, hfirst, hothers, rfl⟩⟩
      · refine .inr ⟨w, List.mem_cons_of_mem v hw, hwide, ?_⟩
        rw [encode, hfirst, ok_bind, hfault]
        rfl
    · refine .inr ⟨v, by simp, hv, ?_⟩
      rw [encode, encodeInt, if_neg hv]
      rfl

theorem inRange_iff {v : Int} : InRange v ↔ -2 ^ 31 ≤ v ∧ v ≤ 2 ^ 31 - 1 := by
  unfold InRange
  norm_num

/-- The spelling of a list is that of its integers in a row. -/
theorem encode_eq_ok_iff {values : List Int} {text : Text} :
    encode values = .ok text ↔
      ∃ spellings, List.Forall₂ (fun v s => encodeInt v = .ok s) values spellings ∧
        text = spellings.flatten := by
  induction values generalizing text with
  | nil => simp [encode, eq_comm]
  | cons v rest ih =>
    rw [encode_cons_iff]
    constructor
    · rintro ⟨first, others, hfirst, hothers, rfl⟩
      obtain ⟨spellings, hspellings, rfl⟩ := ih.mp hothers
      exact ⟨first :: spellings, hspellings.cons hfirst, rfl⟩
    · rintro ⟨spellings, hspellings, rfl⟩
      obtain ⟨first, others, hfirst, hothers, rfl⟩ := List.forall₂_cons_left_iff.mp hspellings
      exact ⟨first, others.flatten, hfirst, ih.mpr ⟨others, hothers, rfl⟩, rfl⟩

/-- A list is refused exactly if an integer of it has more than 32 bits. Otherwise the spellings of
its integers in a row are read back, and no other list is spelled like that. -/
theorem decode_encode (values : List Int) :
    ((∃ fault, fault.kind = .value ∧ encode values = .error fault) ↔
      ∃ v ∈ values, ¬(-2 ^ 31 ≤ v ∧ v ≤ 2 ^ 31 - 1)) ∧
    ((∀ v ∈ values, -2 ^ 31 ≤ v ∧ v ≤ 2 ^ 31 - 1) →
      ∃ spellings, List.Forall₂ (fun v s => encodeInt v = .ok s) values spellings ∧
        encode values = .ok spellings.flatten ∧ decode spellings.flatten = .ok values ∧
        ∀ others, encode others = .ok spellings.flatten → others = values) := by
  simp only [← inRange_iff]
  rcases encode_cases values with ⟨hrange, text, htext⟩ | ⟨v, hv, hwide, hfault⟩
  · obtain ⟨spellings, hspellings, rfl⟩ := encode_eq_ok_iff.mp htext
    have hread := decode_of_encode htext
    refine ⟨⟨?_, ?_⟩, fun _ => ⟨spellings, hspellings, htext, hread, ?_⟩⟩
    · rintro ⟨fault, -, hfault⟩
      rw [htext] at hfault
      cases hfault
    · rintro ⟨v, hv, hwide⟩
      exact absurd (hrange v hv) hwide
    · intro others hothers
      have hread' := decode_of_encode hothers
      rw [hread] at hread'
      cases hread'
      rfl
  · refine ⟨⟨fun _ => ⟨v, hv, hwide⟩, fun _ => ⟨.unspeakable v, rfl, hfault⟩⟩, fun hrange => ?_⟩
    exact absurd (hrange v hv) hwide

example : encode [-2 ^ 31, 2 ^ 31 - 1, -1] = .ok "hgggggE+/////DD" := by cbv

end SourceMaps.Vlq
