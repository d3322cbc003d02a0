import Mathlib.Tactic.IntervalCases
import SourceMaps.Json.Reader
import SourceMaps.Json.Writer
import SourceMaps.Proofs.Json.Numbers
import SourceMaps.Proofs.Json.Strings

/-!
# JSON: reading what was written

A text denotes a value if the reader, wherever it meets the text, answers that value and what stands
behind it. Brackets, commas and line breaks put together texts that denote values to texts that
denote lists and objects, and so what is written for a value denotes it.

## Main definitions

* `Json.Legible`: the values that can be read back.
* `Json.Denotes`: a text and the value that it stands for.

## Main statements

* `Json.denotes_writeAt`: what is written for a value denotes it.
* `Json.parse_write`: a written value is parsed, also with blanks behind it.
-/

namespace SourceMaps

namespace Json

variable {layout : Layout} {depth fuel : Nat} {rest blanks : Text}

/-- The values that are read back: no number outside the integers, no integer of too many digits, no
text with a high surrogate right before a low one, and no object with a name used twice. -/
inductive Legible : Json → Prop
  | null : Legible .null
  | bool (b : Bool) : Legible (.bool b)
  | int {i : Int} : FewDigits i → Legible (.int i)
  | text {t : Text} : t.IsSettled → Legible (.text t)
  | list {items : List Json} : (∀ item ∈ items, Legible item) → Legible (.list items)
  | object {fields : List (Text × Json)} : (fields.map (·.1)).Nodup →
      (∀ field ∈ fields, field.1.IsScalar) → (∀ field ∈ fields, Legible field.2) →
      Legible (.object fields)

/-- A text that starts with a token: with neither a blank nor a closing bracket. -/
def BeginsToken (text : Text) : Prop :=
  ∃ c tail, text = c :: tail ∧ isBlank c = false ∧ c ≠ ']' ∧ c ≠ '}'

/-- A text that stands for a value: it is ASCII, starts with a token, and is read as the value
wherever no number goes on behind it. -/
structure Denotes (text : Text) (value : Json) : Prop where
  begins : BeginsToken text
  ascii : text.IsAscii
  read {fuel : Nat} {rest : Text} : text.length ≤ fuel → EndsNumber rest →
    readValue fuel (text ++ rest) = .ok (value, rest)

/-! ### Blanks -/

theorem skipBlanks_append (h : ∀ c ∈ blanks, isBlank c = true) :
    skipBlanks (blanks ++ rest) = skipBlanks rest :=
  List.dropWhile_append_of_pos h

theorem skipBlanks_cons {c : CodePoint} (h : isBlank c = false) :
    skipBlanks (c :: rest) = c :: rest := by
  rw [skipBlanks, List.dropWhile_cons, h]
  rfl

theorem skipBlanks_of_beginsToken {text : Text} (h : BeginsToken text) :
    skipBlanks text = text := by
  obtain ⟨c, tail, rfl, hc, -⟩ := h
  exact skipBlanks_cons hc

theorem BeginsToken.append {text : Text} (h : BeginsToken text) (rest : Text) :
    BeginsToken (text ++ rest) := by
  obtain ⟨c, tail, rfl, hc⟩ := h
  exact ⟨c, tail ++ rest, rfl, hc⟩

theorem endsNumber_nil : EndsNumber [] := fun _ hc => nomatch hc

theorem endsNumber_append (h : ∀ c ∈ blanks, isBlank c = true) (hrest : EndsNumber rest) :
    EndsNumber (blanks ++ rest) := by
  cases blanks with
  | nil => exact hrest
  | cons c blanks =>
    intro d hd
    obtain rfl : c = d := Option.some.inj hd
    have hc : isBlank c = true := h c (by simp)
    simp only [isBlank, Bool.or_eq_true, decide_eq_true_eq] at hc
    rcases hc with ((rfl | rfl) | rfl) | rfl <;> decide

theorem endsNumber_mark {c : CodePoint} (h : c = ',' ∨ c = ']' ∨ c = '}') :
    EndsNumber (c :: rest) := by
  intro d hd
  obtain rfl : c = d := Option.some.inj hd
  rcases h with rfl | rfl | rfl <;> decide

theorem isBlank_of_mem_lineBreak {c : CodePoint} (h : c ∈ layout.lineBreak depth) :
    isBlank c = true := by
  cases layout with
  | compact => cases h
  | indented =>
    rcases List.mem_cons.mp h with rfl | h
    · rfl
    · obtain rfl := List.eq_of_mem_replicate h
      rfl

theorem isAscii_of_isBlank (h : ∀ c ∈ blanks, isBlank c = true) : blanks.IsAscii := by
  intro c hc
  have hblank := h c hc
  simp only [isBlank, Bool.or_eq_true, decide_eq_true_eq] at hblank
  rcases hblank with ((rfl | rfl) | rfl) | rfl <;> decide

/-! ### Words, numbers and strings -/

theorem readValue_word {c : CodePoint} {tail : Text} {found : Json × Text}
    (h : c ≠ '"' ∧ c ≠ '{' ∧ c ≠ '[') (hword : readWord? (c :: tail) = some found) :
    readValue (fuel + 1) (c :: tail) = .ok found := by
  obtain ⟨hquote, hbrace, hbracket⟩ := h
  rw [readValue.eq_def]
  simp only [if_neg hquote, if_neg hbrace, if_neg hbracket, hword]

theorem readValue_number {c : CodePoint} {tail : Text} (h : c ≠ '"' ∧ c ≠ '{' ∧ c ≠ '[')
    (hword : readWord? (c :: tail) = none) :
    readValue (fuel + 1) (c :: tail) = readNumber (c :: tail) := by
  obtain ⟨hquote, hbrace, hbracket⟩ := h
  rw [readValue.eq_def]
  simp only [if_neg hquote, if_neg hbrace, if_neg hbracket, hword]

theorem denotes_word {c : CodePoint} {tail : Text} {value : Json}
    (hbegins : (isBlank c = false ∧ c ≠ ']' ∧ c ≠ '}') ∧ c ≠ '"' ∧ c ≠ '{' ∧ c ≠ '[')
    (hascii : Text.IsAscii (c :: tail))
    (hread : ∀ rest, readWord? (c :: (tail ++ rest)) = some (value, rest)) :
    Denotes (c :: tail) value where
  begins := ⟨c, tail, rfl, hbegins.1⟩
  ascii := hascii
  read {fuel rest} hfuel _ := by
    cases fuel with
    | zero => simp at hfuel
    | succ fuel => exact readValue_word hbegins.2 (hread rest)

theorem denotes_null : Denotes "null" .null :=
  denotes_word (by decide) (by decide) fun _ => rfl

theorem denotes_bool (b : Bool) : Denotes (if b then "true" else "false") (.bool b) := by
  cases b with
  | false => exact denotes_word (by decide) (by decide) fun _ => rfl
  | true => exact denotes_word (by decide) (by decide) fun _ => rfl

theorem digit_begins {d : Nat} (h : d < 10) :
    (isBlank (Numeral.digit d) = false ∧ Numeral.digit d ≠ ']' ∧ Numeral.digit d ≠ '}') ∧
      Numeral.digit d ≠ '"' ∧ Numeral.digit d ≠ '{' ∧ Numeral.digit d ≠ '[' := by
  have hall : ∀ d < 10,
      (isBlank (Numeral.digit d) = false ∧ Numeral.digit d ≠ ']' ∧ Numeral.digit d ≠ '}') ∧
        Numeral.digit d ≠ '"' ∧ Numeral.digit d ≠ '{' ∧ Numeral.digit d ≠ '[' := by decide
  exact hall d h

theorem readWord?_digit {d : Nat} (h : d < 10) : readWord? (Numeral.digit d :: rest) = none := by
  interval_cases d <;> rfl

theorem readWord?_minus_digit {d : Nat} (h : d < 10) :
    readWord? (↑ '-' :: Numeral.digit d :: rest) = none := by
  interval_cases d <;> rfl

theorem isAscii_ofNat (n : Nat) : (Numeral.ofNat n).IsAscii := by
  have hall : ∀ d < 10, 0 < (Numeral.digit d).toNat ∧ (Numeral.digit d).toNat < 0x80 := by decide
  intro c hc
  rw [Numeral.ofNat_eq] at hc
  obtain ⟨d, hd, rfl⟩ := List.mem_map.mp hc
  exact hall d (Numeral.lt_of_mem_decimals hd)

theorem denotes_int {i : Int} (h : FewDigits i) : Denotes (Numeral.ofInt i) (.int i) := by
  have hread {rest : Text} (hrest : EndsNumber rest) := readNumber_ofInt h hrest
  cases i with
  | ofNat n =>
    obtain ⟨d, tail, hd, hspelled, -⟩ := exists_digit_of_ofNat n
    have hascii := isAscii_ofNat n
    rw [Numeral.ofInt, hspelled] at hread ⊢
    rw [hspelled] at hascii
    refine ⟨⟨_, _, rfl, (digit_begins hd).1⟩, hascii, fun {fuel rest} hfuel hrest => ?_⟩
    cases fuel with
    | zero => simp at hfuel
    | succ fuel =>
      have hread := hread hrest
      rw [List.cons_append] at hread ⊢
      rw [readValue_number (digit_begins hd).2 (readWord?_digit hd), hread]
  | negSucc n =>
    obtain ⟨d, tail, hd, hspelled, -⟩ := exists_digit_of_ofNat (n + 1)
    have hascii := isAscii_ofNat (n + 1)
    rw [Numeral.ofInt, hspelled] at hread ⊢
    rw [hspelled] at hascii
    refine ⟨⟨_, _, rfl, by decide⟩, Text.isAscii_cons.mpr ⟨by decide, hascii⟩,
      fun {fuel rest} hfuel hrest => ?_⟩
    cases fuel with
    | zero => simp at hfuel
    | succ fuel =>
      have hread := hread hrest
      rw [List.cons_append, List.cons_append] at hread ⊢
      rw [readValue_number (by decide) (readWord?_minus_digit hd), hread]

theorem isAscii_unitEscape (unit : Nat) : (unitEscape unit).IsAscii := by
  have hall : ∀ d < 16, 0 < (Numeral.hexDigit d).toNat ∧ (Numeral.hexDigit d).toNat < 0x80 := by
    decide
  rw [unitEscape, Text.isAscii_append, Numeral.hex_four]
  refine ⟨by decide, fun c hc => ?_⟩
  simp only [List.mem_cons, List.not_mem_nil, or_false] at hc
  rcases hc with rfl | rfl | rfl | rfl
  all_goals exact hall _ (Nat.mod_lt _ (by decide))

theorem isAscii_jsonEscaped (c : CodePoint) : c.jsonEscaped.IsAscii := by
  unfold CodePoint.jsonEscaped
  split_ifs with _ _ _ _ _ _ _ hprintable
  -- Seven code points have escapes of their own, and the printable ones stand for themselves.
  iterate 7 decide
  · exact Text.isAscii_cons.mpr ⟨by omega, nofun⟩
  · exact isAscii_unitEscape _
  · exact Text.isAscii_append.mpr ⟨isAscii_unitEscape _, isAscii_unitEscape _⟩

theorem isAscii_jsonQuoted (text : Text) : text.jsonQuoted.IsAscii := by
  have hcontent : Text.IsAscii (text.flatMap (·.jsonEscaped)) := by
    intro c hc
    obtain ⟨d, -, hc⟩ := List.mem_flatMap.mp hc
    exact isAscii_jsonEscaped d c hc
  rw [Text.jsonQuoted, Text.isAscii_append, Text.isAscii_append]
  exact ⟨⟨by decide, hcontent⟩, by decide⟩

theorem jsonQuoted_append (text rest : Text) :
    text.jsonQuoted ++ rest = ↑ '"' :: (text.flatMap (·.jsonEscaped) ++ ↑ '"' :: rest) := by
  rw [Text.jsonQuoted, List.append_assoc, List.append_assoc]
  rfl

theorem beginsToken_jsonQuoted (text : Text) : BeginsToken text.jsonQuoted :=
  ⟨↑ '"', text.flatMap (·.jsonEscaped) ++ "\"", rfl, by decide⟩

theorem denotes_text {t : Text} (h : t.IsSettled) : Denotes t.jsonQuoted (.text t) where
  begins := beginsToken_jsonQuoted t
  ascii := isAscii_jsonQuoted t
  read {fuel rest} hfuel _ := by
    cases fuel with
    | zero => simp [Text.jsonQuoted, Text.ofString] at hfuel
    | succ fuel =>
      rw [jsonQuoted_append, readValue.eq_def]
      simp only [if_true, readString_jsonQuoted h, ok_bind]
      rfl

/-! ### Items between brackets -/

theorem beginsToken_join {first : Text} (h : BeginsToken first) (separator : Text)
    (parts : List Text) : BeginsToken (Text.join separator (first :: parts)) := by
  cases parts with
  | nil => simpa [Text.join] using h
  | cons second parts =>
    rw [Text.join_cons_cons]
    exact h.append _

theorem enclose_cons (layout : Layout) (depth : Nat) (opening closing : CodePoint) (first : Text)
    (parts : List Text) (rest : Text) :
    layout.enclose depth opening closing (first :: parts) ++ rest =
      opening :: (layout.lineBreak (depth + 1) ++
        (Text.join (↑ ',' :: layout.lineBreak (depth + 1)) (first :: parts) ++
          (layout.lineBreak depth ++ closing :: rest))) := by
  simp [Layout.enclose]

theorem one_le_length_enclose (layout : Layout) (depth : Nat) (opening closing : CodePoint)
    (items : List Text) : 1 ≤ (layout.enclose depth opening closing items).length := by
  cases items with
  | nil => exact Nat.le_add_left 1 1
  | cons first items => simp [Layout.enclose]

theorem length_join_lt_enclose (layout : Layout) (depth : Nat) (opening closing : CodePoint)
    (first : Text) (parts : List Text) :
    (Text.join (↑ ',' :: layout.lineBreak (depth + 1)) (first :: parts)).length + 1 <
      (layout.enclose depth opening closing (first :: parts)).length := by
  have hlength := congrArg List.length (enclose_cons layout depth opening closing first parts [])
  simp only [List.append_nil, List.length_cons, List.length_append, List.length_nil] at hlength
  omega

theorem isAscii_enclose {opening closing : CodePoint} {items : List Text}
    (hbrackets : Text.IsAscii [opening, closing]) (hitems : ∀ item ∈ items, item.IsAscii) :
    (layout.enclose depth opening closing items).IsAscii := by
  have hline (depth : Nat) : (layout.lineBreak depth).IsAscii :=
    isAscii_of_isBlank fun _ => isBlank_of_mem_lineBreak
  have hseparator : Text.IsAscii (↑ ',' :: layout.lineBreak (depth + 1)) :=
    Text.isAscii_cons.mpr ⟨by decide, hline (depth + 1)⟩
  have hjoin := Text.isAscii_join hseparator hitems
  obtain ⟨hopening, hclosing⟩ := Text.isAscii_cons.mp hbrackets
  cases items with
  | nil => exact hbrackets
  | cons first parts =>
    rw [← List.append_nil (layout.enclose _ _ _ _), enclose_cons]
    exact Text.isAscii_cons.mpr ⟨hopening, Text.isAscii_append.mpr ⟨hline (depth + 1),
      Text.isAscii_append.mpr ⟨hjoin, Text.isAscii_append.mpr ⟨hline depth, hclosing⟩⟩⟩⟩

theorem beginsToken_enclose {opening closing : CodePoint} {items : List Text}
    (h : isBlank opening = false ∧ opening ≠ ']' ∧ opening ≠ '}') :
    BeginsToken (layout.enclose depth opening closing items) := by
  rw [Layout.enclose]
  split
  · exact ⟨_, _, rfl, h⟩
  · exact ⟨_, _, rfl, h⟩

/-- The line break behind an opening bracket or a comma is skipped. -/
theorem skipBlanks_lineBreak {text : Text} (h : BeginsToken text) :
    skipBlanks (layout.lineBreak depth ++ text) = text := by
  rw [skipBlanks_append fun _ => isBlank_of_mem_lineBreak, skipBlanks_of_beginsToken h]

/-! ### Items in a row -/

/-- What a reader of items does with the text of one: it ends with the item at the closing bracket
and goes on behind a comma. -/
structure Continues {α : Type} (readAll : Nat → Text → Except ReadError (List α × Text))
    (closing : CodePoint) (text : Text) (item : α) : Prop where
  begins : BeginsToken text
  last {fuel : Nat} {rest after : Text} : text.length ≤ fuel → EndsNumber rest →
    skipBlanks rest = closing :: after → readAll (fuel + 1) (text ++ rest) = .ok ([item], after)
  more {fuel : Nat} {rest next after : Text} {others : List α} : text.length ≤ fuel →
    EndsNumber rest → skipBlanks rest = ↑ ',' :: next →
    readAll fuel (skipBlanks next) = .ok (others, after) →
    readAll (fuel + 1) (text ++ rest) = .ok (item :: others, after)

/-- Items with commas between them are read up to the closing bracket. -/
theorem read_join {α : Type} {readAll : Nat → Text → Except ReadError (List α × Text)}
    {closing : CodePoint} (hclosing : closing = ']' ∨ closing = '}') {spell : α → Text}
    {items : List α} (hne : items ≠ [])
    (hspell : ∀ item ∈ items, Continues readAll closing (spell item) item)
    (hfuel : (Text.join (↑ ',' :: layout.lineBreak (depth + 1)) (items.map spell)).length < fuel) :
    readAll fuel (Text.join (↑ ',' :: layout.lineBreak (depth + 1)) (items.map spell) ++
        (layout.lineBreak depth ++ closing :: rest)) =
      .ok (items, rest) := by
  induction items generalizing fuel with
  | nil => exact absurd rfl hne
  | cons item others ih =>
    obtain ⟨hitem, hothers⟩ := List.forall_mem_cons.mp hspell
    obtain ⟨fuel, rfl⟩ := Nat.exists_eq_add_of_le' (Nat.zero_lt_of_lt hfuel)
    cases others with
    | nil =>
      have hends : EndsNumber (layout.lineBreak depth ++ closing :: rest) :=
        endsNumber_append (fun _ => isBlank_of_mem_lineBreak) (endsNumber_mark (.inr hclosing))
      have hblank : isBlank closing = false := by rcases hclosing with rfl | rfl <;> rfl
      simp only [List.map_cons, List.map_nil, Text.join, List.intercalate_singleton] at hfuel ⊢
      apply hitem.last (Nat.le_of_lt_succ hfuel) hends
      rw [skipBlanks_append fun _ => isBlank_of_mem_lineBreak, skipBlanks_cons hblank]
    | cons next others =>
      have hjoin := Text.join_cons_cons (↑ ',' :: layout.lineBreak (depth + 1)) (spell item)
        (spell next) (others.map spell)
      have hbegins := beginsToken_join (hothers next (by simp)).begins
        (↑ ',' :: layout.lineBreak (depth + 1)) (others.map spell)
      simp only [List.map_cons] at ih hfuel ⊢
      rw [hjoin] at hfuel ⊢
      simp only [List.length_append, List.length_cons] at hfuel
      rw [List.append_assoc, List.cons_append, List.cons_append, List.append_assoc]
      apply hitem.more (by omega) (endsNumber_mark (by decide)) (skipBlanks_cons (by decide))
      rw [skipBlanks_lineBreak (hbegins.append _)]
      exact ih (by simp) hothers (by omega)

/-- Between brackets the items of a row stand behind a line break, and they are read from there. -/
theorem read_enclose {α : Type} {readAll : Nat → Text → Except ReadError (List α × Text)}
    {opening closing : CodePoint} (hclosing : closing = ']' ∨ closing = '}') {spell : α → Text}
    {item : α} {items : List α}
    (hspell : ∀ a ∈ item :: items, Continues readAll closing (spell a) a)
    (hfuel : (layout.enclose depth opening closing ((item :: items).map spell)).length ≤ fuel + 1)
    (rest : Text) :
    ∃ blanks text, BeginsToken text ∧ skipBlanks (blanks ++ text) = text ∧
      layout.enclose depth opening closing ((item :: items).map spell) ++ rest =
        opening :: (blanks ++ text) ∧
      readAll fuel text = .ok (item :: items, rest) := by
  have hbegins := (beginsToken_join (hspell item (by simp)).begins
    (↑ ',' :: layout.lineBreak (depth + 1)) (items.map spell)).append
      (layout.lineBreak depth ++ closing :: rest)
  have hlength := length_join_lt_enclose layout depth opening closing (spell item)
    (items.map spell)
  rw [← List.map_cons] at hbegins hlength
  exact ⟨_, _, hbegins, skipBlanks_lineBreak hbegins, enclose_cons .., read_join hclosing (by simp)
    hspell (by omega)⟩

/-! ### Lists -/

theorem Denotes.continues {text : Text} {item : Json} (h : Denotes text item) :
    Continues readItems ']' text item where
  begins := h.begins
  last {fuel rest after} hfuel hends hclosing := by
    rw [readItems, h.read hfuel hends]
    simp only [ok_bind, hclosing, if_true]
    rfl
  more {fuel rest next after others} hfuel hends hcomma hothers := by
    have hmark : (↑ ',' : CodePoint) ≠ ']' := by decide
    rw [readItems, h.read hfuel hends]
    simp only [ok_bind, hcomma, if_neg hmark, if_true, hothers]
    rfl

theorem readValue_bracket {text rest : Text} {items : List Json} (hbegins : BeginsToken text)
    (hblanks : skipBlanks (blanks ++ text) = text)
    (hitems : readItems fuel text = .ok (items, rest)) :
    readValue (fuel + 1) (↑ '[' :: (blanks ++ text)) = .ok (.list items, rest) := by
  have hmark : (↑ '[' : CodePoint) ≠ '"' ∧ (↑ '[' : CodePoint) ≠ '{' := by decide
  obtain ⟨c, tail, rfl, -, hclosing, -⟩ := hbegins
  rw [readValue.eq_def]
  simp only [if_neg hmark.1, if_neg hmark.2, if_true, hblanks, if_neg hclosing, hitems, ok_bind]
  rfl

theorem denotes_list {spell : Json → Text} {items : List Json}
    (hspell : ∀ item ∈ items, Denotes (spell item) item) :
    Denotes (layout.enclose depth '[' ']' (items.map spell)) (.list items) where
  begins := beginsToken_enclose (by decide)
  ascii := by
    refine isAscii_enclose (by decide) fun text htext => ?_
    obtain ⟨item, hitem, rfl⟩ := List.mem_map.mp htext
    exact (hspell item hitem).ascii
  read {fuel rest} hfuel _ := by
    obtain ⟨fuel, rfl⟩ := Nat.exists_eq_add_of_le' (Nat.le_trans (one_le_length_enclose ..) hfuel)
    cases items with
    | nil => rfl
    | cons item others =>
      obtain ⟨blanks, text, hbegins, hblanks, hspelled, hread⟩ :=
        read_enclose (.inl rfl) (fun a ha => (hspell a ha).continues) hfuel rest
      rw [hspelled]
      exact readValue_bracket hbegins hblanks hread

/-! ### Objects -/

/-- The text of a field. -/
def spellField (layout : Layout) (spell : Json → Text) (field : Text × Json) : Text :=
  field.1.jsonQuoted ++ layout.colon ++ spell field.2

theorem length_le_of_spellField {spell : Json → Text} {field : Text × Json}
    (h : (spellField layout spell field).length ≤ fuel) : (spell field.2).length ≤ fuel := by
  rw [spellField, List.length_append] at h
  omega

/-- Behind a name stand the colon and, behind that, the value. -/
theorem skipBlanks_colon (layout : Layout) {text : Text} (h : BeginsToken text) :
    ∃ tail, skipBlanks (layout.colon ++ text) = ↑ ':' :: tail ∧ skipBlanks tail = text := by
  cases layout with
  | compact => exact ⟨text, rfl, skipBlanks_of_beginsToken h⟩
  | indented => exact ⟨" " ++ text, rfl, skipBlanks_of_beginsToken h⟩

theorem continues_spellField {spell : Json → Text} {field : Text × Json}
    (hname : field.1.IsScalar) (h : Denotes (spell field.2) field.2) :
    Continues readMembers '}' (spellField layout spell field) field where
  begins := ((beginsToken_jsonQuoted field.1).append _).append _
  last {fuel rest after} hfuel hends hclosing := by
    obtain ⟨tail, hcolon, hvalue⟩ := skipBlanks_colon layout (h.begins.append rest)
    have hmarks : ¬((↑ '"' : CodePoint) ≠ '"') ∧ ¬((↑ ':' : CodePoint) ≠ ':') := by decide
    have hread := h.read (length_le_of_spellField hfuel) hends
    rw [spellField, List.append_assoc, List.append_assoc, jsonQuoted_append, readMembers.eq_def]
    simp only [if_neg hmarks.1, readString_jsonQuoted hname.isSettled, ok_bind, hcolon, if_neg hmarks.2,
      hvalue, hread, hclosing, if_true]
    rfl
  more {fuel rest next after others} hfuel hends hcomma hothers := by
    obtain ⟨tail, hcolon, hvalue⟩ := skipBlanks_colon layout (h.begins.append rest)
    have hmarks : ¬((↑ '"' : CodePoint) ≠ '"') ∧ ¬((↑ ':' : CodePoint) ≠ ':') ∧
        (↑ ',' : CodePoint) ≠ '}' := by decide
    have hread := h.read (length_le_of_spellField hfuel) hends
    rw [spellField, List.append_assoc, List.append_assoc, jsonQuoted_append, readMembers.eq_def]
    simp only [if_neg hmarks.1, readString_jsonQuoted hname.isSettled, ok_bind, hcolon, if_neg hmarks.2.1,
      hvalue, hread, hcomma, if_neg hmarks.2.2, if_true, hothers]
    rfl

theorem readValue_brace {text rest : Text} {fields : List (Text × Json)}
    (hbegins : BeginsToken text) (hblanks : skipBlanks (blanks ++ text) = text)
    (hfields : readMembers fuel text = .ok (fields, rest)) :
    readValue (fuel + 1) (↑ '{' :: (blanks ++ text)) = .ok (ofPairs fields, rest) := by
  have hmark : (↑ '{' : CodePoint) ≠ '"' := by decide
  obtain ⟨c, tail, rfl, -, -, hclosing⟩ := hbegins
  rw [readValue.eq_def]
  simp only [if_neg hmark, if_true, hblanks, if_neg hclosing, hfields, ok_bind]
  rfl

theorem setField_of_notMem {fields : List (Text × Json)} {name : Text}
    (h : name ∉ fields.map (·.1)) (value : Json) :
    setField fields name value = fields ++ [(name, value)] := by
  induction fields with
  | nil => rfl
  | cons field fields ih =>
    obtain ⟨hne, hrest⟩ := not_or.mp (List.mem_cons.not.mp h)
    rw [setField, if_neg (Ne.symm hne), ih hrest, List.cons_append]

theorem foldl_setField {fields : List (Text × Json)} (before : List (Text × Json))
    (h : ((before ++ fields).map (·.1)).Nodup) :
    fields.foldl (fun fields (name, value) => setField fields name value) before =
      before ++ fields := by
  induction fields generalizing before with
  | nil => simp
  | cons field fields ih =>
    obtain ⟨name, value⟩ := field
    have hnotMem : name ∉ before.map (·.1) := by
      intro hmem
      rw [List.map_append, List.map_cons] at h
      exact List.disjoint_of_nodup_append h hmem (by simp)
    rw [List.append_cons] at h
    show List.foldl _ (setField before name value) fields = _
    rw [setField_of_notMem hnotMem, ih _ h, ← List.append_cons]

/-- Fields of different names are an object as they stand. -/
theorem ofPairs_of_nodup {fields : List (Text × Json)} (h : (fields.map (·.1)).Nodup) :
    ofPairs fields = .object fields := by
  rw [ofPairs, foldl_setField [] h, List.nil_append]

theorem denotes_object {spell : Json → Text} {fields : List (Text × Json)}
    (hnodup : (fields.map (·.1)).Nodup) (hname : ∀ field ∈ fields, field.1.IsScalar)
    (hspell : ∀ field ∈ fields, Denotes (spell field.2) field.2) :
    Denotes (layout.enclose depth '{' '}' (fields.map (spellField layout spell)))
      (.object fields) where
  begins := beginsToken_enclose (by decide)
  ascii := by
    refine isAscii_enclose (by decide) fun text htext => ?_
    obtain ⟨field, hfield, rfl⟩ := List.mem_map.mp htext
    have hcolon : layout.colon.IsAscii := by cases layout <;> decide
    exact Text.isAscii_append.mpr ⟨Text.isAscii_append.mpr ⟨isAscii_jsonQuoted _, hcolon⟩,
      (hspell field hfield).ascii⟩
  read {fuel rest} hfuel _ := by
    obtain ⟨fuel, rfl⟩ := Nat.exists_eq_add_of_le' (Nat.le_trans (one_le_length_enclose ..) hfuel)
    cases fields with
    | nil => rfl
    | cons field others =>
      obtain ⟨blanks, text, hbegins, hblanks, hspelled, hread⟩ :=
        read_enclose (.inr rfl)
          (fun a ha => continues_spellField (hname a ha) (hspell a ha)) hfuel rest
      rw [hspelled, ← ofPairs_of_nodup hnodup]
      exact readValue_brace hbegins hblanks hread

/-! ### Whole texts -/

theorem writeItems_eq_map (layout : Layout) (depth : Nat) (items : List Json) :
    writeItems layout depth items = items.map (writeAt layout depth) := by
  induction items with
  | nil => rw [writeItems, List.map_nil]
  | cons item items ih => rw [writeItems, ih, List.map_cons]

theorem writeFields_eq_map (layout : Layout) (depth : Nat) (fields : List (Text × Json)) :
    writeFields layout depth fields = fields.map (spellField layout (writeAt layout depth)) := by
  induction fields with
  | nil => rw [writeFields, List.map_nil]
  | cons field fields ih =>
    rw [writeFields, ih, List.map_cons]
    rfl

/-- What is written for a value denotes it, at every depth. -/
theorem denotes_writeAt {value : Json} (h : Legible value) (layout : Layout) (depth : Nat) :
    Denotes (writeAt layout depth value) value := by
  induction h generalizing depth with
  | null => rw [writeAt]; exact denotes_null
  | bool b => rw [writeAt]; exact denotes_bool b
  | int hi => rw [writeAt]; exact denotes_int hi
  | text ht => rw [writeAt]; exact denotes_text ht
  | list _ ih =>
    rw [writeAt, writeItems_eq_map]
    exact denotes_list fun item hitem => ih item hitem (depth + 1)
  | object hnodup hname _ ih =>
    rw [writeAt, writeFields_eq_map]
    exact denotes_object hnodup hname fun field hfield => ih field hfield (depth + 1)

/-- A written value is parsed, also with blanks behind it. -/
theorem parse_write {value : Json} (h : Legible value) (layout : Layout)
    (hblanks : ∀ c ∈ blanks, isBlank c = true) :
    parse (write layout value ++ blanks) = .ok value := by
  have hdenotes := denotes_writeAt h layout 0
  have hends : EndsNumber blanks := by
    rw [← List.append_nil blanks]
    exact endsNumber_append hblanks endsNumber_nil
  have hskip : skipBlanks blanks = [] := by
    rw [← List.append_nil blanks, skipBlanks_append hblanks]
    rfl
  have hfuel : (writeAt layout 0 value).length ≤
      2 * (writeAt layout 0 value ++ blanks).length + 2 := by
    rw [List.length_append]
    omega
  rw [parse, write, skipBlanks_of_beginsToken (hdenotes.begins.append _),
    hdenotes.read hfuel hends]
  simp only [ok_bind, hskip]
  rfl

end Json

end SourceMaps
