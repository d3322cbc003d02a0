import SourceMaps.Proofs.Vlq

/-!
# Base64 VLQ: the grammar and the first flaw

Every text is a row of numbers in range up to its end or up to the first thing that is wrong: a
character outside the alphabet, a number out of range, or the end of the text in the middle of a
number. The reader answers the integers of the row or reports just that flaw. What stands behind a
text that can be decoded is therefore read as it is read alone.

## Main definitions

* `Vlq.IsBegun`: characters after which a number goes on.
* `Vlq.AreInRange`: the rows of numbers that can be decoded.
* `Vlq.FirstFlaw`: what is wrong first in a text.
* `Vlq.behind`: a fault of a text that stands behind another text.

## Main statements

* `Vlq.inRange_or_firstFlaw`: a text is such a row or has a first flaw.
* `Vlq.decode_eq_error_iff`: the reader reports the first flaw.
* `Vlq.decode_grammar`: what is accepted and answered, what is reported, and texts in a row.
-/

namespace SourceMaps.Vlq

/-- Characters that are all marked as continued. -/
def IsBegun (text : Text) : Prop := ∀ c ∈ text, ∃ d, digit? c = some d ∧ 32 ≤ d

/-- Texts of numbers that stand for integers of 32 bits. -/
def AreInRange (ns : List Text) : Prop :=
  ∀ n ∈ ns, IsNumber n ∧ -2 ^ 31 ≤ value n ∧ value n ≤ 2 ^ 31 - 1

/-- What is wrong first in a text. Before it there are numbers in range and perhaps the beginning of
one more. -/
inductive FirstFlaw (text : Text) : Fault → Prop where
  | stray {ns : List Text} {begun rest : Text} {c : CodePoint} (numbers : AreInRange ns)
      (begins : IsBegun begun) (hc : c ∉ alphabet)
      (htext : text = ns.flatten ++ begun ++ c :: rest) :
      FirstFlaw text (.strayCharacter c (ns.flatten ++ begun).length text)
  | wide {ns : List Text} {n rest : Text} (numbers : AreInRange ns) (hn : IsNumber n)
      (hwide : ¬(-2 ^ 31 ≤ value n ∧ value n ≤ 2 ^ 31 - 1))
      (htext : text = ns.flatten ++ n ++ rest) :
      FirstFlaw text (.wideNumber text)
  | truncated {ns : List Text} {begun : Text} (numbers : AreInRange ns) (begins : IsBegun begun)
      (hne : begun ≠ []) (htext : text = ns.flatten ++ begun) :
      FirstFlaw text (.truncatedNumber text)

/-- A fault of a text, as it is reported when the text stands behind another one. -/
def behind (before : Text) : Fault → Fault
  | .strayCharacter c offset text => .strayCharacter c (before.length + offset) (before ++ text)
  | .wideNumber text => .wideNumber (before ++ text)
  | .truncatedNumber text => .truncatedNumber (before ++ text)
  | fault => fault

theorem areInRange_nil : AreInRange [] := List.forall_mem_nil _

theorem AreInRange.append {ns ms : List Text} (h : AreInRange ns) (h' : AreInRange ms) :
    AreInRange (ns ++ ms) :=
  List.forall_mem_append.mpr ⟨h, h'⟩

theorem isBegun_nil : IsBegun [] := List.forall_mem_nil _

theorem IsBegun.cons {c : CodePoint} {d : Nat} {begun : Text} (hc : digit? c = some d)
    (hd : 32 ≤ d) (h : IsBegun begun) : IsBegun (c :: begun) :=
  List.forall_mem_cons.mpr ⟨⟨d, hc, hd⟩, h⟩

theorem digit?_eq_none_iff {c : CodePoint} : digit? c = none ↔ c ∉ alphabet :=
  List.idxOf?_eq_none_iff

theorem FirstFlaw.kind_eq {text : Text} {fault : Fault} (h : FirstFlaw text fault) :
    fault.kind = .format := by
  cases h <;> rfl

/-! ### How a text begins -/

/-- A text begins with a number, or a number that is begun in it does not come to its end. -/
theorem begins_cases (text : Text) :
    IsBegun text ∨
    (∃ begun c rest, IsBegun begun ∧ c ∉ alphabet ∧ text = begun ++ c :: rest) ∨
    ∃ n rest, IsNumber n ∧ text = n ++ rest := by
  induction text with
  | nil => exact .inl isBegun_nil
  | cons c text ih =>
    cases hc : digit? c with
    | none =>
      exact .inr (.inl ⟨[], c, text, isBegun_nil, digit?_eq_none_iff.mp hc, rfl⟩)
    | some d =>
      by_cases hd : 32 ≤ d
      · -- The character goes before whatever the others begin with.
        rcases ih with h | ⟨begun, stray, rest, h, hstray, rfl⟩ | ⟨n, rest, hn, rfl⟩
        · exact .inl (h.cons hc hd)
        · exact .inr (.inl ⟨c :: begun, stray, rest, h.cons hc hd, hstray, rfl⟩)
        · exact .inr (.inr ⟨c :: n, rest, hn.more hc hd, rfl⟩)
      · exact .inr (.inr ⟨[c], text, .last hc (by omega), rfl⟩)

/-- A flaw stays the first one behind numbers in range. -/
theorem FirstFlaw.append {ns : List Text} {text : Text} {fault : Fault} (h : FirstFlaw text fault)
    (numbers : AreInRange ns) : FirstFlaw (ns.flatten ++ text) (behind ns.flatten fault) := by
  cases h with
  | @stray ms begun rest c numbers' begins hc htext =>
    have htext' : ns.flatten ++ text = (ns ++ ms).flatten ++ begun ++ c :: rest := by
      rw [htext, List.flatten_append]
      simp only [List.append_assoc]
    have hoffset : ((ns ++ ms).flatten ++ begun).length =
        ns.flatten.length + (ms.flatten ++ begun).length := by
      rw [List.flatten_append, List.append_assoc, List.length_append]
    have hflaw := FirstFlaw.stray (numbers.append numbers') begins hc htext'
    rwa [hoffset] at hflaw
  | @wide ms n rest numbers' hn hwide htext =>
    have htext' : ns.flatten ++ text = (ns ++ ms).flatten ++ n ++ rest := by
      rw [htext, List.flatten_append]
      simp only [List.append_assoc]
    exact .wide (numbers.append numbers') hn hwide htext'
  | @truncated ms begun numbers' begins hne htext =>
    have htext' : ns.flatten ++ text = (ns ++ ms).flatten ++ begun := by
      rw [htext, List.flatten_append, List.append_assoc]
    exact .truncated (numbers.append numbers') begins hne htext'

/-- A text is a row of numbers in range, or something is wrong first. -/
theorem inRange_or_firstFlaw (text : Text) :
    (∃ ns, AreInRange ns ∧ text = ns.flatten) ∨ ∃ fault, FirstFlaw text fault := by
  -- The induction is on the length of what is left behind the numbers found.
  induction hlength : text.length using Nat.strongRecOn generalizing text with
  | ind length ih =>
    rcases begins_cases text with h | ⟨begun, c, rest, h, hc, htext⟩ | ⟨n, rest, hn, rfl⟩
    · by_cases hempty : text = []
      · exact .inl ⟨[], areInRange_nil, hempty⟩
      · exact .inr ⟨_, .truncated areInRange_nil h hempty rfl⟩
    · exact .inr ⟨_, .stray areInRange_nil h hc htext⟩
    · by_cases hrange : -2 ^ 31 ≤ value n ∧ value n ≤ 2 ^ 31 - 1
      · have hone : AreInRange [n] := List.forall_mem_singleton.mpr ⟨hn, hrange⟩
        have hflatten : [n].flatten = n := List.flatten_singleton
        have hpos := List.length_pos_iff.mpr hn.ne_nil
        rw [List.length_append] at hlength
        rcases ih rest.length (by omega) rest rfl with ⟨ns, hns, rfl⟩ | ⟨fault, hfault⟩
        · exact .inl ⟨n :: ns, hone.append hns, rfl⟩
        · have hfirst := hfault.append hone
          rw [hflatten] at hfirst
          exact .inr ⟨_, hfirst⟩
      · exact .inr ⟨_, .wide areInRange_nil hn hrange rfl⟩

/-! ### What the reader reports -/

/-- Reading goes through numbers in range and on behind them. -/
theorem decodeFrom_flatten {ns : List Text} (numbers : AreInRange ns) (whole rest : Text)
    (offset : Nat) :
    decodeFrom whole offset 0 0 (ns.flatten ++ rest) =
      (ns.map value ++ ·) <$> decodeFrom whole (offset + ns.flatten.length) 0 0 rest := by
  induction ns generalizing offset with
  | nil => exact (id_map _).symm
  | cons n ns ih =>
    obtain ⟨⟨hn, hrange⟩, hns⟩ := List.forall_mem_cons.mp numbers
    rw [List.flatten_cons, List.append_assoc, decodeFrom_start hn, if_pos (inRange_iff.mpr hrange),
      ih hns, List.length_append, Nat.add_assoc]
    cases decodeFrom whole (offset + (n.length + ns.flatten.length)) 0 0 rest <;> rfl

/-- While a number goes on, only the position and the sum change. -/
theorem decodeFrom_begun {begun : Text} (begins : IsBegun begun) (whole rest : Text)
    (offset before shift : Nat) :
    ∃ sum, decodeFrom whole offset before shift (begun ++ rest) =
      decodeFrom whole (offset + begun.length) sum (shift + 5 * begun.length) rest := by
  induction begun generalizing offset before shift with
  | nil => exact ⟨before, rfl⟩
  | cons c begun ih =>
    obtain ⟨⟨d, hc, hd⟩, hbegun⟩ := List.forall_mem_cons.mp begins
    obtain ⟨sum, hsum⟩ := ih hbegun (offset + 1) (before + (d % 32) <<< shift) (shift + 5)
    refine ⟨sum, ?_⟩
    have hoffset : offset + (c :: begun).length = offset + 1 + begun.length := by
      rw [List.length_cons]
      omega
    have hshift : shift + 5 * (c :: begun).length = shift + 5 + 5 * begun.length := by
      rw [List.length_cons]
      omega
    rw [List.cons_append, decodeFrom, hc, hoffset, hshift, ← hsum]
    simp only [if_pos hd]

theorem decode_of_firstFlaw {text : Text} {fault : Fault} (h : FirstFlaw text fault) :
    decode text = .error fault := by
  rw [decode]
  cases h with
  | @stray ns begun rest c numbers begins hc htext =>
    obtain ⟨sum, hsum⟩ := decodeFrom_begun begins text (c :: rest) (0 + ns.flatten.length) 0 0
    have hread : decodeFrom text 0 0 0 (ns.flatten ++ (begun ++ c :: rest)) =
        .error (.strayCharacter c (ns.flatten ++ begun).length text) := by
      rw [decodeFrom_flatten numbers, hsum, decodeFrom, digit?_eq_none_iff.mpr hc,
        List.length_append, Nat.zero_add]
      rfl
    rw [← List.append_assoc, ← htext] at hread
    exact hread
  | @wide ns n rest numbers hn hwide htext =>
    have hread : decodeFrom text 0 0 0 (ns.flatten ++ (n ++ rest)) = .error (.wideNumber text) := by
      rw [decodeFrom_flatten numbers, decodeFrom_start hn, if_neg (mt inRange_iff.mp hwide)]
      rfl
    rw [← List.append_assoc, ← htext] at hread
    exact hread
  | @truncated ns begun numbers begins hne htext =>
    obtain ⟨sum, hsum⟩ := decodeFrom_begun begins text [] (0 + ns.flatten.length) 0 0
    have hread : decodeFrom text 0 0 0 (ns.flatten ++ begun) = .error (.truncatedNumber text) := by
      have hpos := List.length_pos_iff.mpr hne
      rw [List.append_nil] at hsum
      rw [decodeFrom_flatten numbers, hsum, decodeFrom, if_neg (by omega)]
      rfl
    rw [← htext] at hread
    exact hread

/-- A text is decoded exactly if it is a row of numbers in range. -/
theorem decode_eq_ok_iff_areInRange {text : Text} {values : List Int} :
    decode text = .ok values ↔
      ∃ ns, AreInRange ns ∧ text = ns.flatten ∧ values = ns.map value := by
  rw [decode_eq_ok_iff]
  simp only [AreInRange, inRange_iff]

/-- The reader reports what is wrong first. -/
theorem decode_eq_error_iff {text : Text} {fault : Fault} :
    decode text = .error fault ↔ FirstFlaw text fault := by
  refine ⟨fun h => ?_, decode_of_firstFlaw⟩
  rcases inRange_or_firstFlaw text with ⟨ns, hns, htext⟩ | ⟨first, hfirst⟩
  · rw [decode_eq_ok_iff_areInRange.mpr ⟨ns, hns, htext, rfl⟩] at h
    cases h
  · rw [decode_of_firstFlaw hfirst] at h
    cases h
    exact hfirst

/-! ### Texts in a row -/

theorem decode_append_of_ok {text rest : Text} {values others : List Int}
    (h : decode text = .ok values) (h' : decode rest = .ok others) :
    decode (text ++ rest) = .ok (values ++ others) := by
  obtain ⟨ns, hns, rfl, rfl⟩ := decode_eq_ok_iff_areInRange.mp h
  obtain ⟨ms, hms, rfl, rfl⟩ := decode_eq_ok_iff_areInRange.mp h'
  apply decode_eq_ok_iff_areInRange.mpr
  exact ⟨ns ++ ms, hns.append hms, List.flatten_append.symm, List.map_append.symm⟩

theorem decode_append_of_error {text rest : Text} {values : List Int} {fault : Fault}
    (h : decode text = .ok values) (h' : decode rest = .error fault) :
    decode (text ++ rest) = .error (behind text fault) := by
  obtain ⟨ns, hns, rfl, -⟩ := decode_eq_ok_iff_areInRange.mp h
  exact decode_of_firstFlaw ((decode_eq_error_iff.mp h').append hns)

/-- A text is decoded exactly if it is a row of numbers in range, and then to the integers that they
stand for. Of any other text the first flaw is reported, and that is a flaw of the format. Behind a
text that is decoded another one is decoded as it is alone, with its integers behind the others, and
if it has a flaw then that is reported where it stands. -/
theorem decode_grammar (text : Text) :
    (∀ values, decode text = .ok values ↔
      ∃ ns, AreInRange ns ∧ text = ns.flatten ∧ values = ns.map value) ∧
    (∀ fault, decode text = .error fault ↔ FirstFlaw text fault) ∧
    (∀ fault, FirstFlaw text fault → fault.kind = .format) ∧
    ∀ values, decode text = .ok values → ∀ rest,
      (∀ others, decode rest = .ok others → decode (text ++ rest) = .ok (values ++ others)) ∧
      ∀ fault, decode rest = .error fault → decode (text ++ rest) = .error (behind text fault) := by
  refine ⟨fun _ => decode_eq_ok_iff_areInRange, fun _ => decode_eq_error_iff,
    fun _ hfirst => hfirst.kind_eq, fun values h rest => ⟨fun others h' => ?_, fun fault h' => ?_⟩⟩
  · exact decode_append_of_ok h h'
  · exact decode_append_of_error h h'

example : decode "ggABhgggggE" = .ok [0, 0, -2 ^ 31] := by cbv

example : decode "Cggggggg!" = .error (.strayCharacter ↑ '!' 8 "Cggggggg!") := by cbv

end SourceMaps.Vlq
