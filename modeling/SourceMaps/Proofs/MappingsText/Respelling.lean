import Mathlib
import SourceMaps.Proofs.MappingsText.Grammar
import SourceMaps.Proofs.Vlq.Shortest

/-!
# Mappings texts: writing what was walked

The differences that a walk reads are in range, and the writer comes back to just these, since its
cursor moves to each absolute segment as that of the reader did. So every text that is walked to the
end can be written again, and only what the segments do not tell gets lost: how long the numbers
were spelled, the blanks of a blank line and a comma behind the last segment.

## Main definitions

* `MappingsText.tidyLine`, `MappingsText.tidied`: a line, and a text, without what gets lost.
* `MappingsText.IsTidyLine`: lines from which nothing gets lost.
* `MappingsText.byLine`: the segments of a walk, line by line.

## Main statements

* `MappingsText.writeSegments_of_walkPieces`, `MappingsText.writeLines_of_walkLines`: what was walked
  can be written.
* `MappingsText.write_of_walk`: writing a walk through a text tidies the text.
-/

namespace SourceMaps.MappingsText

/-- A line without the comma behind its last segment. -/
def withoutComma (line : Text) : Text :=
  if line.getLast? = some ↑ ',' then line.dropLast else line

/-- A line with every number in its shortest spelling, without the comma behind its last segment and
without blanks where there are no segments. -/
def tidyLine (line : Text) : Text :=
  if line.isBlank then []
  else Text.join "," (((withoutComma line).splitOn ↑ ',').map Vlq.respell)

/-- A text with tidy lines. -/
def tidied (text : Text) : Text := Text.join ";" ((text.splitOn ↑ ';').map tidyLine)

/-- Lines without blanks, without a comma at the end and with all numbers in their shortest
spellings. -/
def IsTidyLine (line : Text) : Prop :=
  (line.isBlank = true → line = []) ∧ line.getLast? ≠ some ↑ ',' ∧
    ∀ piece ∈ line.splitOn ↑ ',', ∀ number ∈ Vlq.numbers piece, Vlq.IsShortest number

/-- The segments of steps on each of so many lines. -/
def byLine (count : Nat) (steps : List (Nat × Segment)) : List (List Segment) :=
  (List.range count).map fun number => (steps.filter (·.1 = number)).map (·.2)

/-! ### Tidy lines -/

/-- A change to what stands between separators keeps the text only if it keeps every part, as long as
it brings in no separators. -/
theorem join_map_splitOn_eq_self_iff {separator : CodePoint} {text : Text} {f : Text → Text}
    (h : ∀ part ∈ text.splitOn separator, separator ∉ f part) :
    Text.join [separator] ((text.splitOn separator).map f) = text ↔
      ∀ part ∈ text.splitOn separator, f part = part := by
  have hsplit : (Text.join [separator] ((text.splitOn separator).map f)).splitOn separator =
      (text.splitOn separator).map f :=
    List.splitOn_intercalate _ (List.forall_mem_map.mpr h) (by simp)
  rw [← map_eq_self_iff]
  constructor
  · intro heq
    rw [← hsplit, heq]
  · intro heq
    rw [heq]
    exact List.intercalate_splitOn _

theorem getLast?_join {spelled : List Text} (h : ∀ piece ∈ spelled, IsSpelling piece) :
    (Text.join "," spelled).getLast? ≠ some ↑ ',' := by
  intro hcomma
  rcases List.eq_nil_or_concat' spelled with rfl | ⟨others, piece, rfl⟩
  · cases hcomma
  · obtain ⟨hne, halphabet⟩ := h piece (by simp)
    -- The line ends as its last piece does.
    have hlast : (Text.join "," (others ++ [piece])).getLast? = piece.getLast? := by
      by_cases hothers : others = []
      · rw [hothers]
        simp [Text.join, List.intercalate]
      · rw [Text.join_concat _ hothers, List.getLast?_append_of_ne_nil _ hne]
    rw [hlast] at hcomma
    exact comma_notMem_alphabet (halphabet _ (List.mem_of_getLast? hcomma))

theorem withoutComma_join {spelled : List Text} (h : ∀ piece ∈ spelled, IsSpelling piece) :
    withoutComma (Text.join "," spelled) = Text.join "," spelled ∧
      withoutComma (Text.join "," spelled ++ ",") = Text.join "," spelled := by
  have hcomma : (Text.join "," spelled ++ ",").getLast? = some ↑ ',' := List.getLast?_concat
  refine ⟨if_neg (getLast?_join h), ?_⟩
  rw [withoutComma, if_pos hcomma]
  exact List.dropLast_concat

theorem isSpelling_respell {piece : Text} (h : IsPiece piece) :
    IsSpelling (Vlq.respell piece) := by
  obtain ⟨difference, hread⟩ := (isPiece_iff 0).mp h
  exact isSpelling_of_encode (Vlq.encode_of_decode (readSegment_eq_ok_iff.mp hread).2)

/-- Tidying a line respells its pieces. -/
theorem tidyLine_eq {line : Text} (h : ∀ piece ∈ pieces line, IsPiece piece) :
    tidyLine line = Text.join "," ((pieces line).map Vlq.respell) := by
  rw [tidyLine]
  cases hblank : line.isBlank with
  | true =>
    rw [pieces_of_isBlank hblank]
    rfl
  | false =>
    obtain ⟨hne, hline⟩ := join_pieces hblank
    have hspelled : ∀ piece ∈ pieces line, IsSpelling piece :=
      fun piece hpiece => (h piece hpiece).isSpelling
    have hcut : withoutComma line = Text.join "," (pieces line) := by
      obtain ⟨hbare, hclosed⟩ := withoutComma_join hspelled
      rcases hline with hline | hline
      · exact (congrArg withoutComma hline).trans hbare
      · exact (congrArg withoutComma hline).trans hclosed
    rw [hcut, splitOn_join hne hspelled]
    rfl

theorem isTidyLine_nil : IsTidyLine [] := by
  refine ⟨fun _ => rfl, nofun, fun piece hpiece number hnumber => ?_⟩
  obtain rfl : piece = [] := by simpa using hpiece
  cases hnumber

/-- Only tidy lines stay as they are. -/
theorem tidyLine_eq_self_iff {line : Text} (h : ∀ piece ∈ pieces line, IsPiece piece) :
    tidyLine line = line ↔ IsTidyLine line := by
  rw [tidyLine_eq h]
  cases hblank : line.isBlank with
  | true =>
    rw [pieces_of_isBlank hblank]
    constructor
    · intro hline
      rw [← hline]
      exact isTidyLine_nil
    · intro htidy
      exact (htidy.1 hblank).symm
  | false =>
    obtain ⟨hne, hline⟩ := join_pieces hblank
    have hspelled : ∀ piece ∈ pieces line, IsSpelling piece :=
      fun piece hpiece => (h piece hpiece).isSpelling
    have hrespelled : ∀ piece ∈ pieces line, IsSpelling (Vlq.respell piece) :=
      fun piece hpiece => isSpelling_respell (h piece hpiece)
    rcases hline with hline | hline
    · have hsplit : line.splitOn ↑ ',' = pieces line :=
        (congrArg (List.splitOn ↑ ',') hline).trans (splitOn_join hne hspelled)
      have hlast : line.getLast? ≠ some ↑ ',' := by
        rw [hline]
        exact getLast?_join hspelled
      have hpieces := join_map_splitOn_eq_self_iff (f := Vlq.respell) fun piece hpiece hcomma => by
        rw [hsplit] at hpiece
        exact comma_notMem_alphabet ((hrespelled piece hpiece).2 _ hcomma)
      have hshortest : ∀ piece ∈ pieces line,
          Vlq.respell piece = piece ↔ ∀ n ∈ Vlq.numbers piece, Vlq.IsShortest n := by
        intro piece hpiece
        obtain ⟨-, fields, hfields, -⟩ := h piece hpiece
        exact Vlq.respell_eq_self_iff hfields
      rw [hsplit, forall₂_congr hshortest] at hpieces
      rw [IsTidyLine, hsplit, ← hpieces]
      exact ⟨fun heq => ⟨by simp [hblank], hlast, heq⟩, fun htidy => htidy.2.2⟩
    · -- The comma at the end of the line is not written again.
      have hcomma : line.getLast? = some ↑ ',' := by
        rw [hline]
        exact List.getLast?_concat
      refine iff_of_false (fun heq => ?_) fun htidy => htidy.2.1 hcomma
      have hlast := getLast?_join (List.forall_mem_map.mpr hrespelled)
      rw [heq] at hlast
      exact hlast hcomma

/-! ### Writing -/

/-- What was walked of a line is written as its pieces respelled, and leads to the cursor that the
walk went on with. -/
theorem writeSegments_of_walkPieces {number : Nat} {onward : Cursor → Walk} {cursor : Cursor}
    {pieces : List Text} (h : (walkPieces number onward cursor pieces).fault = none) :
    ∃ segments after, writeSegments cursor segments = .ok (pieces.map Vlq.respell, after) ∧
      walkPieces number onward cursor pieces =
        ⟨segments.map (number, ·) ++ (onward after).steps, (onward after).fault⟩ := by
  induction pieces generalizing cursor with
  | nil => exact ⟨[], cursor, rfl, rfl⟩
  | cons piece rest ih =>
    cases hread : readSegment number piece with
    | error fault =>
      rw [walkPieces, hread] at h
      cases h
    | ok difference =>
      rw [walkPieces_cons hread] at h ⊢
      obtain ⟨segments, after, hwritten, hwalk⟩ := ih h
      have hpiece := Vlq.encode_of_decode (readSegment_eq_ok_iff.mp hread).2
      refine ⟨(cursor.apply difference).2 :: segments, after, ?_, ?_⟩
      · rw [writeSegments_cons_iff, Cursor.delta_apply]
        exact ⟨_, _, hpiece, hwritten, rfl⟩
      · rw [hwalk]
        rfl

/-- Lines that were walked to the end are written with their pieces respelled. -/
theorem writeLines_of_walkLines {number : Nat} {cursor : Cursor} {lines : List Text}
    (h : (walkLines number cursor lines).fault = none) :
    ∃ segments, writeLines cursor segments =
        .ok (lines.map fun line => Text.join "," ((pieces line).map Vlq.respell)) ∧
      (walkLines number cursor lines).steps = numbered number segments ∧
      segments.length = lines.length := by
  induction lines generalizing number cursor with
  | nil => exact ⟨[], rfl, rfl, rfl⟩
  | cons line rest ih =>
    rw [walkLines] at h ⊢
    obtain ⟨segments, after, hwritten, hwalk⟩ := writeSegments_of_walkPieces h
    rw [hwalk] at h ⊢
    obtain ⟨others, hothers, hsteps, hlength⟩ := ih h
    refine ⟨segments :: others, ?_, ?_, congrArg (· + 1) hlength⟩
    · exact writeLines_cons_iff.mpr ⟨_, after, _, hwritten, hothers, rfl⟩
    · simp only [hsteps]
      rfl

/-! ### Line by line -/

theorem le_of_mem_numbered {α : Type} {number : Nat} {lines : List (List α)} {item : Nat × α}
    (h : item ∈ numbered number lines) : number ≤ item.1 := by
  induction lines generalizing number with
  | nil => cases h
  | cons line rest ih =>
    rcases List.mem_append.mp h with h | h
    · obtain ⟨a, -, rfl⟩ := List.mem_map.mp h
      exact Nat.le_refl number
    · exact Nat.le_of_succ_le (ih h)

/-- The items with the number of a line are those on it. -/
theorem filter_numbered {α : Type} {lines : List (List α)} {i : Nat} (h : i < lines.length)
    (number : Nat) :
    ((numbered number lines).filter (·.1 = number + i)).map (·.2) = lines[i] := by
  induction lines generalizing number i with
  | nil => cases h
  | cons line rest ih =>
    rw [numbered, List.filter_append, List.map_append]
    cases i with
    | zero =>
      have hlater : (numbered (number + 1) rest).filter (·.1 = number + 0) = [] := by
        refine List.filter_eq_nil_iff.mpr fun item hitem heq => ?_
        have hle := le_of_mem_numbered hitem
        have heq : item.1 = number := by simpa using heq
        omega
      rw [hlater]
      simp [List.filter_map, Function.comp_def]
    | succ i =>
      have hearlier : (line.map (number, ·)).filter (·.1 = number + (i + 1)) = [] := by
        simp [List.filter_map, Function.comp_def]
      have hrest := ih (Nat.lt_of_succ_lt_succ h) (number + 1)
      rw [Nat.add_assoc, Nat.add_comm 1] at hrest
      rw [hearlier, hrest]
      rfl

theorem byLine_numbered (lines : List (List Segment)) :
    byLine lines.length (numbered 0 lines) = lines := by
  refine List.ext_getElem (by simp [byLine]) fun i _ hi => ?_
  have hline := filter_numbered hi 0
  rw [Nat.zero_add] at hline
  simpa [byLine] using hline

/-- A text that is walked to the end can be written again from the segments passed, line by line,
however wide these have grown. What is written is the text with its lines tidied, so it is the text
itself exactly if all lines were tidy. -/
theorem write_of_walk {text : Text} (h : (walk text).fault = none) :
    write (byLine (text.splitOn ↑ ';').length (walk text).steps) = .ok (tidied text) ∧
      (tidied text = text ↔ ∀ line ∈ text.splitOn ↑ ';', IsTidyLine line) := by
  have hpieces : ∀ line ∈ text.splitOn ↑ ';', ∀ piece ∈ pieces line, IsPiece piece :=
    fun line hline => isLine_iff.mp ((fault_walk_eq_none_iff text).mp h line hline)
  obtain ⟨segments, hwritten, hsteps, hlength⟩ := writeLines_of_walkLines h
  have htidy : (text.splitOn ↑ ';').map tidyLine = (text.splitOn ↑ ';').map
      fun line => Text.join "," ((pieces line).map Vlq.respell) :=
    List.map_congr_left fun line hline => tidyLine_eq (hpieces line hline)
  rw [← htidy] at hwritten
  constructor
  · rw [walk, hsteps, ← hlength, byLine_numbered, write, hwritten]
    rfl
  · have hsemicolon : ∀ line ∈ text.splitOn ↑ ';', (↑ ';' : CodePoint) ∉ tidyLine line :=
      fun line hline => semicolon_notMem_of_writeLines hwritten _ (List.mem_map_of_mem hline)
    exact (join_map_splitOn_eq_self_iff hsemicolon).trans
      (forall₂_congr fun line hline => tidyLine_eq_self_iff (hpieces line hline))

/-- A text with a column beyond 32 bits, a line of one blank, two zeros spelled at length and a comma
behind the last segment. -/
def untidy : Text := "+/////D,+/////D; ;gABAA,"

theorem write_of_walk_untidy :
    (walk untidy).fault = none ∧
      write [[.bare 0x7FFFFFFF, .bare 0xFFFFFFFE], [], [.sourced 0 0 0 0]] =
        .ok "+/////D,+/////D;;AAAA" := by
  have hwalk : (walk untidy).fault = none := by cbv
  have hsteps : byLine (untidy.splitOn ↑ ';').length (walk untidy).steps =
      [[.bare 0x7FFFFFFF, .bare 0xFFFFFFFE], [], [.sourced 0 0 0 0]] := by cbv
  have htidied : tidied untidy = "+/////D,+/////D;;AAAA" := by decide +kernel
  have hwritten := (write_of_walk hwalk).1
  rw [hsteps, htidied] at hwritten
  exact ⟨hwalk, hwritten⟩

end SourceMaps.MappingsText
