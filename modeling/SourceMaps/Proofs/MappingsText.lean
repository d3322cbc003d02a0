import SourceMaps.MappingsText
import SourceMaps.Proofs.Text.CodePoint
import SourceMaps.Proofs.Vlq

/-!
# Mappings texts: walking what was written

Lines of segments are spelled without semicolons and segments without commas, so a walk through a
written text finds the lines and the segments again, and the sums of the walk are at each segment
those of the writer.

## Main definitions

* `MappingsText.numbered`: what is on lines, with their numbers.

## Main statements

* `MappingsText.pieces_join`: a written line has the pieces it was written from.
* `MappingsText.join_pieces`: a line consists of its pieces.
* `MappingsText.walk_of_write`: the walk through a written text passes the segments written.
-/

namespace SourceMaps

/-- The fields of a segment determine it. -/
theorem Segment.ofFields_fields (segment : Segment) : ofFields segment.fields = .ok segment := by
  cases segment <;> rfl

namespace MappingsText

/-! ### Separators -/

theorem comma_notMem_alphabet : (↑ ',' : CodePoint) ∉ Vlq.alphabet := by decide

theorem semicolon_notMem_alphabet : (↑ ';' : CodePoint) ∉ Vlq.alphabet := by decide

theorem not_isBlank_of_mem_alphabet {c : CodePoint} (h : c ∈ Vlq.alphabet) : c.isBlank = false := by
  have hall : ∀ c ∈ Vlq.alphabet, c.isBlank = false := by decide
  exact hall c h

/-- What a segment is written as: base64 characters, at least one of them. -/
def IsSpelling (piece : Text) : Prop := piece ≠ [] ∧ ∀ c ∈ piece, c ∈ Vlq.alphabet

/-- A line on which something other than blanks stands has the pieces between its commas, without
an empty one at the end. -/
theorem pieces_of_splitOn {line : Text} {parts : List Text} {c : CodePoint} (hmem : c ∈ line)
    (hc : c ∈ Vlq.alphabet) (hsplit : line.splitOn ↑ ',' = parts) :
    pieces line = if parts.getLast? = some [] then parts.dropLast else parts := by
  have hblank : line.isBlank = false :=
    List.all_eq_false.mpr ⟨c, hmem, by simp [not_isBlank_of_mem_alphabet hc]⟩
  rw [pieces, hblank, hsplit]
  simp only [Bool.false_eq_true, if_false]

/-- Spelled segments are found again between the commas. -/
theorem splitOn_join {spelled : List Text} (hne : spelled ≠ [])
    (h : ∀ piece ∈ spelled, IsSpelling piece) :
    (Text.join "," spelled).splitOn ↑ ',' = spelled :=
  List.splitOn_intercalate _
    (fun piece hpiece hcomma => comma_notMem_alphabet ((h piece hpiece).2 _ hcomma)) hne

/-- A line of spelled segments has these as its pieces. -/
theorem pieces_join {spelled : List Text} (h : ∀ piece ∈ spelled, IsSpelling piece) :
    pieces (Text.join "," spelled) = spelled := by
  cases spelled with
  | nil => rfl
  | cons piece rest =>
    obtain ⟨hne, halphabet⟩ := h piece (by simp)
    obtain ⟨c, tail, rfl⟩ := List.exists_cons_of_ne_nil hne
    have hmem : c ∈ Text.join "," ((c :: tail) :: rest) := by
      cases rest <;> simp [Text.join, List.intercalate]
    -- No piece is empty, so none is taken for what follows a trailing comma.
    have hlast : ((c :: tail) :: rest).getLast? ≠ some [] := by
      intro hlast
      exact (h [] (List.mem_of_getLast? hlast)).1 rfl
    rw [pieces_of_splitOn hmem (halphabet c (by simp)) (splitOn_join (by simp) h), if_neg hlast]

/-- A comma behind the last segment changes nothing. -/
theorem pieces_join_comma {spelled : List Text} (hne : spelled ≠ [])
    (h : ∀ piece ∈ spelled, IsSpelling piece) :
    pieces (Text.join "," spelled ++ ",") = spelled := by
  have hjoin : Text.join "," spelled ++ "," = Text.join "," (spelled ++ [[]]) := by
    rw [Text.join_concat _ hne, List.append_nil]
  have hsplit : (Text.join "," (spelled ++ [[]])).splitOn ↑ ',' = spelled ++ [[]] := by
    refine List.splitOn_intercalate _ (fun p hp hcomma => ?_) (by simp)
    rcases List.mem_append.mp hp with hp | hp
    · exact comma_notMem_alphabet ((h p hp).2 _ hcomma)
    · obtain rfl := List.mem_singleton.mp hp
      simp at hcomma
  obtain ⟨piece, rest, rfl⟩ := List.exists_cons_of_ne_nil hne
  obtain ⟨hpiece, halphabet⟩ := h piece (by simp)
  obtain ⟨c, tail, rfl⟩ := List.exists_cons_of_ne_nil hpiece
  have hmem : c ∈ Text.join "," ((c :: tail) :: rest) ++ "," := by
    cases rest <;> simp [Text.join, List.intercalate]
  rw [hjoin] at hmem ⊢
  rw [pieces_of_splitOn hmem (halphabet c (by simp)) hsplit, if_pos List.getLast?_concat,
    List.dropLast_concat]

/-- A line that is not blank has pieces and consists of them, with commas between them and perhaps
one behind the last. -/
theorem join_pieces {line : Text} (h : line.isBlank = false) :
    pieces line ≠ [] ∧
      (line = Text.join "," (pieces line) ∨ line = Text.join "," (pieces line) ++ ",") := by
  have hjoin : Text.join "," (line.splitOn ↑ ',') = line := List.intercalate_splitOn _
  rw [pieces, h]
  simp only [Bool.false_eq_true, if_false]
  split
  · next hlast =>
    have hsplit := List.dropLast_append_getLast? _ hlast
    have hne : (line.splitOn ↑ ',').dropLast ≠ [] := by
      -- With nothing before it, the empty piece would be the whole line, which is not blank.
      intro hnil
      rw [hnil] at hsplit
      rw [← hsplit] at hjoin
      rw [← hjoin] at h
      cases h
    refine ⟨hne, .inr ?_⟩
    rw [← hsplit, Text.join_concat _ hne, List.append_nil] at hjoin
    exact hjoin.symm
  · exact ⟨List.splitOn_ne_nil _ _, .inl hjoin.symm⟩

theorem pieces_of_isBlank {line : Text} (h : line.isBlank = true) : pieces line = [] := by
  rw [pieces, if_pos h]

/-! ### Segments of a line -/

theorem writeSegments_cons (cursor : Cursor) (segment : Segment) (rest : List Segment) :
    writeSegments cursor (segment :: rest) = (do
      let piece ← Vlq.encode (cursor.delta segment).2.fields
      let (others, after) ← writeSegments (cursor.delta segment).1 rest
      return (piece :: others, after)) := rfl

theorem writeSegments_cons_iff {cursor after : Cursor} {segment : Segment} {rest : List Segment}
    {spelled : List Text} :
    writeSegments cursor (segment :: rest) = .ok (spelled, after) ↔
      ∃ piece others, Vlq.encode (cursor.delta segment).2.fields = .ok piece ∧
        writeSegments (cursor.delta segment).1 rest = .ok (others, after) ∧
        spelled = piece :: others := by
  rw [writeSegments_cons, bind_eq_ok_iff]
  constructor
  · rintro ⟨piece, hpiece, h⟩
    obtain ⟨⟨others, last⟩, hothers, h⟩ := bind_eq_ok_iff.mp h
    cases h
    exact ⟨piece, others, hpiece, hothers, rfl⟩
  · rintro ⟨piece, others, hpiece, hothers, rfl⟩
    exact ⟨piece, hpiece, bind_eq_ok_iff.mpr ⟨(others, after), hothers, rfl⟩⟩

theorem isSpelling_of_encode {segment : Segment} {piece : Text}
    (h : Vlq.encode segment.fields = .ok piece) : IsSpelling piece := by
  have hfields : segment.fields ≠ [] := by cases segment <;> simp [Segment.fields]
  exact ⟨Vlq.encode_ne_nil hfields h, Vlq.mem_alphabet_of_encode h⟩

theorem isSpelling_of_writeSegments {cursor after : Cursor} {segments : List Segment}
    {spelled : List Text} (h : writeSegments cursor segments = .ok (spelled, after)) :
    ∀ piece ∈ spelled, IsSpelling piece := by
  induction segments generalizing cursor spelled with
  | nil =>
    cases h
    simp
  | cons segment rest ih =>
    obtain ⟨piece, others, hpiece, hothers, rfl⟩ := writeSegments_cons_iff.mp h
    intro p hp
    rcases List.mem_cons.mp hp with rfl | hp
    · exact isSpelling_of_encode hpiece
    · exact ih hothers p hp

/-- The difference that was written for a segment is read back. -/
theorem readSegment_of_encode {segment : Segment} {piece : Text} (line : Nat)
    (h : Vlq.encode segment.fields = .ok piece) : readSegment line piece = .ok segment := by
  have hne : piece.isEmpty = false := by
    simpa [List.isEmpty_eq_false_iff] using (isSpelling_of_encode h).1
  rw [readSegment, hne, Vlq.decode_of_encode h]
  exact Segment.ofFields_fields segment

theorem walkPieces_cons {line : Nat} {piece : Text} {difference : Segment}
    (h : readSegment line piece = .ok difference) (onward : Cursor → Walk) (cursor : Cursor)
    (rest : List Text) :
    walkPieces line onward cursor (piece :: rest) =
      (walkPieces line onward (cursor.apply difference).1 rest).step line
        (cursor.apply difference).2 := by
  rw [walkPieces, h]

/-- Walking through a written line passes its segments and goes on with the sums of the writer. -/
theorem walkPieces_of_writeSegments {cursor after : Cursor} {segments : List Segment}
    {spelled : List Text} (line : Nat) (onward : Cursor → Walk)
    (h : writeSegments cursor segments = .ok (spelled, after)) :
    walkPieces line onward cursor spelled =
      ⟨segments.map (line, ·) ++ (onward after).steps, (onward after).fault⟩ := by
  induction segments generalizing cursor spelled with
  | nil =>
    cases h
    rfl
  | cons segment rest ih =>
    obtain ⟨piece, others, hpiece, hothers, rfl⟩ := writeSegments_cons_iff.mp h
    -- Reader and writer hold the same sums, so the difference leads back to the segment.
    rw [walkPieces_cons (readSegment_of_encode line hpiece), Cursor.apply_delta, ih hothers]
    rfl

/-! ### Lines -/

/-- What is on lines, each item with the number of its line; the first line has the given number. -/
def numbered {α : Type} (number : Nat) : List (List α) → List (Nat × α)
  | [] => []
  | items :: rest => items.map (number, ·) ++ numbered (number + 1) rest

theorem writeLines_cons_iff {cursor : Cursor} {segments : List Segment}
    {rest : List (List Segment)} {lines : List Text} :
    writeLines cursor (segments :: rest) = .ok lines ↔
      ∃ spelled after others, writeSegments cursor.nextLine segments = .ok (spelled, after) ∧
        writeLines after rest = .ok others ∧ lines = Text.join "," spelled :: others := by
  rw [writeLines, bind_eq_ok_iff]
  constructor
  · rintro ⟨⟨spelled, after⟩, hspelled, h⟩
    obtain ⟨others, hothers, h⟩ := bind_eq_ok_iff.mp h
    cases h
    exact ⟨spelled, after, others, hspelled, hothers, rfl⟩
  · rintro ⟨spelled, after, others, hspelled, hothers, rfl⟩
    exact ⟨(spelled, after), hspelled, bind_eq_ok_iff.mpr ⟨others, hothers, rfl⟩⟩

theorem semicolon_notMem_of_writeLines {cursor : Cursor} {segments : List (List Segment)}
    {lines : List Text} (h : writeLines cursor segments = .ok lines) :
    ∀ line ∈ lines, (↑ ';' : CodePoint) ∉ line := by
  induction segments generalizing cursor lines with
  | nil =>
    cases h
    simp
  | cons first rest ih =>
    obtain ⟨spelled, after, others, hspelled, hothers, rfl⟩ := writeLines_cons_iff.mp h
    intro line hline
    rcases List.mem_cons.mp hline with rfl | hline
    · intro hsemicolon
      rcases Text.mem_join hsemicolon with hcomma | ⟨piece, hpiece, hmem⟩
      · exact absurd hcomma (by decide)
      · exact semicolon_notMem_alphabet
          ((isSpelling_of_writeSegments hspelled piece hpiece).2 _ hmem)
    · exact ih hothers line hline

/-- Walking through written lines passes their segments and reaches the end. -/
theorem walkLines_of_writeLines {cursor : Cursor} {segments : List (List Segment)}
    {lines : List Text} (number : Nat) (h : writeLines cursor segments = .ok lines) :
    walkLines number cursor lines = ⟨numbered number segments, none⟩ := by
  induction segments generalizing cursor lines number with
  | nil =>
    cases h
    rfl
  | cons first rest ih =>
    obtain ⟨spelled, after, others, hspelled, hothers, rfl⟩ := writeLines_cons_iff.mp h
    rw [walkLines, pieces_join (isSpelling_of_writeSegments hspelled),
      walkPieces_of_writeSegments number _ hspelled, ih (number + 1) hothers]
    rfl

/-- The walk through a written text passes the segments that were written, line by line. -/
theorem walk_of_write {segments : List (List Segment)} {text : Text}
    (h : write segments = .ok text) : walk text = ⟨numbered 0 segments, none⟩ := by
  obtain ⟨lines, hlines, h⟩ := bind_eq_ok_iff.mp h
  cases h
  cases segments with
  | nil =>
    cases hlines
    rfl
  | cons first rest =>
    have hne : lines ≠ [] := by
      obtain ⟨spelled, after, others, -, -, rfl⟩ := writeLines_cons_iff.mp hlines
      simp
    have hsplit : (Text.join ";" lines).splitOn ↑ ';' = lines :=
      List.splitOn_intercalate _ (semicolon_notMem_of_writeLines hlines) hne
    rw [walk, hsplit, walkLines_of_writeLines 0 hlines]

end MappingsText

end SourceMaps
