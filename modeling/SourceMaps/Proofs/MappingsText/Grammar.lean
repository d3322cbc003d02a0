import Mathlib.Data.List.Forall2
import SourceMaps.Proofs.Decode
import SourceMaps.Proofs.MappingsText
import SourceMaps.Proofs.Steps

/-!
# Mappings texts: the grammar and the sums

A walk reads the pieces of a text one by one, up to the first that spells no segment. So the texts
that are walked to the end are those of a simple grammar, and what is passed of any text is told by
the pieces before the first bad one: the segments are the sums of their differences.

## Main definitions

* `MappingsText.IsPiece`, `MappingsText.IsLine`: the grammar.
* `MappingsText.IsRead`: a piece and the difference that it spells.
* `MappingsText.Follows`: a walk reads pieces behind some steps.

## Main statements

* `MappingsText.isLine_iff`: lines of the grammar are those all of whose pieces are of it.
* `MappingsText.walkLines_follows`: a walk reads the pieces of its lines.
* `MappingsText.walk_grammar`: which texts are walked to the end, and what is passed of the others.
-/

namespace SourceMaps

theorem Segment.ofFields_eq_ok_iff {fields : List Int} {segment : Segment} :
    ofFields fields = .ok segment ↔ fields = segment.fields := by
  constructor
  · intro h
    unfold ofFields at h
    split at h <;> cases h <;> rfl
  · rintro rfl
    exact ofFields_fields segment

/-- Segments have one, four or five fields. -/
theorem Segment.exists_fields_iff {fields : List Int} :
    (∃ segment : Segment, fields = segment.fields) ↔
      fields.length = 1 ∨ fields.length = 4 ∨ fields.length = 5 := by
  constructor
  case mpr =>
    intro h
    match fields, h with
    | [column], _ => exact ⟨.bare column, rfl⟩
    | [column, source, line, originalColumn], _ =>
      exact ⟨.sourced column source line originalColumn, rfl⟩
    | [column, source, line, originalColumn, name], _ =>
      exact ⟨.named column source line originalColumn name, rfl⟩
  case mp =>
    rintro ⟨segment, rfl⟩
    cases segment <;> simp [Segment.fields]

namespace MappingsText

open Steps (absolute)

/-! ### The grammar -/

/-- The texts of segments: one, four or five VLQ integers. -/
def IsPiece (piece : Text) : Prop :=
  piece ≠ [] ∧ ∃ fields, Vlq.decode piece = .ok fields ∧
    (fields.length = 1 ∨ fields.length = 4 ∨ fields.length = 5)

/-- The lines of mappings texts: nothing but blanks, or segments with commas between them and
perhaps one behind the last. -/
def IsLine (line : Text) : Prop :=
  line.isBlank = true ∨ ∃ segments : List Text, segments ≠ [] ∧ (∀ piece ∈ segments, IsPiece piece) ∧
    (line = Text.join "," segments ∨ line = Text.join "," segments ++ ",")

theorem IsPiece.isSpelling {piece : Text} (h : IsPiece piece) : IsSpelling piece := by
  obtain ⟨hne, fields, hfields, -⟩ := h
  exact ⟨hne, Vlq.mem_alphabet_of_decode hfields⟩

theorem isLine_iff {line : Text} : IsLine line ↔ ∀ piece ∈ pieces line, IsPiece piece := by
  constructor
  · rintro (hblank | ⟨segments, hne, hsegments, hline⟩)
    · simp [pieces_of_isBlank hblank]
    · have hspelled : ∀ piece ∈ segments, IsSpelling piece :=
        fun piece hpiece => (hsegments piece hpiece).isSpelling
      have hpieces : pieces line = segments := by
        rcases hline with rfl | rfl
        · exact pieces_join hspelled
        · exact pieces_join_comma hne hspelled
      rwa [hpieces]
  · intro h
    cases hblank : line.isBlank with
    | true => exact .inl hblank
    | false =>
      obtain ⟨hne, hline⟩ := join_pieces hblank
      exact .inr ⟨pieces line, hne, h, hline⟩

/-! ### Pieces and differences -/

/-- A piece of a line and the difference on that line that it spells. -/
def IsRead (item : Nat × Text) (step : Nat × Segment) : Prop :=
  step.1 = item.1 ∧ item.2 ≠ [] ∧ Vlq.decode item.2 = .ok step.2.fields

theorem readSegment_eq_ok_iff {number : Nat} {piece : Text} {difference : Segment} :
    readSegment number piece = .ok difference ↔
      piece ≠ [] ∧ Vlq.decode piece = .ok difference.fields := by
  unfold readSegment
  by_cases hpiece : piece = []
  · simp [hpiece]
  · rw [if_neg (by simpa using hpiece), bind_eq_ok_iff]
    simp [hpiece, Segment.ofFields_eq_ok_iff]

theorem isPiece_iff (number : Nat) {piece : Text} :
    IsPiece piece ↔ ∃ difference, readSegment number piece = .ok difference := by
  simp only [IsPiece, ← Segment.exists_fields_iff, readSegment_eq_ok_iff]
  constructor
  · rintro ⟨hne, fields, hfields, segment, rfl⟩
    exact ⟨segment, hne, hfields⟩
  · rintro ⟨segment, hne, hfields⟩
    exact ⟨hne, _, hfields, segment, rfl⟩

theorem IsRead.isPiece {item : Nat × Text} {step : Nat × Segment} (h : IsRead item step) :
    IsPiece item.2 :=
  (isPiece_iff item.1).mpr ⟨step.2, readSegment_eq_ok_iff.mpr h.2⟩

/-! ### Walking -/

/-- Behind the steps of `passed`, a walk reads pieces up to the first that spells no segment. What
it passes are the absolute segments of the differences read, and that piece is what stops it. -/
def Follows (walk : Walk) (passed : List (Nat × Segment)) (items : List (Nat × Text)) : Prop :=
  ∃ (read rest : List (Nat × Text)) (differences : List (Nat × Segment)),
    items = read ++ rest ∧ List.Forall₂ IsRead read differences ∧
    absolute passed ++ walk.steps = absolute (passed ++ differences) ∧
    match walk.fault with
    | none => rest = []
    | some fault => ∃ offending after, rest = offending :: after ∧
        readSegment offending.1 offending.2 = .error fault

theorem follows_finished (passed : List (Nat × Segment)) : Follows .finished passed [] := by
  refine ⟨[], [], [], rfl, .nil, ?_, rfl⟩
  simp [Walk.finished]

theorem follows_stopped {number : Nat} {piece : Text} {fault : Fault}
    (h : readSegment number piece = .error fault) (passed : List (Nat × Segment))
    (items : List (Nat × Text)) : Follows (.stopped fault) passed ((number, piece) :: items) := by
  refine ⟨[], _, [], rfl, .nil, ?_, (number, piece), items, rfl, h⟩
  simp [Walk.stopped]

theorem follows_step {number : Nat} {piece : Text} {difference : Segment} {walk : Walk}
    {passed : List (Nat × Segment)} {items : List (Nat × Text)}
    (hread : readSegment number piece = .ok difference)
    (h : Follows walk (passed ++ [(number, difference)]) items) :
    Follows (walk.step number
      ((Cursor.total number (passed ++ [(number, difference)])).segment difference))
      passed ((number, piece) :: items) := by
  obtain ⟨read, rest, differences, rfl, hdifferences, hsteps, hfault⟩ := h
  refine ⟨(number, piece) :: read, rest, (number, difference) :: differences, rfl, ?_, ?_, hfault⟩
  · exact .cons ⟨rfl, readSegment_eq_ok_iff.mp hread⟩ hdifferences
  · rw [Steps.absolute_concat, List.append_assoc, List.append_assoc] at hsteps
    exact hsteps

/-- A walk reads the pieces of a line and, behind them, what it goes on to read. -/
theorem walkPieces_follows {number : Nat} {onward : Cursor → Walk} {items : List (Nat × Text)}
    (honward : ∀ passed : List (Nat × Segment), (∀ step ∈ passed, step.1 < number + 1) →
      Follows (onward (.total number passed)) passed items)
    {passed : List (Nat × Segment)} (hpassed : ∀ step ∈ passed, step.1 < number + 1)
    (pieces : List Text) :
    Follows (walkPieces number onward (.total number passed) pieces) passed
      (pieces.map (number, ·) ++ items) := by
  induction pieces generalizing passed with
  | nil => exact honward passed hpassed
  | cons piece rest ih =>
    rw [List.map_cons, List.cons_append]
    cases hread : readSegment number piece with
    | error fault =>
      rw [walkPieces, hread]
      exact follows_stopped hread passed _
    | ok difference =>
      have hnext : ∀ step ∈ passed ++ [(number, difference)], step.1 < number + 1 := by
        intro step hstep
        rcases List.mem_append.mp hstep with hstep | hstep
        · exact hpassed step hstep
        · obtain rfl := List.mem_singleton.mp hstep
          exact Nat.lt_succ_self number
      rw [walkPieces_cons hread, Cursor.apply_total]
      exact follows_step hread (ih hnext)

/-- A walk through lines, behind steps on earlier lines, reads the pieces of the lines. -/
theorem walkLines_follows {number : Nat} {cursor : Cursor} {passed : List (Nat × Segment)}
    (hpassed : ∀ step ∈ passed, step.1 < number)
    (hcursor : cursor.nextLine = .total number passed) (lines : List Text) :
    Follows (walkLines number cursor lines) passed (numbered number (lines.map pieces)) := by
  induction lines generalizing number cursor passed with
  | nil => exact follows_finished passed
  | cons line rest ih =>
    rw [walkLines, hcursor]
    refine walkPieces_follows (fun passed hpassed => ?_) (fun step hstep => ?_) (pieces line)
    -- On the next line the column starts over, since no step is there yet.
    · exact ih hpassed (Cursor.nextLine_gather rfl hpassed)
    · have hlt := hpassed step hstep
      omega

theorem walk_follows (text : Text) :
    Follows (walk text) [] (numbered 0 ((text.splitOn ↑ ';').map pieces)) := by
  have hstart : ({} : Cursor).nextLine = .total 0 [] := rfl
  exact walkLines_follows (List.forall_mem_nil _) hstart _

/-! ### Walking to the end -/

theorem not_isPiece_of_readSegment {number : Nat} {piece : Text} {fault : Fault}
    (h : readSegment number piece = .error fault) : ¬IsPiece piece := by
  rw [isPiece_iff number]
  rintro ⟨difference, hok⟩
  rw [hok] at h
  cases h

/-- A walk reaches the end exactly if all the pieces spell segments. -/
theorem Follows.finished_iff {walk : Walk} {passed : List (Nat × Segment)}
    {items : List (Nat × Text)} (h : Follows walk passed items) :
    walk.fault = none ↔ ∀ item ∈ items, IsPiece item.2 := by
  obtain ⟨read, rest, differences, rfl, hread, -, hfault⟩ := h
  cases hwalk : walk.fault with
  | none =>
    rw [hwalk] at hfault
    obtain rfl : rest = [] := hfault
    have hgood := hread.imp fun item _ h => (⟨h.isPiece, h⟩ : IsPiece item.2 ∧ _)
    rw [List.append_nil]
    exact iff_of_true rfl ((List.forall₂_and_left read differences).mp hgood).1
  | some fault =>
    rw [hwalk] at hfault
    obtain ⟨offending, after, rfl, hoffending⟩ := hfault
    exact iff_of_false nofun fun h =>
      not_isPiece_of_readSegment hoffending (h offending (by simp))

theorem forall_isLine_iff (number : Nat) {lines : List Text} :
    (∀ line ∈ lines, IsLine line) ↔ ∀ item ∈ numbered number (lines.map pieces), IsPiece item.2 := by
  induction lines generalizing number with
  | nil => simp [numbered]
  | cons line rest ih =>
    rw [List.forall_mem_cons, List.map_cons, numbered, List.forall_mem_append,
      ← ih (number + 1), isLine_iff, List.forall_mem_map]

theorem fault_walk_eq_none_iff (text : Text) :
    (walk text).fault = none ↔ ∀ line ∈ text.splitOn ↑ ';', IsLine line :=
  (walk_follows text).finished_iff.trans (forall_isLine_iff 0).symm

/-- A text is walked to the end exactly if its lines are those of the grammar. Of any text the
segments of the pieces before the first bad one are passed, each on its line, in the shape of its
difference and with the sums of the differences up to it as its fields: the column sums over the
line, the origin over all segments with an origin and the name over the named ones. A bad piece is a
flaw of the format, and nothing behind it is passed. -/
theorem walk_grammar (text : Text) :
    ((walk text).fault = none ↔ ∀ line ∈ text.splitOn ↑ ';', IsLine line) ∧
    ∃ (read rest : List (Nat × Text)) (differences : List (Nat × Segment)),
      numbered 0 ((text.splitOn ↑ ';').map pieces) = read ++ rest ∧
      List.Forall₂ IsRead read differences ∧
      (walk text).steps = absolute differences ∧
      ((walk text).fault = none → rest = []) ∧
      ∀ fault, (walk text).fault = some fault → fault.kind = .format ∧
        ∃ offending after, rest = offending :: after ∧ ¬IsPiece offending.2 ∧
          readSegment offending.1 offending.2 = .error fault := by
  refine ⟨fault_walk_eq_none_iff text, ?_⟩
  obtain ⟨read, rest, differences, hitems, hread, hsteps, hfault⟩ := walk_follows text
  refine ⟨read, rest, differences, hitems, hread, hsteps, ?_, ?_⟩
  · intro hwalk
    rw [hwalk] at hfault
    exact hfault
  · intro fault hwalk
    rw [hwalk] at hfault
    obtain ⟨offending, after, hrest, hoffending⟩ := hfault
    exact ⟨kind_of_readSegment hoffending, offending, after, hrest,
      not_isPiece_of_readSegment hoffending, hoffending⟩

end MappingsText

end SourceMaps
