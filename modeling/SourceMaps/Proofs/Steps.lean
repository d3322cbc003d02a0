import Mathlib.Algebra.BigOperators.Group.List.Basic
import Mathlib.Algebra.Ring.Int.Defs
import SourceMaps.Segment

/-!
# Steps through a mappings text: sums and differences

A cursor is described by the steps that led to it: walking, it holds the sums of the differences
passed; writing, the fields of the last segments passed. The column looks at the steps on one line
only, the origin at the steps that have one, the name at the named ones. Reader and writer move
their cursors as these descriptions say, so both directions can be stated without a cursor.

## Main definitions

* `withPassed`: the items of a list, each with those before it.
* `Cursor.gather`, `Cursor.total`, `Cursor.reached`: cursors described by steps.
* `Steps.absolute`: the absolute segments of steps by differences.
* `Steps.differences`: the differences of steps through absolute segments.

## Main statements

* `Cursor.apply_total`, `Cursor.delta_reached`, `Cursor.nextLine_gather`: how the descriptions move.
-/

namespace SourceMaps

/-- The items of a list, each with those before it. -/
def withPassed {α : Type} (items : List α) : List (List α × α) :=
  items.mapIdx fun i a => (items.take i, a)

theorem withPassed_concat {α : Type} (items : List α) (a : α) :
    withPassed (items ++ [a]) = withPassed items ++ [(items, a)] := by
  -- The new item is before none of the others.
  have hbefore : items.mapIdx (fun i b => ((items ++ [a]).take i, b)) = withPassed items := by
    refine List.ext_getElem (by simp [withPassed]) fun i hi _ => ?_
    have hle : i ≤ items.length := by
      rw [List.length_mapIdx] at hi
      omega
    simp [withPassed, List.take_append_of_le_length hle]
  rw [withPassed, List.mapIdx_concat, hbefore, List.take_left]

namespace Segment

/-- Source, line and column of the origin; a bare segment has none. -/
def origin? : Segment → Option (Int × Int × Int)
  | .bare _ => none
  | .sourced _ source line column => some (source, line, column)
  | .named _ source line column _ => some (source, line, column)

/-- The position of the name; only named segments have one. -/
def name? : Segment → Option Int
  | .bare _ => none
  | .sourced .. => none
  | .named _ _ _ _ name => some name

/-- What the fields of an absolute segment differ by from the slots of a cursor. -/
def differencesFrom (segment : Segment) (c : Cursor) : List Int :=
  List.zipWith (· - ·) segment.fields [c.column, c.source, c.line, c.originalColumn, c.name]

end Segment

namespace Cursor

/-- The segment of a given shape whose fields are the slots. -/
def segment (c : Cursor) : Segment → Segment
  | .bare _ => .bare c.column
  | .sourced .. => .sourced c.column c.source c.line c.originalColumn
  | .named .. => .named c.column c.source c.line c.originalColumn c.name

theorem fields_delta (c : Cursor) (s : Segment) : (c.delta s).2.fields = s.differencesFrom c := by
  cases s <;> rfl

/-- The slots on a line after some steps, each made by `f` from the fields that belong to it: the
column from the steps on the line, the origin from the steps with an origin, on whatever line, and
the name from the steps with a name. -/
def gather (f : List Int → Int) (number : Nat) (steps : List (Nat × Segment)) : Cursor where
  column := f ((steps.filter (·.1 = number)).map (·.2.column))
  source := f ((steps.filterMap (·.2.origin?)).map (·.1))
  line := f ((steps.filterMap (·.2.origin?)).map (·.2.1))
  originalColumn := f ((steps.filterMap (·.2.origin?)).map (·.2.2))
  name := f (steps.filterMap (·.2.name?))

/-- The sums of differences. -/
def total : Nat → List (Nat × Segment) → Cursor := gather List.sum

/-- The last fields of absolute segments, zero where there is none. -/
def reached : Nat → List (Nat × Segment) → Cursor := gather fun fields => fields.getLastD 0

/-- On a line without steps the column starts over, and nothing else changes. -/
theorem nextLine_gather {f : List Int → Int} (hf : f [] = 0) {number next : Nat}
    {steps : List (Nat × Segment)} (h : ∀ step ∈ steps, step.1 < next) :
    (gather f number steps).nextLine = gather f next steps := by
  have hnone : steps.filter (·.1 = next) = [] := by
    refine List.filter_eq_nil_iff.mpr fun step hstep heq => ?_
    have hlt := h step hstep
    have heq : step.1 = next := by simpa using heq
    omega
  simp only [gather, nextLine, hnone, List.map_nil, hf]

/-- A difference adds its fields to the sums. -/
theorem apply_total (number : Nat) (passed : List (Nat × Segment)) (difference : Segment) :
    (total number passed).apply difference =
      (total number (passed ++ [(number, difference)]),
        (total number (passed ++ [(number, difference)])).segment difference) := by
  cases difference <;> simp [total, gather, apply, segment, Segment.origin?, Segment.name?,
    Segment.column]

/-- An absolute segment leaves its fields. -/
theorem delta_reached (number : Nat) (passed : List (Nat × Segment)) (s : Segment) :
    ((reached number passed).delta s).1 = reached number (passed ++ [(number, s)]) := by
  cases s <;> simp [reached, gather, delta, Segment.origin?, Segment.name?, Segment.column]

end Cursor

namespace Steps

/-- The absolute segments of steps by differences: each has the fields of the sums up to it. -/
def absolute (steps : List (Nat × Segment)) : List (Nat × Segment) :=
  (withPassed steps).map fun (passed, number, difference) =>
    (number, (Cursor.total number (passed ++ [(number, difference)])).segment difference)

theorem absolute_concat (passed : List (Nat × Segment)) (number : Nat) (difference : Segment) :
    absolute (passed ++ [(number, difference)]) = absolute passed ++
      [(number, (Cursor.total number (passed ++ [(number, difference)])).segment difference)] := by
  rw [absolute, withPassed_concat, List.map_append]
  rfl

/-- The differences of steps through absolute segments, field by field, each from what the segments
before it left. -/
def differences (steps : List (Nat × Segment)) : List Int :=
  (withPassed steps).flatMap fun (passed, number, segment) =>
    segment.differencesFrom (Cursor.reached number passed)

theorem differences_concat (passed : List (Nat × Segment)) (number : Nat) (segment : Segment) :
    differences (passed ++ [(number, segment)]) =
      differences passed ++ segment.differencesFrom (Cursor.reached number passed) := by
  rw [differences, withPassed_concat, List.flatMap_append, List.flatMap_singleton]
  rfl

/-- Further steps leave the differences of those before them. -/
theorem mem_differences_append {passed : List (Nat × Segment)} {d : Int}
    (h : d ∈ differences passed) (later : List (Nat × Segment)) :
    d ∈ differences (passed ++ later) := by
  induction later generalizing passed with
  | nil => rwa [List.append_nil]
  | cons step later ih =>
    have hnext : d ∈ differences (passed ++ [step]) := by
      rw [differences_concat]
      exact List.mem_append_left _ h
    have hlater := ih hnext
    rwa [List.append_assoc, List.singleton_append] at hlater

end Steps

end SourceMaps
