import SourceMaps.Proofs.MappingsText
import SourceMaps.Proofs.Steps

/-!
# Mappings texts: what can be written

Lines of segments are spelled as differences of 32 bits. The differences of all lines can be told in
advance, so lines can be written exactly if each of these is in range, and then the text leads back
to the lines.

## Main statements

* `MappingsText.writeSegments_cases`, `MappingsText.writeLines_cases`: writing on behind some steps.
* `MappingsText.walk_of_write_iff`: when lines can be written, and what is read back.
-/

namespace SourceMaps.MappingsText

open Steps (differences)

/-- Behind steps whose differences are in range, the segments of a line are written and lead on to
the cursor that all of the steps reach, unless one of their differences is too wide. -/
theorem writeSegments_cases {passed : List (Nat × Segment)}
    (hpassed : ∀ d ∈ differences passed, Vlq.InRange d) (number : Nat) (segments : List Segment) :
    let steps := passed ++ segments.map (number, ·)
    ((∀ d ∈ differences steps, Vlq.InRange d) ∧ ∃ spelled,
      writeSegments (.reached number passed) segments = .ok (spelled, .reached number steps)) ∨
    ∃ d ∈ differences steps, ¬Vlq.InRange d ∧
      writeSegments (.reached number passed) segments = .error (.unspeakable d) := by
  intro steps
  induction segments generalizing passed with
  | nil =>
    have hsteps : steps = passed := List.append_nil passed
    rw [hsteps]
    exact .inl ⟨hpassed, [], rfl⟩
  | cons segment rest ih =>
    let next := passed ++ [(number, segment)]
    have hsteps : steps = next ++ rest.map (number, ·) := by
      simp only [steps, next, List.map_cons, List.append_assoc, List.singleton_append]
    have hdifferences : differences next =
        differences passed ++ ((Cursor.reached number passed).delta segment).2.fields := by
      rw [Steps.differences_concat, Cursor.fields_delta]
    have hcursor := Cursor.delta_reached number passed segment
    rw [hsteps]
    rcases Vlq.encode_cases ((Cursor.reached number passed).delta segment).2.fields with
      ⟨hrange, piece, hpiece⟩ | ⟨d, hd, hwide, hfault⟩
    · have hnext : ∀ d ∈ differences next, Vlq.InRange d := by
        intro d hd
        rw [hdifferences] at hd
        exact (List.mem_append.mp hd).elim (hpassed d) (hrange d)
      rcases ih hnext with ⟨hall, spelled, hspelled⟩ | ⟨d, hd, hwide, hfault⟩
      · refine .inl ⟨hall, piece :: spelled, ?_⟩
        rw [← hcursor] at hspelled
        exact writeSegments_cons_iff.mpr ⟨piece, spelled, hpiece, hspelled, rfl⟩
      · refine .inr ⟨d, hd, hwide, ?_⟩
        rw [writeSegments_cons, hpiece, ok_bind, hcursor, hfault]
        rfl
    · refine .inr ⟨d, Steps.mem_differences_append ?_ _, hwide, ?_⟩
      · rw [hdifferences]
        exact List.mem_append_right _ hd
      · rw [writeSegments_cons, hfault]
        rfl

/-- Behind steps on earlier lines, lines are written unless one of their differences is too wide. -/
theorem writeLines_cases {passed : List (Nat × Segment)}
    (hpassed : ∀ d ∈ differences passed, Vlq.InRange d) {number : Nat}
    (hearlier : ∀ step ∈ passed, step.1 < number) {cursor : Cursor}
    (hcursor : cursor.nextLine = .reached number passed) (lines : List (List Segment)) :
    let steps := passed ++ numbered number lines
    ((∀ d ∈ differences steps, Vlq.InRange d) ∧ ∃ texts, writeLines cursor lines = .ok texts) ∨
    ∃ d ∈ differences steps, ¬Vlq.InRange d ∧
      writeLines cursor lines = .error (.unspeakable d) := by
  intro steps
  induction lines generalizing passed number cursor with
  | nil =>
    have hsteps : steps = passed := List.append_nil passed
    rw [hsteps]
    exact .inl ⟨hpassed, [], rfl⟩
  | cons segments rest ih =>
    let next := passed ++ segments.map (number, ·)
    have hsteps : steps = next ++ numbered (number + 1) rest := by
      simp only [steps, next, numbered, List.append_assoc]
    have hlater : ∀ step ∈ next, step.1 < number + 1 := by
      intro step hstep
      rcases List.mem_append.mp hstep with hstep | hstep
      · have hlt := hearlier step hstep
        omega
      · obtain ⟨segment, -, rfl⟩ := List.mem_map.mp hstep
        exact Nat.lt_succ_self number
    -- On the next line the column starts over, since no step is there yet.
    have hreached : (Cursor.reached number next).nextLine = .reached (number + 1) next :=
      Cursor.nextLine_gather rfl hlater
    rw [hsteps]
    rcases writeSegments_cases hpassed number segments with
      ⟨hnext, spelled, hspelled⟩ | ⟨d, hd, hwide, hfault⟩
    · rw [← hcursor] at hspelled
      rcases ih hnext hlater hreached with ⟨hall, texts, htexts⟩ | ⟨d, hd, hwide, hfault⟩
      · exact .inl ⟨hall, _, writeLines_cons_iff.mpr ⟨spelled, _, texts, hspelled, htexts, rfl⟩⟩
      · refine .inr ⟨d, hd, hwide, ?_⟩
        rw [writeLines, hspelled, ok_bind]
        show (writeLines (.reached number next) rest >>= _) = _
        rw [hfault]
        rfl
    · refine .inr ⟨d, Steps.mem_differences_append hd _, hwide, ?_⟩
      rw [writeLines, hcursor, hfault]
      rfl

/-- Lines of absolute segments are refused exactly if one of their differences does not fit in 32
bits, whatever the segments themselves are. Lines that are written are walked again: every segment
with the number of its line, in order and to the end. -/
theorem walk_of_write_iff (lines : List (List Segment)) :
    ((∃ fault : Fault, fault.kind = .value ∧ write lines = .error fault) ↔
      ∃ d ∈ differences (numbered 0 lines), ¬Vlq.InRange d) ∧
    ((∀ d ∈ differences (numbered 0 lines), Vlq.InRange d) →
      ∃ text, write lines = .ok text ∧ walk text = ⟨numbered 0 lines, none⟩) := by
  have hstart : ({} : Cursor).nextLine = .reached 0 [] := rfl
  rcases writeLines_cases (List.forall_mem_nil _) (List.forall_mem_nil _) hstart lines with
    ⟨hrange, texts, htexts⟩ | ⟨d, hd, hwide, hfault⟩
  · have hwritten : write lines = .ok (Text.join ";" texts) := by
      rw [write, htexts]
      rfl
    refine ⟨⟨?_, ?_⟩, fun _ => ⟨_, hwritten, walk_of_write hwritten⟩⟩
    · rintro ⟨fault, -, hfault⟩
      rw [hwritten] at hfault
      cases hfault
    · rintro ⟨d, hd, hwide⟩
      exact absurd (hrange d hd) hwide
  · refine ⟨⟨fun _ => ⟨d, hd, hwide⟩, fun _ => ⟨.unspeakable d, rfl, ?_⟩⟩, fun hrange => ?_⟩
    · rw [write, hfault]
      rfl
    · exact absurd (hrange d hd) hwide

end SourceMaps.MappingsText
