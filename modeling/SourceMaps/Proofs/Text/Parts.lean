import Mathlib.Data.List.Induction
import Mathlib.Data.List.Infix
import SourceMaps.Proofs.Text.CodePoint

/-!
# Texts in parts

How texts that are joined begin and end, what the parts of a text between separators hold, and where
a text is cut at a pattern.

## Main definitions

* `Text.OccursFirst`: the first place of a pattern in a text.

## Main statements

* `Text.cutAt?_eq_some_iff`: a text is cut at the first place of the pattern.
* `Text.eq_or_infix_of_occurs`: two places of a pattern do not overlap if what it begins with does
  not come again in it.
-/

namespace SourceMaps.Text

/-! ### Joined texts -/

theorem join_append (separator : Text) {first second : List Text} (hfirst : first ≠ [])
    (hsecond : second ≠ []) :
    join separator (first ++ second) =
      join separator first ++ separator ++ join separator second := by
  induction first with
  | nil => exact absurd rfl hfirst
  | cons part rest ih =>
    cases rest with
    | nil => simp [join, List.intercalate_cons_of_ne_nil hsecond]
    | cons next others =>
      have hrest := ih (List.cons_ne_nil next others)
      rw [List.cons_append] at hrest
      rw [List.cons_append, List.cons_append, join_cons_cons, hrest, join_cons_cons]
      simp only [List.append_assoc]

theorem head?_join_ne {separator : Text} {c : CodePoint} {parts : List Text}
    (h : ∀ part ∈ parts, part ≠ [] ∧ c ∉ part) : (join separator parts).head? ≠ some c := by
  match parts with
  | [] => simp [join]
  | [] :: _ => exact absurd rfl (h [] List.mem_cons_self).1
  | (d :: first) :: others =>
    have hd : d ≠ c := by
      rintro rfl
      exact (h _ List.mem_cons_self).2 List.mem_cons_self
    cases others with
    | nil => simpa [join] using hd
    | cons next others => simpa [join_cons_cons] using hd

theorem exists_getLast?_join {separator : Text} {c : CodePoint} {parts : List Text}
    (hne : parts ≠ []) (h : ∀ part ∈ parts, part ≠ [] ∧ c ∉ part) :
    ∃ d, (join separator parts).getLast? = some d ∧ d ≠ c := by
  obtain rfl | ⟨before, last, rfl⟩ := List.eq_nil_or_concat parts
  · exact absurd rfl hne
  obtain ⟨hlast, hc⟩ := h last (by simp)
  refine ⟨last.getLast hlast, ?_, fun heq => hc (heq ▸ List.getLast_mem hlast)⟩
  have hd := List.getLast?_eq_some_getLast hlast
  cases before with
  | nil => simpa [join] using hd
  | cons first others =>
    rw [List.concat_eq_append, join_concat separator (List.cons_ne_nil first others),
      List.getLast?_append, hd]
    rfl

/-! ### Parts between separators -/

/-- Parts between separators hold no separator, and nothing that is not in the text. -/
theorem mem_splitOn {separator : CodePoint} {text : Text} :
    ∀ part ∈ text.splitOn separator, separator ∉ part ∧ ∀ c ∈ part, c ∈ text := by
  induction text with
  | nil => simp
  | cons c text ih =>
    rw [List.splitOn_cons_eq_if_modifyHead]
    split
    · refine List.forall_mem_cons.mpr ⟨⟨List.not_mem_nil, nofun⟩, fun part hpart => ?_⟩
      exact ⟨(ih part hpart).1, fun d hd => List.mem_cons_of_mem c ((ih part hpart).2 d hd)⟩
    · next hc =>
      have hc : c ≠ separator := fun heq => hc (beq_iff_eq.mpr heq)
      cases hparts : text.splitOn separator with
      | nil => exact absurd hparts (List.splitOn_ne_nil _ _)
      | cons first others =>
        rw [hparts] at ih
        obtain ⟨⟨hfirst, hmem⟩, hothers⟩ := List.forall_mem_cons.mp ih
        refine List.forall_mem_cons.mpr ⟨⟨?_, ?_⟩, fun part hpart => ?_⟩
        · exact fun hmem => (List.mem_cons.mp hmem).elim (fun heq => hc heq.symm) hfirst
        · exact List.forall_mem_cons.mpr
            ⟨List.mem_cons_self, fun d hd => List.mem_cons_of_mem c (hmem d hd)⟩
        · obtain ⟨hpart, hmem⟩ := hothers part hpart
          exact ⟨hpart, fun d hd => List.mem_cons_of_mem c (hmem d hd)⟩

theorem splitOn_append_cons (separator : CodePoint) (before after : Text) :
    (before ++ separator :: after).splitOn separator =
      before.splitOn separator ++ after.splitOn separator := by
  induction before with
  | nil => simp [List.splitOn_cons_eq_if_modifyHead]
  | cons c before ih =>
    rw [List.cons_append, List.splitOn_cons_eq_if_modifyHead, ih,
      List.splitOn_cons_eq_if_modifyHead]
    split
    · rfl
    · cases hparts : before.splitOn separator with
      | nil => exact absurd hparts (List.splitOn_ne_nil _ _)
      | cons first others => rfl

/-! ### Cut texts -/

/-- The pattern stands between the two parts of the text, and nowhere earlier. -/
structure OccursFirst (pattern text before after : Text) : Prop where
  eq : text = before ++ (pattern ++ after)
  first : ∀ before' after', text = before' ++ (pattern ++ after') → before.length ≤ before'.length

variable {pattern text before after : Text}

theorem OccursFirst.unique (h : OccursFirst pattern text before after) {before' after' : Text}
    (h' : OccursFirst pattern text before' after') : before = before' ∧ after = after' := by
  have hlength := le_antisymm (h.first _ _ h'.eq) (h'.first _ _ h.eq)
  obtain ⟨hbefore, hrest⟩ := List.append_inj (h.eq.symm.trans h'.eq) hlength
  exact ⟨hbefore, List.append_cancel_left hrest⟩

theorem cutAt?_eq_none_iff : cutAt? pattern text = none ↔ ¬pattern <:+: text := by
  induction text with
  | nil => simp [cutAt?]
  | cons c text ih =>
    rw [cutAt?, List.infix_cons_iff, ← List.isPrefixOf_iff_prefix]
    split
    · next hbegins => simp [hbegins]
    · next hbegins => simp [hbegins, ih]

theorem occursFirst_of_cutAt? (h : cutAt? pattern text = some (before, after)) :
    OccursFirst pattern text before after := by
  induction text generalizing before with
  | nil =>
    simp only [cutAt?] at h
    split at h
    · next hempty =>
      cases h
      exact ⟨by simp [List.isEmpty_iff.mp hempty], fun _ _ _ => Nat.zero_le _⟩
    · cases h
  | cons c text ih =>
    rw [cutAt?] at h
    split at h
    · next hbegins =>
      cases h
      have hwhole := List.prefix_iff_eq_append.mp (List.isPrefixOf_iff_prefix.mp hbegins)
      exact ⟨hwhole.symm, fun _ _ _ => Nat.zero_le _⟩
    · next hbegins =>
      obtain ⟨⟨before, after⟩, hcut, hpair⟩ := Option.map_eq_some_iff.mp h
      cases hpair
      obtain ⟨heq, hfirst⟩ := ih hcut
      refine ⟨by rw [heq, List.cons_append], fun before' after' heq' => ?_⟩
      cases before' with
      | nil =>
        exact absurd (List.isPrefixOf_iff_prefix.mpr ⟨after', heq'.symm⟩) hbegins
      | cons d before' =>
        rw [List.cons_append] at heq'
        exact Nat.succ_le_succ (hfirst before' after' (List.cons.inj heq').2)

theorem exists_occursFirst (h : pattern <:+: text) :
    ∃ before after, OccursFirst pattern text before after := by
  obtain hnone | ⟨⟨before, after⟩, hcut⟩ := Option.eq_none_or_eq_some (cutAt? pattern text)
  · exact absurd h (cutAt?_eq_none_iff.mp hnone)
  · exact ⟨before, after, occursFirst_of_cutAt? hcut⟩

theorem cutAt?_eq_some_iff :
    cutAt? pattern text = some (before, after) ↔ OccursFirst pattern text before after := by
  refine ⟨occursFirst_of_cutAt?, fun h => ?_⟩
  obtain hnone | ⟨⟨before', after'⟩, hcut⟩ := Option.eq_none_or_eq_some (cutAt? pattern text)
  · exact absurd ⟨before, after, by rw [h.eq, List.append_assoc]⟩ (cutAt?_eq_none_iff.mp hnone)
  · obtain ⟨rfl, rfl⟩ := h.unique (occursFirst_of_cutAt? hcut)
    exact hcut

theorem holds_iff : holds text pattern = true ↔ pattern <:+: text := by
  rw [holds, Option.isSome_iff_ne_none, ne_eq, cutAt?_eq_none_iff, not_not]

/-- Of two places of a pattern that begins with what does not come again in it, the later one comes
after the whole of the earlier one. -/
theorem eq_or_infix_of_occurs {c : CodePoint} {rest before' after' : Text} (hc : c ∉ rest)
    (heq : before ++ (c :: rest ++ after) = before' ++ (c :: rest ++ after'))
    (hle : before.length ≤ before'.length) : before' = before ∨ c :: rest <:+: before' := by
  obtain ⟨between, rfl, htail⟩ | ⟨excess, rfl, -⟩ := List.append_eq_append_iff.mp heq
  · cases between with
    | nil => exact .inl (List.append_nil before)
    | cons d between =>
      refine .inr ?_
      obtain ⟨more, hmore, -⟩ | ⟨shared, hshared, hagain⟩ := List.append_eq_append_iff.mp htail
      · exact ⟨before, more, by rw [hmore, List.append_assoc]⟩
      cases shared with
      | nil => exact ⟨before, [], by rw [hshared, List.append_nil, List.append_nil]⟩
      | cons e shared =>
        -- The later place would begin within the earlier one.
        have he : c = e := (List.cons.inj hagain).1
        have hrest : rest = between ++ e :: shared := (List.cons.inj hshared).2
        exact absurd (hrest ▸ he ▸ List.mem_append_right between List.mem_cons_self) hc
  · rw [List.length_append] at hle
    have hexcess : excess = [] := List.eq_nil_of_length_eq_zero (by omega)
    exact .inl (by rw [hexcess, List.append_nil])

end SourceMaps.Text
