import SourceMaps.Proofs.Text.Parts
import SourceMaps.SourcePath

/-!
# Source paths: normal forms

The normal form of an absolute path has a root and plain components. It is found again from its
text, and a relative path that is made of further components leads from it to the path that has
these behind its own.

## Main definitions

* `NormalPath.IsPlain`: components of normal forms.
* `NormalPath.IsAbsolute`: normal forms of absolute paths.
* `NormalPath.IsAtOrAbove`: a directory and the paths within it.

## Main statements

* `NormalPath.isAbsolute_resolve`: seen from an absolute directory every path is absolute.
* `NormalPath.ofText_toText`: a normal form is found again from its text.
* `NormalPath.isAtOrAbove_iff`: what lies within a directory continues its components.
* `NormalPath.resolve_toText_relative`: where a relative path leads.
-/

namespace SourceMaps

namespace NormalPath

variable {path directory : NormalPath} {text : Text} {components : List Text}

/-! ### Components -/

/-- A component that goes down by one: not empty, neither `.` nor `..`, and without a slash. -/
structure IsPlain (component : Text) : Prop where
  ne_nil : component ≠ []
  ne_dot : component ≠ "."
  ne_up : component ≠ ".."
  noSlash : ↑ '/' ∉ component

theorem IsPlain.ne_nil_and_noSlash {component : Text} (h : IsPlain component) :
    component ≠ [] ∧ ↑ '/' ∉ component :=
  ⟨h.ne_nil, h.noSlash⟩

/-- A normal form with a root. -/
structure IsAbsolute (path : NormalPath) : Prop where
  rooted : path.root = "/" ∨ path.root = "//"
  plain : ∀ component ∈ path.components, IsPlain component

@[simp]
theorem push_nil (rooted : Bool) (before : List Text) : push rooted before [] = before := by
  simp [push]

theorem push_dot (rooted : Bool) (before : List Text) : push rooted before "." = before := by
  have hskipped : ("." : Text) = [] ∨ ("." : Text) = ↑ '.' :: [] := .inr rfl
  simp only [push, if_pos hskipped]

theorem push_of_isPlain {component : Text} (h : IsPlain component) (rooted : Bool)
    (before : List Text) : push rooted before component = component :: before := by
  have hskipped : ¬(component = [] ∨ component = ↑ '.' :: []) :=
    fun hor => hor.elim h.ne_nil h.ne_dot
  simp only [push, if_neg hskipped, if_neg h.ne_up]

theorem foldl_push_of_isPlain (h : ∀ component ∈ components, IsPlain component) (rooted : Bool)
    (before : List Text) : components.foldl (push rooted) before = components.reverse ++ before := by
  induction components generalizing before with
  | nil => rfl
  | cons component rest ih =>
    obtain ⟨hcomponent, hrest⟩ := List.forall_mem_cons.mp h
    rw [List.foldl_cons, push_of_isPlain hcomponent, ih hrest, List.reverse_cons, List.append_assoc]
    rfl

/-- Below a root only plain components are kept. -/
theorem isPlain_push {before : List Text} {component : Text}
    (h : ∀ part ∈ before, IsPlain part) (hslash : ↑ '/' ∉ component) :
    ∀ part ∈ push true before component, IsPlain part := by
  unfold push
  simp only
  split
  · exact h
  next hskipped =>
  split
  · next hup =>
    cases before with
    | nil => exact nofun
    | cons last before =>
      obtain ⟨hlast, hbefore⟩ := List.forall_mem_cons.mp h
      simp only [if_neg hlast.ne_up]
      exact hbefore
  · next hup =>
    refine List.forall_mem_cons.mpr ⟨⟨?_, ?_, hup, hslash⟩, h⟩
    · exact fun hnil => hskipped (.inl hnil)
    · exact fun hdot => hskipped (.inr hdot)

theorem isPlain_foldl_push {before : List Text} (h : ∀ part ∈ before, IsPlain part)
    (hslash : ∀ part ∈ components, ↑ '/' ∉ part) :
    ∀ part ∈ components.foldl (push true) before, IsPlain part := by
  induction components generalizing before with
  | nil => exact h
  | cons component rest ih =>
    obtain ⟨hcomponent, hrest⟩ := List.forall_mem_cons.mp hslash
    exact ih (isPlain_push h hcomponent) hrest

/-- Nothing is kept that was not there. -/
theorem mem_foldl_push {rooted : Bool} {before : List Text} {part : Text}
    (h : part ∈ components.foldl (push rooted) before) : part ∈ components ∨ part ∈ before := by
  induction components generalizing before with
  | nil => exact .inr h
  | cons component rest ih =>
    rcases ih h with h | h
    · exact .inl (List.mem_cons_of_mem component h)
    · revert h
      unfold push
      simp only
      intro h
      split at h
      · exact .inr h
      split at h
      · next hup =>
        cases before with
        | nil =>
          cases rooted with
          | true => cases h
          | false =>
            rw [List.mem_singleton.mp h, ← hup]
            exact .inl List.mem_cons_self
        | cons last before =>
          simp only at h
          split at h
          · rcases List.mem_cons.mp h with h | h
            · exact .inl (by simp [hup, h])
            · exact .inr h
          · exact .inr (List.mem_cons_of_mem last h)
      · rcases List.mem_cons.mp h with h | h
        · exact .inl (by simp [h])
        · exact .inr h

/-! ### Roots and normal forms -/

theorem rootOf_of_head? (h : text.head? = some ↑ '/') : rootOf text = "/" ∨ rootOf text = "//" := by
  obtain ⟨rest, rfl⟩ := List.head?_eq_some_iff.mp h
  unfold rootOf
  rw [List.takeWhile_cons_of_pos (by simp)]
  split
  · next hnone => simp at hnone
  · exact .inr rfl
  · exact .inl rfl

theorem rootOf_append {root : Text} (hroot : root = "/" ∨ root = "//")
    (h : text.head? ≠ some ↑ '/') : rootOf (root ++ text) = root := by
  have htext : text.takeWhile (· = ↑ '/') = [] := by
    cases text with
    | nil => rfl
    | cons c text => exact List.takeWhile_cons_of_neg (by simpa using h)
  rcases hroot with rfl | rfl <;>
    simp [rootOf, Text.ofString, htext]

theorem not_isEmpty_of_root {root : Text} (hroot : root = "/" ∨ root = "//") :
    (!root.isEmpty) = true := by
  rcases hroot with rfl | rfl <;> rfl

theorem isAbsolute_ofText (h : text.head? = some ↑ '/') : (ofText text).IsAbsolute := by
  have hroot := rootOf_of_head? h
  refine ⟨hroot, fun component hcomponent => ?_⟩
  rw [ofText, not_isEmpty_of_root hroot] at hcomponent
  exact isPlain_foldl_push (List.forall_mem_nil IsPlain)
    (fun part hpart => (Text.mem_splitOn part hpart).1) component (List.mem_reverse.mp hcomponent)

theorem isAbsolute_resolve {directory : Text} (h : directory.head? = some ↑ '/') (text : Text) :
    (resolve directory text).IsAbsolute := by
  obtain ⟨rest, rfl⟩ := List.head?_eq_some_iff.mp h
  unfold resolve
  split
  · next hhead => exact isAbsolute_ofText hhead
  · split <;> exact isAbsolute_ofText rfl

theorem IsAbsolute.parent (h : path.IsAbsolute) : path.parent.IsAbsolute :=
  ⟨h.rooted, fun component hcomponent => h.plain component (List.dropLast_subset _ hcomponent)⟩

theorem foldl_push_splitOn_slash (rest : Text) :
    (List.splitOn ↑ '/' (↑ '/' :: rest)).foldl (push true) [] =
      (rest.splitOn ↑ '/').foldl (push true) [] := by
  rw [List.splitOn_cons_eq_if_modifyHead, if_pos (beq_self_eq_true _), List.foldl_cons, push_nil]

/-- The normal form of a text that stands as a root and parts between slashes. -/
theorem ofText_root_append_join {root : Text} (hroot : root = "/" ∨ root = "//")
    {parts : List Text} (hne : parts ≠ []) (hparts : ∀ part ∈ parts, part ≠ [] ∧ ↑ '/' ∉ part) :
    ofText (root ++ Text.join "/" parts) = ⟨root, (parts.foldl (push true) []).reverse⟩ := by
  have hsplit : (Text.join "/" parts).splitOn ↑ '/' = parts :=
    List.splitOn_intercalate _ (fun part hpart => (hparts part hpart).2) hne
  have hfold := congrArg (List.foldl (push true) []) hsplit
  rw [ofText, rootOf_append hroot (Text.head?_join_ne hparts), not_isEmpty_of_root hroot]
  congr 2
  rcases hroot with rfl | rfl
  · exact (foldl_push_splitOn_slash _).trans hfold
  · exact (foldl_push_splitOn_slash _).trans ((foldl_push_splitOn_slash _).trans hfold)

/-- An absolute normal form is found again from its text. -/
theorem ofText_toText (h : path.IsAbsolute) : ofText path.toText = path := by
  obtain ⟨root, components⟩ := path
  obtain ⟨hroot, hplain⟩ := h
  cases components with
  | nil => rcases hroot with rfl | rfl <;> decide +kernel
  | cons component rest =>
    rw [toText, ofText_root_append_join hroot (List.cons_ne_nil component rest)
      fun part hpart => (hplain part hpart).ne_nil_and_noSlash,
      foldl_push_of_isPlain hplain, List.append_nil, List.reverse_reverse]

/-- Only slashes come in with the normal form. -/
theorem mem_toText_ofText {c : CodePoint} (h : c ∈ (ofText text).toText) :
    c = ↑ '/' ∨ c ∈ text := by
  have hslash : ∀ root : Text, root = "/" ∨ root = "//" ∨ root = "" → c ∈ root → c = ↑ '/' := by
    rintro root (rfl | rfl | rfl) hc <;> simp_all [Text.ofString]
  rcases List.mem_append.mp h with hroot | hjoin
  · refine .inl (hslash _ ?_ hroot)
    simp only [ofText, rootOf]
    split <;> simp
  rcases Text.mem_join hjoin with hseparator | ⟨part, hpart, hc⟩
  · exact .inl (hslash _ (.inl rfl) hseparator)
  · rcases mem_foldl_push (List.mem_reverse.mp hpart) with hpart | hpart
    · exact .inr ((Text.mem_splitOn part hpart).2 c hc)
    · cases hpart

/-! ### What lies within a directory -/

/-- A directory and a path within it, or the directory itself: the directory is the path, or lies
at or above the path's parent. -/
inductive IsAtOrAbove (directory : NormalPath) : NormalPath → Prop
  | self : IsAtOrAbove directory directory
  | ofParent {path : NormalPath} (h : IsAtOrAbove directory path.parent) :
    IsAtOrAbove directory path

theorem isAtOrAbove_iff : directory.IsAtOrAbove path ↔
    ∃ components, path = ⟨directory.root, directory.components ++ components⟩ := by
  constructor
  · intro h
    induction h with
    | self => exact ⟨[], by rw [List.append_nil]⟩
    | @ofParent path _ ih =>
      obtain ⟨components, hparent⟩ := ih
      obtain ⟨hroot, hcomponents⟩ := NormalPath.mk.inj hparent
      obtain ⟨rest, hrest⟩ := List.dropLast_prefix path.components
      refine ⟨components ++ rest, ?_⟩
      rw [← List.append_assoc, ← hcomponents, hrest, ← hroot]
  · rintro ⟨components, rfl⟩
    induction components using List.reverseRecOn with
    | nil =>
      rw [List.append_nil]
      exact .self
    | append_singleton before last ih =>
      refine .ofParent ?_
      rw [parent, ← List.append_assoc, List.dropLast_concat]
      exact ih

theorem within?_eq_some_iff : path.within? directory = some components ↔
    path = ⟨directory.root, directory.components ++ components⟩ := by
  unfold within?
  constructor
  · intro h
    split at h
    · next hwithin =>
      obtain ⟨hroot, hbegins⟩ := hwithin
      obtain ⟨rest, hrest⟩ := List.isPrefixOf_iff_prefix.mp hbegins
      rw [← hrest, List.drop_left] at h
      rw [← hroot, ← Option.some.inj h, hrest]
    · cases h
  · rintro rfl
    simp

theorem isSome_within?_iff :
    (path.within? directory).isSome = true ↔ directory.IsAtOrAbove path := by
  rw [Option.isSome_iff_exists, isAtOrAbove_iff]
  exact exists_congr fun components => within?_eq_some_iff

instance (directory path : NormalPath) : Decidable (directory.IsAtOrAbove path) :=
  decidable_of_iff _ isSome_within?_iff

/-! ### Relative paths -/

theorem resolve_toText (h : directory.IsAbsolute) {parts : List Text} (hne : parts ≠ [])
    (hparts : ∀ part ∈ parts, part ≠ [] ∧ ↑ '/' ∉ part) :
    resolve directory.toText (Text.join "/" parts) =
      ⟨directory.root, ((directory.components ++ parts).foldl (push true) []).reverse⟩ := by
  obtain ⟨root, components⟩ := directory
  obtain ⟨hroot, hplain⟩ := h
  rw [resolve, if_neg (Text.head?_join_ne hparts)]
  by_cases hnil : components = []
  · -- The directory is the root, which ends in a slash.
    have hlast : (toText ⟨root, []⟩).getLast? = some ↑ '/' := by rcases hroot with rfl | rfl <;> rfl
    rw [hnil, if_pos (.inr hlast), toText, Text.join, List.intercalate_nil, List.append_nil]
    exact ofText_root_append_join hroot hne hparts
  have hcomponents : ∀ part ∈ components, part ≠ [] ∧ ↑ '/' ∉ part :=
    fun part hpart => (hplain part hpart).ne_nil_and_noSlash
  have hopen : ¬(toText ⟨root, components⟩ = [] ∨
      (toText ⟨root, components⟩).getLast? = some ↑ '/') := by
    obtain ⟨d, hd, hslash⟩ := Text.exists_getLast?_join hnil hcomponents
    have hlast : (toText ⟨root, components⟩).getLast? = some d := by
      rw [toText, List.getLast?_append, hd]
      rfl
    rintro (hempty | hended)
    · rw [hempty] at hlast
      cases hlast
    · exact hslash (Option.some.inj (hlast.symm.trans hended))
  rw [if_neg hopen, toText, List.append_assoc, List.append_assoc,
    ← List.append_assoc (Text.join _ _), ← Text.join_append _ hnil hne]
  exact ofText_root_append_join hroot (List.append_ne_nil_of_left_ne_nil hnil parts)
    (List.forall_mem_append.mpr ⟨hcomponents, hparts⟩)

/-- A relative path leads from a directory to what has the components behind those of the
directory. -/
theorem resolve_toText_relative (h : directory.IsAbsolute)
    (hplain : ∀ component ∈ components, IsPlain component) :
    resolve directory.toText (relative components) =
      ⟨directory.root, directory.components ++ components⟩ := by
  cases components with
  | nil =>
    have hdot : relative [] = Text.join "/" ["."] := rfl
    rw [hdot, resolve_toText h (List.cons_ne_nil _ _) (by decide), List.foldl_append,
      foldl_push_of_isPlain h.plain, List.foldl_cons, push_dot, List.append_nil, List.append_nil,
      List.foldl_nil, List.reverse_reverse]
  | cons component rest =>
    rw [relative, if_neg (by simp), resolve_toText h (List.cons_ne_nil component rest)
      fun part hpart => (hplain part hpart).ne_nil_and_noSlash,
      foldl_push_of_isPlain (List.forall_mem_append.mpr ⟨h.plain, hplain⟩), List.append_nil,
      List.reverse_reverse]

end NormalPath

end SourceMaps
