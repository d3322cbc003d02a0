import SourceMaps.NameTable
import SourceMaps.Proofs.Index.Registry

/-!
# Name tables: positions that stay

A table only grows at its end, so the position of a name is that of its first occurrence in every
later table.

## Main definitions

* `NameTable.note`, `NameTable.noteAll`: the table after the names of mappings were asked for.

## Main statements

* `NameTable.intern_fst`: the position of a name is that of its first occurrence.
* `NameTable.items_prefix_noteAll`: so it is the same in every table that this one grows into.
* `NameTable.items_noteAll`: names that are new are appended where they come first.
-/

namespace SourceMaps

namespace NameTable

variable (table : NameTable) (name : Text)

theorem intern_of_mem {table : NameTable} {name : Text} (h : name ∈ table.items) :
    table.intern name = (table.items.idxOf name, table) := by
  rw [intern, idxOf?_of_mem h]

theorem intern_of_notMem {table : NameTable} {name : Text} (h : name ∉ table.items) :
    table.intern name = (table.items.length, ⟨table.items ++ [name]⟩) := by
  rw [intern, List.idxOf?_eq_none_iff.mpr h]

theorem items_prefix_intern : table.items <+: (table.intern name).2.items := by
  by_cases h : name ∈ table.items
  · simp only [intern_of_mem h, List.prefix_refl]
  · rw [intern_of_notMem h]
    exact List.prefix_append _ _

theorem mem_items_intern : name ∈ (table.intern name).2.items := by
  by_cases h : name ∈ table.items
  · rw [intern_of_mem h]
    exact h
  · rw [intern_of_notMem h]
    simp

/-- The position of a name is that of its first occurrence. -/
theorem intern_fst : (table.intern name).1 = (table.intern name).2.items.idxOf name := by
  by_cases h : name ∈ table.items
  · rw [intern_of_mem h]
  · rw [intern_of_notMem h, List.idxOf_append_of_notMem h]
    simp

/-! ### Names of mappings -/

/-- The table after the name of a mapping was asked for; a mapping without a name asks for none. -/
def note (table : NameTable) : Option Text → NameTable
  | none => table
  | some name => (table.intern name).2

/-- The table after the names of mappings were asked for in order. -/
def noteAll (table : NameTable) (names : List (Option Text)) : NameTable := names.foldl note table

theorem noteAll_cons (name : Option Text) (rest : List (Option Text)) :
    table.noteAll (name :: rest) = (table.note name).noteAll rest := rfl

theorem items_prefix_note (name : Option Text) : table.items <+: (table.note name).items := by
  cases name with
  | none => exact List.prefix_refl _
  | some name => exact table.items_prefix_intern name

theorem items_prefix_noteAll (names : List (Option Text)) :
    table.items <+: (table.noteAll names).items := by
  induction names generalizing table with
  | nil => exact List.prefix_refl _
  | cons name rest ih => exact (table.items_prefix_note name).trans (ih (table.note name))

theorem mem_noteAll {names : List (Option Text)} {name : Text} (h : some name ∈ names) :
    name ∈ (table.noteAll names).items := by
  induction names generalizing table with
  | nil => simp at h
  | cons first rest ih =>
    rcases List.mem_cons.mp h with rfl | h
    · have hprefix := (table.note (some name)).items_prefix_noteAll rest
      exact hprefix.subset (table.mem_items_intern name)
    · exact ih (table.note first) h

theorem items_noteAll (names : List (Option Text)) :
    (table.noteAll names).items = withNew table.items (names.filterMap id) := by
  induction names generalizing table with
  | nil => exact (withNew_nil table.items).symm
  | cons first rest ih =>
    rw [noteAll_cons, ih]
    cases first with
    | none => rfl
    | some name =>
      have hnames : (some name :: rest).filterMap id = name :: rest.filterMap id := rfl
      rw [hnames, note]
      by_cases hname : name ∈ table.items
      · rw [withNew_cons_of_mem hname, intern_of_mem hname]
      · rw [withNew_cons_of_notMem hname, intern_of_notMem hname]

end NameTable

end SourceMaps
