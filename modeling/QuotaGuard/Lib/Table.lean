import Mathlib.Data.List.Nodup
import Mathlib.Data.List.Perm.Subperm

/-!
# Tables

A table is a list of rows and a column a function of a row. A column is unique if no two rows have the
same value in it; a row is then looked up by that value. An `UPDATE` maps the rows, an `INSERT` appends
one, and a query takes some of them.
-/

namespace Table

variable {α β : Type*} {column : α → β} {rows : List α} {row : α} {value : β}

/-- An `UPDATE` leaves a column that it does not write. -/
theorem map_update {f : α → α} (hf : ∀ row, column (f row) = column row) (rows : List α) :
    (rows.map f).map column = rows.map column := by
  rw [List.map_map]
  exact List.map_congr_left fun row _ => hf row

/-- An `INSERT` keeps a column unique if the new value is. -/
theorem nodup_insert (hunique : (rows.map column).Nodup) (hfresh : column row ∉ rows.map column) :
    ((rows ++ [row]).map column).Nodup := by
  rw [List.map_append, List.map_singleton]
  exact List.nodup_append'.mpr
    ⟨hunique, List.nodup_singleton _, List.disjoint_singleton.mpr hfresh⟩

/-- A `LIMIT` before a filter gives as many rows as one behind it exactly when it takes no row that is
filtered out, or takes all that are not. -/
theorem length_filter_limit_iff {limited : List α} {n : Nat} {p : α → Bool} (hrows : rows.Nodup)
    (hlimited : limited.Nodup) (hsub : limited ⊆ rows) (hlength : limited.length = min n rows.length) :
    (limited.filter p).length = min n (rows.filter p).length ↔
      (∀ row ∈ limited, p row) ∨ ∀ row ∈ rows, p row → row ∈ limited := by
  have hfiltered : limited.filter p ⊆ rows.filter p := by
    intro row hrow
    rw [List.mem_filter] at hrow ⊢
    exact ⟨hsub hrow.1, hrow.2⟩
  have hsubperm := List.subperm_of_subset (hlimited.filter p) hfiltered
  have hle := hsubperm.length_le
  have hshort := List.length_filter_le p limited
  have hrest := List.length_filter_le p rows
  constructor
  · intro heq
    by_cases hall : ∀ row ∈ limited, p row
    · exact .inl hall
    · have hlost : (limited.filter p).length ≠ limited.length :=
        fun hsame => hall (List.length_filter_eq_length_iff.mp hsame)
      have hperm := hsubperm.perm_of_length_le (by omega)
      refine .inr fun row hrow hp => ?_
      exact (List.mem_filter.mp (hperm.mem_iff.mpr (List.mem_filter.mpr ⟨hrow, hp⟩))).1
  · rintro (hall | hall)
    · have hsame := List.length_filter_eq_length_iff.mpr hall
      omega
    · have hback : rows.filter p ⊆ limited.filter p := by
        intro row hrow
        rw [List.mem_filter] at hrow ⊢
        exact ⟨hall row hrow.1 hrow.2, hrow.2⟩
      have hge := (List.subperm_of_subset (hrows.filter p) hback).length_le
      omega
section Lookup

variable [DecidableEq β]

theorem find?_spec (h : rows.find? (fun row => column row = value) = some row) :
    row ∈ rows ∧ column row = value :=
  ⟨List.mem_of_find?_eq_some h, by simpa using List.find?_some h⟩

theorem find?_eq_none_iff :
    rows.find? (fun row => column row = value) = none ↔ ∀ row ∈ rows, column row ≠ value := by
  simp only [List.find?_eq_none, decide_eq_true_eq, ne_eq]

/-- A lookup by a unique column. -/
theorem find?_eq_some_iff (hunique : (rows.map column).Nodup) :
    rows.find? (fun row => column row = value) = some row ↔ row ∈ rows ∧ column row = value := by
  refine ⟨find?_spec, ?_⟩
  rintro ⟨hmem, rfl⟩
  cases hfind : rows.find? (fun other => column other = column row) with
  | none => exact absurd rfl (find?_eq_none_iff.mp hfind row hmem)
  | some found =>
      obtain ⟨hfound, hsame⟩ := find?_spec hfind
      rw [List.inj_on_of_nodup_map hunique hfound hmem hsame]

/-- An `UPDATE` of the row with a value of a unique column. -/
theorem mem_update_iff {f : α → α} {other : α} (hunique : (rows.map column).Nodup)
    (hrow : row ∈ rows) :
    other ∈ rows.map (fun r => if column r = column row then f r else r) ↔
      other = f row ∨ other ∈ rows ∧ other ≠ row := by
  rw [List.mem_map]
  constructor
  · rintro ⟨old, hold, rfl⟩
    by_cases hsame : column old = column row
    · rw [if_pos hsame, List.inj_on_of_nodup_map hunique hold hrow hsame]
      exact .inl rfl
    · rw [if_neg hsame]
      exact .inr ⟨hold, fun heq => hsame (heq ▸ rfl)⟩
  · rintro (rfl | ⟨hother, hne⟩)
    · exact ⟨row, hrow, if_pos rfl⟩
    · exact ⟨other, hother, if_neg fun hsame =>
        hne (List.inj_on_of_nodup_map hunique hother hrow hsame)⟩

end Lookup

end Table
