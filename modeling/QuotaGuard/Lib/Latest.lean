import Mathlib.Data.List.Sort

/-!
# The latest rows

Rows with a time each. The `n` latest of them come latest first; they are all the rows if there are no
more than `n`, and no row that is left out is later than one that is not.
-/

variable {α κ : Type*} [LinearOrder κ] {time : α → κ} {rows rows' list : List α} {row : α} {n : Nat}

structure Latest (time : α → κ) (rows : List α) (n : Nat) (list : List α) : Prop where
  sorted : list.Pairwise fun a b => time b < time a
  subset : list ⊆ rows
  length_le : list.length ≤ n
  rest : ∀ row ∈ rows, row ∉ list → list.length = n ∧ ∀ kept ∈ list, time row < time kept

namespace Latest

/-- `ORDER BY time DESC`. -/
def orderDesc (time : α → κ) (rows : List α) : List α :=
  rows.insertionSort fun a b => time b ≤ time a

theorem mem_orderDesc : row ∈ orderDesc time rows ↔ row ∈ rows := List.mem_insertionSort _

theorem length_orderDesc (time : α → κ) (rows : List α) :
    (orderDesc time rows).length = rows.length := List.length_insertionSort _ _

/-- Rows whose times differ come in one order only. -/
theorem pairwise_orderDesc (htimes : (rows.map time).Nodup) :
    (orderDesc time rows).Pairwise fun a b => time b < time a := by
  have htotal : Std.Total fun a b : α => time b ≤ time a := ⟨fun a b => le_total (time b) (time a)⟩
  have htrans : IsTrans α fun a b => time b ≤ time a := ⟨fun _ _ _ hab hbc => hbc.trans hab⟩
  have hle : (orderDesc time rows).Pairwise fun a b => time b ≤ time a :=
    List.pairwise_insertionSort _ rows
  have hne : (orderDesc time rows).Pairwise fun a b => time a ≠ time b := by
    rw [← List.pairwise_map]
    exact ((List.perm_insertionSort _ rows).map time).nodup_iff.mpr htimes
  exact hle.imp₂ (fun a b hle hne => lt_of_le_of_ne hle hne.symm) hne

theorem nil (time : α → κ) (rows : List α) : Latest time rows 0 [] where
  sorted := .nil
  subset := List.nil_subset rows
  length_le := le_rfl
  rest := fun _ _ _ => ⟨rfl, fun _ hkept => absurd hkept List.not_mem_nil⟩

/-- The first `n` rows of a list that comes latest first. -/
theorem take (hsorted : list.Pairwise fun a b => time b < time a) (n : Nat) :
    Latest time list n (list.take n) where
  sorted := hsorted.sublist (List.take_sublist n list)
  subset := List.take_subset n list
  length_le := List.length_take_le n list
  rest := by
    intro row hrow hout
    rw [← List.take_append_drop n list] at hrow hsorted
    have hlate := (List.mem_append.mp hrow).resolve_left hout
    refine ⟨?_, fun kept hkept => (List.pairwise_append.mp hsorted).2.2 kept hkept row hlate⟩
    have hlong := List.length_pos_of_mem hlate
    rw [List.length_drop] at hlong
    rw [List.length_take]
    omega

theorem congr (h : Latest time rows n list) (hrows : ∀ row, row ∈ rows ↔ row ∈ rows') :
    Latest time rows' n list where
  sorted := h.sorted
  subset := fun row hrow => (hrows row).mp (h.subset hrow)
  length_le := h.length_le
  rest := fun row hrow => h.rest row ((hrows row).mpr hrow)

/-- A row later than all the others comes first. -/
theorem cons (h : Latest time rows n list) (hnew : ∀ old ∈ rows, time old < time row) :
    Latest time (row :: rows) (n + 1) (row :: list) where
  sorted := List.pairwise_cons.mpr ⟨fun old hold => hnew old (h.subset hold), h.sorted⟩
  subset := List.cons_subset_cons row h.subset
  length_le := Nat.succ_le_succ h.length_le
  rest := by
    intro other hother hout
    rw [List.mem_cons, not_or] at hout
    obtain ⟨hne, hout⟩ := hout
    have hrest := (List.mem_cons.mp hother).resolve_left hne
    obtain ⟨hlength, hbefore⟩ := h.rest other hrest hout
    refine ⟨congrArg (· + 1) hlength, fun kept hkept => ?_⟩
    rcases List.mem_cons.mp hkept with rfl | hkept
    · exact hnew other hrest
    · exact hbefore kept hkept

/-- The first row is later than every other. -/
theorem lt_head (h : Latest time rows n (row :: list)) {old : α} (hold : old ∈ rows) (hne : old ≠ row) :
    time old < time row := by
  by_cases hin : old ∈ row :: list
  · exact (List.pairwise_cons.mp h.sorted).1 old ((List.mem_cons.mp hin).resolve_left hne)
  · exact (h.rest old hold hin).2 row List.mem_cons_self

theorem length_eq (h : Latest time rows n list) (hrows : rows.Nodup) :
    list.length = min n rows.length := by
  have hlist : list.Nodup := h.sorted.imp fun hlt => fun heq => (heq ▸ hlt).false
  have hle := (List.subperm_of_subset hlist h.subset).length_le
  have hshort := h.length_le
  by_cases hall : ∀ row ∈ rows, row ∈ list
  · have hge := (List.subperm_of_subset hrows hall).length_le
    omega
  · push Not at hall
    obtain ⟨row, hrow, hout⟩ := hall
    have hfull := (h.rest row hrow hout).1
    omega

end Latest
