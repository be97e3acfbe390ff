import Mathlib.Algebra.BigOperators.Group.Finset.Basic
import Mathlib.Data.List.Count

/-!
# Budgets

Every resource has a budget of its own, and all resources share one more. A request is granted when
neither budget is spent, and takes one from each. Which requests are granted depends on their order;
how many are granted does not.
-/

/-- One budget for each resource, and one they share. -/
@[ext] structure Budget (ρ : Type*) where
  own : ρ → Nat
  shared : Nat

namespace Budget

variable {ρ : Type*} [DecidableEq ρ]

/-- Neither budget is spent. -/
def grants (b : Budget ρ) (r : ρ) : Prop := 0 < b.own r ∧ 0 < b.shared

instance (b : Budget ρ) (r : ρ) : Decidable (b.grants r) := inferInstanceAs (Decidable (_ ∧ _))

/-- The budgets after one request. -/
def request (b : Budget ρ) (r : ρ) : Budget ρ :=
  if b.grants r then ⟨Function.update b.own r (b.own r - 1), b.shared - 1⟩ else b

/-- How many of the requests are granted, one after the other. -/
def granted (b : Budget ρ) : List ρ → Nat
  | [] => 0
  | r :: requests => (if b.grants r then 1 else 0) + granted (b.request r) requests

/-- What the requests could get if nothing were shared. -/
def demand (b : Budget ρ) (resources : Finset ρ) (requests : List ρ) : Nat :=
  ∑ r ∈ resources, min (requests.count r) (b.own r)

section Request

variable {b : Budget ρ} {r : ρ}

theorem request_of_not_grants (hdenied : ¬ b.grants r) : b.request r = b := if_neg hdenied

theorem request_own (hgrants : b.grants r) :
    (b.request r).own = Function.update b.own r (b.own r - 1) := by
  rw [request, if_pos hgrants]

theorem request_shared (hgrants : b.grants r) : (b.request r).shared = b.shared - 1 := by
  rw [request, if_pos hgrants]

end Request

theorem demand_nil (b : Budget ρ) (resources : Finset ρ) : b.demand resources [] = 0 := by
  apply Finset.sum_eq_zero
  intro r _
  rw [List.count_nil, Nat.zero_min]

/-- A request on a spent budget demands nothing. -/
theorem demand_cons_of_spent {b : Budget ρ} {r : ρ} (hspent : b.own r = 0) (resources : Finset ρ)
    (requests : List ρ) : b.demand resources (r :: requests) = b.demand resources requests := by
  apply Finset.sum_congr rfl
  intro r' _
  by_cases hown : r' = r
  · rw [hown, hspent, Nat.min_zero, Nat.min_zero]
  · rw [List.count_cons_of_ne (Ne.symm hown)]

/-- A granted request takes one from the demand. -/
theorem demand_cons_of_grants {b : Budget ρ} {r : ρ} (hgrants : b.grants r) {resources : Finset ρ}
    (hmem : r ∈ resources) (requests : List ρ) :
    b.demand resources (r :: requests) = (b.request r).demand resources requests + 1 := by
  have hpos := hgrants.1
  have hrest : ∑ r' ∈ resources.erase r, min ((r :: requests).count r') (b.own r') =
      ∑ r' ∈ resources.erase r, min (requests.count r') ((b.request r).own r') := by
    apply Finset.sum_congr rfl
    intro r' hr'
    have hne := Finset.ne_of_mem_erase hr'
    rw [List.count_cons_of_ne hne.symm, request_own hgrants, Function.update_of_ne hne]
  have hown : min ((r :: requests).count r) (b.own r) =
      min (requests.count r) ((b.request r).own r) + 1 := by
    rw [List.count_cons_self, request_own hgrants, Function.update_self]
    omega
  rw [demand, demand, ← Finset.add_sum_erase _ _ hmem, ← Finset.add_sum_erase _ _ hmem, hrest, hown]
  omega

/-- **How many requests are granted, in whatever order they come.** -/
theorem granted_eq {resources : Finset ρ} {requests : List ρ} (b : Budget ρ)
    (hmem : ∀ r ∈ requests, r ∈ resources) :
    b.granted requests = min (b.demand resources requests) b.shared := by
  induction requests generalizing b with
  | nil => rw [granted, demand_nil, Nat.zero_min]
  | cons r requests ih =>
      obtain ⟨hr, hrequests⟩ := List.forall_mem_cons.mp hmem
      rw [granted, ih (b.request r) hrequests]
      by_cases hgrants : b.grants r
      · have hpos := hgrants.2
        rw [if_pos hgrants, demand_cons_of_grants hgrants hr, request_shared hgrants]
        omega
      · rw [if_neg hgrants, request_of_not_grants hgrants, Nat.zero_add]
        by_cases hspent : b.own r = 0
        · rw [demand_cons_of_spent hspent]
        · have hshared : b.shared = 0 := by
            simp only [grants] at hgrants
            omega
          rw [hshared, Nat.min_zero, Nat.min_zero]

end Budget
