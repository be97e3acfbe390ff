import Mathlib.Data.Rat.Floor
import Mathlib.Tactic.Linarith
import Mathlib.Tactic.Ring
import Mathlib.Tactic.FieldSimp
import Mathlib.Tactic.Positivity

/-!
# Rounded quotients of integers

A program that divides integers exactly and rounds the quotient is reasoned about through two
adjunctions, one for the floor and one for the ceiling, which turn a comparison with the rounded
quotient into a comparison of products. Nothing else about the rational quotient is ever needed.
-/

namespace Rounding

variable {a b q : ℤ}

theorem le_floor_div_iff (hb : 0 < b) : q ≤ ⌊(a : ℚ) / b⌋ ↔ q * b ≤ a := by
  have hb' : (0 : ℚ) < b := by exact_mod_cast hb
  rw [Int.le_floor, le_div_iff₀ hb']
  exact_mod_cast Iff.rfl

theorem floor_div_lt_iff (hb : 0 < b) : ⌊(a : ℚ) / b⌋ < q ↔ a < q * b := by
  rw [← not_le, le_floor_div_iff hb, not_le]

theorem ceil_div_le_iff (hb : 0 < b) : ⌈(a : ℚ) / b⌉ ≤ q ↔ a ≤ q * b := by
  have hb' : (0 : ℚ) < b := by exact_mod_cast hb
  rw [Int.ceil_le, div_le_iff₀ hb']
  exact_mod_cast Iff.rfl

theorem lt_ceil_div_iff (hb : 0 < b) : q < ⌈(a : ℚ) / b⌉ ↔ q * b < a := by
  rw [← not_le, ceil_div_le_iff hb, not_le]

theorem floor_div_bounds (hb : 0 < b) :
    ⌊(a : ℚ) / b⌋ * b ≤ a ∧ a < (⌊(a : ℚ) / b⌋ + 1) * b :=
  ⟨(le_floor_div_iff hb).mp le_rfl, (floor_div_lt_iff hb).mp (lt_add_one _)⟩

theorem ceil_div_bounds (hb : 0 < b) :
    a ≤ ⌈(a : ℚ) / b⌉ * b ∧ (⌈(a : ℚ) / b⌉ - 1) * b < a :=
  ⟨(ceil_div_le_iff hb).mp le_rfl, (lt_ceil_div_iff hb).mp (sub_one_lt _)⟩

/-- The floor of a quotient is the division of integers. -/
theorem floor_div_eq (hb : 0 < b) : ⌊(a : ℚ) / b⌋ = a / b := by
  apply le_antisymm
  · rw [Int.le_ediv_iff_mul_le hb, ← le_floor_div_iff hb]
  · rw [le_floor_div_iff hb, ← Int.le_ediv_iff_mul_le hb]

/-- Rounding a quotient leads no further from zero than the dividend. -/
theorem floor_div_within {m : ℤ} (hb : 0 < b) (hlow : -m < a) (hhigh : a < m) :
    -m < ⌊(a : ℚ) / b⌋ ∧ ⌊(a : ℚ) / b⌋ < m := by
  have hwide : (m - 1) * 1 ≤ (m - 1) * b := mul_le_mul_of_nonneg_left (by omega) (by omega)
  have hwide' : m * 1 ≤ m * b := mul_le_mul_of_nonneg_left (by omega) (by omega)
  have hfloor : -(m - 1) ≤ ⌊(a : ℚ) / b⌋ := by
    rw [le_floor_div_iff hb, neg_mul]
    omega
  refine ⟨by omega, ?_⟩
  rw [floor_div_lt_iff hb]
  omega

theorem ceil_div_within {m : ℤ} (hb : 0 < b) (hlow : -m < a) (hhigh : a < m) :
    -m < ⌈(a : ℚ) / b⌉ ∧ ⌈(a : ℚ) / b⌉ < m := by
  have hneg : ⌈(a : ℚ) / b⌉ = -⌊((-a : ℤ) : ℚ) / b⌋ := by
    rw [Int.cast_neg, neg_div, Int.floor_neg, neg_neg]
  obtain ⟨hfloor, hfloor'⟩ := floor_div_within (a := -a) (m := m) hb (by omega) (by omega)
  rw [hneg]
  constructor <;> omega

/-- One divisor less is one less. -/
theorem floor_sub_self_div (hb : 0 < b) : ⌊((a - b : ℤ) : ℚ) / b⌋ = ⌊(a : ℚ) / b⌋ - 1 := by
  have hb' : (b : ℚ) ≠ 0 := by exact_mod_cast hb.ne'
  rw [Int.cast_sub, sub_div, div_self hb', Int.floor_sub_one]

theorem floor_div_eq_zero (hb : 0 < b) (ha : 0 ≤ a) (hlt : a < b) : ⌊(a : ℚ) / b⌋ = 0 := by
  rw [floor_div_eq hb, Int.ediv_eq_zero_of_lt ha hlt]

/-- Of a dividend that is one less, the quotient is one less where the divisor went into it. -/
theorem floor_pred_div (hb : 0 < b) :
    ⌊((a - 1 : ℤ) : ℚ) / b⌋ = ⌊(a : ℚ) / b⌋ - if ⌊(a : ℚ) / b⌋ * b = a then 1 else 0 := by
  obtain ⟨hlow, hhigh⟩ := floor_div_bounds (a := a) hb
  generalize ⌊(a : ℚ) / b⌋ = q at hlow hhigh
  apply le_antisymm
  · rw [← Int.lt_add_one_iff, floor_div_lt_iff hb]
    split
    · rw [sub_add_cancel]
      omega
    · rw [sub_zero]
      omega
  · rw [le_floor_div_iff hb]
    split
    · rw [sub_mul, one_mul]
      omega
    · rw [sub_zero]
      omega

end Rounding
