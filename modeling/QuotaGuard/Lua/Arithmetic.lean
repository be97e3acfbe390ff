import QuotaGuard.Lib.Double

/-!
# Lua numbers

A Lua number is a double. An integer below 2^53 is one, and so are the sums, the differences and the
products that stay below; these are written as integers. A floor or a ceiling of a quotient of two
such integers is that of the exact quotient (`Double.floor_round_div`, `Double.ceil_round_div`). What is
left, a quotient that is computed with further and a product that may be large, is rounded to the
nearest double: that is the instance `doubles`. A few results are about the arithmetic the
script would have without rounding, and take the instance `exact` instead.
-/

namespace QuotaGuard

/-- What becomes of the exact result of a quotient or a product, or of a number that is read. -/
class Arithmetic where
  round : ℚ → ℚ
  mono : Monotone round
  idem : ∀ q, round (round q) = round q
  /-- An integer stays one. -/
  integral : ∀ n : ℤ, ∃ m : ℤ, round n = m

namespace Arithmetic

/-- Lua rounds to the nearest double. -/
instance doubles : Arithmetic where
  round := Double.round
  mono := Double.monotone_round
  idem := Double.round_round
  integral := Double.exists_intCast_eq_round_intCast

/-- Arithmetic on rational numbers. -/
@[reducible] def exact : Arithmetic where
  round := id
  mono := monotone_id
  idem _ := rfl
  integral n := ⟨n, rfl⟩

variable [Arithmetic]

/-- `x / y`. -/
def quotient (x y : ℚ) : ℚ := round (x / y)

/-- `x * y`. -/
def product (x y : ℚ) : ℚ := round (x * y)

/-- The number that is read from the decimal text of an integer. -/
def integer (n : Int) : Int := ⌊round n⌋

theorem intCast_integer (n : Int) : (integer n : ℚ) = round n := by
  obtain ⟨m, hm⟩ := integral n
  rw [integer, hm, Int.floor_intCast]

theorem integer_mono {m n : Int} (hle : m ≤ n) : integer m ≤ integer n :=
  Int.floor_mono (mono (by exact_mod_cast hle))

@[simp] theorem integer_integer (n : Int) : integer (integer n) = integer n := by
  change ⌊round (integer n : ℚ)⌋ = ⌊round (n : ℚ)⌋
  rw [intCast_integer, idem]

/-- An integer that is read as a smaller number than one that has been read is smaller itself. -/
theorem lt_integer {m n : Int} (hlt : integer m < integer n) : m < integer n := by
  by_contra hge
  have hmono := integer_mono (not_lt.mp hge)
  rw [integer_integer] at hmono
  exact absurd hlt (not_lt.mpr hmono)

/-- The natural numbers up to the limit are read as they are. -/
structure ExactUpTo (limit : Int) : Prop where
  nonneg : 0 ≤ limit
  integer_eq : ∀ n, 0 ≤ n → n ≤ limit → integer n = n

omit [Arithmetic] in
/-- Doubles have every integer below 2^53. -/
theorem exactUpTo_doubles : @ExactUpTo doubles (2 ^ 53 - 1) := by
  refine @ExactUpTo.mk doubles _ (by norm_num) fun n hn hle => ?_
  change ⌊Double.round n⌋ = n
  rw [Double.round_intCast (by omega) (by omega), Int.floor_intCast]

end Arithmetic

end QuotaGuard
