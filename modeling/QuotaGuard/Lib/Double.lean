import Mathlib.Data.Int.Log
import Mathlib.Data.Rat.Floor
import Mathlib.Algebra.Ring.Int.Parity
import Mathlib.Tactic.Linarith
import Mathlib.Tactic.Ring
import Mathlib.Tactic.FieldSimp
import Mathlib.Tactic.NormNum

/-!
# The double nearest to a rational number

A quotient of two integers is computed by a program as the double nearest to it, the even one of two
that are equally near. The double is a rational number again, a multiple of a power of two with a
significand of 53 bits. Rounding keeps the order and the sign, leaves doubles and integers of 53 bits
alone, makes an integer of an integer, and is off by half a unit in the last place at most; so the floor and the ceiling of a quotient of two such integers are
not changed by it, and a product with a rounded factor is off by less than its neighbours are away.
Numbers beyond the largest double are not considered.
-/

namespace Double

/-- The nearest integer, the even one of two. -/
def nearest (x : ℚ) : ℤ :=
  if 2 * Int.fract x < 1 then ⌊x⌋
  else if 1 < 2 * Int.fract x then ⌊x⌋ + 1
  else if Even ⌊x⌋ then ⌊x⌋ else ⌊x⌋ + 1

theorem nearest_bounds (x : ℚ) : ⌊x⌋ ≤ nearest x ∧ nearest x ≤ ⌊x⌋ + 1 := by
  unfold nearest
  split_ifs <;> omega

@[simp] theorem nearest_intCast (n : ℤ) : nearest n = n := by
  rw [nearest, Int.fract_intCast, if_pos (by norm_num), Int.floor_intCast]

theorem nearest_mono {x y : ℚ} (hle : x ≤ y) : nearest x ≤ nearest y := by
  rcases (Int.floor_mono hle).lt_or_eq with hlt | heq
  · have hx := (nearest_bounds x).2
    have hy := (nearest_bounds y).1
    omega
  · have hfract : Int.fract x ≤ Int.fract y := by
      rw [Int.fract, Int.fract, heq]
      linarith
    unfold nearest
    rw [heq]
    split_ifs <;> first | omega | (exfalso; linarith)

theorem abs_nearest_sub_le (x : ℚ) : |(nearest x : ℚ) - x| ≤ 1 / 2 := by
  have hsplit := Int.floor_add_fract x
  have hnonneg := Int.fract_nonneg x
  have hlt := Int.fract_lt_one x
  rw [abs_le]
  unfold nearest
  split_ifs <;> push_cast <;> constructor <;> linarith

/-- The exponent of the last place of the doubles around `q`. -/
def exponent (q : ℚ) : ℤ := max (Int.log 2 |q|) (-1022) - 52

/-- The double nearest to `q`. -/
def round (q : ℚ) : ℚ := nearest (q / 2 ^ exponent q) * 2 ^ exponent q

theorem unit_pos (e : ℤ) : (0 : ℚ) < 2 ^ e := zpow_pos (by norm_num) e

/-- A whole multiple of the last place is a double already. -/
theorem round_of_multiple {q : ℚ} {n : ℤ} (h : q = n * 2 ^ exponent q) : round q = q := by
  have hquotient : q / 2 ^ exponent q = n := by
    rw [div_eq_iff (unit_pos _).ne']
    exact h
  rw [round, hquotient, nearest_intCast, ← h]

theorem abs_round_sub_le (q : ℚ) : |round q - q| ≤ 2 ^ exponent q / 2 := by
  have hpos := unit_pos (exponent q)
  have hscale : round q - q =
      (nearest (q / 2 ^ exponent q) - q / 2 ^ exponent q) * 2 ^ exponent q := by
    rw [round]
    field_simp
  rw [hscale, abs_mul, abs_of_pos hpos]
  have := mul_le_mul_of_nonneg_right (abs_nearest_sub_le (q / 2 ^ exponent q)) hpos.le
  linarith

theorem exponent_mono {x y : ℚ} (hx : 0 < x) (hle : x ≤ y) : exponent x ≤ exponent y := by
  have hlog : Int.log 2 |x| ≤ Int.log 2 |y| := by
    rw [abs_of_pos hx, abs_of_pos (hx.trans_le hle)]
    exact Int.log_mono_right hx hle
  unfold exponent
  omega

@[simp] theorem round_zero : round 0 = 0 :=
  round_of_multiple (n := 0) (by rw [Int.cast_zero, zero_mul])

/-- A power of two is a multiple of any last place that is not larger. -/
theorem exists_multiple {e k : ℤ} (hle : e ≤ k) : ∃ n : ℤ, (2 : ℚ) ^ k = n * 2 ^ e := by
  refine ⟨2 ^ (k - e).toNat, ?_⟩
  have hshift : k = ((k - e).toNat : ℤ) + e := by omega
  push_cast
  rw [← zpow_natCast (2 : ℚ), ← zpow_add₀ (by norm_num), ← hshift]

/-- A number of 53 bits, shifted, is a double. -/
theorem round_of_short {m k : ℤ} (hm : 0 < m) (hshort : m < 2 ^ 53) (hk : -1074 ≤ k) :
    round (m * 2 ^ k) = m * 2 ^ k := by
  have hvalue : (0 : ℚ) < m * 2 ^ k := mul_pos (by exact_mod_cast hm) (unit_pos k)
  have hlog : Int.log 2 |(m : ℚ) * 2 ^ k| < k + 53 := by
    rw [abs_of_pos hvalue, ← Int.lt_zpow_iff_log_lt (by decide) hvalue]
    push_cast
    rw [zpow_add₀ (by norm_num), mul_comm]
    apply mul_lt_mul_of_pos_left _ (unit_pos k)
    exact_mod_cast hshort
  obtain ⟨n, hn⟩ := exists_multiple (show exponent (m * 2 ^ k) ≤ k by rw [exponent]; omega)
  apply round_of_multiple (n := m * n)
  rw [Int.cast_mul, mul_assoc, ← hn]

theorem round_intCast {m : ℤ} (hlow : -2 ^ 53 < m) (hhigh : m < 2 ^ 53) : round m = m := by
  rcases eq_or_ne m 0 with rfl | hne
  · rw [Int.cast_zero, round_zero]
  have hpos : (0 : ℚ) < |(m : ℚ)| := abs_pos.mpr (by exact_mod_cast hne)
  have hlog : Int.log 2 |(m : ℚ)| < 53 := by
    rw [← Int.lt_zpow_iff_log_lt (by decide) hpos]
    exact_mod_cast abs_lt.mpr ⟨hlow, hhigh⟩
  obtain ⟨n, hn⟩ := exists_multiple (show exponent (m : ℚ) ≤ 0 by rw [exponent]; omega)
  apply round_of_multiple (n := m * n)
  rw [Int.cast_mul, mul_assoc, ← hn, zpow_zero, mul_one]

theorem round_le_multiple {q : ℚ} {n : ℤ} (h : q ≤ n * 2 ^ exponent q) :
    round q ≤ n * 2 ^ exponent q := by
  apply mul_le_mul_of_nonneg_right _ (unit_pos _).le
  rw [← nearest_intCast n]
  exact_mod_cast nearest_mono ((div_le_iff₀ (unit_pos _)).mpr h)

theorem multiple_le_round {q : ℚ} {n : ℤ} (h : n * 2 ^ exponent q ≤ q) :
    n * 2 ^ exponent q ≤ round q := by
  apply mul_le_mul_of_nonneg_right _ (unit_pos _).le
  rw [← nearest_intCast n]
  exact_mod_cast nearest_mono ((le_div_iff₀ (unit_pos _)).mpr h)

/-- Nor does rounding go past a multiple of the last place that is nearer than half of it. -/
theorem multiple_le_round_of_near {q : ℚ} {n : ℤ}
    (h : n * 2 ^ exponent q - 2 ^ exponent q / 2 < q) : n * 2 ^ exponent q ≤ round q := by
  have hquotient : (n : ℚ) - 1 / 2 < q / 2 ^ exponent q := by
    rw [lt_div_iff₀ (unit_pos _)]
    linarith
  have hnearest := (abs_le.mp (abs_nearest_sub_le (q / 2 ^ exponent q))).1
  have hless : ((n - 1 : ℤ) : ℚ) < nearest (q / 2 ^ exponent q) := by
    push_cast
    linarith
  have hle : n ≤ nearest (q / 2 ^ exponent q) := by
    have : n - 1 < nearest (q / 2 ^ exponent q) := by exact_mod_cast hless
    omega
  apply mul_le_mul_of_nonneg_right _ (unit_pos _).le
  exact_mod_cast hle

theorem exponent_eq {q : ℚ} {k : ℤ} (hk : -1022 ≤ k) (hlow : 2 ^ k ≤ q) (hhigh : q < 2 ^ (k + 1)) :
    exponent q = k - 52 := by
  have hpos : 0 < q := (unit_pos k).trans_le hlow
  have hge : k ≤ Int.log 2 q := (Int.zpow_le_iff_le_log (by decide) hpos).mp hlow
  have hlt : Int.log 2 q < k + 1 := (Int.lt_zpow_iff_log_lt (by decide) hpos).mp hhigh
  rw [exponent, abs_of_pos hpos]
  omega

/-- **Rounding keeps the order.** Where the last place moves, a power of two lies between the
numbers. -/
theorem round_mono {x y : ℚ} (hx : 0 ≤ x) (hle : x ≤ y) : round x ≤ round y := by
  rcases hx.eq_or_lt with rfl | hpos
  · rw [round_zero]
    have hnonneg : ((0 : ℤ) : ℚ) * 2 ^ exponent y ≤ y := by
      rwa [Int.cast_zero, zero_mul]
    have := multiple_le_round hnonneg
    rwa [Int.cast_zero, zero_mul] at this
  rcases (exponent_mono hpos hle).eq_or_lt with heq | hlt
  · rw [round, round, heq]
    apply mul_le_mul_of_nonneg_right _ (unit_pos _).le
    exact_mod_cast nearest_mono (div_le_div_of_nonneg_right hle (unit_pos _).le)
  · have hlogs : Int.log 2 x < Int.log 2 y ∧ exponent y + 52 = Int.log 2 y := by
      unfold exponent at hlt ⊢
      rw [abs_of_pos hpos, abs_of_pos (hpos.trans_le hle)] at *
      omega
    obtain ⟨n, hn⟩ := exists_multiple (show exponent x ≤ Int.log 2 y by omega)
    obtain ⟨m, hm⟩ := exists_multiple (show exponent y ≤ Int.log 2 y by omega)
    have hbelow : x ≤ 2 ^ Int.log 2 y := ((Int.lt_zpow_iff_log_lt (by decide) hpos).mpr hlogs.1).le
    have habove : 2 ^ Int.log 2 y ≤ y := Int.zpow_log_le_self (by decide) (hpos.trans_le hle)
    calc round x ≤ n * 2 ^ exponent x := round_le_multiple (hn ▸ hbelow)
      _ = m * 2 ^ exponent y := hn.symm.trans hm
      _ ≤ round y := multiple_le_round (hm ▸ habove)

/-! ### Negative numbers -/

theorem nearest_neg (x : ℚ) : nearest (-x) = -nearest x := by
  rcases eq_or_ne (Int.fract x) 0 with hwhole | hfract
  · obtain ⟨n, rfl⟩ := Int.fract_eq_zero_iff.mp hwhole
    rw [← Int.cast_neg, nearest_intCast, nearest_intCast]
  · have hsplit := Int.floor_add_fract x
    have hneg := Int.floor_add_fract (-x)
    rw [Int.fract_neg hfract] at hneg
    have hfloor : ⌊-x⌋ = -⌊x⌋ - 1 := by
      have : (⌊-x⌋ : ℚ) = ((-⌊x⌋ - 1 : ℤ) : ℚ) := by
        push_cast
        linarith
      exact_mod_cast this
    have hodd : Even (-⌊x⌋ - 1) ↔ ¬ Even ⌊x⌋ := by
      rw [Int.even_sub_one, even_neg]
    unfold nearest
    rw [Int.fract_neg hfract, hfloor]
    by_cases heven : Even ⌊x⌋
    · rw [if_neg (show ¬ Even (-⌊x⌋ - 1) from fun h => hodd.mp h heven), if_pos heven]
      split_ifs <;> first | omega | (exfalso; linarith)
    · rw [if_pos (hodd.mpr heven), if_neg heven]
      split_ifs <;> first | omega | (exfalso; linarith)

theorem exponent_neg (q : ℚ) : exponent (-q) = exponent q := by
  rw [exponent, exponent, abs_neg]

theorem round_neg (q : ℚ) : round (-q) = -round q := by
  rw [round, round, exponent_neg, neg_div, nearest_neg, Int.cast_neg, neg_mul]

theorem monotone_round : Monotone round := by
  intro x y hle
  rcases le_total 0 x with hx | hx
  · exact round_mono hx hle
  · rcases le_total 0 y with hy | hy
    · have hlow := round_mono le_rfl (neg_nonneg.mpr hx)
      have hhigh := round_mono le_rfl hy
      rw [round_zero] at hlow hhigh
      rw [round_neg] at hlow
      linarith
    · have hflip := round_mono (neg_nonneg.mpr hy) (neg_le_neg hle)
      rw [round_neg, round_neg] at hflip
      linarith

/-! ### Rounding twice -/

/-- The significand of a positive number has 53 bits, or is the next power of two. -/
theorem nearest_significand {q : ℚ} (hq : 0 ≤ q) : 0 ≤ nearest (q / 2 ^ exponent q) ∧
    nearest (q / 2 ^ exponent q) ≤ 2 ^ 53 := by
  constructor
  · rw [← nearest_intCast 0, Int.cast_zero]
    exact nearest_mono (div_nonneg hq (unit_pos _).le)
  · rw [← nearest_intCast (2 ^ 53)]
    apply nearest_mono
    rw [div_le_iff₀ (unit_pos _)]
    rcases hq.eq_or_lt with rfl | hpos
    · exact mul_nonneg (by norm_num) (unit_pos _).le
    have hlog : Int.log 2 q < exponent q + 53 := by
      rw [exponent, abs_of_pos hpos]
      omega
    rw [← Int.lt_zpow_iff_log_lt (by decide) hpos] at hlog
    calc q ≤ 2 ^ (exponent q + 53) := by exact_mod_cast hlog.le
      _ = ((2 ^ 53 : ℤ) : ℚ) * 2 ^ exponent q := by
        rw [zpow_add₀ (by norm_num), mul_comm]
        norm_num

/-- What has been rounded is a double. -/
theorem round_round (q : ℚ) : round (round q) = round q := by
  -- A negative number is rounded like the positive one.
  wlog hq : 0 ≤ q with hpositive
  · have hflip := hpositive (-q) (by linarith)
    rw [round_neg, round_neg] at hflip
    exact neg_injective hflip
  obtain ⟨hlow, hhigh⟩ := nearest_significand hq
  have hexponent : -1074 ≤ exponent q := by
    unfold exponent
    omega
  change round (nearest (q / 2 ^ exponent q) * 2 ^ exponent q) =
    nearest (q / 2 ^ exponent q) * 2 ^ exponent q
  generalize nearest (q / 2 ^ exponent q) = n at hlow hhigh ⊢
  rcases hlow.eq_or_lt with rfl | hpos
  · simp
  rcases hhigh.lt_or_eq with hshort | rfl
  · exact round_of_short hpos hshort hexponent
  · have hshift : ((2 ^ 53 : ℤ) : ℚ) * 2 ^ exponent q = (1 : ℤ) * 2 ^ (exponent q + 53) := by
      rw [zpow_add₀ (by norm_num), mul_comm]
      norm_num
    rw [hshift]
    exact round_of_short (by decide) (by decide) (by omega)

/-! ### Large numbers -/

/-- From 2^52 on every double is an integer. -/
theorem exists_intCast_eq_round {q : ℚ} (h : 2 ^ 52 ≤ q) : ∃ n : ℤ, round q = n := by
  have hpos : 0 < q := lt_of_lt_of_le (by norm_num) h
  have hlog : 52 ≤ Int.log 2 q := by
    rw [← Int.zpow_le_iff_le_log (by decide) hpos]
    exact_mod_cast h
  obtain ⟨n, hn⟩ := exists_multiple (show (0 : ℤ) ≤ exponent q by
    rw [exponent, abs_of_pos hpos]
    omega)
  rw [zpow_zero, mul_one] at hn
  refine ⟨nearest (q / 2 ^ exponent q) * n, ?_⟩
  rw [round, Int.cast_mul, hn]

/-- An integer product is rounded to 2^53 or more exactly where it is as large itself. -/
theorem le_round_intCast_iff {m : ℤ} (hm : 0 ≤ m) : 2 ^ 53 ≤ round m ↔ 2 ^ 53 ≤ m := by
  have hlimit : round (2 ^ 53 : ℤ) = (2 ^ 53 : ℤ) := by
    have := round_of_short (m := 1) (k := 53) (by decide) (by decide) (by decide)
    norm_num at this ⊢
    exact this
  constructor
  · intro hlarge
    by_contra hsmall
    rw [round_intCast (by omega) (by omega)] at hlarge
    exact hsmall (by exact_mod_cast hlarge)
  · intro hlarge
    calc (2 : ℚ) ^ 53 = round (2 ^ 53 : ℤ) := by rw [hlimit]; norm_num
      _ ≤ round m := round_mono (by norm_num) (by exact_mod_cast hlarge)

/-- An integer is rounded to an integer. -/
theorem exists_intCast_eq_round_intCast (n : ℤ) : ∃ m : ℤ, round n = m := by
  wlog hn : 0 ≤ n with hpositive
  · obtain ⟨m, hm⟩ := hpositive (-n) (by omega)
    refine ⟨-m, ?_⟩
    rw [Int.cast_neg, round_neg] at hm
    rw [Int.cast_neg, ← hm, neg_neg]
  rcases lt_or_ge n (2 ^ 53) with hshort | hlong
  · exact ⟨n, round_intCast (by omega) hshort⟩
  · apply exists_intCast_eq_round
    have : (2 : ℤ) ^ 52 ≤ n := le_trans (by norm_num) hlong
    exact_mod_cast this

/-! ### The relative error -/

/-- Away from the smallest numbers the error is a share of the number itself. -/
theorem abs_round_sub_le_of_normal {q : ℚ} (h : 2 ^ (-1022 : ℤ) ≤ |q|) :
    |round q - q| ≤ |q| / 2 ^ 53 := by
  have hpos : 0 < |q| := (unit_pos _).trans_le h
  have hlog : -1022 ≤ Int.log 2 |q| := (Int.zpow_le_iff_le_log (by decide) hpos).mp h
  have hexp : exponent q = Int.log 2 |q| - 52 := by rw [exponent, max_eq_left hlog]
  have hunit : (2 : ℚ) ^ exponent q ≤ |q| / 2 ^ 52 := by
    rw [hexp, zpow_sub₀ (by norm_num)]
    exact div_le_div_of_nonneg_right (Int.zpow_log_le_self (by decide) hpos) (by norm_num)
  calc |round q - q| ≤ 2 ^ exponent q / 2 := abs_round_sub_le q
    _ ≤ |q| / 2 ^ 52 / 2 := div_le_div_of_nonneg_right hunit (by norm_num)
    _ = |q| / 2 ^ 53 := by ring

/-- The quotient of two integers with up to 53 bits is off by less than the distance of two quotients
with that divisor. -/
theorem abs_round_div_sub_lt {a b : ℤ} (hlow : -2 ^ 53 < a) (hhigh : a < 2 ^ 53) (hb : 0 < b)
    (hb' : b ≤ 2 ^ 53) : |round ((a : ℚ) / b) - a / b| < 1 / b := by
  have hbQ : (0 : ℚ) < b := by exact_mod_cast hb
  rcases eq_or_ne a 0 with rfl | hne
  · rw [Int.cast_zero, zero_div, round_zero, sub_zero, abs_zero]
    exact one_div_pos.mpr hbQ
  have hone : (1 : ℚ) ≤ |(a : ℚ)| := by exact_mod_cast Int.one_le_abs hne
  have hshort : |(a : ℚ)| < 2 ^ 53 := by exact_mod_cast abs_lt.mpr ⟨hlow, hhigh⟩
  have habs : |(a : ℚ) / b| = |(a : ℚ)| / b := by rw [abs_div, abs_of_pos hbQ]
  have hnormal : (2 : ℚ) ^ (-1022 : ℤ) ≤ |(a : ℚ) / b| := by
    have hwide : (b : ℚ) ≤ 2 ^ 53 := by exact_mod_cast hb'
    rw [habs]
    calc (2 : ℚ) ^ (-1022 : ℤ) ≤ 2 ^ (-53 : ℤ) := zpow_le_zpow_right₀ (by norm_num) (by norm_num)
      _ = 1 / 2 ^ 53 := by norm_num
      _ ≤ 1 / b := one_div_le_one_div_of_le hbQ hwide
      _ ≤ |(a : ℚ)| / b := div_le_div_of_nonneg_right hone hbQ.le
  calc |round ((a : ℚ) / b) - a / b| ≤ |(a : ℚ) / b| / 2 ^ 53 := abs_round_sub_le_of_normal hnormal
    _ = |(a : ℚ)| / 2 ^ 53 / b := by rw [habs, div_right_comm]
    _ < 1 / b := by
        apply div_lt_div_of_pos_right _ hbQ
        rw [div_lt_one (by norm_num)]
        exact hshort

section Quotient

variable {a b : ℤ} (hlow : -2 ^ 53 < a) (hhigh : a < 2 ^ 53) (hb : 0 < b) (hb' : b ≤ 2 ^ 53)

include hlow hhigh hb

/-- A quotient that is an integer is a double. -/
theorem round_div_of_eq {n : ℤ} (h : n * b = a) : round ((a : ℚ) / b) = n := by
  have hbQ : (b : ℚ) ≠ 0 := by exact_mod_cast hb.ne'
  have hquotient : (a : ℚ) / b = n := by
    rw [div_eq_iff hbQ]
    exact_mod_cast h.symm
  have hless : |n| * 1 ≤ |n| * b := mul_le_mul_of_nonneg_left (by omega) (abs_nonneg n)
  have hshort : |n| < 2 ^ 53 := by
    calc |n| = |n| * 1 := (mul_one _).symm
      _ ≤ |n| * b := hless
      _ = |a| := by rw [← h, abs_mul, abs_of_pos hb]
      _ < 2 ^ 53 := abs_lt.mpr ⟨hlow, hhigh⟩
  rw [hquotient, round_intCast (abs_lt.mp hshort).1 (abs_lt.mp hshort).2]

include hb'

/-- Rounding takes the quotient of two integers past no integer. -/
theorem intCast_le_round_div_iff {n : ℤ} : (n : ℚ) ≤ round ((a : ℚ) / b) ↔ n * b ≤ a := by
  have hbQ : (0 : ℚ) < b := by exact_mod_cast hb
  have herror := abs_lt.mp (abs_round_div_sub_lt hlow hhigh hb hb')
  constructor
  · intro hle
    by_contra habove
    have hgap : (a : ℚ) / b + 1 / b ≤ n := by
      rw [← add_div, div_le_iff₀ hbQ]
      exact_mod_cast not_le.mp habove
    linarith
  · intro hle
    rcases hle.eq_or_lt with heq | hlt
    · exact (round_div_of_eq hlow hhigh hb heq).ge
    · have hgap : (n : ℚ) + 1 / b ≤ a / b := by
        rw [le_div_iff₀ hbQ, add_mul, div_mul_cancel₀ _ hbQ.ne']
        exact_mod_cast hlt
      linarith

theorem round_div_le_intCast_iff {n : ℤ} : round ((a : ℚ) / b) ≤ n ↔ a ≤ n * b := by
  have hbQ : (0 : ℚ) < b := by exact_mod_cast hb
  have herror := abs_lt.mp (abs_round_div_sub_lt hlow hhigh hb hb')
  constructor
  · intro hle
    by_contra hbelow
    have hgap : (n : ℚ) + 1 / b ≤ a / b := by
      rw [le_div_iff₀ hbQ, add_mul, div_mul_cancel₀ _ hbQ.ne']
      exact_mod_cast not_le.mp hbelow
    linarith
  · intro hle
    rcases hle.eq_or_lt with heq | hlt
    · exact (round_div_of_eq hlow hhigh hb heq.symm).le
    · have hgap : (a : ℚ) / b + 1 / b ≤ n := by
        rw [← add_div, div_le_iff₀ hbQ]
        exact_mod_cast hlt
      linarith

/-- So the floor and the ceiling of the quotient of two integers are not changed by rounding. -/
theorem floor_round_div : ⌊round ((a : ℚ) / b)⌋ = ⌊(a : ℚ) / b⌋ := by
  apply eq_of_forall_le_iff
  intro n
  rw [Int.le_floor, Int.le_floor, intCast_le_round_div_iff hlow hhigh hb hb',
    le_div_iff₀ (by exact_mod_cast hb)]
  exact_mod_cast Iff.rfl

theorem ceil_round_div : ⌈round ((a : ℚ) / b)⌉ = ⌈(a : ℚ) / b⌉ := by
  apply eq_of_forall_ge_iff
  intro n
  rw [Int.ceil_le, Int.ceil_le, round_div_le_intCast_iff hlow hhigh hb hb',
    div_le_iff₀ (by exact_mod_cast hb)]
  exact_mod_cast Iff.rfl

end Quotient

/-! ### A product with a rounded factor -/

/-- Two roundings are off by a share of the exact product. -/
theorem abs_round_mul_round_sub_le {x c : ℚ} (hx : 2 ^ (-500 : ℤ) ≤ x) (hc : 2 ^ (-500 : ℤ) ≤ c) :
    |round (round x * c) - x * c| ≤ x * c / 2 ^ 51 := by
  have hxpos : 0 < x := (unit_pos _).trans_le hx
  have hcpos : 0 < c := (unit_pos _).trans_le hc
  have hnormal : 2 ^ (-1022 : ℤ) ≤ |x| := by
    rw [abs_of_pos hxpos]
    exact (zpow_le_zpow_right₀ (by norm_num) (by norm_num)).trans hx
  have hfirst : |round x - x| ≤ x / 2 ^ 53 := by
    have := abs_round_sub_le_of_normal hnormal
    rwa [abs_of_pos hxpos] at this
  have hfactor := abs_le.mp hfirst
  have hnear : x / 2 ≤ round x := by linarith
  have hproduct : 2 ^ (-1022 : ℤ) ≤ round x * c := by
    calc (2 : ℚ) ^ (-1022 : ℤ) ≤ 2 ^ (-501 : ℤ) * 2 ^ (-500 : ℤ) := by
          rw [← zpow_add₀ (by norm_num)]
          exact zpow_le_zpow_right₀ (by norm_num) (by norm_num)
      _ ≤ round x * c := by
          have hhalf : (2 : ℚ) ^ (-501 : ℤ) = 2 ^ (-500 : ℤ) / 2 := by
            rw [show (-501 : ℤ) = -500 - 1 by norm_num, zpow_sub₀ (by norm_num), zpow_one]
          apply mul_le_mul _ hc (unit_pos _).le (by linarith)
          rw [hhalf]
          linarith
  have hproductPos : 0 < round x * c := (unit_pos _).trans_le hproduct
  have hsecond : |round (round x * c) - round x * c| ≤ round x * c / 2 ^ 53 := by
    have := abs_round_sub_le_of_normal (q := round x * c) (by rwa [abs_of_pos hproductPos])
    rwa [abs_of_pos hproductPos] at this
  have hcarried : |round x * c - x * c| ≤ x * c / 2 ^ 53 := by
    rw [← sub_mul, abs_mul, abs_of_pos hcpos, mul_div_right_comm]
    exact mul_le_mul_of_nonneg_right hfirst hcpos.le
  have hlarge : round x * c ≤ 2 * (x * c) := by
    have := abs_le.mp hcarried
    have := mul_pos hxpos hcpos
    linarith
  calc |round (round x * c) - x * c|
      ≤ |round (round x * c) - round x * c| + |round x * c - x * c| := abs_sub_le _ _ _
    _ ≤ 2 * (x * c) / 2 ^ 53 + x * c / 2 ^ 53 := by
        refine add_le_add (hsecond.trans ?_) hcarried
        exact div_le_div_of_nonneg_right hlarge (by norm_num)
    _ ≤ x * c / 2 ^ 51 := by
        have := mul_pos hxpos hcpos
        linarith

/-- If the exact product is a quotient of integers, two roundings do not reach the next quotient with
that divisor. -/
theorem abs_round_mul_round_sub_lt {x c : ℚ} {a b : ℤ} (hx : 2 ^ (-500 : ℤ) ≤ x)
    (hc : 2 ^ (-500 : ℤ) ≤ c) (hproduct : x * c = a / b) (hb : 0 < b) (ha : a < 2 ^ 51) :
    |round (round x * c) - a / b| < 1 / b := by
  have hbQ : (0 : ℚ) < b := by exact_mod_cast hb
  have herror := abs_round_mul_round_sub_le hx hc
  rw [hproduct] at herror
  calc |round (round x * c) - a / b| ≤ (a : ℚ) / b / 2 ^ 51 := herror
    _ = (a : ℚ) / 2 ^ 51 / b := div_right_comm ..
    _ < 1 / b := by
        apply div_lt_div_of_pos_right _ hbQ
        rw [div_lt_one (by norm_num)]
        exact_mod_cast ha

/-! ### Quotients that are far enough apart -/

theorem abs_round_sub_le_of_le_one {q : ℚ} (hq : 0 ≤ q) (hone : q ≤ 1) :
    |round q - q| ≤ 1 / 2 ^ 53 := by
  rcases hq.eq_or_lt with rfl | hpos
  · rw [round_zero, sub_zero, abs_zero]
    positivity
  have hexp : exponent q ≤ -52 := by
    have := exponent_mono hpos hone
    rwa [show exponent 1 = -52 by rw [exponent, abs_one, Int.log_one_right]; rfl] at this
  have hplace : (2 : ℚ) ^ exponent q ≤ 2 ^ (-52 : ℤ) := zpow_le_zpow_right₀ (by norm_num) hexp
  calc |round q - q| ≤ 2 ^ exponent q / 2 := abs_round_sub_le q
    _ ≤ 2 ^ (-52 : ℤ) / 2 := div_le_div_of_nonneg_right hplace (by norm_num)
    _ = 1 / 2 ^ 53 := by norm_num

/-- Two ratios of small numbers are told apart. -/
theorem round_lt_round {a b c d : ℤ} (ha : 0 ≤ a) (hb : 0 < b) (hc : 0 ≤ c) (hd : 0 < d)
    (hab : a ≤ b) (hcd : c ≤ d) (hsmall : b * d < 2 ^ 52) (hlt : (a : ℚ) / b < (c : ℚ) / d) :
    round ((a : ℚ) / b) < round ((c : ℚ) / d) := by
  have hb' : (0 : ℚ) < b := by exact_mod_cast hb
  have hd' : (0 : ℚ) < d := by exact_mod_cast hd
  have herror := abs_le.mp (abs_round_sub_le_of_le_one (q := (a : ℚ) / b)
    (div_nonneg (by exact_mod_cast ha) hb'.le) ((div_le_one hb').mpr (by exact_mod_cast hab)))
  have herror' := abs_le.mp (abs_round_sub_le_of_le_one (q := (c : ℚ) / d)
    (div_nonneg (by exact_mod_cast hc) hd'.le) ((div_le_one hd').mpr (by exact_mod_cast hcd)))
  have hcross : a * d + 1 ≤ c * b := by
    rw [div_lt_div_iff₀ hb' hd'] at hlt
    exact_mod_cast hlt
  have hgap : 1 / (b * d : ℚ) ≤ c / d - a / b := by
    rw [div_sub_div _ _ hd'.ne' hb'.ne', mul_comm (b : ℚ), div_le_div_iff_of_pos_right
      (mul_pos hd' hb')]
    have : (a * d + 1 : ℚ) ≤ c * b := by exact_mod_cast hcross
    linarith
  have hwide : (1 : ℚ) / 2 ^ 52 < 1 / (b * d : ℚ) := by
    apply one_div_lt_one_div_of_lt (mul_pos hb' hd')
    exact_mod_cast hsmall
  have hhalf : (1 : ℚ) / 2 ^ 53 + 1 / 2 ^ 53 = 1 / 2 ^ 52 := by norm_num
  linarith

end Double
