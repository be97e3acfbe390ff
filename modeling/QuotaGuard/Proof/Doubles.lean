import QuotaGuard.Proof.Refill

/-!
# The refill in doubles

At `perSec` tokens a second a bucket gains `perSec` microtokens a microsecond. Within the schema bounds
the roundings of the script are off by less than a microtoken: a refill credits what the time is worth,
or one microtoken less where the double product falls short of the exact one, and it moves the stamp to
the clock, or to the microsecond before or after.
-/

namespace QuotaGuard

open Arithmetic

variable {capUtok perSec nowUs tokens ts elapsed add : Int}

/-! ### How far the roundings go -/

theorem small_le_of_one_le {x : ℚ} (hx : 1 ≤ x) : 2 ^ (-500 : ℤ) ≤ x := by
  calc (2 : ℚ) ^ (-500 : ℤ) ≤ 2 ^ (0 : ℤ) := zpow_le_zpow_right₀ (by norm_num) (by norm_num)
    _ = 1 := zpow_zero 2
    _ ≤ x := hx

theorem small_le_div {a b : Int} (ha : 0 < a) (hb : 0 < b) (hb' : b ≤ 100000000000) :
    2 ^ (-500 : ℤ) ≤ (a : ℚ) / b := by
  have hbQ : (0 : ℚ) < b := by exact_mod_cast hb
  have haQ : (1 : ℚ) ≤ a := by exact_mod_cast ha
  have hwide : (b : ℚ) ≤ 100000000000 := by exact_mod_cast hb'
  calc (2 : ℚ) ^ (-500 : ℤ) ≤ 2 ^ (-40 : ℤ) := zpow_le_zpow_right₀ (by norm_num) (by norm_num)
    _ ≤ 1 / 100000000000 := by norm_num
    _ ≤ 1 / b := one_div_le_one_div_of_le hbQ hwide
    _ ≤ a / b := div_le_div_of_nonneg_right haQ hbQ.le

section

variable (hperSec : 0 < perSec ∧ perSec ≤ 100000)

include hperSec

theorem rateUtok_bounds : 0 < perSec * utok ∧ perSec * utok ≤ 100000000000 := by
  simp only [utok]
  omega

/-- What the script multiplies the time with is off by less than a microtoken. -/
theorem abs_credit_sub_lt (helapsed : 0 < elapsed) (hsmall : perSec * elapsed < 2 ^ 51) :
    |product (quotient elapsed utok) (perSec * utok : Int) - (perSec * elapsed : Int)| < 1 := by
  have hutok : (utok : ℚ) ≠ 0 := by exact_mod_cast utok_pos.ne'
  have hrate : (1 : ℚ) ≤ (perSec * utok : Int) := by
    have := (rateUtok_bounds hperSec).1
    exact_mod_cast this
  have hexact : (elapsed : ℚ) / utok * (perSec * utok : Int) = (perSec * elapsed : Int) / (1 : Int) := by
    push_cast
    field_simp
  have hnear := Double.abs_round_mul_round_sub_lt (small_le_div helapsed utok_pos (by decide))
    (small_le_of_one_le hrate) hexact (by decide) hsmall
  rw [Int.cast_one, div_one, div_one] at hnear
  exact hnear

/-- Neither of the two numbers a bucket is called full from is a microsecond off. -/
theorem abs_full_sub_lt (hcap : 0 < capUtok) (hsmall : capUtok < 2 ^ 51) :
    |product (quotient capUtok (perSec * utok : Int)) utok - (capUtok : ℚ) / perSec| < 1 / perSec := by
  obtain ⟨hrate, hrate'⟩ := rateUtok_bounds hperSec
  have hutok : (utok : ℚ) ≠ 0 := by exact_mod_cast utok_pos.ne'
  have hexact : (capUtok : ℚ) / (perSec * utok : Int) * utok = capUtok / perSec := by
    push_cast
    field_simp
  exact Double.abs_round_mul_round_sub_lt (small_le_div hcap hrate hrate')
    (small_le_of_one_le (by decide)) hexact hperSec.1 hsmall

theorem abs_advance_sub_lt (hadd : 0 < add) (hsmall : add < 2 ^ 51) :
    |quotient (product add utok) (perSec * utok : Int) - (add : ℚ) / perSec| < 1 / perSec := by
  obtain ⟨hrate, hrate'⟩ := rateUtok_bounds hperSec
  have hutok : (utok : ℚ) ≠ 0 := by exact_mod_cast utok_pos.ne'
  have hcredit : (1 : ℚ) ≤ add * utok := by
    have : 1 ≤ add * utok := mul_pos hadd utok_pos
    exact_mod_cast this
  have hinverse : 2 ^ (-500 : ℤ) ≤ ((perSec * utok : Int) : ℚ)⁻¹ := by
    rw [← one_div, ← Int.cast_one]
    exact small_le_div one_pos hrate hrate'
  have hexact : (add : ℚ) * utok * ((perSec * utok : Int) : ℚ)⁻¹ = add / perSec := by
    push_cast
    field_simp
  rw [quotient, div_eq_mul_inv]
  exact Double.abs_round_mul_round_sub_lt (small_le_of_one_le hcredit) hinverse hexact hperSec.1 hsmall

end

/-! ### The credit -/

/-- The double product of a stretch of time and a rate lies below the exact one. -/
def FallsShort (perSec elapsed : Int) : Prop :=
  product (quotient elapsed utok) (perSec * utok : Int) < (perSec * elapsed : Int)

instance (perSec elapsed : Int) : Decidable (FallsShort perSec elapsed) :=
  inferInstanceAs (Decidable (_ < _))

/-- What a stretch of time is worth, less the microtoken the product may lose. -/
def creditedUtok (perSec elapsed : Int) : Int :=
  perSec * elapsed - if FallsShort perSec elapsed then 1 else 0

theorem product_zero (perSec : Int) : product (quotient (0 : Int) utok) (perSec * utok : Int) = 0 := by
  rw [product, quotient, Int.cast_zero, zero_div]
  show Double.round (Double.round 0 * _) = 0
  rw [Double.round_zero, zero_mul, Double.round_zero]

theorem not_fallsShort_zero (perSec : Int) : ¬ FallsShort perSec 0 := by
  rw [FallsShort, product_zero, mul_zero, Int.cast_zero]
  exact lt_irrefl 0

theorem creditedUtok_le (perSec elapsed : Int) : creditedUtok perSec elapsed ≤ perSec * elapsed := by
  unfold creditedUtok
  split <;> omega

theorem le_creditedUtok (perSec elapsed : Int) :
    perSec * elapsed - 1 ≤ creditedUtok perSec elapsed := by
  unfold creditedUtok
  split <;> omega

/-- The first microsecond is credited at any rate. -/
theorem creditedUtok_pos (hperSec : 0 < perSec) (helapsed : 0 < elapsed) :
    0 < creditedUtok perSec elapsed := by
  have hworth : 0 < perSec * elapsed := mul_pos hperSec helapsed
  unfold creditedUtok
  split
  · rename_i hshort
    by_contra hnone
    -- worth one microtoken: one microsecond at one token a second, which is not short
    have hone : perSec * elapsed = 1 := by omega
    obtain rfl := Int.eq_one_of_mul_eq_one_right hperSec.le hone
    obtain rfl : elapsed = 1 := by omega
    exact absurd hshort (by decide +kernel)
  · omega

theorem creditUtok_eq (hperSec : 0 < perSec ∧ perSec ≤ 100000) (helapsed : 0 ≤ elapsed)
    (hsmall : perSec * elapsed < 2 ^ 51) :
    creditUtok (perSec * utok) elapsed = creditedUtok perSec elapsed := by
  rcases helapsed.eq_or_lt with rfl | hpos
  · rw [creditUtok, product_zero, Int.floor_zero, creditedUtok, if_neg (not_fallsShort_zero perSec),
      mul_zero, sub_zero]
  have hnear := abs_lt.mp (abs_credit_sub_lt hperSec hpos hsmall)
  rw [creditUtok, Int.floor_eq_iff, creditedUtok]
  by_cases hshort : FallsShort perSec elapsed
  · rw [if_pos hshort]
    have hbelow : product (quotient elapsed utok) (perSec * utok : Int) < (perSec * elapsed : Int) :=
      hshort
    push_cast at hnear hbelow ⊢
    constructor <;> linarith
  · rw [if_neg hshort, sub_zero]
    have habove : ((perSec * elapsed : Int) : ℚ) ≤ product (quotient elapsed utok) (perSec * utok : Int) :=
      not_lt.mp hshort
    constructor <;> linarith

/-! ### The full bucket -/

section

variable (hperSec : 0 < perSec ∧ perSec ≤ 100000) (hcap : 0 < capUtok) (hsmall : capUtok < 2 ^ 51)

include hperSec hcap hsmall

theorem fills_of_lt (hover : capUtok < perSec * elapsed) : Fills capUtok (perSec * utok) elapsed := by
  have hperSecQ : (0 : ℚ) < perSec := by exact_mod_cast hperSec.1
  have hnear := abs_lt.mp (abs_full_sub_lt hperSec hcap hsmall)
  have hlate : (capUtok : ℚ) / perSec + 1 / perSec ≤ elapsed := by
    rw [← add_div, div_le_iff₀ hperSecQ, mul_comm]
    exact_mod_cast hover
  rw [Fills, ge_iff_le]
  generalize product (quotient capUtok (perSec * utok : Int)) utok = full at hnear ⊢
  linarith

theorem not_fills_of_lt (hunder : perSec * elapsed < capUtok) :
    ¬ Fills capUtok (perSec * utok) elapsed := by
  have hperSecQ : (0 : ℚ) < perSec := by exact_mod_cast hperSec.1
  have hnear := abs_lt.mp (abs_full_sub_lt hperSec hcap hsmall)
  have hearly : (elapsed : ℚ) + 1 / perSec ≤ capUtok / perSec := by
    rw [le_div_iff₀ hperSecQ, add_mul, div_mul_cancel₀ _ hperSecQ.ne', mul_comm]
    exact_mod_cast hunder
  rw [Fills, ge_iff_le, not_le]
  generalize product (quotient capUtok (perSec * utok : Int)) utok = full at hnear ⊢
  linarith

end

/-! ### The stamp -/

theorem advanceUs_bounds (hperSec : 0 < perSec ∧ perSec ≤ 100000) (hadd : 0 < add)
    (hsmall : add < 2 ^ 51) :
    add - 1 < advanceUs (perSec * utok) add * perSec ∧
      (advanceUs (perSec * utok) add - 1) * perSec < add + 1 := by
  have hperSecQ : (0 : ℚ) < perSec := by exact_mod_cast hperSec.1
  have hnear := abs_lt.mp (abs_advance_sub_lt hperSec hadd hsmall)
  have hceil := Int.le_ceil (quotient (product add utok) (perSec * utok : Int))
  have hfloor := Int.ceil_lt_add_one (quotient (product add utok) (perSec * utok : Int))
  rw [← advanceUs] at hceil hfloor
  generalize quotient (product add utok) (perSec * utok : Int) = advance at hnear hceil hfloor
  have hlow : ((add - 1 : Int) : ℚ) / perSec < advanceUs (perSec * utok) add := by
    rw [Int.cast_sub, Int.cast_one, sub_div]
    linarith
  have hhigh : ((advanceUs (perSec * utok) add - 1 : Int) : ℚ) < (add + 1 : Int) / perSec := by
    rw [Int.cast_sub, Int.cast_add, Int.cast_one, add_div]
    linarith
  rw [div_lt_iff₀ hperSecQ] at hlow
  rw [lt_div_iff₀ hperSecQ] at hhigh
  exact ⟨by exact_mod_cast hlow, by exact_mod_cast hhigh⟩

/-- At a token a second the product of a long time does not fall short: the last places of the quotient
and of the product are too close. -/
theorem not_fallsShort_of_long (hlong : 550000000000 ≤ elapsed) (hcap : elapsed ≤ 1000000000000) :
    ¬ FallsShort 1 elapsed := by
  have hlow : (550000000000 : ℚ) ≤ elapsed := by exact_mod_cast hlong
  have hhigh : (elapsed : ℚ) ≤ 1000000000000 := by exact_mod_cast hcap
  have hquotient := abs_le.mp (Double.abs_round_sub_le ((elapsed : ℚ) / utok))
  have hplace : Double.exponent ((elapsed : ℚ) / utok) = -33 := by
    refine Double.exponent_eq (k := 19) (by decide) ?_ ?_ <;> norm_num [utok] <;> linarith
  rw [hplace] at hquotient
  have hproduct : (elapsed : ℚ) - 1 / 2 ^ 14 < Double.round ((elapsed : ℚ) / utok) * utok ∧
      Double.round ((elapsed : ℚ) / utok) * utok ≤ elapsed + 1 := by
    norm_num [utok] at hquotient ⊢
    constructor <;> linarith
  have hlast : Double.exponent (Double.round ((elapsed : ℚ) / utok) * utok) = -13 := by
    refine Double.exponent_eq (k := 39) (by decide) ?_ ?_ <;> norm_num at hproduct ⊢ <;> linarith
  have hround := Double.multiple_le_round_of_near (n := elapsed * 2 ^ 13)
    (q := Double.round ((elapsed : ℚ) / utok) * utok) (by
      rw [hlast]
      norm_num at hproduct ⊢
      linarith)
  rw [hlast] at hround
  have hreached : (elapsed : ℚ) ≤ Double.round (Double.round ((elapsed : ℚ) / utok) * utok) := by
    norm_num at hround ⊢
    linarith
  rw [FallsShort, not_lt, one_mul, one_mul]
  exact hreached

/-- At a token a second the stamp is left behind by the microsecond that is not credited. -/
theorem advanceUs_of_fallsShort (hcap : elapsed ≤ 1000000000000) (hpos : 0 < elapsed)
    (hshort : FallsShort 1 elapsed) : advanceUs (1 * utok) (elapsed - 1) = elapsed - 1 := by
  have hsoon : elapsed < 550000000000 := by
    by_contra hlong
    exact not_fallsShort_of_long (not_lt.mp hlong) hcap hshort
  have hexact : product (elapsed - 1 : Int) utok = ((elapsed - 1 : Int) : ℚ) * utok := by
    rcases (show 0 ≤ elapsed - 1 by omega).eq_or_lt with hnone | hmore
    · rw [← hnone, Int.cast_zero, zero_mul, product, zero_mul]
      exact Double.round_zero
    · have hshift : ((elapsed - 1 : Int) : ℚ) * utok =
          ((elapsed - 1) * 15625 : Int) * 2 ^ (6 : ℤ) := by
        norm_num [utok]
        ring
      rw [product, hshift]
      exact Double.round_of_short (by omega) (by omega) (by decide)
  have hutok : (utok : ℚ) ≠ 0 := by exact_mod_cast utok_pos.ne'
  rw [advanceUs, hexact, one_mul, quotient, mul_div_cancel_right₀ _ hutok]
  show ⌈Double.round _⌉ = _
  rw [Double.round_intCast (by omega) (by omega), Int.ceil_intCast]

/-- Where the stamp goes when a stretch of time is credited. -/
structure Advances (perSec elapsed advance : Int) : Prop where
  low : elapsed - 1 ≤ advance
  high : advance ≤ elapsed + 1
  short : FallsShort perSec elapsed → advance ≤ elapsed
  fast : 1 < perSec ∨ ¬ FallsShort perSec elapsed → elapsed ≤ advance
  slow : perSec = 1 → FallsShort perSec elapsed → advance = elapsed - 1

theorem advances_credited (hperSec : 0 < perSec ∧ perSec ≤ 100000) (helapsed : 0 < elapsed)
    (hsmall : perSec * elapsed ≤ 1000000000000) :
    Advances perSec elapsed (advanceUs (perSec * utok) (creditedUtok perSec elapsed)) := by
  have hslow : perSec = 1 → FallsShort perSec elapsed →
      advanceUs (perSec * utok) (creditedUtok perSec elapsed) = elapsed - 1 := by
    rintro rfl hshort
    rw [creditedUtok, if_pos hshort, one_mul elapsed]
    exact advanceUs_of_fallsShort (by omega) helapsed hshort
  have hpos := creditedUtok_pos hperSec.1 helapsed
  have hle := creditedUtok_le perSec elapsed
  obtain ⟨hlow, hhigh⟩ := advanceUs_bounds hperSec hpos (by omega)
  generalize advanceUs (perSec * utok) (creditedUtok perSec elapsed) = advance at hlow hhigh hslow
  have hafter {n : Int} (hn : n < advance) : n * perSec ≤ (advance - 1) * perSec :=
    mul_le_mul_of_nonneg_right (by omega) hperSec.1.le
  have hbefore {n : Int} (hn : advance < n) : advance * perSec ≤ (n - 1) * perSec :=
    mul_le_mul_of_nonneg_right (by omega) hperSec.1.le
  have hworth : elapsed * perSec = perSec * elapsed := mul_comm ..
  have hless : (elapsed - 1) * perSec = perSec * elapsed - perSec := by ring
  have hleast : (elapsed - 1 - 1) * perSec = perSec * elapsed - 2 * perSec := by ring
  have hmore : (elapsed + 1) * perSec = perSec * elapsed + perSec := by ring
  unfold creditedUtok at hlow hhigh
  refine ⟨?_, ?_, fun hshort => ?_, fun hfast => ?_, hslow⟩
  · by_contra hearly
    have hprod := hbefore (not_le.mp hearly)
    split at hlow <;> omega
  · by_contra hlate
    have hprod := hafter (not_le.mp hlate)
    split at hhigh <;> omega
  · by_contra hlate
    have hprod := hafter (not_le.mp hlate)
    rw [if_pos hshort] at hhigh
    omega
  · by_contra hearly
    have hprod := hbefore (not_le.mp hearly)
    by_cases hshort : FallsShort perSec elapsed
    · have := hfast.resolve_right (not_not_intro hshort)
      rw [if_pos hshort] at hlow
      omega
    · rw [if_neg hshort] at hlow
      omega

/-! ### The refill -/

/-- A capacity and a rate within the schema bounds. -/
structure BurstBounds (capUtok perSec : Int) : Prop where
  cap : 0 < capUtok ∧ capUtok ≤ 1000000000000
  perSec : 0 < perSec ∧ perSec ≤ 100000

/-- What the refill of a stored bucket can do. -/
inductive RefilledNear (capUtok perSec nowUs tokens ts : Int) : Int × Int → Prop
  | still (hstill : elapsedUs nowUs ts = 0) : RefilledNear capUtok perSec nowUs tokens ts (tokens, ts)
  | full (hpos : 0 < elapsedUs nowUs ts)
      (hfull : Fills capUtok (perSec * utok) (elapsedUs nowUs ts) ∨
        capUtok ≤ tokens + creditedUtok perSec (elapsedUs nowUs ts)) :
      RefilledNear capUtok perSec nowUs tokens ts (capUtok, nowUs)
  | credited (advance : Int) (hpos : 0 < elapsedUs nowUs ts)
      (hpartly : ¬ Fills capUtok (perSec * utok) (elapsedUs nowUs ts))
      (hroom : tokens + creditedUtok perSec (elapsedUs nowUs ts) < capUtok)
      (hadvance : Advances perSec (elapsedUs nowUs ts) advance) :
      RefilledNear capUtok perSec nowUs tokens ts
        (tokens + creditedUtok perSec (elapsedUs nowUs ts), ts + advance)

/-- A rate of whole tokens a second, within the schema bounds. -/
def Argv.WholeRate (argv : Argv) : Prop :=
  ∃ perSec, argv.rateUtok = perSec * utok ∧ BurstBounds argv.capUtok perSec

/-- Time that does not fill the bucket is worth no more than its capacity. -/
theorem BurstBounds.worth_le (h : BurstBounds capUtok perSec)
    (hpartly : ¬ Fills capUtok (perSec * utok) elapsed) : perSec * elapsed ≤ capUtok := by
  have hcap := h.cap
  by_contra hover
  exact hpartly (fills_of_lt h.perSec hcap.1 (by omega) (not_le.mp hover))

theorem BurstBounds.le_worth (h : BurstBounds capUtok perSec)
    (hfull : Fills capUtok (perSec * utok) elapsed) : capUtok ≤ perSec * elapsed := by
  have hcap := h.cap
  by_contra hunder
  exact not_fills_of_lt h.perSec hcap.1 (by omega) (not_le.mp hunder) hfull

theorem refilledNear_refill (h : BurstBounds capUtok perSec) (nowUs tokens ts : Int) :
    RefilledNear capUtok perSec nowUs tokens ts
      (refill capUtok (perSec * utok) nowUs (some (tokens, ts))) := by
  have hcap := h.cap
  rw [refill_some]
  dsimp only
  by_cases hfull : Fills capUtok (perSec * utok) (elapsedUs nowUs ts)
  · rw [if_pos hfull]
    refine .full ?_ (.inl hfull)
    have hworth := h.le_worth hfull
    exact pos_of_mul_pos_right (by omega) h.perSec.1.le
  rw [if_neg hfull]
  have hworth := h.worth_le hfull
  rw [creditUtok_eq h.perSec (elapsedUs_nonneg nowUs ts) (by omega)]
  rcases (elapsedUs_nonneg nowUs ts).eq_or_lt with hstill | hpos
  · have hnone : creditedUtok perSec (elapsedUs nowUs ts) ≤ 0 := by
      have hnothing := creditedUtok_le perSec 0
      rw [mul_zero] at hnothing
      rwa [← hstill]
    rw [if_neg (not_lt.mpr hnone)]
    exact .still hstill.symm
  · rw [if_pos (creditedUtok_pos h.perSec.1 hpos)]
    by_cases hroom : tokens + creditedUtok perSec (elapsedUs nowUs ts) ≥ capUtok
    · rw [if_pos hroom]
      exact .full hpos (.inr hroom)
    · rw [if_neg hroom]
      exact .credited _ hpos hfull (not_le.mp hroom) (advances_credited h.perSec hpos (by omega))

theorem refill_full (h : BurstBounds capUtok perSec) (tokens : Int)
    (hfull : capUtok < perSec * elapsedUs nowUs ts) :
    refill capUtok (perSec * utok) nowUs (some (tokens, ts)) = (capUtok, nowUs) := by
  have hcap := h.cap
  rw [refill_some]
  dsimp only
  rw [if_pos (fills_of_lt h.perSec hcap.1 (by omega) hfull)]

namespace RefilledNear

variable {out : Int × Int}

theorem stamp_ge (h : RefilledNear capUtok perSec nowUs tokens ts out) : min ts nowUs ≤ out.2 := by
  cases h with
  | still => exact min_le_left _ _
  | full => exact min_le_right _ _
  | credited advance hpos _ _ hadvance =>
      have hlow := hadvance.low
      have hleft := min_le_left ts nowUs
      simp only
      omega

/-- The stamp is at most a microsecond ahead of the clock. -/
theorem stamp_le (h : RefilledNear capUtok perSec nowUs tokens ts out) :
    out.2 ≤ max ts (nowUs + 1) := by
  cases h with
  | still => exact le_max_left _ _
  | full => exact le_max_of_le_right (by omega)
  | credited advance hpos _ _ hadvance =>
      have hhigh := hadvance.high
      rw [elapsedUs_of_pos hpos] at hhigh
      exact le_max_of_le_right (by omega)

end RefilledNear

/-- The microtoken that the product loses is missing from the bucket. -/
def LosesMicrotoken (capUtok perSec elapsed tokens : Int) : Prop :=
  FallsShort perSec elapsed ∧ ¬ Fills capUtok (perSec * utok) elapsed ∧
    tokens + perSec * elapsed ≤ capUtok

instance (capUtok perSec elapsed tokens : Int) :
    Decidable (LosesMicrotoken capUtok perSec elapsed tokens) :=
  inferInstanceAs (Decidable (_ ∧ _ ∧ _))

/-- A bucket that is refilled to its capacity loses nothing. -/
theorem not_loses_of_full (hfull : Fills capUtok (perSec * utok) elapsed ∨
    capUtok ≤ tokens + creditedUtok perSec elapsed) :
    ¬ LosesMicrotoken capUtok perSec elapsed tokens := by
  rintro ⟨hshort, hpartly, hover⟩
  have hroom := hfull.resolve_left hpartly
  rw [creditedUtok, if_pos hshort] at hroom
  omega

/-- **The refill in doubles against the exact one.** From the same bucket it reaches the same level, or
one microtoken less. -/
theorem refill_level (h : BurstBounds capUtok perSec) (nowUs ts : Int) (htokens : 0 ≤ tokens) :
    (refill capUtok (perSec * utok) nowUs (some (tokens, ts))).1 =
      (@refill .exact capUtok (perSec * utok) nowUs (some (tokens, ts))).1 -
        if LosesMicrotoken capUtok perSec (elapsedUs nowUs ts) tokens then 1 else 0 := by
  have hcases := refilledNear_refill h nowUs tokens ts
  generalize refill capUtok (perSec * utok) nowUs (some (tokens, ts)) = out at hcases
  cases hcases with
  | still hstill =>
      have hkept : ¬ LosesMicrotoken capUtok perSec (elapsedUs nowUs ts) tokens := fun hloses =>
        not_fallsShort_zero perSec (hstill ▸ hloses.1)
      rw [refill_still h.perSec.1 h.cap.1 hstill, if_neg hkept, sub_zero]
  | full hpos hfull =>
      have hworth : capUtok ≤ tokens + perSec * elapsedUs nowUs ts := by
        rcases hfull with hfills | hroom
        · have := h.le_worth hfills
          omega
        · have := creditedUtok_le perSec (elapsedUs nowUs ts)
          omega
      have hkept := not_loses_of_full hfull
      rw [refill_later h.perSec.1 hpos htokens, if_neg hkept, sub_zero, min_eq_left hworth]
  | credited advance hpos hpartly hroom =>
      rw [refill_later h.perSec.1 hpos htokens]
      unfold creditedUtok at hroom ⊢
      by_cases hshort : FallsShort perSec (elapsedUs nowUs ts)
      · rw [if_pos hshort] at hroom ⊢
        have hover : tokens + perSec * elapsedUs nowUs ts ≤ capUtok := by omega
        rw [if_pos ⟨hshort, hpartly, hover⟩, min_eq_right hover]
        exact (add_sub_assoc ..).symm
      · rw [if_neg hshort] at hroom ⊢
        rw [if_neg fun hloses => hshort hloses.1, min_eq_right (by omega), sub_zero, sub_zero]

/-! ### Refilling again -/

section

variable {out : Int × Int}

/-- Time is left over only where a microtoken is lost at a token a second, and then a microsecond. -/
theorem RefilledNear.left_eq (hnear : RefilledNear capUtok perSec nowUs tokens ts out)
    (hperSec : 0 < perSec) :
    elapsedUs nowUs out.2 =
      if perSec = 1 ∧ LosesMicrotoken capUtok perSec (elapsedUs nowUs ts) tokens then 1 else 0 := by
  cases hnear with
  | still hstill =>
      rw [hstill, if_neg fun hloses => not_fallsShort_zero perSec hloses.2.1]
  | full hpos hfull =>
      rw [elapsedUs_of_le le_rfl, sub_self, if_neg fun hloses => not_loses_of_full hfull hloses.2]
  | credited advance hpos hpartly hroom hadvance =>
      have hsplit := elapsedUs_of_pos hpos
      by_cases hslow : perSec = 1 ∧ FallsShort perSec (elapsedUs nowUs ts)
      · have hbehind := hadvance.slow hslow.1 hslow.2
        rw [creditedUtok, if_pos hslow.2] at hroom
        rw [if_pos ⟨hslow.1, hslow.2, hpartly, by omega⟩, elapsedUs_of_le (by omega)]
        omega
      · have hfast := hadvance.fast (by
          by_cases hone : perSec = 1
          · exact .inr fun hshort => hslow ⟨hone, hshort⟩
          · exact .inl (by omega))
        rw [if_neg fun hloses => hslow ⟨hloses.1, hloses.2.1⟩, elapsedUs_of_ge (by simp only; omega)]

/-- Where time is left over the bucket is not full, and not empty. -/
theorem RefilledNear.room_of_left (hnear : RefilledNear capUtok perSec nowUs tokens ts out)
    (hperSec : 0 < perSec) (htokens : 0 ≤ tokens) (hleft : elapsedUs nowUs out.2 ≠ 0) :
    0 < out.1 ∧ out.1 < capUtok := by
  cases hnear with
  | still hstill => exact absurd hstill hleft
  | full => exact absurd (elapsedUs_of_ge le_rfl) hleft
  | credited advance hpos hpartly hroom =>
      exact ⟨Int.add_pos_of_nonneg_of_pos htokens (creditedUtok_pos hperSec hpos), hroom⟩

/-- Taking the level down and refilling at the same reading credits what was left over, and leaves
nothing. -/
theorem refill_again (h : BurstBounds capUtok perSec)
    (hnear : RefilledNear capUtok perSec nowUs tokens ts out) (htokens : 0 ≤ tokens) {level : Int}
    (hlevel : level ≤ out.1) :
    (refill capUtok (perSec * utok) nowUs (some (level, out.2))).1 =
        level + elapsedUs nowUs out.2 ∧
      elapsedUs nowUs (refill capUtok (perSec * utok) nowUs (some (level, out.2))).2 = 0 := by
  have hagain := refilledNear_refill h nowUs level out.2
  have hleft := hagain.left_eq h.perSec.1
  by_cases hstill : elapsedUs nowUs out.2 = 0
  · rw [if_neg fun hloses => not_fallsShort_zero perSec (hstill ▸ hloses.2.1)] at hleft
    refine ⟨?_, hleft⟩
    generalize refill capUtok (perSec * utok) nowUs (some (level, out.2)) = again at hagain
    cases hagain with
    | still => rw [hstill, add_zero]
    | full hpos => exact absurd hstill hpos.ne'
    | credited advance hpos => exact absurd hstill hpos.ne'
  · obtain ⟨hsome, hroom⟩ := hnear.room_of_left h.perSec.1 htokens hstill
    have hone : perSec = 1 ∧ elapsedUs nowUs out.2 = 1 := by
      have hbehind := hnear.left_eq h.perSec.1
      split at hbehind
      · rename_i hslow
        exact ⟨hslow.1, hbehind⟩
      · exact absurd hbehind hstill
    obtain ⟨rfl, hbehind⟩ := hone
    have hexact : ¬ FallsShort 1 (elapsedUs nowUs out.2) := by
      rw [hbehind]
      decide +kernel
    have hcredit : creditedUtok 1 (elapsedUs nowUs out.2) = 1 := by
      rw [creditedUtok, if_neg hexact, hbehind, mul_one, sub_zero]
    rw [if_neg fun hloses => hexact hloses.2.1] at hleft
    refine ⟨?_, hleft⟩
    rw [hbehind]
    generalize refill capUtok (1 * utok) nowUs (some (level, out.2)) = again at hagain
    cases hagain with
    | still hstill' => exact absurd hstill' hstill
    | full hpos hfull =>
        rcases hfull with hfills | hfull
        · have hworth := h.le_worth hfills
          omega
        · simp only
          omega
    | credited => rw [hcredit]

end

end QuotaGuard
