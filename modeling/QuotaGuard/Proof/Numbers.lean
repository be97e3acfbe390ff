import QuotaGuard.Lua.Numbers
import QuotaGuard.Proof.Admin
import QuotaGuard.Proof.Stored

/-!
# Exact arithmetic

A Lua number is exact for integers below 2^53, and the schema bounds are there to keep every
intermediate result in that range. They do so with one exception: the refill multiplies the credited
microtokens once more by a million to find the time they are worth, and that product passes 2^53 when a
single refill credits more than some nine thousand tokens.
-/

namespace QuotaGuard

open Logged CheckStep Arithmetic

/-- A Lua number that is an integer is smaller than 2^53 in absolute value. -/
abbrev Exact : ℚ → Prop := IntegerWithin 9007199254740992

/-- The years 2020 to 2100. -/
def Time.InCentury (t : Time) : Prop := 1577836800 ≤ t.sec ∧ t.sec < 4133980800

theorem Time.InCentury.us {t : Time} (h : t.InCentury) : 0 ≤ t.us ∧ t.us < 4133980800000000 := by
  have husec := t.usec_lt
  unfold Time.InCentury at h
  simp only [Time.us, utok]
  omega

/-- The arguments of a check whose limits are within the schema bounds, for up to a thousand
requests. -/
structure Argv.Sane (argv : Argv) : Prop where
  capUtok : 0 < argv.capUtok ∧ argv.capUtok ≤ 1000000000000
  rateUtok : ∃ perSec, argv.rateUtok = perSec * utok ∧ 0 < perSec ∧ perSec ≤ 100000
  sustainedLimit : 1 ≤ argv.sustainedLimit ∧ argv.sustainedLimit ≤ 1000000
  windowUs : 0 < argv.windowUs ∧ argv.windowUs ≤ 86400000000
  quotaHard : 1 ≤ argv.quotaHard ∧ argv.quotaHard ≤ 1000000000000
  quotaSoft : 0 ≤ argv.quotaSoft ∧ argv.quotaSoft ≤ 1000000000000
  cost : 0 ≤ argv.cost ∧ argv.cost ≤ 1000

theorem Argv.Sane.wholeRate {argv : Argv} (h : argv.Sane) : argv.WholeRate := by
  obtain ⟨perSec, hrate, hperSec⟩ := h.rateUtok
  exact ⟨perSec, hrate, h.capUtok, hperSec⟩

theorem Call.MarshalledFor.sane {c : Call} {limits : ResolvedKey} (hc : c.MarshalledFor limits)
    (hlimits : limits.WithinBounds) (hcost : c.argv.cost ≤ 1000) : c.argv.Sane where
  capUtok := by
    have hcap := hlimits.burstCapacity
    rw [hc.cap_eq, utok]
    omega
  rateUtok := by
    have hrefill := hlimits.burstRefillPerSec
    exact ⟨limits.burstRefillPerSec, hc.rate_eq, by omega, hrefill.2⟩
  sustainedLimit := by
    rw [hc.argv_eq]
    exact hlimits.sustainedLimit
  windowUs := by
    have hwindow := hlimits.sustainedWindowSeconds
    rw [hc.window_eq, utok]
    omega
  quotaHard := by
    rw [hc.argv_eq]
    exact hlimits.monthlyQuota
  quotaSoft := by
    have hquota := hlimits.monthlyQuota
    have hpct := hlimits.quotaSoftPct
    have hlow : 0 ≤ limits.monthlyQuota * limits.quotaSoftPct := mul_nonneg (by omega) hpct.1
    have hhigh : limits.monthlyQuota * limits.quotaSoftPct ≤ limits.monthlyQuota * 100 :=
      mul_le_mul_of_nonneg_left hpct.2 (by omega)
    rw [hc.argv_eq]
    show 0 ≤ (if limits.quotaSoftPct > 0 then _ else _) ∧ (if limits.quotaSoftPct > 0 then _ else _) ≤ _
    split <;> omega
  cost := ⟨hc.cost_nonneg, hcost⟩

namespace Numbers

/-! ### The clock -/

theorem civilFromDays_exact {days : Int} (hlow : 0 ≤ days) (hhigh : days ≤ 100000) :
    (civilFromDays days).Every Exact := by
  simp (disch := omega) only [civilFromDays, every_bind, every_int, every_pure, value_int,
    value_assignIf, value_floorDiv, IntegerWithin.int_iff, IntegerWithin.floorDiv, true_and, and_true]
  and_intros
  all_goals first
    | omega
    | exact IntegerWithin.assignIf (by omega) (by omega)

theorem daysFromCivil_exact {y m : Int} (hy : 0 ≤ y ∧ y ≤ 10000) (hm : 1 ≤ m ∧ m ≤ 12) :
    (daysFromCivil y m 1).Every Exact := by
  simp (disch := omega) only [daysFromCivil, every_bind, every_int, value_int, value_assignIf,
    value_floorDiv, IntegerWithin.int_iff, IntegerWithin.floorDiv, IntegerWithin.assignIf, true_and]
  and_intros <;> omega

theorem daysFromCivil_bounds {y m : Int} (hy : 0 ≤ y ∧ y ≤ 10000) (hm : 1 ≤ m ∧ m ≤ 12) :
    -1000000 ≤ QuotaGuard.daysFromCivil y m 1 ∧ QuotaGuard.daysFromCivil y m 1 ≤ 4000000 := by
  unfold QuotaGuard.daysFromCivil
  simp only
  omega

theorem civilFromDays_bounds {days : Int} (hlow : 0 ≤ days) (hhigh : days ≤ 100000) :
    0 ≤ (QuotaGuard.civilFromDays days).1 ∧ (QuotaGuard.civilFromDays days).1 < 10000 ∧
      1 ≤ (QuotaGuard.civilFromDays days).2.1 ∧ (QuotaGuard.civilFromDays days).2.1 ≤ 12 := by
  obtain ⟨hmonth, hmonth'⟩ := civil_month_bounds days
  refine ⟨le_trans (by decide) (civil_year_pos hlow), ?_, hmonth, hmonth'⟩
  unfold QuotaGuard.civilFromDays
  simp only
  omega

theorem nextMonth_bounds {year month : Int} (hyear : 0 ≤ year ∧ year < 10000)
    (hmonth : 1 ≤ month ∧ month ≤ 12) :
    (0 ≤ (QuotaGuard.nextMonth year month).1 ∧ (QuotaGuard.nextMonth year month).1 ≤ 10000) ∧
      1 ≤ (QuotaGuard.nextMonth year month).2 ∧ (QuotaGuard.nextMonth year month).2 ≤ 12 := by
  unfold QuotaGuard.nextMonth
  split
  · constructor <;> omega
  · constructor <;> omega

theorem nextMonth_exact {year month : Int} (hyear : 0 ≤ year ∧ year < 10000)
    (hmonth : 1 ≤ month ∧ month ≤ 12) : (nextMonth year month).Every Exact := by
  simp (disch := omega) only [nextMonth, every_bind, every_int, every_pure, IntegerWithin.int_iff,
    and_true]
  exact ⟨by omega, IntegerWithin.assignIf (by omega) (by omega)⟩

theorem civil_bounds {now : Time} (hnow : now.InCentury) :
    (0 ≤ now.civil.1 ∧ now.civil.1 < 10000) ∧ 1 ≤ now.civil.2.1 ∧ now.civil.2.1 ≤ 12 := by
  unfold Time.InCentury at hnow
  have hlow : 0 ≤ (now.sec : Int) / 86400 := by omega
  have hhigh : (now.sec : Int) / 86400 ≤ 100000 := by omega
  obtain ⟨hyear, hyear', hmonth⟩ := civilFromDays_bounds hlow hhigh
  exact ⟨⟨hyear, hyear'⟩, hmonth⟩

theorem monthEnd_bounds {now : Time} (hnow : now.InCentury) :
    -86400000000 ≤ now.monthEnd ∧ now.monthEnd ≤ 345600000000 := by
  obtain ⟨hyear, hmonth⟩ := civil_bounds hnow
  obtain ⟨hnext, hnext'⟩ := nextMonth_bounds hyear hmonth
  have hdays := daysFromCivil_bounds hnext hnext'
  unfold Time.monthEnd monthEndOf
  omega

theorem clock_exact {now : Time} (hnow : now.InCentury) : (clock now).Every Exact := by
  obtain ⟨hyear, hmonth⟩ := civil_bounds hnow
  obtain ⟨hnext, hnext'⟩ := nextMonth_bounds hyear hmonth
  have hend := monthEnd_bounds hnow
  have husec := now.usec_lt
  have hus := hnow.us
  have hcivil : (civilFromDays ((now.sec : Int) / 86400)).Every Exact := by
    unfold Time.InCentury at hnow
    exact civilFromDays_exact (by omega) (by omega)
  have hlater : (nextMonth now.civil.1 now.civil.2.1).Every Exact := nextMonth_exact hyear hmonth
  have hdays := daysFromCivil_exact hnext hnext'
  unfold Time.InCentury at hnow
  simp only [clock, every_bind, every_int, every_pure, value_int, value_floorDiv, civilFromDays_value,
    nextMonth_value, daysFromCivil_value, IntegerWithin.int_iff, and_true]
  refine ⟨by omega, ?_, by omega, ?_, IntegerWithin.floorDiv (by decide) (by omega) (by omega) le_rfl,
    hcivil, hlater, hdays, ?_⟩
  · simp only [utok]
    omega
  · simp only [utok]
    omega
  · show -9007199254740992 < now.monthEnd ∧ now.monthEnd < 9007199254740992
    omega

/-! ### The refill -/

section Refill

variable {capUtok perSec nowUs tokens ts : Int}

theorem exact_of_abs_lt {v : ℚ} (h : |v| < 9007199254740992) : Exact v := by
  rintro n rfl
  have hbounds := abs_lt.mp h
  exact ⟨by exact_mod_cast hbounds.1, by exact_mod_cast hbounds.2⟩

theorem quotient_exact {a b : Int} (hb : 0 < b ∧ b ≤ 9007199254740992) (hlow : -9007199254740992 < a)
    (hhigh : a < 9007199254740992) : Exact (quotient a b) :=
  IntegerWithin.div hb hlow hhigh le_rfl

/-- The product of the credited microtokens and a million is the one number that may be too large. -/
theorem product_exact_iff {add : Int} (hadd : 0 ≤ add) :
    Exact (product add utok) ↔ add * utok < 9007199254740992 := by
  have hvalue : product add utok = Double.round (add * utok : Int) := by
    rw [Int.cast_mul]
    rfl
  have hnonneg : 0 ≤ add * utok := mul_nonneg hadd utok_pos.le
  rw [hvalue]
  constructor
  · intro hexact
    by_contra hnot
    have hlarge : 2 ^ 53 ≤ add * utok := by omega
    have hround := (Double.le_round_intCast_iff hnonneg).mpr hlarge
    obtain ⟨n, hn⟩ := Double.exists_intCast_eq_round (q := (add * utok : Int))
      (le_trans (by norm_num) (show (2 ^ 53 : ℚ) ≤ (add * utok : Int) by exact_mod_cast hlarge))
    have hless := (hexact n hn).2
    rw [hn] at hround
    have hmore : 2 ^ 53 ≤ n := by exact_mod_cast hround
    omega
  · intro hsmall
    rw [Double.round_intCast (by omega) (by omega)]
    exact IntegerWithin.int_iff.mpr ⟨by omega, hsmall⟩

theorem advance_exact_iff (h : BurstBounds capUtok perSec) {add : Int} (hadd : 0 < add)
    (hsmall : add ≤ 1000000000000) (hts : 0 ≤ ts)
    (hadvance : 0 ≤ advanceUs (perSec * utok) add)
    (hstamp : ts + advanceUs (perSec * utok) add < 9007199254740992) :
    (advance capUtok (perSec * utok) nowUs ts add tokens).Every Exact ↔
      (tokens < capUtok → add * utok < 9007199254740992) := by
  unfold advance
  split
  · rename_i hfull
    exact ⟨fun _ hshort => absurd hfull (not_le.mpr hshort), fun _ => every_pure _⟩
  · rename_i hshort
    have hnear := abs_lt.mp (abs_advance_sub_lt h.perSec hadd (by omega))
    have hperSec : (1 : ℚ) ≤ perSec := by exact_mod_cast h.perSec.1
    have hless : (1 : ℚ) / perSec ≤ 1 := (div_le_one (by linarith)).mpr hperSec
    have hworth : 0 ≤ (add : ℚ) / perSec ∧ (add : ℚ) / perSec ≤ 1000000000000 := by
      have haddQ : (0 : ℚ) ≤ add := by exact_mod_cast hadd.le
      have hcapQ : (add : ℚ) ≤ 1000000000000 := by exact_mod_cast hsmall
      exact ⟨div_nonneg haddQ (by linarith), (div_le_self haddQ hperSec).trans hcapQ⟩
    have hquotient : Exact (quotient (product add utok) (perSec * utok : Int)) := by
      apply exact_of_abs_lt
      generalize quotient (product add utok) (perSec * utok : Int) = spent at hnear ⊢
      rw [abs_lt]
      constructor <;> linarith
    have hspent : ⌈quotient (product add utok) (perSec * utok : Int)⌉ =
        advanceUs (perSec * utok) add := rfl
    simp only [every_bind, every_rat, every_int, every_pure, value_rat, value_int, hspent,
      product_exact_iff hadd.le, hquotient, IntegerWithin.int_iff, true_and, and_true]
    constructor
    · intro hexact _
      exact hexact.1
    · intro hroom
      exact ⟨hroom (not_le.mp hshort), by omega, by omega⟩

/-- The product that is credited is below the bound as long as the time is not worth the capacity. -/
theorem credit_product_exact (h : BurstBounds capUtok perSec) {elapsed : Int} (helapsed : 0 ≤ elapsed)
    (hworth : perSec * elapsed ≤ capUtok) :
    Exact (product (quotient elapsed utok) (perSec * utok : Int)) := by
  have hnonneg : 0 ≤ perSec * elapsed := mul_nonneg h.perSec.1.le helapsed
  have hcap := h.cap.2
  apply exact_of_abs_lt
  rcases helapsed.eq_or_lt with rfl | hpos
  · rw [product_zero]
    norm_num
  · have hnear := abs_lt.mp (abs_credit_sub_lt h.perSec hpos (by omega))
    have hbounds : (0 : ℚ) ≤ (perSec * elapsed : Int) ∧
        ((perSec * elapsed : Int) : ℚ) ≤ 1000000000000 :=
      ⟨by exact_mod_cast hnonneg, by exact_mod_cast hworth.trans hcap⟩
    generalize product (quotient elapsed utok) (perSec * utok : Int) = credited at hnear ⊢
    rw [abs_lt]
    constructor <;> linarith

theorem refillShort_exact_iff (h : BurstBounds capUtok perSec)
    (htokens : 0 ≤ tokens ∧ tokens ≤ 1000000000000) (hts : 0 ≤ ts) {elapsed : Int}
    (helapsed : 0 ≤ elapsed) (hnow : ts + elapsed + 1 < 9007199254740992) :
    (refillShort capUtok (perSec * utok) nowUs tokens ts elapsed
        (product (quotient capUtok (perSec * utok : Int)) utok)).Every Exact ↔
      (0 < elapsed → ¬ Fills capUtok (perSec * utok) elapsed →
        tokens + creditedUtok perSec elapsed < capUtok →
        creditedUtok perSec elapsed * utok < 9007199254740992) := by
  have hcap := h.cap
  unfold refillShort
  split
  · rename_i hfull
    exact ⟨fun _ _ hnot => absurd hfull hnot, fun _ => every_pure _⟩
  · rename_i hpartly
    have hworth := h.worth_le hpartly
    have hadd : ⌊product (quotient elapsed utok) (perSec * utok : Int)⌋ =
        creditedUtok perSec elapsed := creditUtok_eq h.perSec helapsed (by omega)
    have hnonneg : 0 ≤ perSec * elapsed := mul_nonneg h.perSec.1.le helapsed
    have hlow := le_creditedUtok perSec elapsed
    have hhigh := creditedUtok_le perSec elapsed
    have hquotient : Exact (quotient elapsed utok) :=
      quotient_exact ⟨utok_pos, by decide⟩ (by omega) (by omega)
    have hproduct : Exact (product (quotient elapsed utok) (perSec * utok : Int)) :=
      credit_product_exact h helapsed hworth
    simp only [every_bind, every_rat, every_int, value_rat, value_int, hadd, hquotient, hproduct,
      IntegerWithin.int_iff, true_and]
    unfold credit
    split
    · rename_i hcredited
      have hpos : 0 < elapsed := pos_of_mul_pos_right (by omega) h.perSec.1.le
      have hadvances := advances_credited h.perSec hpos (by omega)
      have hbehind := hadvances.low
      have hahead := hadvances.high
      simp only [every_bind, every_int, value_int, IntegerWithin.int_iff]
      rw [advance_exact_iff h hcredited (by omega) hts (by omega) (by omega)]
      exact ⟨fun hexact _ _ hroom => hexact.2.2 hroom,
        fun hexact => ⟨by omega, by omega, hexact hpos hpartly⟩⟩
    · rename_i hnone
      refine iff_of_true ⟨by omega, every_pure _⟩ fun hpos => ?_
      exact absurd (creditedUtok_pos h.perSec.1 hpos) hnone

theorem refill_exact_iff (h : BurstBounds capUtok perSec)
    (hnow : 0 ≤ nowUs ∧ nowUs < 9007199254740991)
    (htokens : 0 ≤ tokens ∧ tokens ≤ 1000000000000) (hts : 0 ≤ ts ∧ ts < 9007199254740991) :
    (refill capUtok (perSec * utok) nowUs (some (tokens, ts))).Every Exact ↔
      (ts < nowUs → ¬ Fills capUtok (perSec * utok) (nowUs - ts) →
        tokens + creditedUtok perSec (nowUs - ts) < capUtok →
        creditedUtok perSec (nowUs - ts) * utok < 9007199254740992) := by
  obtain ⟨hrate, hrate'⟩ := rateUtok_bounds h.perSec
  have hcap := h.cap
  have hcapQuotient : Exact (quotient capUtok (perSec * utok : Int)) :=
    quotient_exact ⟨hrate, by omega⟩ (by omega) (by omega)
  have hfull : Exact (product (quotient capUtok (perSec * utok : Int)) utok) := by
    have hnear := abs_lt.mp (abs_full_sub_lt h.perSec hcap.1 (by omega))
    have hperSec : (1 : ℚ) ≤ perSec := by exact_mod_cast h.perSec.1
    have hless : (1 : ℚ) / perSec ≤ 1 := (div_le_one (by linarith)).mpr hperSec
    have hcapQ : (0 : ℚ) ≤ capUtok ∧ (capUtok : ℚ) ≤ 1000000000000 :=
      ⟨by exact_mod_cast hcap.1.le, by exact_mod_cast hcap.2⟩
    have hlow : 0 ≤ (capUtok : ℚ) / perSec := div_nonneg hcapQ.1 (by linarith)
    have hhigh := div_le_self hcapQ.1 hperSec
    apply exact_of_abs_lt
    generalize product (quotient capUtok (perSec * utok : Int)) utok = full at hnear ⊢
    rw [abs_lt]
    constructor <;> linarith
  have helapsed : (assignIf (nowUs - ts < 0) 0 (nowUs - ts)).Every Exact :=
    IntegerWithin.assignIf (by decide) (by decide)
  simp only [refill, every_bind, every_int, value_int, IntegerWithin.int_iff]
  simp only [refillStored, every_bind, every_rat, value_rat, value_assignIf]
  rw [refillShort_exact_iff h htokens hts.1 (by split <;> omega) (by split <;> omega)]
  constructor
  · rintro ⟨-, -, -, -, -, -, hexact⟩ hlater hpartly hroom
    rw [if_neg (by omega)] at hexact
    exact hexact (by omega) hpartly hroom
  · intro hexact
    refine ⟨⟨by omega, by omega⟩, ⟨by omega, by omega⟩, ⟨by omega, by omega⟩, helapsed,
      hcapQuotient, hfull, fun hpos hpartly hroom => ?_⟩
    split at hpos
    · omega
    · rename_i hforward
      rw [if_neg hforward] at hpartly hroom ⊢
      exact hexact (by omega) hpartly hroom

end Refill

/-! ### The other steps -/

section Steps

variable {argv : Argv} {now : Time} {v : Verdict} {tokens count used newUsed softCrossed : Int}
  {oldest : Option Int}

theorem arguments_exact (h : argv.Sane) : (arguments argv).Every Exact := by
  obtain ⟨hcap, ⟨perSec, hrate, hperSec⟩, hsustained, hwindow, hquota, hsoft, hcost⟩ := h
  simp only [arguments, every_bind, every_int, every_pure, IntegerWithin.int_iff, hrate, and_true]
  simp only [utok]
  and_intros <;> omega

theorem verdict_exact (h : argv.Sane) (hnow : now.InCentury) (hcount : 0 ≤ count ∧ count ≤ 1000000)
    (hused : 0 ≤ used ∧ used ≤ 1000000000000) :
    (verdict argv now.us tokens count used).Every Exact := by
  have hus := hnow.us
  have hwindow := h.windowUs
  have hcost := h.cost
  simp only [verdict, every_bind, every_int, every_pure, value_int, IntegerWithin.int_iff, and_true]
  simp only [utok]
  and_intros <;> omega

theorem bucketTtl_bounds (h : argv.Sane) :
    0 ≤ ⌈(argv.capUtok : ℚ) / argv.rateUtok⌉ ∧ ⌈(argv.capUtok : ℚ) / argv.rateUtok⌉ ≤ 1000000 := by
  obtain ⟨hcap, ⟨perSec, hrate, hperSec, -⟩, -⟩ := h
  have hpos : 0 < perSec * utok := mul_pos hperSec utok_pos
  have hleast : utok ≤ perSec * utok := le_mul_of_one_le_left utok_pos.le hperSec
  simp only [utok] at hpos hleast
  rw [hrate]
  simp only [utok]
  constructor
  · rw [← Int.sub_one_lt_iff, Rounding.lt_ceil_div_iff hpos]
    omega
  · rw [Rounding.ceil_div_le_iff hpos]
    omega

theorem rate_bounds (h : argv.Sane) : 0 < argv.rateUtok ∧ argv.rateUtok ≤ 9007199254740992 := by
  obtain ⟨perSec, hrate, hperSec⟩ := h.rateUtok
  obtain ⟨hlow, hhigh⟩ := rateUtok_bounds hperSec
  rw [hrate]
  omega

theorem consume_exact (h : argv.Sane) (hnow : now.InCentury)
    (htokens : 0 ≤ tokens ∧ tokens ≤ 1000000000000) (hcount : 0 ≤ count ∧ count ≤ 1000000)
    (hnewUsed : 0 ≤ newUsed ∧ newUsed ≤ 1000000001000) :
    (consume argv now.monthEnd tokens count newUsed softCrossed).Every Exact := by
  have hend := monthEnd_bounds hnow
  have hcost := h.cost
  have hcap := h.capUtok
  have hwindow := h.windowUs
  have hbucket := bucketTtl_bounds h
  have httl := Rounding.ceil_div_within (a := argv.windowUs) (b := 1000) (m := 86400000001)
    (by decide) (by omega) (by omega)
  have hdeadline (c : Prop) [Decidable c] : (assignIf c (now.monthEnd + monthGraceS) 0).Every Exact :=
    IntegerWithin.assignIf (by simp only [monthGraceS]; omega) (by simp only [monthGraceS]; omega)
  simp only [consume, every_bind, every_int, every_pure, value_int, value_ceilDiv,
    IntegerWithin.int_iff, and_true]
  refine ⟨?_, ?_, IntegerWithin.ceilDiv (rate_bounds h) (by omega) (by omega) le_rfl, ?_, ?_,
    IntegerWithin.ceilDiv (by decide) (by omega) (by omega) le_rfl, ?_, ?_, ?_, hdeadline _, hdeadline _⟩
  · simp only [utok]
    omega
  · simp only [utok]
    omega
  all_goals omega

theorem report_exact (h : argv.Sane) (hnow : now.InCentury)
    (htokens : -1000000000 ≤ tokens ∧ tokens ≤ 1000000000000) (hcount : 0 ≤ count ∧ count ≤ 1000001)
    (hnewUsed : 0 ≤ newUsed ∧ newUsed ≤ 1000000001000)
    (holdest : ∀ score, oldest = some score → 0 ≤ score ∧ score < 4133980800000000) :
    (report argv now now.us now.monthEnd v tokens count newUsed softCrossed oldest).Every Exact := by
  have hend := monthEnd_bounds hnow
  have hus := hnow.us
  have hrate := rate_bounds h
  obtain ⟨hcap, -, hsustained, hwindow, hquota, -, hcost⟩ := h
  have hreset : (windowReset argv now.us oldest).Every Exact := by
    cases oldest with
    | none => exact every_pure _
    | some score =>
        have hscore := holdest score rfl
        simp (disch := omega) only [windowReset, every_bind, every_int, value_int,
          IntegerWithin.int_iff]
        exact ⟨by omega, by omega, by omega,
          IntegerWithin.ceilDiv (by decide) (by omega) (by omega) le_rfl⟩
  have hwait : (burstWait argv v tokens).Every Exact := by
    unfold burstWait
    split
    · exact every_pure _
    · simp only [every_bind, every_int, value_int, IntegerWithin.int_iff]
      simp only [utok]
      exact ⟨by omega, by omega, IntegerWithin.ceilDiv hrate (by omega) (by omega) le_rfl⟩
  unfold Time.InCentury at hnow
  simp only [report, every_bind, every_int, every_pure, value_int, IntegerWithin.int_iff, and_true]
  exact ⟨IntegerWithin.floorDiv (by decide) (by omega) (by omega) le_rfl,
    IntegerWithin.floorDiv (by decide) (by omega) (by omega) le_rfl, by omega,
    IntegerWithin.ceilDiv hrate (by omega) (by omega) le_rfl, by omega, hreset, by omega, by omega, hwait⟩

theorem answer_exact (h : argv.Sane) (hnow : now.InCentury)
    (htokens : 0 ≤ tokens ∧ tokens ≤ 1000000000000) (hcount : 0 ≤ count ∧ count ≤ 1000000)
    (hused : 0 ≤ used ∧ used ≤ 1000000000000) (hnewUsed : newUsed = used + argv.cost)
    (holdest : ∀ score, oldest = some score → 0 ≤ score ∧ score < 4133980800000000) :
    (answer argv now now.us now.monthEnd tokens v count used newUsed softCrossed oldest).Every
      Exact := by
  have hcost := h.cost
  have hprice : 0 ≤ argv.cost * utok ∧ argv.cost * utok ≤ 1000000000 := by
    simp only [utok]
    omega
  unfold answer
  split
  · rw [every_bind, consume_value]
    exact ⟨consume_exact h hnow htokens hcount (by omega),
      report_exact h hnow ⟨by omega, by omega⟩ ⟨by omega, by omega⟩ (by omega) holdest⟩
  · exact report_exact h hnow ⟨by omega, by omega⟩ ⟨by omega, by omega⟩ (by omega) holdest

end Steps

end Numbers

/-! ### A check in a run -/

/-- The numbers a check computes on the keyspace it finds. -/
def Call.numbers (c : Call) (db : Keyspace) : Logged Reply :=
  Numbers.check c.argv c.now (db.bucket c.bkey) (c.live db).card (c.used db)
    (c.used db + c.argv.cost) (c.reply db).softCrossed ((c.after db).window c.skey).minScore

/-- They lead to the reply. -/
theorem Call.numbers_value (c : Call) (db : Keyspace) : (c.numbers db).value = c.reply db := by
  have hverdict : (Numbers.verdict c.argv c.now.us (c.refilled db).1 (c.live db).card
      (c.used db)).value = c.verdict db := Numbers.verdict_value ..
  have hvalue : (c.numbers db).value = (Numbers.answer c.argv c.now c.now.us c.now.monthEnd
      (c.refilled db).1 (c.verdict db) (c.live db).card (c.used db) (c.used db + c.argv.cost)
      (c.reply db).softCrossed ((c.after db).window c.skey).minScore).value := by
    rw [← hverdict]
    exact Numbers.check_value ..
  rw [hvalue, Numbers.answer_value, Call.reply_softCrossed, Call.reply]
  by_cases hadmits : c.admits db = true
  · have hallowed : (c.verdict db).allowed = true := hadmits
    simp only [hallowed, hadmits, if_true, true_and]
  · have hdenied : ¬ (c.verdict db).allowed = true := hadmits
    rw [if_neg hdenied, if_neg hadmits, Call.window_after_denied hadmits]

/-- A refill that leaves the bucket short of its capacity credits so many microtokens that a million
times their number is 2^53 or more. -/
def Call.CreditsTooMuch (c : Call) (db : Keyspace) : Prop :=
  ∃ perSec t ts, c.argv.rateUtok = perSec * utok ∧ db.bucket c.bkey = some (t, ts) ∧ ts < c.now.us ∧
    ¬ Fills c.argv.capUtok c.argv.rateUtok (c.now.us - ts) ∧
    t + creditedUtok perSec (c.now.us - ts) < c.argv.capUtok ∧
    9007199254740992 ≤ creditedUtok perSec (c.now.us - ts) * utok

theorem Call.refill_exact_iff {c : Call} {db : Keyspace} (hsane : c.argv.Sane)
    (hnow : c.now.InCentury) (hstored : Stored c.key Ceilings.schema db)
    (hstamped : Stamped c.key 0 4133980799999999 db) :
    (Numbers.refill c.argv.capUtok c.argv.rateUtok c.now.us (db.bucket c.bkey)).Every Exact ↔
      ¬ c.CreditsTooMuch db := by
  obtain ⟨perSec, hrate, hperSec⟩ := hsane.rateUtok
  have hbounds : BurstBounds c.argv.capUtok perSec := ⟨hsane.capUtok, hperSec⟩
  have hus := hnow.us
  unfold CreditsTooMuch
  cases hbucket : db.bucket c.bkey with
  | none =>
      refine ⟨fun _ => ?_, fun _ => every_pure _⟩
      rintro ⟨perSec, t, ts, -, hstate, -⟩
      cases hstate
  | some state =>
      obtain ⟨t, ts⟩ := state
      have hlevel := hstored.level c.resource.val t ts hbucket
      have hstamp := hstamped.bucket c.resource.val t ts hbucket
      rw [hrate, Numbers.refill_exact_iff hbounds ⟨hus.1, by omega⟩ hlevel
        ⟨hstamp.1, by omega⟩]
      constructor
      · rintro h ⟨perSec', t', ts', hsame, hstate, hlater, hpartly, hroom, hlarge⟩
        cases hstate
        obtain rfl : perSec = perSec' := mul_right_cancel₀ utok_pos.ne' hsame
        exact absurd (h hlater hpartly hroom) (not_lt.mpr hlarge)
      · intro h hlater hpartly hroom
        by_contra hlarge
        exact h ⟨perSec, t, ts, rfl, rfl, hlater, hpartly, hroom, not_lt.mp hlarge⟩

theorem Call.numbers_exact_iff {c : Call} {db : Keyspace} (hsane : c.argv.Sane)
    (hnow : c.now.InCentury) (hunder : c.Under c.key Ceilings.schema)
    (hstored : Stored c.key Ceilings.schema db) (hstamped : Stamped c.key 0 4133980799999999 db) :
    (c.numbers db).Every Exact ↔ ¬ c.CreditsTooMuch db := by
  have hus := hnow.us
  have hlevel := hstored.refilled hunder
  have hcount : ((c.live db).card : Int) ≤ 1000000 := by
    have hcard := hstored.card c.resource.val
    have hlive := SortedSet.card_removeBelow_le (c.now.us - c.argv.windowUs) (db.window c.skey)
    rw [← Call.live, Call.skey_eq] at hlive
    have hceiling : Ceilings.schema.sustainedLimit = 1000000 := rfl
    omega
  have hused : 0 ≤ c.used db ∧ c.used db ≤ 1000000000000 := by
    rw [Call.used, Call.qkey_eq_quotaName]
    exact hstored.used _
  have holdest : ∀ score, ((c.after db).window c.skey).minScore = some score →
      0 ≤ score ∧ score < 4133980800000000 := by
    intro score hscore
    obtain ⟨p, hp, rfl⟩ := SortedSet.mem_of_minScore hscore
    have hafter := hstamped.check (fun _ => hsane.wholeRate) (fun _ => hus.1) (fun _ => by omega)
    have hrange := hafter.score c.resource.val p hp
    omega
  have hrefill := c.refill_exact_iff hsane hnow hstored hstamped
  have hverdict : (Numbers.verdict c.argv c.now.us (c.refilled db).1 (c.live db).card
      (c.used db)).Every Exact :=
    Numbers.verdict_exact hsane hnow ⟨by omega, hcount⟩ hused
  have hanswer (v : Verdict) : (Numbers.answer c.argv c.now c.now.us c.now.monthEnd
      (c.refilled db).1 v (c.live db).card (c.used db) (c.used db + c.argv.cost)
      (c.reply db).softCrossed ((c.after db).window c.skey).minScore).Every Exact :=
    Numbers.answer_exact hsane hnow hlevel ⟨by omega, hcount⟩ hused rfl holdest
  rw [← hrefill, Call.numbers, Numbers.check]
  simp only [every_bind, Numbers.clock_value, Numbers.refill_value]
  exact ⟨fun h => h.2.2.1, fun h => ⟨Numbers.arguments_exact hsane, Numbers.clock_exact hnow, h,
    hverdict, hanswer _⟩⟩

/-- The limits of a key as some history of admin requests has left them. -/
def ResolvedKey.Reachable (limits : ResolvedKey) : Prop :=
  ∃ (calls : Nat → AdminCall) (steps : List AdminStep) (s : AdminState) (digest : String),
    Run (adminExec calls) Undisturbed (Transaction.State.start Database.empty) steps s ∧
      s.store.load digest = some limits

theorem ResolvedKey.Reachable.withinBounds {limits : ResolvedKey} (h : limits.Reachable) :
    limits.WithinBounds := by
  obtain ⟨calls, steps, s, digest, hrun, hload⟩ := h
  exact (withinBounds_of_run hrun Database.withinBounds_empty).load hload

/-- **Every intermediate result is exact, except after a long refill.** The checks of a run have limits
that some history of admin requests has left, cost up to a thousand requests each, and fall in the years
2020 to 2100; keys may be lost in between. Every integer a check computes is below 2^53 exactly when its
refill does not credit too much at once. -/
theorem numbers_exact {steps : List CheckStep} {db : Keyspace}
    (hrun : Run Call.exec Losing Keyspace.empty steps db)
    (hcalls : ∀ step ∈ steps, (∃ limits : ResolvedKey, limits.Reachable ∧
      step.event.MarshalledFor limits) ∧ 1 ≤ step.cost ∧ step.cost ≤ 1000 ∧
        step.event.now.InCentury) :
    ∀ step ∈ steps, step.reply = .ok (step.event.numbers step.before).value ∧
      ((step.event.numbers step.before).Every Exact ↔ ¬ step.event.CreditsTooMuch step.before) := by
  intro step hmem
  obtain ⟨⟨limits, hlimits, hc⟩, -, hcost, hnow⟩ := hcalls step hmem
  have hbounds := hlimits.withinBounds
  have hanswered := (typed_of_losing hrun Keyspace.typed_empty).2 step hmem
  have hstored : Stored step.event.key Ceilings.schema step.before := (stored_of_run hrun
    Keyspace.typed_empty (Stored.empty (by decide) (by decide)) (by decide) (by decide)
    fun other hother => by
      obtain ⟨⟨limits, hlimits, hc⟩, -⟩ := hcalls other hother
      exact hc.under_schema hlimits.withinBounds _).2 step hmem
  have hstamped : Stamped step.event.key 0 4133980799999999 step.before := (stamped_of_run hrun
    Keyspace.typed_empty Stamped.empty fun other hother _ => by
      obtain ⟨⟨limits, hlimits, hc⟩, -, -, hnow⟩ := hcalls other hother
      have hus : 0 ≤ other.us ∧ other.us < 4133980800000000 := hnow.us
      exact ⟨hc.wholeRate hlimits.withinBounds, hus.1, by omega⟩).2 step hmem
  refine ⟨?_, Call.numbers_exact_iff (hc.sane hbounds hcost) hnow (hc.under_schema hbounds _)
    hstored hstamped⟩
  rw [Call.numbers_value]
  exact hanswered.reply_eq

/-- The limits of the key of `sampleGrowth`, before and after. -/
def sampleLimits (burstCapacity : Int) : ResolvedKey :=
  { samplePlan with
    burstCapacity
    burstRefillPerSec := 100000
    quotaSoftPct := 0
    redisDownPolicy := "fail_open" }

theorem sampleLimits_reachable : (sampleLimits 1).Reachable ∧ (sampleLimits 1000000).Reachable := by
  constructor
  · exact ⟨sampleGrowth, _, _, "digest", Run.of_events _ _ [.read 0, .commit 0, .read 1, .commit 1],
      by decide +kernel⟩
  · exact ⟨sampleGrowth, _, _, "digest",
      Run.of_events _ _ [.read 0, .commit 0, .read 1, .commit 1, .read 2, .commit 2],
      by decide +kernel⟩

/-- A check in the first second of 2020. -/
def sampleGrowthCall (burstCapacity : Int) (usec : Nat) (hlt : usec < 1000000) (requestId : String) :
    Call :=
  ⟨sampleKey, sampleResource, ⟨1577836800, usec, hlt⟩, scriptArgv (sampleLimits burstCapacity) 1
    requestId⟩

/-- A millisecond of refill after the plan has grown. -/
theorem numbers_exact_sample :
    let first : CheckStep :=
      Step.of Call.exec (sampleGrowthCall 1 0 (by decide) "a") Keyspace.empty
    let second : CheckStep :=
      Step.of Call.exec (sampleGrowthCall 1000000 1000 (by decide) "b") first.after
    (second.event.numbers second.before).Every Exact ∧
      second.before.bucket second.event.bkey = some (0, 1577836800000000) := by
  intro first second
  have hrun : Run Call.exec Losing Keyspace.empty [first, second] second.after :=
    .cons (fun _ => .inl rfl) (.cons (fun _ => .inl rfl) (.nil _))
  have hbucket : second.before.bucket second.event.bkey = some (0, 1577836800000000) := by
    decide +kernel
  have hcalls : ∀ step ∈ [first, second], (∃ limits : ResolvedKey, limits.Reachable ∧
      step.event.MarshalledFor limits) ∧ 1 ≤ step.cost ∧ step.cost ≤ 1000 ∧
        step.event.now.InCentury := by
    simp only [List.mem_cons, List.not_mem_nil, or_false, forall_eq_or_imp, forall_eq]
    exact ⟨⟨⟨_, sampleLimits_reachable.1, rfl, rfl, by decide⟩, by decide, by decide, by decide,
        by decide⟩,
      ⟨_, sampleLimits_reachable.2, rfl, rfl, by decide⟩, by decide, by decide, by decide, by decide⟩
  refine ⟨((numbers_exact hrun hcalls second (by simp)).2).mpr ?_, hbucket⟩
  rintro ⟨perSec, t, ts, hrate, hstate, -, -, -, hlarge⟩
  rw [hbucket, Option.some.injEq, Prod.mk.injEq] at hstate
  obtain ⟨rfl, rfl⟩ := hstate
  obtain rfl : 100000 = perSec := mul_right_cancel₀ utok_pos.ne' (Eq.trans (by decide) hrate)
  exact absurd hlarge (by decide +kernel)

/-- A tenth of a second of refill credits ten thousand tokens, and the script multiplies 10^10 by
10^6. -/
theorem numbers_inexact :
    let first : CheckStep :=
      Step.of Call.exec (sampleGrowthCall 1 0 (by decide) "a") Keyspace.empty
    let second : CheckStep :=
      Step.of Call.exec (sampleGrowthCall 1000000 100000 (by decide) "b") first.after
    Run Call.exec Losing Keyspace.empty [first, second] second.after ∧
      (sampleLimits 1).Reachable ∧ first.event.MarshalledFor (sampleLimits 1) ∧
      (sampleLimits 1000000).Reachable ∧ second.event.MarshalledFor (sampleLimits 1000000) ∧
      first.event.now.InCentury ∧ second.event.now.InCentury ∧
      10000000000000000 ∈ (second.event.numbers second.before).log ∧
      ¬ (second.event.numbers second.before).Every Exact := by
  intro first second
  have hlog : 10000000000000000 ∈ (second.event.numbers second.before).log := by decide +kernel
  refine ⟨.cons (fun _ => .inl rfl) (.cons (fun _ => .inl rfl) (.nil _)), sampleLimits_reachable.1,
    ⟨rfl, rfl, by decide⟩, sampleLimits_reachable.2, ⟨rfl, rfl, by decide⟩, ⟨by decide, by decide⟩,
    ⟨by decide, by decide⟩, hlog, fun h => ?_⟩
  have hrange := h _ hlog 10000000000000000 (by norm_num)
  omega

end QuotaGuard
