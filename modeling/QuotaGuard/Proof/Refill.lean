import QuotaGuard.Lib.Rounding
import QuotaGuard.Lib.TokenBucket
import QuotaGuard.Lua.Check

/-!
# The refill

Step 3 of the script, first in any arithmetic and then, in integer terms, in the exact one. `Refilled`
lists what the exact refill of a stored bucket can do, each case with the inequalities its rounding
leaves; `refilled_refill` says the script does one of them. The token-bucket rule and the exactness of
whole rates are read off the four cases.
-/

namespace QuotaGuard

open Arithmetic

/-- The time a bucket is credited for. -/
def elapsedUs (nowUs ts : Int) : Int := if nowUs - ts < 0 then 0 else nowUs - ts

theorem elapsedUs_nonneg (nowUs ts : Int) : 0 ≤ elapsedUs nowUs ts := by
  unfold elapsedUs
  split <;> omega

theorem elapsedUs_of_le {nowUs ts : Int} (hle : ts ≤ nowUs) : elapsedUs nowUs ts = nowUs - ts := by
  rw [elapsedUs, if_neg (by omega)]

theorem elapsedUs_of_ge {nowUs ts : Int} (hge : nowUs ≤ ts) : elapsedUs nowUs ts = 0 := by
  unfold elapsedUs
  split <;> omega

theorem elapsedUs_of_pos {nowUs ts : Int} (hpos : 0 < elapsedUs nowUs ts) :
    elapsedUs nowUs ts = nowUs - ts := by
  unfold elapsedUs at hpos ⊢
  split at hpos <;> omega

variable {capUtok rateUtok nowUs tokens ts : Int}

section

variable [Arithmetic]

/-- The time alone fills the bucket. -/
def Fills (capUtok rateUtok elapsed : Int) : Prop :=
  (elapsed : ℚ) ≥ product (quotient capUtok rateUtok) utok

instance (capUtok rateUtok elapsed : Int) : Decidable (Fills capUtok rateUtok elapsed) :=
  inferInstanceAs (Decidable ((elapsed : ℚ) ≥ _))

def creditUtok (rateUtok elapsed : Int) : Int := ⌊product (quotient elapsed utok) rateUtok⌋

def advanceUs (rateUtok add : Int) : Int := ⌈quotient (product add utok) rateUtok⌉

theorem refill_some (capUtok rateUtok nowUs tokens ts : Int) :
    refill capUtok rateUtok nowUs (some (tokens, ts)) =
      let elapsed := elapsedUs nowUs ts
      if Fills capUtok rateUtok elapsed then (capUtok, nowUs)
      else
        let add := creditUtok rateUtok elapsed
        if add > 0 then
          if tokens + add ≥ capUtok then (capUtok, nowUs)
          else (tokens + add, ts + advanceUs rateUtok add)
        else (tokens, ts) := rfl

theorem refill_nonneg (hcap : 0 ≤ capUtok) (htokens : 0 ≤ tokens) :
    0 ≤ (refill capUtok rateUtok nowUs (some (tokens, ts))).1 := by
  rw [refill_some]
  dsimp only
  split
  · exact hcap
  · split
    · split
      · exact hcap
      · exact Int.add_nonneg htokens (by omega)
    · exact htokens

theorem refill_le_max (capUtok rateUtok nowUs tokens ts : Int) :
    (refill capUtok rateUtok nowUs (some (tokens, ts))).1 ≤ max tokens capUtok := by
  rw [refill_some]
  dsimp only
  split
  · exact le_max_right _ _
  · split
    · split
      · exact le_max_right _ _
      · rename_i hroom
        exact le_max_of_le_right (not_le.mp hroom).le
    · exact le_max_left _ _

end

/-! ### Without rounding -/

section

attribute [local instance] Arithmetic.exact

/-- What the exact refill of a stored bucket can do. -/
inductive Refilled (capUtok rateUtok nowUs tokens ts : Int) : Int × Int → Prop
  | full (hfull : capUtok * utok ≤ elapsedUs nowUs ts * rateUtok) :
      Refilled capUtok rateUtok nowUs tokens ts (capUtok, nowUs)
  | clamped (add : Int) (hshort : elapsedUs nowUs ts * rateUtok < capUtok * utok) (hadd : 0 < add)
      (hlow : add * utok ≤ elapsedUs nowUs ts * rateUtok) (hcap : capUtok ≤ tokens + add) :
      Refilled capUtok rateUtok nowUs tokens ts (capUtok, nowUs)
  | credited (add advance : Int) (hshort : elapsedUs nowUs ts * rateUtok < capUtok * utok)
      (hadd : 0 < add) (hlow : add * utok ≤ elapsedUs nowUs ts * rateUtok)
      (hhigh : elapsedUs nowUs ts * rateUtok < (add + 1) * utok) (hcap : tokens + add < capUtok)
      (hpaid : add * utok ≤ advance * rateUtok) (hleast : (advance - 1) * rateUtok < add * utok) :
      Refilled capUtok rateUtok nowUs tokens ts (tokens + add, ts + advance)
  | idle (hshort : elapsedUs nowUs ts * rateUtok < capUtok * utok)
      (hnone : elapsedUs nowUs ts * rateUtok < utok) :
      Refilled capUtok rateUtok nowUs tokens ts (tokens, ts)

theorem fills_exact_iff (hrate : 0 < rateUtok) (elapsed : Int) :
    Fills capUtok rateUtok elapsed ↔ capUtok * utok ≤ elapsed * rateUtok := by
  have hrate' : (0 : ℚ) < rateUtok := by exact_mod_cast hrate
  show (elapsed : ℚ) ≥ (capUtok : ℚ) / rateUtok * utok ↔ _
  rw [ge_iff_le, div_mul_eq_mul_div, div_le_iff₀ hrate']
  exact_mod_cast Iff.rfl

theorem creditUtok_exact_bounds (rateUtok elapsed : Int) :
    creditUtok rateUtok elapsed * utok ≤ elapsed * rateUtok ∧
      elapsed * rateUtok < (creditUtok rateUtok elapsed + 1) * utok := by
  have hquotient : product (quotient elapsed utok) rateUtok =
      ((elapsed * rateUtok : Int) : ℚ) / utok := by
    show (elapsed : ℚ) / utok * rateUtok = _
    push_cast
    ring
  rw [creditUtok, hquotient]
  exact Rounding.floor_div_bounds utok_pos

theorem advanceUs_exact_bounds (hrate : 0 < rateUtok) (add : Int) :
    add * utok ≤ advanceUs rateUtok add * rateUtok ∧
      (advanceUs rateUtok add - 1) * rateUtok < add * utok := by
  have hquotient : quotient (product add utok) rateUtok = ((add * utok : Int) : ℚ) / rateUtok := by
    rw [Int.cast_mul]
    rfl
  rw [advanceUs, hquotient]
  exact Rounding.ceil_div_bounds hrate

theorem refilled_refill (capUtok nowUs tokens ts : Int) (hrate : 0 < rateUtok) :
    Refilled capUtok rateUtok nowUs tokens ts
      (refill capUtok rateUtok nowUs (some (tokens, ts))) := by
  obtain ⟨hlow, hhigh⟩ := creditUtok_exact_bounds rateUtok (elapsedUs nowUs ts)
  rw [refill_some]
  simp only [fills_exact_iff hrate]
  by_cases hfull : capUtok * utok ≤ elapsedUs nowUs ts * rateUtok
  · rw [if_pos hfull]
    exact .full hfull
  rw [if_neg hfull]
  have hshort := not_le.mp hfull
  by_cases hadd : creditUtok rateUtok (elapsedUs nowUs ts) > 0
  · rw [if_pos hadd]
    by_cases hcap : tokens + creditUtok rateUtok (elapsedUs nowUs ts) ≥ capUtok
    · rw [if_pos hcap]
      exact .clamped _ hshort hadd hlow hcap
    · rw [if_neg hcap]
      obtain ⟨hpaid, hleast⟩ :=
        advanceUs_exact_bounds hrate (creditUtok rateUtok (elapsedUs nowUs ts))
      exact .credited _ _ hshort hadd hlow hhigh (not_le.mp hcap) hpaid hleast
  · rw [if_neg hadd]
    have hone : (creditUtok rateUtok (elapsedUs nowUs ts) + 1) * utok ≤ 1 * utok := by
      apply mul_le_mul_of_nonneg_right
      · omega
      · decide
    exact .idle hshort (by omega)

/-! ### What every refill keeps -/

theorem elapsed_pos_of_credit {rateUtok add elapsed : Int} (hrate : 0 < rateUtok) (hadd : 0 < add)
    (hlow : add * utok ≤ elapsed * rateUtok) : 0 < elapsed := by
  have hcredit : 0 < add * utok := mul_pos hadd utok_pos
  by_contra hnone
  have hyield : elapsed * rateUtok ≤ 0 :=
    mul_nonpos_of_nonpos_of_nonneg (not_lt.mp hnone) hrate.le
  omega

variable {out : Int × Int}

theorem advance_le {rateUtok add advance elapsed : Int} (hrate : 0 < rateUtok)
    (hlow : add * utok ≤ elapsed * rateUtok) (hleast : (advance - 1) * rateUtok < add * utok) :
    advance ≤ elapsed := by
  by_contra hlate
  have hprod : elapsed * rateUtok ≤ (advance - 1) * rateUtok :=
    mul_le_mul_of_nonneg_right (by omega) hrate.le
  omega

theorem Refilled.nonneg (h : Refilled capUtok rateUtok nowUs tokens ts out) (hcap : 0 ≤ capUtok)
    (htokens : 0 ≤ tokens) : 0 ≤ out.1 := by
  cases h with
  | full => exact hcap
  | clamped => exact hcap
  | credited add => exact Int.add_nonneg htokens (by omega)
  | idle => exact htokens

theorem Refilled.le_cap (h : Refilled capUtok rateUtok nowUs tokens ts out)
    (htokens : tokens ≤ capUtok) : out.1 ≤ capUtok := by
  cases h with
  | full => exact le_rfl
  | clamped => exact le_rfl
  | credited add advance _ _ _ _ hcap => exact hcap.le
  | idle => exact htokens

theorem Refilled.ts_le (h : Refilled capUtok rateUtok nowUs tokens ts out) (hrate : 0 < rateUtok) :
    out.2 ≤ max ts nowUs := by
  cases h with
  | full => exact le_max_right _ _
  | clamped => exact le_max_right _ _
  | credited add advance _ hadd hlow _ _ _ hleast =>
      have hadvance := advance_le hrate hlow hleast
      have helapsed := elapsedUs_nonneg nowUs ts
      unfold elapsedUs at hadvance
      split at hadvance <;> omega
  | idle => exact le_max_left _ _

/-- What time is left over is worth less than one token. -/
theorem Refilled.leftover_lt (h : Refilled capUtok rateUtok nowUs tokens ts out)
    (hrate : 0 < rateUtok) : elapsedUs nowUs out.2 * rateUtok < utok := by
  cases h with
  | full =>
      rw [elapsedUs_of_le le_rfl, sub_self, zero_mul]
      decide
  | clamped =>
      rw [elapsedUs_of_le le_rfl, sub_self, zero_mul]
      decide
  | credited add advance _ hadd hlow hhigh _ hpaid hleast =>
      have hadvance := advance_le hrate hlow hleast
      have hpos := elapsedUs_of_pos (elapsed_pos_of_credit hrate hadd hlow)
      rw [elapsedUs_of_le (by omega)]
      calc (nowUs - (ts + advance)) * rateUtok
          = elapsedUs nowUs ts * rateUtok - advance * rateUtok := by
            rw [hpos]
            ring
        _ < (add + 1) * utok - add * utok := by omega
        _ = utok := by ring
  | idle _ hnone => exact hnone

/-- What the level gains is paid for by the time the bucket is moved forward. -/
theorem Refilled.paid (h : Refilled capUtok rateUtok nowUs tokens ts out) (hcap : 0 < capUtok)
    (hrate : 0 < rateUtok) (htokens : 0 ≤ tokens) :
    (out.1 - tokens) * utok ≤ (out.2 - ts) * rateUtok := by
  cases h with
  | full hfull =>
      rw [← elapsedUs_of_pos (elapsed_pos_of_credit hrate hcap hfull)]
      refine le_trans (mul_le_mul_of_nonneg_right ?_ utok_pos.le) hfull
      exact sub_le_self _ htokens
  | clamped add _ hadd hlow hclamp =>
      rw [← elapsedUs_of_pos (elapsed_pos_of_credit hrate hadd hlow)]
      refine le_trans (mul_le_mul_of_nonneg_right ?_ utok_pos.le) hlow
      exact sub_left_le_of_le_add hclamp
  | credited add advance _ _ _ _ _ hpaid =>
      rw [add_sub_cancel_left, add_sub_cancel_left]
      exact hpaid
  | idle =>
      rw [sub_self, sub_self, zero_mul, zero_mul]

/-- A rate of at least one token a microsecond leaves no more than the capacity in sight. -/
theorem Refilled.inSight_le (h : Refilled capUtok rateUtok nowUs tokens ts out)
    (hrate : utok ≤ rateUtok) (htokens : tokens ≤ capUtok) :
    out.1 * utok + (nowUs - out.2) * rateUtok ≤ capUtok * utok := by
  have hpos : 0 < rateUtok := utok_pos.trans_le hrate
  have hleft := h.leftover_lt hpos
  by_cases hahead : nowUs ≤ out.2
  · have hnone : (nowUs - out.2) * rateUtok ≤ 0 :=
      mul_nonpos_of_nonpos_of_nonneg (by omega) hpos.le
    have hlevel : out.1 * utok ≤ capUtok * utok :=
      mul_le_mul_of_nonneg_right (h.le_cap htokens) utok_pos.le
    omega
  rw [elapsedUs_of_le (by omega)] at hleft
  cases h with
  | full => exact absurd le_rfl hahead
  | clamped => exact absurd le_rfl hahead
  | credited add advance _ _ _ _ hcap =>
      have hlevel : (tokens + add) * utok ≤ (capUtok - 1) * utok :=
        mul_le_mul_of_nonneg_right (by omega) utok_pos.le
      have hless : (capUtok - 1) * utok = capUtok * utok - utok := by ring
      simp only at hleft ⊢
      omega
  | idle =>
      -- One microsecond is already worth a token, so nothing has elapsed.
      have hyield : 1 * rateUtok ≤ (nowUs - ts) * rateUtok := by
        apply mul_le_mul_of_nonneg_right _ hpos.le
        simp only at hahead
        omega
      simp only at hleft
      omega

theorem inSight_eq (rateUtok time tokens ts : Int) :
    TokenBucket.Bucket.inSight ((rateUtok : ℚ) / utok) time ⟨tokens, ts⟩ =
      ((tokens * utok + (time - ts) * rateUtok : Int) : ℚ) / utok := by
  have hutok : (utok : ℚ) ≠ 0 := by decide
  simp only [TokenBucket.Bucket.inSight]
  push_cast
  field_simp

/-- **The refill credits a token bucket.** -/
theorem Refilled.credits (h : Refilled capUtok rateUtok nowUs tokens ts out) (hcap : 0 < capUtok)
    (hrate : utok ≤ rateUtok) (htokens : 0 ≤ tokens) (htokens' : tokens ≤ capUtok) :
    TokenBucket.Credits ((rateUtok : ℚ) / utok) capUtok nowUs ⟨tokens, ts⟩ ⟨out.1, out.2⟩ := by
  have hutok : (0 : ℚ) < (utok : Int) := by decide
  refine ⟨?_, ?_, fun time => ?_, ?_⟩
  · show (out.1 : ℚ) ≤ capUtok
    exact_mod_cast h.le_cap htokens'
  · rw [inSight_eq, div_le_iff₀ hutok]
    exact_mod_cast h.inSight_le hrate htokens'
  · have hpaid := h.paid hcap (utok_pos.trans_le hrate) htokens
    have hgain : (out.1 : ℚ) - tokens ≤ (rateUtok : ℚ) / utok * (out.2 - ts) := by
      rw [div_mul_eq_mul_div, le_div_iff₀ hutok, mul_comm (rateUtok : ℚ)]
      exact_mod_cast hpaid
    have hsplit : (rateUtok : ℚ) / utok * (time - out.2) =
        (rateUtok : ℚ) / utok * (time - ts) - (rateUtok : ℚ) / utok * (out.2 - ts) := by
      ring
    simp only [TokenBucket.Bucket.inSight]
    linarith
  · show (out.2 : ℚ) ≤ max (ts : ℚ) nowUs
    exact_mod_cast h.ts_le (utok_pos.trans_le hrate)

/-- A rate of `perSec` whole tokens a second is `perSec` microtokens a microsecond, so nothing is
rounded and the stamp is always the clock. -/
theorem refill_later {perSec : Int} (hperSec : 0 < perSec) (hpos : 0 < elapsedUs nowUs ts)
    (htokens : 0 ≤ tokens) :
    refill capUtok (perSec * utok) nowUs (some (tokens, ts)) =
      (min capUtok (tokens + perSec * elapsedUs nowUs ts), nowUs) := by
  have hrate : 0 < perSec * utok := mul_pos hperSec utok_pos
  have hutok := utok_pos
  have hyield : elapsedUs nowUs ts * (perSec * utok) = perSec * elapsedUs nowUs ts * utok := by
    ring
  have hcases := refilled_refill capUtok nowUs tokens ts hrate
  generalize refill capUtok (perSec * utok) nowUs (some (tokens, ts)) = out at hcases ⊢
  cases hcases with
  | full hfull =>
      rw [hyield] at hfull
      have hfull := le_of_mul_le_mul_right hfull hutok
      rw [min_eq_left (by omega)]
  | clamped add _ _ hlow hclamp =>
      rw [hyield] at hlow
      have hlow := le_of_mul_le_mul_right hlow hutok
      rw [min_eq_left (by omega)]
  | credited add advance _ _ hlow hhigh hcap hpaid hleast =>
      rw [hyield] at hlow hhigh
      have hlow := le_of_mul_le_mul_right hlow hutok
      have hhigh := lt_of_mul_lt_mul_right hhigh hutok.le
      have hadd : add = perSec * elapsedUs nowUs ts := by omega
      have hadvance : advance = elapsedUs nowUs ts := by
        rw [hadd] at hpaid hleast
        have hpaid : perSec * elapsedUs nowUs ts ≤ perSec * advance := by
          apply le_of_mul_le_mul_right _ hutok
          linarith
        have hleast : perSec * (advance - 1) < perSec * elapsedUs nowUs ts := by
          apply lt_of_mul_lt_mul_right _ hutok.le
          linarith
        have hge := le_of_mul_le_mul_left hpaid hperSec
        have hlt := lt_of_mul_lt_mul_left hleast hperSec.le
        omega
      rw [← hadd, min_eq_right hcap.le, hadvance, elapsedUs_of_pos hpos, add_sub_cancel]
  | idle _ hnone =>
      rw [hyield] at hnone
      have hone : 1 * utok ≤ perSec * elapsedUs nowUs ts * utok :=
        mul_le_mul_of_nonneg_right (mul_pos hperSec hpos) hutok.le
      omega

theorem refill_still {perSec : Int} (hperSec : 0 < perSec) (hcap : 0 < capUtok)
    (hstill : elapsedUs nowUs ts = 0) :
    refill capUtok (perSec * utok) nowUs (some (tokens, ts)) = (tokens, ts) := by
  have hcases := refilled_refill capUtok nowUs tokens ts (mul_pos hperSec utok_pos)
  generalize refill capUtok (perSec * utok) nowUs (some (tokens, ts)) = out at hcases ⊢
  cases hcases with
  | full hfull =>
      rw [hstill, zero_mul] at hfull
      exact absurd (nonpos_of_mul_nonpos_left hfull utok_pos) hcap.not_ge
  | clamped add _ hadd hlow =>
      rw [hstill, zero_mul] at hlow
      exact absurd (nonpos_of_mul_nonpos_left hlow utok_pos) hadd.not_ge
  | credited add advance _ hadd hlow =>
      rw [hstill, zero_mul] at hlow
      exact absurd (nonpos_of_mul_nonpos_left hlow utok_pos) hadd.not_ge
  | idle => rfl

theorem refill_whole {perSec : Int} (hperSec : 0 < perSec) (hback : ts ≤ nowUs)
    (hcap : 0 < capUtok) (htokens : 0 ≤ tokens) (htokens' : tokens ≤ capUtok) :
    refill capUtok (perSec * utok) nowUs (some (tokens, ts)) =
      (min capUtok (tokens + perSec * (nowUs - ts)), nowUs) := by
  have helapsed := elapsedUs_of_le hback
  rcases (elapsedUs_nonneg nowUs ts).eq_or_lt with hstill | hpos
  · obtain rfl : ts = nowUs := by omega
    rw [refill_still hperSec hcap hstill.symm, sub_self, mul_zero, add_zero, min_eq_right htokens']
  · rw [refill_later hperSec hpos htokens, helapsed]

end

end QuotaGuard
