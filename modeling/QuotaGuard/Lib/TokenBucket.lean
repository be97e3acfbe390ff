import Mathlib.Algebra.Order.Field.Basic
import Mathlib.Algebra.BigOperators.Group.List.Basic
import Mathlib.Tactic.Linarith
import Mathlib.Tactic.Ring

/-!
# Token buckets

A bucket holds a level and remembers up to which time it is credited. Crediting it may round, as long
as it rounds against the caller: what the level gains is paid for by the time it is moved forward.
Under that rule, and if it is never left with more than its capacity in sight, no run of
withdrawals takes more than the capacity and what the rate yields between the first and the last.
-/

namespace TokenBucket

variable {K : Type*} [Field K] [LinearOrder K]

structure Bucket (K : Type*) where
  level : K
  stamp : K

namespace Bucket

/-- The level at time `now` if the bucket were credited without rounding and without a limit. -/
def inSight (rate now : K) (b : Bucket K) : K := b.level + rate * (now - b.stamp)

def withdraw (amount : K) (b : Bucket K) : Bucket K := ⟨b.level - amount, b.stamp⟩

end Bucket

open Bucket

/-- Crediting at time `now` takes `b` to `b'`. -/
structure Credits (rate capacity now : K) (b b' : Bucket K) : Prop where
  level_le : b'.level ≤ capacity
  inSight_le : b'.inSight rate now ≤ capacity
  underCredits : ∀ time, b'.inSight rate time ≤ b.inSight rate time
  stamp_le : b'.stamp ≤ max b.stamp now

/-- A run of withdrawals, each after a credit at its own time. The times come in any order. -/
inductive Served (rate capacity : K) : Bucket K → List (K × K) → Bucket K → Prop
  | nil (b : Bucket K) : Served rate capacity b [] b
  | cons {b credited b' : Bucket K} {now amount : K} {log : List (K × K)}
      (hcredit : Credits rate capacity now b credited) (hamount : amount ≤ credited.level)
      (hrest : Served rate capacity (credited.withdraw amount) log b') :
      Served rate capacity b ((now, amount) :: log) b'

def total (log : List (K × K)) : K := (log.map Prod.snd).sum

variable {rate capacity now : K} {b b' : Bucket K} {log : List (K × K)}

theorem Credits.rfl (hlevel : b.level ≤ capacity) (hsight : b.inSight rate now ≤ capacity) :
    Credits rate capacity now b b :=
  ⟨hlevel, hsight, fun _ => le_rfl, le_max_left _ _⟩

theorem Served.stamp_le {latest : K} (h : Served rate capacity b log b')
    (hlatest : ∀ p ∈ log, p.1 ≤ latest) : b'.stamp ≤ max b.stamp latest := by
  induction h with
  | nil => exact le_max_left _ _
  | @cons b credited b' now amount log hcredit hamount hrest ih =>
      have hnow := hlatest _ (List.mem_cons_self ..)
      have hrest := ih fun p hp => hlatest p (List.mem_cons_of_mem _ hp)
      have hcredited : credited.stamp ≤ max b.stamp latest :=
        hcredit.stamp_le.trans (max_le_max le_rfl hnow)
      exact hrest.trans (max_le hcredited (le_max_right _ _))

variable [IsStrictOrderedRing K]

/-- Withdrawals are paid for by the level and by the time the bucket moves forward. -/
theorem Served.total_le (h : Served rate capacity b log b') (time : K) :
    total log + b'.inSight rate time ≤ b.inSight rate time := by
  induction h with
  | nil => simp [total]
  | @cons b credited b' now amount log hcredit hamount hrest ih =>
      have hunder := hcredit.underCredits time
      have hsplit : (credited.withdraw amount).inSight rate time =
          credited.inSight rate time - amount := by
        rw [withdraw, inSight, inSight]
        ring
      have htotal : total ((now, amount) :: log) = amount + total log := by
        simp [total]
      linarith

/-- **Never more than the capacity and the yield.** A bucket that at time `first` has at most its
capacity in sight serves, from then on, at most its capacity and what the rate yields up to the
latest time of a withdrawal. -/
theorem Served.total_le_capacity {first latest : K} (h : Served rate capacity b log b')
    (hrate : 0 ≤ rate) (hb : 0 ≤ b'.level) (hlevel : b.level ≤ capacity)
    (hsight : b.inSight rate first ≤ capacity) (hfirst : first ≤ latest)
    (hlatest : ∀ p ∈ log, p.1 ≤ latest) :
    total log ≤ capacity + rate * (latest - first) := by
  have hstamp := h.stamp_le hlatest
  have hyield : 0 ≤ rate * (latest - first) := mul_nonneg hrate (sub_nonneg.mpr hfirst)
  rcases le_max_iff.mp hstamp with hearly | hlate
  · -- The bucket never moved past its first credit: the level alone paid.
    have hpaid := h.total_le b'.stamp
    have hback : rate * (b'.stamp - b.stamp) ≤ 0 :=
      mul_nonpos_of_nonneg_of_nonpos hrate (sub_nonpos.mpr hearly)
    simp only [inSight, sub_self, mul_zero, add_zero] at hpaid
    linarith
  · have hpaid := h.total_le latest
    have hahead : 0 ≤ rate * (latest - b'.stamp) := mul_nonneg hrate (sub_nonneg.mpr hlate)
    have hsplit : rate * (latest - b.stamp) =
        rate * (latest - first) + rate * (first - b.stamp) := by
      ring
    simp only [inSight] at hpaid hsight
    linarith

end TokenBucket
