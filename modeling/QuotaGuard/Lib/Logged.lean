import QuotaGuard.Lib.Double
import QuotaGuard.Lib.Rounding

/-!
# Computations that keep the numbers they compute

A logged computation has a value and the list of the numbers computed on the way to it. A statement about
every intermediate result of a program, such as that no number leaves the range in which a machine is
exact, is one about the log. A quotient is logged as the double it is rounded to.
-/

structure Logged (α : Type) where
  value : α
  log : List ℚ

namespace Logged

variable {α β : Type} {p : ℚ → Prop}

instance : Monad Logged where
  pure a := ⟨a, []⟩
  bind x f := ⟨(f x.value).value, x.log ++ (f x.value).log⟩

/-- A number that is computed. -/
def rat (v : ℚ) : Logged ℚ := ⟨v, [v]⟩

/-- An integer that is computed. -/
def int (n : ℤ) : Logged ℤ := ⟨n, [(n : ℚ)]⟩

/-- A variable that has the value `m` and is assigned `n` under a condition. -/
def assignIf (c : Prop) [Decidable c] (n m : ℤ) : Logged ℤ :=
  ⟨if c then n else m, if c then [(n : ℚ)] else []⟩

/-- The floor of a quotient by a positive number: first the quotient, then its floor. -/
def floorDiv (a b : ℤ) : Logged ℤ := do
  let _ ← rat (Double.round ((a : ℚ) / b))
  int (a / b)

def ceilDiv (a b : ℤ) : Logged ℤ := do
  let _ ← rat (Double.round ((a : ℚ) / b))
  int ⌈(a : ℚ) / b⌉

section Quotient

variable {a b : ℤ} (hlow : -2 ^ 53 < a) (hhigh : a < 2 ^ 53) (hb : 0 < b) (hb' : b ≤ 2 ^ 53)

include hlow hhigh hb hb'

/-- The floor is taken of the rounded quotient. -/
theorem floorDiv_eq :
    floorDiv a b = (do
      let quotient ← rat (Double.round ((a : ℚ) / b))
      int ⌊quotient⌋) := by
  rw [floorDiv, ← Rounding.floor_div_eq hb, ← Double.floor_round_div hlow hhigh hb hb']
  rfl

theorem ceilDiv_eq :
    ceilDiv a b = (do
      let quotient ← rat (Double.round ((a : ℚ) / b))
      int ⌈quotient⌉) := by
  rw [ceilDiv, ← Double.ceil_round_div hlow hhigh hb hb']
  rfl

end Quotient

/-- Every number computed on the way has the property. -/
def Every (p : ℚ → Prop) (x : Logged α) : Prop := ∀ v ∈ x.log, p v

@[simp] theorem value_pure (a : α) : (pure a : Logged α).value = a := rfl

@[simp] theorem value_bind (x : Logged α) (f : α → Logged β) :
    (x >>= f).value = (f x.value).value := rfl

@[simp] theorem value_rat (v : ℚ) : (rat v).value = v := rfl

@[simp] theorem value_int (n : ℤ) : (int n).value = n := rfl

@[simp] theorem value_assignIf (c : Prop) [Decidable c] (n m : ℤ) :
    (assignIf c n m).value = if c then n else m := rfl

@[simp] theorem value_floorDiv (a b : ℤ) : (floorDiv a b).value = a / b := rfl

@[simp] theorem value_ceilDiv (a b : ℤ) : (ceilDiv a b).value = ⌈(a : ℚ) / b⌉ := rfl

@[simp] theorem value_ite (c : Prop) [Decidable c] (x y : Logged α) :
    (if c then x else y).value = if c then x.value else y.value :=
  apply_ite value c x y

@[simp] theorem every_pure (a : α) : (pure a : Logged α).Every p := by
  intro v hv
  cases hv

@[simp] theorem every_bind (x : Logged α) (f : α → Logged β) :
    (x >>= f).Every p ↔ x.Every p ∧ (f x.value).Every p :=
  List.forall_mem_append

@[simp] theorem every_rat (v : ℚ) : (rat v).Every p ↔ p v :=
  List.forall_mem_singleton

@[simp] theorem every_int (n : ℤ) : (int n).Every p ↔ p n :=
  List.forall_mem_singleton

end Logged

/-- The number is not an integer outside the open range around zero. -/
def IntegerWithin (bound : ℤ) (v : ℚ) : Prop := ∀ n : ℤ, v = n → -bound < n ∧ n < bound

namespace IntegerWithin

variable {bound a b : ℤ}

@[simp] theorem int_iff {n : ℤ} : IntegerWithin bound n ↔ -bound < n ∧ n < bound := by
  constructor
  · intro h
    exact h n rfl
  · rintro h m hm
    rwa [← Int.cast_injective hm]

theorem assignIf {c : Prop} [Decidable c] {n m : ℤ} (hlow : -bound < n) (hhigh : n < bound) :
    (Logged.assignIf c n m).Every (IntegerWithin bound) := by
  intro v hv
  unfold Logged.assignIf at hv
  split at hv
  · rw [List.mem_singleton.mp hv]
    exact int_iff.mpr ⟨hlow, hhigh⟩
  · cases hv

section Quotient

variable (hb : 0 < b ∧ b ≤ 9007199254740992) (hlow : -bound < a) (hhigh : a < bound)
  (hbound : bound ≤ 9007199254740992)

include hb hlow hhigh hbound

/-- A quotient is an integer only where the division is exact, and then it is its own floor. -/
theorem div : IntegerWithin bound (Double.round ((a : ℚ) / b)) := by
  intro n hn
  have hfloor := Rounding.floor_div_within hb.1 hlow hhigh
  rwa [← Double.floor_round_div (by omega) (by omega) hb.1 (by omega), hn, Int.floor_intCast] at hfloor

theorem floorDiv : (Logged.floorDiv a b).Every (IntegerWithin bound) := by
  rw [Logged.floorDiv, Logged.every_bind, Logged.every_rat, Logged.every_int, int_iff,
    ← Rounding.floor_div_eq hb.1]
  exact ⟨div hb hlow hhigh hbound, Rounding.floor_div_within hb.1 hlow hhigh⟩

theorem ceilDiv : (Logged.ceilDiv a b).Every (IntegerWithin bound) := by
  rw [Logged.ceilDiv, Logged.every_bind, Logged.every_rat, Logged.every_int, int_iff]
  exact ⟨div hb hlow hhigh hbound, Rounding.ceil_div_within hb.1 hlow hhigh⟩

end Quotient

end IntegerWithin
