import QuotaGuard.Proof.Bucket

/-!
# The ideal bucket

The bucket of the script is lazy: it is written on admissions only, and the credit and the stamp are
rounded. The reference bucket below is brought up to date at every check and never rounds. With whole
rates, and in exact arithmetic, the two agree at every check, so nothing is lost by being lazy.
-/

namespace QuotaGuard

open CheckStep

attribute [local instance] Arithmetic.exact

/-- The reference: a level and the time it is up to date. -/
structure EagerBucket where
  level : Int
  lastUs : Int

namespace EagerBucket

variable (capUtok refillPerSec : Int)

def credit (nowUs : Int) (b : EagerBucket) : EagerBucket :=
  ⟨min capUtok (b.level + refillPerSec * (nowUs - b.lastUs)), nowUs⟩

/-- One check: up to date first, then the cost if the level pays for it and the other two layers
agree. -/
def step (b : EagerBucket) (step : CheckStep) : EagerBucket :=
  let credited := b.credit capUtok refillPerSec step.us
  let others := step.event.verdict step.before
  let admitted :=
    decide (credited.level ≥ step.cost * utok) && others.sustainedOk && others.quotaOk
  ⟨credited.level - if admitted then step.cost * utok else 0, step.us⟩

def after (b : EagerBucket) (steps : List CheckStep) : EagerBucket :=
  steps.foldl (step capUtok refillPerSec) b

end EagerBucket

/-- The stored bucket stands for the reference: an absent one for a full one, and a stored one for
what it would be worth at the time the reference is up to date. -/
inductive Tracks (capUtok refillPerSec : Int) : Option (Int × Int) → EagerBucket → Prop
  | absent (lastUs : Int) : Tracks capUtok refillPerSec none ⟨capUtok, lastUs⟩
  | stored {t ts lastUs : Int} (ht : 0 ≤ t) (ht' : t ≤ capUtok) (hts : ts ≤ lastUs) :
      Tracks capUtok refillPerSec (some (t, ts))
        ⟨min capUtok (t + refillPerSec * (lastUs - ts)), lastUs⟩

variable {capUtok refillPerSec nowUs : Int} {state : Option (Int × Int)} {b : EagerBucket}

theorem credit_min {t ts lastUs : Int} (hrefill : 0 < refillPerSec) (hnow : lastUs ≤ nowUs) :
    EagerBucket.credit capUtok refillPerSec nowUs
        ⟨min capUtok (t + refillPerSec * (lastUs - ts)), lastUs⟩ =
      ⟨min capUtok (t + refillPerSec * (nowUs - ts)), nowUs⟩ := by
  have hgain : 0 ≤ refillPerSec * (nowUs - lastUs) := mul_nonneg hrefill.le (by omega)
  have hsplit : refillPerSec * (nowUs - ts) =
      refillPerSec * (lastUs - ts) + refillPerSec * (nowUs - lastUs) := by
    ring
  simp only [EagerBucket.credit, EagerBucket.mk.injEq, and_true]
  rw [hsplit]
  omega

namespace Tracks

theorem refill_eq (h : Tracks capUtok refillPerSec state b) (hcap : 0 < capUtok)
    (hrefill : 0 < refillPerSec) (hnow : b.lastUs ≤ nowUs) :
    refill capUtok (refillPerSec * utok) nowUs state =
      ((b.credit capUtok refillPerSec nowUs).level, nowUs) := by
  cases h with
  | absent lastUs =>
      have hgain : 0 ≤ refillPerSec * (nowUs - lastUs) := mul_nonneg hrefill.le (by simpa using hnow)
      show (capUtok, nowUs) = (min capUtok (capUtok + refillPerSec * (nowUs - lastUs)), nowUs)
      rw [min_eq_left (by omega)]
  | stored ht ht' hts =>
      rw [refill_whole hrefill (hts.trans hnow) hcap ht ht', credit_min hrefill hnow]

theorem credit (h : Tracks capUtok refillPerSec state b) (hrefill : 0 < refillPerSec)
    (hnow : b.lastUs ≤ nowUs) :
    Tracks capUtok refillPerSec state (b.credit capUtok refillPerSec nowUs) := by
  cases h with
  | absent lastUs =>
      have hgain : 0 ≤ refillPerSec * (nowUs - lastUs) := mul_nonneg hrefill.le (by simpa using hnow)
      rw [EagerBucket.credit, min_eq_left (by simpa using hgain)]
      exact .absent nowUs
  | stored ht ht' hts =>
      rw [credit_min hrefill hnow]
      exact .stored ht ht' (hts.trans hnow)

theorem write {level lastUs : Int} (hlow : 0 ≤ level) (hhigh : level ≤ capUtok) :
    Tracks capUtok refillPerSec (some (level, lastUs)) ⟨level, lastUs⟩ := by
  have hsame : (⟨level, lastUs⟩ : EagerBucket) =
      ⟨min capUtok (level + refillPerSec * (lastUs - lastUs)), lastUs⟩ := by
    rw [sub_self, mul_zero, add_zero, min_eq_right hhigh]
  rw [hsame]
  exact .stored hlow hhigh le_rfl

end Tracks

/-! ### Along a run -/

variable {key : ResolvedKey} {resource : Resource} {db db' : Keyspace}

namespace Call.MarshalledFor

variable {c : Call}

theorem onBucket (hc : c.MarshalledFor key) (hresource : c.resource = resource) :
    c.OnBucket key.keyId resource (key.burstCapacity * utok) (key.burstRefillPerSec * utok) where
  key_eq := hc.key_eq
  resource_eq := hresource
  cap_eq := hc.cap_eq
  rate_eq := hc.rate_eq
  cost_nonneg := hc.cost_nonneg

end Call.MarshalledFor

abbrev ResolvedKey.eager (key : ResolvedKey) (b : EagerBucket) (steps : List CheckStep) :
    EagerBucket :=
  b.after (key.burstCapacity * utok) key.burstRefillPerSec steps

/-- A reference that has the level of the script admits what the script admits. -/
theorem EagerBucket.step_of {c : Call}
    (hlevel : (c.refilled db).1 = (b.credit capUtok refillPerSec c.now.us).level) :
    b.step capUtok refillPerSec (Step.of Call.exec c db) =
      ⟨(b.credit capUtok refillPerSec c.now.us).level -
        if c.admits db then c.argv.cost * utok else 0, c.now.us⟩ := by
  have hadmits : c.admits db =
      (decide ((b.credit capUtok refillPerSec c.now.us).level ≥ c.argv.cost * utok) &&
        (c.verdict db).sustainedOk && (c.verdict db).quotaOk) := by
    rw [← hlevel]
    rfl
  rw [hadmits]
  rfl

theorem Tracks.refilled_eq {c : Call} (hkey : key.WithinBounds) (hc : c.MarshalledFor key)
    (hresource : c.resource = resource) (hnow : b.lastUs ≤ c.now.us)
    (h : Tracks (key.burstCapacity * utok) key.burstRefillPerSec
      (db.bucket (bucketName key.keyId resource)) b) :
    c.refilled db =
      ((b.credit (key.burstCapacity * utok) key.burstRefillPerSec c.now.us).level, c.now.us) :=
  (Call.refilled_eq (hc.onBucket hresource) db).trans
    (h.refill_eq (mul_pos hkey.burstCapacity.1 utok_pos) hkey.burstRefillPerSec.1 hnow)

theorem Tracks.check {c : Call} (hkey : key.WithinBounds) (hc : c.MarshalledFor key)
    (hresource : c.resource = resource) (hnow : b.lastUs ≤ c.now.us)
    (h : Tracks (key.burstCapacity * utok) key.burstRefillPerSec
      (db.bucket (bucketName key.keyId resource)) b) :
    Tracks (key.burstCapacity * utok) key.burstRefillPerSec
      ((c.after db).bucket (bucketName key.keyId resource))
      (b.step (key.burstCapacity * utok) key.burstRefillPerSec (Step.of Call.exec c db)) := by
  have hrefill : 0 < key.burstRefillPerSec := hkey.burstRefillPerSec.1
  have hcap : 0 ≤ key.burstCapacity * utok :=
    mul_nonneg (by have := hkey.burstCapacity.1; omega) (by decide)
  have hrefilled := h.refilled_eq hkey hc hresource hnow
  rw [Call.bucket_after (hc.onBucket hresource) hcap (mul_pos hrefill utok_pos),
    EagerBucket.step_of (congrArg Prod.fst hrefilled)]
  by_cases hadmits : c.admits db = true
  · rw [if_pos hadmits, if_pos hadmits, hrefilled]
    have henough := (Call.admits_iff.mp hadmits).1
    have hcost : 0 ≤ c.argv.cost * utok := mul_nonneg hc.cost_nonneg utok_pos.le
    have hlevel : (b.credit (key.burstCapacity * utok) key.burstRefillPerSec c.now.us).level ≤
        key.burstCapacity * utok := min_le_left _ _
    rw [hrefilled] at henough
    apply Tracks.write
    · exact sub_nonneg.mpr henough
    · exact (sub_le_self _ hcost).trans hlevel
  · rw [if_neg hadmits, if_neg hadmits, sub_zero]
    exact h.credit hrefill hnow

/-- Along a run the stored bucket stands for the reference. -/
theorem tracks_of_run {steps : List CheckStep} (hkey : key.WithinBounds)
    (hrun : Run Call.exec (Keeping (bucketName key.keyId resource)) db steps db')
    (htyped : db.Typed)
    (hcalls : ∀ step ∈ steps, step.event.MarshalledFor key ∧ step.event.resource = resource)
    (htimes : steps.Pairwise fun earlier later => earlier.us ≤ later.us)
    (hstart : ∀ step ∈ steps, b.lastUs ≤ step.us)
    (h : Tracks (key.burstCapacity * utok) key.burstRefillPerSec
      (db.bucket (bucketName key.keyId resource)) b) :
    Tracks (key.burstCapacity * utok) key.burstRefillPerSec
      (db'.bucket (bucketName key.keyId resource)) (key.eager b steps) := by
  induction hrun generalizing b with
  | nil => exact h
  | @cons db found db' c steps hlink hrest ih =>
      obtain ⟨hfound, hsame⟩ := hlink
      obtain ⟨hc, hresource⟩ := hcalls _ (List.mem_cons_self ..)
      obtain ⟨hlater, htimes⟩ := List.pairwise_cons.mp htimes
      rw [← Keyspace.bucket_congr hsame] at h
      have hcheck := h.check hkey hc hresource (hstart _ (List.mem_cons_self ..))
      rw [Step.of_event] at hc
      rw [c.exec_after hfound] at ih
      exact ih (Call.typed_after hfound) (fun step hmem => hcalls step (List.mem_cons_of_mem _ hmem))
        htimes hlater hcheck

theorem EagerBucket.lastUs_after_le {capUtok refillPerSec : Int} {left right : List CheckStep}
    {step : CheckStep}
    (htimes : (left ++ step :: right).Pairwise fun earlier later => earlier.us ≤ later.us)
    (hstart : b.lastUs ≤ step.us) : (b.after capUtok refillPerSec left).lastUs ≤ step.us := by
  induction left using List.reverseRecOn with
  | nil => exact hstart
  | append_singleton left last _ =>
      rw [EagerBucket.after, List.foldl_append]
      have hpair := (List.pairwise_append.mp htimes).2.2
      exact hpair last (List.mem_append_right _ (List.mem_singleton_self _)) step
        (List.mem_cons_self ..)

/-- **The lazy, rounded bucket is the ideal bucket.** In exact arithmetic, at every check of a run with a
non-decreasing clock the level the script computes is the level of the reference that starts full and
is brought up to date at every check; so the burst verdict, the remaining tokens and the reset time are
those of the reference. -/
theorem lazy_bucket_is_ideal {steps : List CheckStep} (hkey : key.WithinBounds)
    (hrun : Run Call.exec (Keeping (bucketName key.keyId resource)) db steps db')
    (htyped : db.Typed) (habsent : db.bucket (bucketName key.keyId resource) = none)
    (hcalls : ∀ step ∈ steps, step.event.MarshalledFor key ∧ step.event.resource = resource)
    (htimes : steps.Pairwise fun earlier later => earlier.us ≤ later.us)
    (startUs : Int) (hstart : ∀ step ∈ steps, startUs ≤ step.us) :
    ∀ left step right, steps = left ++ step :: right →
      let ideal := key.eager ⟨key.burstCapacity * utok, startUs⟩ left
      let level := (ideal.credit (key.burstCapacity * utok) key.burstRefillPerSec step.us).level
      let levelAfter := level - if step.admitted then step.cost * utok else 0
      (step.event.refilled step.before).1 = level ∧
      ∃ r, step.reply = .ok r ∧
        (r.denyLayer = some .burst ↔ level < step.cost * utok) ∧
        r.bRemaining = ⌊(levelAfter : ℚ) / utok⌋ ∧
        r.bReset = ⌈((key.burstCapacity * utok - levelAfter : Int) : ℚ) /
          ((key.burstRefillPerSec * utok : Int) : ℚ)⌉ := by
  intro left step right hsteps ideal level levelAfter
  rw [hsteps] at hrun hcalls htimes hstart
  obtain ⟨middle, hleft, hrest⟩ := Run.append_iff.mp hrun
  obtain ⟨c, found, rfl, ⟨hfound, hsame⟩, -⟩ := Run.cons_iff.mp hrest
  have hmem : Step.of Call.exec c found ∈ left ++ Step.of Call.exec c found :: right :=
    List.mem_append_right _ (List.mem_cons_self ..)
  obtain ⟨hc, hresource⟩ := hcalls _ hmem
  rw [Step.of_event] at hc hresource
  have htracks : Tracks (key.burstCapacity * utok) key.burstRefillPerSec
      (found.bucket (bucketName key.keyId resource)) ideal := by
    rw [Keyspace.bucket_congr hsame]
    refine tracks_of_run hkey hleft htyped
      (fun step hstep => hcalls step (List.mem_append_left _ hstep))
      (List.pairwise_append.mp htimes).1
      (fun step hstep => hstart step (List.mem_append_left _ hstep)) ?_
    rw [habsent]
    exact .absent startUs
  have hnow : ideal.lastUs ≤ us (Step.of Call.exec c found) :=
    EagerBucket.lastUs_after_le htimes (hstart _ hmem)
  have hrefilled : (c.refilled found).1 = level :=
    congrArg Prod.fst (htracks.refilled_eq hkey hc hresource hnow)
  have hafter : c.levelAfter found = levelAfter := by
    show (c.refilled found).1 - _ = level - _
    rw [hrefilled, c.admitted_step hfound]
    rfl
  have hargv := hc.argv_eq
  refine ⟨hrefilled, c.reply found, (c.answered hfound).reply_eq, ?_, ?_, ?_⟩
  · rw [Call.denyLayer_eq_burst, hrefilled]
    rfl
  · rw [Call.reply_bRemaining, hafter]
  · rw [Call.reply_bReset, hafter, hargv]
    rfl

/-- A check at five seconds that takes the whole burst, and one a second later that finds one token
instead of two. -/
theorem lazy_bucket_is_ideal_sample :
    let first : CheckStep := Step.of Call.exec (sampleCall 5 2 "a") Keyspace.empty
    let second : CheckStep := Step.of Call.exec (sampleCall 6 2 "b") first.after
    first.admitted = true ∧ (second.event.refilled second.before).1 = 1000000 := by
  intro first second
  have hrun : Run Call.exec (Keeping (bucketName samplePlan.keyId sampleResource)) Keyspace.empty
      [first, second] second.after :=
    .cons ⟨Keyspace.typed_empty, rfl⟩ (.cons ⟨sample_typed _, rfl⟩ (.nil _))
  have hcalls : ∀ step ∈ [first, second],
      step.event.MarshalledFor samplePlan ∧ step.event.resource = sampleResource := by
    simp only [List.mem_cons, List.not_mem_nil, or_false, forall_eq_or_imp, forall_eq]
    exact ⟨⟨⟨rfl, rfl, by decide⟩, rfl⟩, ⟨⟨rfl, rfl, by decide⟩, rfl⟩⟩
  have hsecond := (lazy_bucket_is_ideal samplePlan_withinBounds hrun Keyspace.typed_empty rfl hcalls
    (by decide +kernel) 0 (by decide +kernel) [first] second [] rfl).1
  have hideal : ((samplePlan.eager ⟨samplePlan.burstCapacity * utok, 0⟩ [first]).credit
      (samplePlan.burstCapacity * utok) samplePlan.burstRefillPerSec second.us).level = 1000000 := by
    decide +kernel
  exact ⟨by decide +kernel, hsecond.trans hideal⟩

end QuotaGuard
