import QuotaGuard.Proof.Refill
import QuotaGuard.Proof.Trace

/-!
# The burst layer over runs

A run of checks on one bucket is a run of withdrawals from a token bucket: denied checks write
nothing, admitted ones credit and withdraw. What the other layers and the other keys do in between
is left open. The arithmetic of the script is taken to be exact.
-/

namespace QuotaGuard

open CheckStep TokenBucket

abbrev bucketName (key : KeyId) (resource : Resource) : String :=
  Family.bucket.name key resource.val

/-- A check of this bucket with these limits and a sensible cost. -/
structure Call.OnBucket (key : KeyId) (resource : Resource) (capUtok rateUtok : Int) (c : Call) :
    Prop where
  key_eq : c.key = key
  resource_eq : c.resource = resource
  cap_eq : c.argv.capUtok = capUtok
  rate_eq : c.argv.rateUtok = rateUtok
  cost_nonneg : 0 ≤ c.argv.cost

variable {key : KeyId} {resource : Resource} {capUtok rateUtok : Int} {db db' : Keyspace}

theorem bucketTtl_pos {argv : Argv} (hcap : 0 ≤ argv.capUtok) (hrate : 0 < argv.rateUtok) :
    0 < bucketTtl argv := by
  have hceil : 0 ≤ ⌈(argv.capUtok : ℚ) / argv.rateUtok⌉ := by
    apply Int.ceil_nonneg
    apply div_nonneg
    · exact_mod_cast hcap
    · exact_mod_cast hrate.le
  unfold bucketTtl
  omega

namespace Call

variable [Arithmetic] {c : Call}

omit [Arithmetic] in
theorem bkey_eq_bucketName (hc : c.OnBucket key resource capUtok rateUtok) :
    c.bkey = bucketName key resource := by
  rw [bkey_eq, hc.key_eq, hc.resource_eq]

theorem refilled_eq (hc : c.OnBucket key resource capUtok rateUtok) (db : Keyspace) :
    c.refilled db = refill capUtok rateUtok c.now.us (db.bucket (bucketName key resource)) := by
  rw [refilled, hc.cap_eq, hc.rate_eq, bkey_eq_bucketName hc]

theorem bucket_after (hc : c.OnBucket key resource capUtok rateUtok) (hcap : 0 ≤ capUtok)
    (hrate : 0 < rateUtok) (db : Keyspace) :
    (c.after db).bucket (bucketName key resource) =
      if c.admits db then some ((c.refilled db).1 - c.argv.cost * utok, (c.refilled db).2)
      else db.bucket (bucketName key resource) := by
  rw [← bkey_eq_bucketName hc]
  by_cases hadmits : c.admits db = true
  · have httl : 0 < bucketTtl c.argv := by
      apply bucketTtl_pos
      · rw [hc.cap_eq]
        exact hcap
      · rw [hc.rate_eq]
        exact hrate
    rw [if_pos hadmits, bucket_after_admitted hadmits, if_neg (not_le.mpr httl)]
  · rw [if_neg hadmits, bucket_after_denied hadmits]

end Call

section

attribute [local instance] Arithmetic.exact

def withdrawals (steps : List CheckStep) : List (ℚ × ℚ) :=
  (steps.filter admitted).map fun step => ((step.us : ℚ), ((step.cost * utok : Int) : ℚ))

theorem total_withdrawals (steps : List CheckStep) :
    total (withdrawals steps) = ((admittedCosts steps * utok : Int) : ℚ) := by
  unfold withdrawals admittedCosts total
  rw [List.map_map]
  induction steps.filter admitted with
  | nil => simp
  | cons step rest ih =>
      rw [List.map_cons, List.sum_cons, ih, List.map_cons, List.sum_cons]
      simp only [Function.comp_apply]
      push_cast
      ring

theorem withdrawals_cons (step : CheckStep) (rest : List CheckStep) :
    withdrawals (step :: rest) =
      if step.admitted then ((step.us : ℚ), ((step.cost * utok : Int) : ℚ)) :: withdrawals rest
      else withdrawals rest := by
  unfold withdrawals
  by_cases hadmitted : step.admitted = true
  · rw [if_pos hadmitted, List.filter_cons_of_pos hadmitted, List.map_cons]
  · rw [if_neg hadmitted, List.filter_cons_of_neg hadmitted]

theorem withdraw_cast (level amount ts : Int) :
    Bucket.withdraw (amount : ℚ) ⟨(level : ℚ), (ts : ℚ)⟩ = ⟨((level - amount : Int) : ℚ), ts⟩ := by
  rw [Bucket.withdraw]
  push_cast
  rfl

/-- A run of checks on a stored bucket serves withdrawals from it. -/
theorem served_of_run {steps : List CheckStep} (hcap : 0 < capUtok) (hrate : utok ≤ rateUtok)
    (hrun : Run Call.exec (Keeping (bucketName key resource)) db steps db') (htyped : db.Typed)
    (hcalls : ∀ step ∈ steps, step.event.OnBucket key resource capUtok rateUtok) {t ts : Int}
    (hbucket : db.bucket (bucketName key resource) = some (t, ts)) (ht : 0 ≤ t) (ht' : t ≤ capUtok) :
    ∃ t' ts', db'.bucket (bucketName key resource) = some (t', ts') ∧ 0 ≤ t' ∧ t' ≤ capUtok ∧
      Served ((rateUtok : ℚ) / utok) capUtok ⟨t, ts⟩ (withdrawals steps) ⟨t', ts'⟩ := by
  have hpos : 0 < rateUtok := utok_pos.trans_le hrate
  induction hrun generalizing t ts with
  | nil => exact ⟨t, ts, hbucket, ht, ht', .nil _⟩
  | @cons db found db' c steps hlink hrest ih =>
      obtain ⟨hfound, hsame⟩ := hlink
      have hc := hcalls _ (List.mem_cons_self ..)
      have hrestCalls : ∀ step ∈ steps, step.event.OnBucket key resource capUtok rateUtok :=
        fun step hmem => hcalls step (List.mem_cons_of_mem _ hmem)
      rw [Step.of_event] at hc
      have hstored : found.bucket (bucketName key resource) = some (t, ts) := by
        rw [Keyspace.bucket_congr hsame, hbucket]
      have hrefilled := Call.refilled_eq hc found
      rw [hstored] at hrefilled
      have hcases := refilled_refill capUtok c.now.us t ts hpos
      rw [← hrefilled] at hcases
      have hafter := Call.bucket_after hc hcap.le hpos found
      rw [withdrawals_cons, c.admitted_step hfound]
      rw [c.exec_after hfound] at hrest ih
      by_cases hadmits : c.admits found = true
      · rw [if_pos hadmits] at hafter
        rw [if_pos hadmits]
        have henough := (Call.admits_iff.mp hadmits).1
        have hcost : 0 ≤ c.argv.cost * utok := mul_nonneg hc.cost_nonneg utok_pos.le
        have hlevel := hcases.le_cap ht'
        obtain ⟨t', ts', hend, hlow, hhigh, hserved⟩ :=
          ih (Call.typed_after hfound) hrestCalls hafter (by omega) (by omega)
        rw [← withdraw_cast] at hserved
        refine ⟨t', ts', hend, hlow, hhigh, .cons (hcases.credits hcap hrate ht ht') ?_ hserved⟩
        show ((c.argv.cost * utok : Int) : ℚ) ≤ ((c.refilled found).1 : ℚ)
        exact_mod_cast henough
      · rw [if_neg hadmits] at hafter
        rw [if_neg hadmits]
        exact ih (Call.typed_after hfound) hrestCalls (hafter.trans hstored) ht ht'

/-- The bucket, if it is stored, is within its bounds and credited up to a time the clock has read. -/
def BucketBounds (name : String) (capUtok : Int) (readings : List Int) (db : Keyspace) : Prop :=
  ∀ t ts, db.bucket name = some (t, ts) → 0 ≤ t ∧ t ≤ capUtok ∧ ∃ reading ∈ readings, ts ≤ reading

theorem refill_bounds {state : Option (Int × Int)} {readings : List Int} (hcap : 0 < capUtok)
    (hrate : utok ≤ rateUtok) (nowUs : Int)
    (hstate : ∀ t ts, state = some (t, ts) →
      0 ≤ t ∧ t ≤ capUtok ∧ ∃ reading ∈ readings, ts ≤ reading) :
    0 ≤ (refill capUtok rateUtok nowUs state).1 ∧
      (refill capUtok rateUtok nowUs state).1 ≤ capUtok ∧
      (refill capUtok rateUtok nowUs state).1 * utok +
        (nowUs - (refill capUtok rateUtok nowUs state).2) * rateUtok ≤ capUtok * utok ∧
      ∃ reading ∈ readings ++ [nowUs], (refill capUtok rateUtok nowUs state).2 ≤ reading := by
  have hpos : 0 < rateUtok := utok_pos.trans_le hrate
  have hlast : nowUs ∈ readings ++ [nowUs] := List.mem_append_right _ (List.mem_singleton_self _)
  cases state with
  | none =>
      refine ⟨hcap.le, le_rfl, ?_, nowUs, hlast, le_rfl⟩
      show capUtok * utok + (nowUs - nowUs) * rateUtok ≤ capUtok * utok
      rw [sub_self, zero_mul, add_zero]
  | some stored =>
      obtain ⟨t, ts⟩ := stored
      obtain ⟨ht, ht', reading, hreading, hts⟩ := hstate t ts rfl
      have hcases := refilled_refill capUtok nowUs t ts hpos
      refine ⟨hcases.nonneg hcap.le ht, hcases.le_cap ht', hcases.inSight_le hrate ht', ?_⟩
      rcases le_max_iff.mp (hcases.ts_le hpos) with hold | hnow
      · exact ⟨reading, List.mem_append_left _ hreading, hold.trans hts⟩
      · exact ⟨nowUs, hlast, hnow⟩

theorem BucketBounds.congr {name : String} {readings : List Int} (hsame : db' name = db name)
    (h : BucketBounds name capUtok readings db) : BucketBounds name capUtok readings db' := by
  intro t ts hbucket
  rw [Keyspace.bucket_congr hsame] at hbucket
  exact h t ts hbucket

theorem BucketBounds.check {c : Call} {readings : List Int} (hcap : 0 < capUtok)
    (hrate : utok ≤ rateUtok) (hc : c.OnBucket key resource capUtok rateUtok)
    (h : BucketBounds (bucketName key resource) capUtok readings db) :
    BucketBounds (bucketName key resource) capUtok (readings ++ [c.now.us]) (c.after db) := by
  intro t ts hbucket
  have hpos : 0 < rateUtok := utok_pos.trans_le hrate
  rw [Call.bucket_after hc hcap.le hpos] at hbucket
  by_cases hadmits : c.admits db = true
  · rw [if_pos hadmits, Option.some.injEq, Prod.mk.injEq] at hbucket
    obtain ⟨rfl, rfl⟩ := hbucket
    have henough := (Call.admits_iff.mp hadmits).1
    have hcost : 0 ≤ c.argv.cost * utok := mul_nonneg hc.cost_nonneg utok_pos.le
    obtain ⟨-, hle, -, hreading⟩ := refill_bounds hcap hrate c.now.us h
    rw [← Call.refilled_eq hc db] at hle hreading
    exact ⟨by omega, by omega, hreading⟩
  · rw [if_neg hadmits] at hbucket
    obtain ⟨ht, ht', reading, hreading, hts⟩ := h t ts hbucket
    exact ⟨ht, ht', reading, List.mem_append_left _ hreading, hts⟩

theorem bounds_of_run {steps : List CheckStep} {earlier : List Int} (hcap : 0 < capUtok)
    (hrate : utok ≤ rateUtok)
    (hrun : Run Call.exec (Keeping (bucketName key resource)) db steps db') (htyped : db.Typed)
    (hcalls : ∀ step ∈ steps, step.event.OnBucket key resource capUtok rateUtok)
    (hstart : BucketBounds (bucketName key resource) capUtok earlier db) :
    db'.Typed ∧
      BucketBounds (bucketName key resource) capUtok (earlier ++ steps.map us) db' := by
  refine hrun.history (P := fun past db => db.Typed ∧
    BucketBounds (bucketName key resource) capUtok (earlier ++ past.map us) db) ⟨htyped, ?_⟩ ?_ hcalls
  · rw [List.map_nil, List.append_nil]
    exact hstart
  intro past middle c found hpast hlink hc
  obtain ⟨-, hbounds⟩ := hpast
  obtain ⟨hfound, hsame⟩ := hlink
  rw [Call.exec_eq hfound, List.map_append, ← List.append_assoc]
  exact ⟨Call.typed_after hfound, (hbounds.congr hsame).check hcap hrate hc⟩

theorem admittedCosts_le {c : Call} {rest : List CheckStep} {readings : List Int} {latest : Int}
    (hcap : 0 < capUtok) (hrate : utok ≤ rateUtok) (htyped : db.Typed)
    (hbounds : BucketBounds (bucketName key resource) capUtok readings db)
    (hc : c.OnBucket key resource capUtok rateUtok) (hadmits : c.admits db = true)
    (hrun : Run Call.exec (Keeping (bucketName key resource)) (c.after db) rest db')
    (hcalls : ∀ step ∈ rest, step.event.OnBucket key resource capUtok rateUtok)
    (hlatest : ∀ p ∈ withdrawals (Step.of Call.exec c db :: rest), p.1 ≤ latest) :
    ((admittedCosts (Step.of Call.exec c db :: rest) * utok : Int) : ℚ) ≤
      capUtok + (rateUtok : ℚ) / utok * (latest - c.now.us) := by
  have hpos : 0 < rateUtok := utok_pos.trans_le hrate
  obtain ⟨-, hlevel, hsight, -⟩ := refill_bounds hcap hrate c.now.us hbounds
  rw [← Call.refilled_eq hc db] at hlevel hsight
  have henough := (Call.admits_iff.mp hadmits).1
  have hcost : 0 ≤ c.argv.cost * utok := mul_nonneg hc.cost_nonneg utok_pos.le
  have hafter := Call.bucket_after hc hcap.le hpos db
  rw [if_pos hadmits] at hafter
  obtain ⟨t', ts', -, hend, -, hserved⟩ := served_of_run hcap hrate hrun
    (Call.typed_after htyped) hcalls hafter (by omega) (by omega)
  rw [← total_withdrawals]
  rw [withdrawals_cons, c.admitted_step htyped, if_pos hadmits] at hlatest ⊢
  rw [← withdraw_cast] at hserved
  have hutok : (0 : ℚ) < (utok : Int) := by decide
  have hlevel' : ((c.refilled db).1 : ℚ) ≤ capUtok := by exact_mod_cast hlevel
  have hsight' : Bucket.inSight ((rateUtok : ℚ) / utok) c.now.us
      ⟨(c.refilled db).1, (c.refilled db).2⟩ ≤ (capUtok : ℚ) := by
    rw [inSight_eq, div_le_iff₀ hutok]
    exact_mod_cast hsight
  have henough' : ((c.argv.cost * utok : Int) : ℚ) ≤ (c.refilled db).1 := by
    exact_mod_cast henough
  have hall := Served.cons (Credits.rfl hlevel' hsight') henough' hserved
  refine hall.total_le_capacity ?_ ?_ hlevel' hsight' (hlatest _ (List.mem_cons_self ..)) hlatest
  · apply div_nonneg _ hutok.le
    exact_mod_cast hpos.le
  · show (0 : ℚ) ≤ t'
    exact_mod_cast hend

/-- **The burst layer never over-credits.** In exact arithmetic, with a fixed capacity and rate, whatever
the costs, the clock readings, the other layers and the other keys: what is admitted from one admitted
check on costs at most the capacity and the yield of the rate up to the latest admitted reading, and
the stored level and stamp stay within their bounds. -/
theorem burst_never_overcredits {steps : List CheckStep} {earlier : List Int} (hcap : 1 ≤ capUtok)
    (hrate : utok ≤ rateUtok)
    (hrun : Run Call.exec (Keeping (bucketName key resource)) db steps db') (htyped : db.Typed)
    (hcalls : ∀ step ∈ steps, step.event.OnBucket key resource capUtok rateUtok)
    (hstart : BucketBounds (bucketName key resource) capUtok earlier db) :
    (∀ left first rest right, steps = left ++ (first :: rest ++ right) → first.admitted = true →
      ∀ latest : Int, (∀ step ∈ first :: rest, step.admitted = true → step.us ≤ latest) →
        ((admittedCosts (first :: rest) * utok : Int) : ℚ) ≤
          capUtok + (rateUtok : ℚ) / utok * (latest - first.us)) ∧
    ∀ left right middle, steps = left ++ right →
      Run Call.exec (Keeping (bucketName key resource)) db left middle →
      BucketBounds (bucketName key resource) capUtok (earlier ++ left.map us) middle := by
  constructor
  · intro left first rest right hsteps hfirst latest hlatest
    rw [hsteps] at hrun hcalls
    obtain ⟨middle, hleft, hrun⟩ := Run.append_iff.mp hrun
    obtain ⟨last, hsegment, -⟩ := Run.append_iff.mp hrun
    obtain ⟨c, found, rfl, ⟨hfound, hsame⟩, hrest⟩ := Run.cons_iff.mp hsegment
    have hbounds := (bounds_of_run hcap hrate hleft htyped
      (fun step hmem => hcalls step (List.mem_append_left _ hmem)) hstart).2.congr hsame
    have hsegmentCalls : ∀ step ∈ Step.of Call.exec c found :: rest,
        step.event.OnBucket key resource capUtok rateUtok :=
      fun step hmem => hcalls step (List.mem_append_right _ (List.mem_append_left _ hmem))
    rw [c.admitted_step hfound] at hfirst
    rw [c.exec_after hfound] at hrest
    refine admittedCosts_le hcap hrate hfound hbounds (hsegmentCalls _ (List.mem_cons_self ..)) hfirst
      hrest (fun step hmem => hsegmentCalls step (List.mem_cons_of_mem _ hmem)) fun p hp => ?_
    obtain ⟨step, hstep, rfl⟩ := List.mem_map.mp hp
    obtain ⟨hmem, hadmitted⟩ := List.mem_filter.mp hstep
    show (step.us : ℚ) ≤ latest
    exact_mod_cast hlatest step hmem hadmitted
  · intro left right middle hsteps hleft
    exact (bounds_of_run hcap hrate hleft htyped (fun step hmem =>
      hcalls step (hsteps ▸ List.mem_append_left _ hmem)) hstart).2

/-- Two checks that cost two each, three seconds apart, on a bucket of two that gains one a second. -/
theorem burst_never_overcredits_sample :
    let first : CheckStep := Step.of Call.exec (sampleCall 5 2 "a") Keyspace.empty
    let second : CheckStep := Step.of Call.exec (sampleCall 8 2 "b") first.after
    first.admitted = true ∧ second.admitted = true ∧
      ((admittedCosts [first, second] * utok : Int) : ℚ) ≤ 2000000 + 1 * (8000000 - 5000000) := by
  intro first second
  have hrun : Run Call.exec (Keeping (bucketName sampleKey sampleResource)) Keyspace.empty
      [first, second] second.after :=
    .cons ⟨Keyspace.typed_empty, rfl⟩ (.cons ⟨sample_typed _, rfl⟩ (.nil _))
  have hcalls : ∀ step ∈ [first, second],
      step.event.OnBucket sampleKey sampleResource (2 * utok) utok := by
    simp only [List.mem_cons, List.not_mem_nil, or_false, forall_eq_or_imp, forall_eq]
    exact ⟨⟨rfl, rfl, rfl, rfl, by decide⟩, ⟨rfl, rfl, rfl, rfl, by decide⟩⟩
  have hfirst : first.admitted = true := by decide +kernel
  have hstart : BucketBounds (bucketName sampleKey sampleResource) (2 * utok) [] Keyspace.empty :=
    nofun
  have hbound := (burst_never_overcredits (by decide) (by decide) hrun Keyspace.typed_empty hcalls
    hstart).1 [] first [second] [] rfl hfirst 8000000 (by decide +kernel)
  have hright : ((2 * utok : Int) : ℚ) + ((utok : Int) : ℚ) / (utok : Int) *
      ((8000000 : Int) - (first.us : ℚ)) = 2000000 + 1 * (8000000 - 5000000) := by decide +kernel
  rw [hright] at hbound
  exact ⟨hfirst, by decide +kernel, hbound⟩

end

end QuotaGuard
