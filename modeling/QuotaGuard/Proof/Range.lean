import QuotaGuard.Proof.Stored

/-!
# Reports in range

The remaining amounts of a reply lie between zero and its limits, and its resets are not negative,
whatever limits the checks before it had. One clamp is missing: a refill that credits nothing leaves
the level as it was stored, also when the capacity has been lowered below it since.
-/

namespace QuotaGuard

open CheckStep

/-- What a caller may expect of the numbers in a reply. -/
structure Reply.InRange (r : Reply) : Prop where
  burst : 0 ≤ r.bRemaining ∧ r.bRemaining ≤ r.bLimit
  burstReset : 0 ≤ r.bReset
  sustained : 0 ≤ r.sRemaining ∧ r.sRemaining ≤ r.sLimit
  sustainedReset : 0 ≤ r.sReset
  quota : 0 ≤ r.qRemaining ∧ r.qRemaining ≤ r.qLimit
  quotaReset : 1 ≤ r.qReset

/-- The check decides on a level within its own capacity, and its reply is in range. -/
structure CheckStep.InRange (step : CheckStep) : Prop where
  level : 0 ≤ (step.event.refilled step.before).1 ∧
    (step.event.refilled step.before).1 ≤ step.event.argv.capUtok
  reply : ∃ r, step.reply = .ok r ∧ r.InRange

/-- The bucket holds more than the capacity of this check, and the clock has not moved past its
stamp. -/
def Call.Overfull (c : Call) (db : Keyspace) : Prop :=
  ∃ t ts, db.bucket c.bkey = some (t, ts) ∧ c.argv.capUtok < t ∧ c.now.us ≤ ts

variable {c : Call} {db db' : Keyspace} {limits : ResolvedKey}

/-- Only a refill that has no time to credit leaves the level unclamped. -/
theorem Call.level_le_iff (hrate : c.argv.WholeRate) :
    (c.refilled db).1 ≤ c.argv.capUtok ↔ ¬ c.Overfull db := by
  obtain ⟨perSec, hperSec, hbounds⟩ := hrate
  unfold Call.refilled Call.Overfull
  rw [hperSec]
  cases hbucket : db.bucket c.bkey with
  | none =>
      refine ⟨fun _ => ?_, fun _ => le_rfl⟩
      rintro ⟨t, ts, hstored, -, -⟩
      cases hstored
  | some stored =>
      obtain ⟨t, ts⟩ := stored
      have hcases := refilledNear_refill hbounds c.now.us t ts
      generalize refill c.argv.capUtok (perSec * utok) c.now.us (some (t, ts)) = out at hcases ⊢
      constructor
      · rintro hle ⟨t', ts', hstored, hover, hback⟩
        rw [Option.some.injEq, Prod.mk.injEq] at hstored
        obtain ⟨rfl, rfl⟩ := hstored
        have hstill := elapsedUs_of_ge hback
        cases hcases with
        | still => exact absurd hle (not_le.mpr hover)
        | full hpos => omega
        | credited advance hpos => omega
      · intro hnot
        cases hcases with
        | still hstill =>
            by_contra hover
            refine hnot ⟨t, ts, rfl, not_le.mp hover, ?_⟩
            by_contra hlater
            rw [elapsedUs_of_le (by omega)] at hstill
            omega
        | full => exact le_rfl
        | credited advance _ _ hroom => exact hroom.le

/-- The quota and sustained parts are clamped, and the burst part is in range when the level is. -/
theorem Call.reply_inRange (hc : c.MarshalledFor limits) (hlimits : limits.WithinBounds)
    (hused : 0 ≤ c.used db) (hlow : 0 ≤ (c.refilled db).1)
    (hhigh : (c.refilled db).1 ≤ c.argv.capUtok) : (c.reply db).InRange := by
  have hcost : 0 ≤ c.argv.cost * utok := mul_nonneg hc.cost_nonneg utok_pos.le
  have hafter : 0 ≤ c.levelAfter db ∧ c.levelAfter db ≤ c.argv.capUtok := by
    unfold Call.levelAfter
    split
    · have henough := (Call.admits_iff.mp ‹_›).1
      constructor <;> omega
    · omega
  have hsustained : 1 ≤ c.argv.sustainedLimit := by
    rw [hc.argv_eq]
    exact hlimits.sustainedLimit.1
  have hquota : 1 ≤ c.argv.quotaHard := by
    rw [hc.argv_eq]
    exact hlimits.monthlyQuota.1
  have hcount : 0 ≤ c.countAfter db := by
    unfold Call.countAfter
    split <;> omega
  have husedAfter : 0 ≤ c.usedAfter db := by
    have := hc.cost_nonneg
    unfold Call.usedAfter
    split <;> omega
  have hrate : (0 : ℚ) ≤ c.argv.rateUtok := by
    rw [hc.rate_eq]
    exact_mod_cast hlimits.rate_pos.le
  have hutok : (0 : ℚ) < (utok : Int) := by decide
  rw [Call.reply_eq_report]
  refine ⟨⟨?_, ?_⟩, ?_, ⟨le_max_left _ _, ?_⟩, ?_, ⟨le_max_left _ _, ?_⟩, ?_⟩
  · apply Int.floor_nonneg.mpr
    apply div_nonneg _ hutok.le
    exact_mod_cast hafter.1
  · apply Int.floor_mono
    apply div_le_div_of_nonneg_right _ hutok.le
    exact_mod_cast hafter.2
  · apply Int.ceil_nonneg
    apply div_nonneg _ hrate
    exact_mod_cast sub_nonneg.mpr hafter.2
  · show max 0 (c.argv.sustainedLimit - c.countAfter db) ≤ c.argv.sustainedLimit
    omega
  · unfold report
    dsimp only
    split
    · exact le_max_left _ _
    · exact le_rfl
  · show max 0 (c.argv.quotaHard - c.usedAfter db) ≤ c.argv.quotaHard
    omega
  · have hend := c.now.sec_lt_monthEnd
    show 1 ≤ c.now.monthEnd - c.now.sec
    omega

/-- **Reports in range.** The limits may change from check to check to any values within the schema
bounds, the clock may stand still or go back, and keys may be lost: a check decides on a level within
its capacity, and reports numbers within its limits, exactly when it does not find more than its
capacity in a bucket whose stamp the clock has not passed. -/
theorem reports_in_range {steps : List CheckStep}
    (hrun : Run Call.exec Losing Keyspace.empty steps db')
    (hcalls : ∀ step ∈ steps, ∃ limits : ResolvedKey, limits.WithinBounds ∧
      step.event.MarshalledFor limits) :
    ∀ step ∈ steps, step.InRange ↔ ¬ step.event.Overfull step.before := by
  intro step hmem
  obtain ⟨limits, hlimits, hc⟩ := hcalls step hmem
  have hanswered := (typed_of_losing hrun Keyspace.typed_empty).2 step hmem
  have hstored : Stored step.event.key Ceilings.schema step.before := (stored_of_run hrun
    Keyspace.typed_empty (Stored.empty (by decide) (by decide)) (by decide) (by decide)
    fun other hother => by
      obtain ⟨limits, hlimits, hc⟩ := hcalls other hother
      exact hc.under_schema hlimits _).2 step hmem
  have hlow := (hstored.refilled (hc.under_schema hlimits _)).1
  have hused : 0 ≤ step.event.used step.before := by
    rw [Call.used, Call.qkey_eq_quotaName]
    exact (hstored.used _).1
  rw [← Call.level_le_iff (hc.wholeRate hlimits)]
  constructor
  · exact fun h => h.level.2
  · intro hhigh
    exact ⟨⟨hlow, hhigh⟩, _, hanswered.reply_eq, Call.reply_inRange hc hlimits hused hlow hhigh⟩

/-- Two requests of burst become one before the second check, which comes when the bucket has half of
them left. -/
theorem reports_in_range_sample :
    let first : CheckStep := Step.of Call.exec (sampleCall 5 1 "a") Keyspace.empty
    let lowered : ResolvedKey := { samplePlan with burstCapacity := 1 }
    let second : CheckStep := Step.of Call.exec
      ⟨sampleKey, sampleResource, sampleTime 5, scriptArgv lowered 1 "b"⟩ first.after
    first.admitted = true ∧ second.InRange := by
  intro first lowered second
  have hrun : Run Call.exec Losing Keyspace.empty [first, second] second.after :=
    .cons (fun _ => .inl rfl) (.cons (fun _ => .inl rfl) (.nil _))
  have hlowered : lowered.WithinBounds := by constructor <;> decide
  have hcalls : ∀ step ∈ [first, second], ∃ limits : ResolvedKey, limits.WithinBounds ∧
      step.event.MarshalledFor limits := by
    simp only [List.mem_cons, List.not_mem_nil, or_false, forall_eq_or_imp, forall_eq]
    exact ⟨⟨samplePlan, samplePlan_withinBounds, rfl, rfl, by decide⟩,
      ⟨lowered, hlowered, rfl, rfl, by decide⟩⟩
  have hstored : second.before.bucket second.event.bkey = some (1000000, 5000000) := by
    decide +kernel
  have hroom : ¬ second.event.Overfull second.before := by
    rintro ⟨t, ts, hbucket, hover, -⟩
    rw [hstored, Option.some.injEq, Prod.mk.injEq] at hbucket
    obtain ⟨rfl, -⟩ := hbucket
    exact absurd hover (by decide)
  exact ⟨by decide +kernel,
    (reports_in_range hrun hcalls second (by simp)).mpr hroom⟩

/-- The capacity is lowered from ten to five while nine tokens are left, and the clock has not moved:
the second check decides on nine, leaves eight of five, and reports a reset in the past. -/
theorem report_out_of_range :
    let roomy : ResolvedKey := { samplePlan with burstCapacity := 10 }
    let lowered : ResolvedKey := { samplePlan with burstCapacity := 5 }
    let first : CheckStep := Step.of Call.exec
      ⟨sampleKey, sampleResource, sampleTime 5, scriptArgv roomy 1 "a"⟩ Keyspace.empty
    let second : CheckStep := Step.of Call.exec
      ⟨sampleKey, sampleResource, sampleTime 5, scriptArgv lowered 1 "b"⟩ first.after
    Run Call.exec Losing Keyspace.empty [first, second] second.after ∧
      roomy.WithinBounds ∧ lowered.WithinBounds ∧ first.event.MarshalledFor roomy ∧
      second.event.MarshalledFor lowered ∧ first.admitted = true ∧ ¬ second.InRange ∧
      (second.event.refilled second.before).1 = 9000000 ∧
      ∃ r, second.reply = .ok r ∧ r.bLimit = 5 ∧ r.bRemaining = 8 ∧ r.bReset = -3 := by
  intro roomy lowered first second
  have hlevel : (second.event.refilled second.before).1 = 9000000 := by decide +kernel
  refine ⟨.cons (fun _ => .inl rfl) (.cons (fun _ => .inl rfl) (.nil _)), ?_, ?_, ⟨rfl, rfl, by decide⟩,
    ⟨rfl, rfl, by decide⟩, by decide +kernel, fun h => ?_, hlevel, ?_⟩
  · constructor <;> decide
  · constructor <;> decide
  · have hhigh := h.level.2
    rw [hlevel] at hhigh
    exact absurd hhigh (by decide)
  · exact ⟨second.event.reply second.before, by decide +kernel, by decide +kernel, by decide +kernel,
      by decide +kernel⟩

end QuotaGuard
