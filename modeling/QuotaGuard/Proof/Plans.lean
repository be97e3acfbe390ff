import QuotaGuard.Proof.Admin

/-!
# A soft threshold needs a webhook

`update_plan` checks the rule across the two fields on the row it has read. Its commit then writes only
what it has changed, so the rule survives exactly those commits that do not write one field while
another request has taken away what it needs of the other.
-/

namespace QuotaGuard

open Transaction

/-- A plan with a soft threshold has a webhook. -/
def Plan.Warnable (plan : Plan) : Prop :=
  0 < plan.quotaSoftPct → ∃ url : WebhookUrl, plan.webhookUrl = some url.val

namespace PlanColumns

/-- The two fields agree where an update writes both. -/
def Agrees (columns : PlanColumns) : Prop :=
  ∀ pct, columns.quotaSoftPct = some pct → 0 < pct → columns.webhookUrl ≠ some none

/-- An update that raises the threshold alone finds a webhook, and one that clears the webhook alone
finds no threshold. -/
def Clean (columns : PlanColumns) (plan : Plan) : Prop :=
  (∀ pct, columns.quotaSoftPct = some pct → 0 < pct → columns.webhookUrl = none →
      plan.webhookUrl ≠ none) ∧
    (columns.webhookUrl = some none → columns.quotaSoftPct = none → plan.quotaSoftPct ≤ 0)

/-- **What keeps the rule**, exactly. -/
theorem write_warnable_iff {columns : PlanColumns} {plan : Plan} (hplan : plan.WithinBounds)
    (hrule : plan.Warnable) (hcolumns : columns.WithinBounds) (hagrees : columns.Agrees) :
    (columns.write plan).Warnable ↔ columns.Clean plan := by
  have hpct : (columns.write plan).quotaSoftPct = columns.quotaSoftPct.getD plan.quotaSoftPct := rfl
  have hurl : (columns.write plan).webhookUrl = columns.webhookUrl.getD plan.webhookUrl := rfl
  unfold Plan.Warnable at *
  rw [hpct, hurl]
  constructor
  · intro hkept
    constructor
    · intro pct hset hpos halone hmissing
      rw [hset, halone, Option.getD_some, Option.getD_none, hmissing] at hkept
      obtain ⟨url, hfound⟩ := hkept hpos
      cases hfound
    · intro hcleared halone
      by_contra hpos
      rw [hcleared, halone, Option.getD_some, Option.getD_none] at hkept
      obtain ⟨url, hfound⟩ := hkept (not_le.mp hpos)
      cases hfound
  · rintro ⟨hthreshold, hwebhook⟩ hpos
    cases hset : columns.webhookUrl with
    | none =>
        rw [Option.getD_none]
        cases hraised : columns.quotaSoftPct with
        | none =>
            rw [hraised, Option.getD_none] at hpos
            exact hrule hpos
        | some pct =>
            rw [hraised, Option.getD_some] at hpos
            obtain ⟨url, hfound⟩ := Option.ne_none_iff_exists'.mp (hthreshold pct hraised hpos hset)
            obtain ⟨valid, rfl⟩ := hplan.webhookUrl url hfound
            exact ⟨valid, hfound⟩
    | some url =>
        rw [Option.getD_some]
        cases url with
        | none =>
            cases hraised : columns.quotaSoftPct with
            | none =>
                rw [hraised, Option.getD_none] at hpos
                exact absurd hpos (not_lt.mpr (hwebhook hset hraised))
            | some pct =>
                rw [hraised, Option.getD_some] at hpos
                exact absurd hset (hagrees pct hraised hpos)
        | some url =>
            obtain ⟨valid, rfl⟩ := hcolumns.webhookUrl url hset
            exact ⟨valid, rfl⟩

end PlanColumns

/-- What a call has pending obeys the rule as far as it says both fields. -/
def AdminWrite.Agrees : AdminWrite → Prop
  | .insertPlan data => 0 < data.quotaSoftPct.val → data.webhookUrl ≠ none
  | .writePlan _ columns => columns.Agrees
  | .insertKey _ => True
  | .writeKey _ _ => True

/-- The commit finds the rows it updates as the rule needs them. -/
def AdminWrite.Clean (write : AdminWrite) (db : Database) : Prop :=
  ∀ id columns, write = .writePlan id columns → ∀ plan ∈ db.plans, plan.id = id → columns.Clean plan

theorem AdminCall.read_agrees {call : AdminCall} {db : Database} {write : AdminWrite}
    (h : call.read db = .ok write) : write.Agrees := by
  cases call with
  | createPlan data =>
      obtain ⟨hrule, rfl⟩ := createPlan_ok h
      intro hpos hmissing
      rw [hmissing] at hrule
      exact hrule hpos rfl
  | updatePlan slug data =>
      obtain ⟨plan, -, -, rfl, hrule⟩ := updatePlan_ok h
      intro pct hset hpos hcleared
      rw [hset, hcleared, Option.getD_some, Option.getD_some] at hrule
      exact hrule hpos rfl
  | issueKey slug name keyId keyHash =>
      obtain ⟨planId, rfl⟩ := issueKey_ok h
      trivial
  | updateKey keyId data =>
      obtain ⟨key, -, -, -, rfl⟩ := updateKey_ok h
      trivial
  | revokeKey keyId now =>
      obtain ⟨key, -, -, -, rfl⟩ := revokeKey_ok h
      trivial

/-- The rows are within the bounds, and every plan with a soft threshold has a webhook. -/
def Database.Warnable (db : Database) : Prop :=
  db.WithinBounds ∧ ∀ plan ∈ db.plans, plan.Warnable

theorem AdminWrite.Clean.commit {write : AdminWrite} {db db' : Database} (hclean : write.Clean db)
    (hbounds : write.WithinBounds) (hagrees : write.Agrees) (hdb : db.Warnable)
    (h : write.commit db = .ok db') : db'.Warnable := by
  refine ⟨hbounds.commit hdb.1 h, fun plan hplan => ?_⟩
  cases write with
  | insertPlan data =>
      obtain ⟨⟨id, hplans⟩, -⟩ := Database.insertPlan_ok h
      rw [hplans] at hplan
      rcases List.mem_append.mp hplan with hold | hnew
      · exact hdb.2 plan hold
      · rw [List.mem_singleton.mp hnew]
        intro hpos
        obtain ⟨url, hurl⟩ := Option.ne_none_iff_exists'.mp (hagrees hpos)
        exact ⟨url, congrArg (Option.map WebhookUrl.val) hurl⟩
  | writePlan id columns =>
      cases h
      obtain ⟨old, hold, rfl⟩ := Database.mem_plans_writePlan.mp hplan
      split
      · rename_i hid
        exact (PlanColumns.write_warnable_iff (hdb.1.plans old hold) (hdb.2 old hold) hbounds
          hagrees).mpr (hclean id columns rfl old hold hid)
      · exact hdb.2 old hold
  | insertKey issued =>
      obtain ⟨hplans, -⟩ := Database.insertKey_ok h
      rw [hplans] at hplan
      exact hdb.2 plan hplan
  | writeKey id columns =>
      cases h
      exact hdb.2 plan hplan

/-- **A soft threshold has a webhook in a clean run.** Any admin calls, the steps of which interleave
in any order, start from an empty database. When every commit finds the rows it updates as the rule
needs them, each plan is within the bounds, has a webhook if it has a soft threshold, and is left alone
by a call that raises. -/
theorem soft_threshold_has_webhook {calls : Nat → AdminCall} {steps : List AdminStep}
    {s : AdminState} (hrun : Run (adminExec calls) Undisturbed (State.start Database.empty) steps s)
    (hclean : ∀ step ∈ steps,
      Transaction.Clean (fun _ => AdminWrite.Clean) step.event step.before) :
    (∀ plan ∈ s.store.plans, plan.WithinBounds ∧ plan.Warnable) ∧
      ∀ step ∈ steps, ∀ i e, step.before.phase i ≠ .raised e → step.after.phase i = .raised e →
        step.after.store = step.before.store := by
  constructor
  · have hempty : ∀ plan ∈ Database.empty.plans, plan.Warnable :=
      fun _ hmem => absurd hmem List.not_mem_nil
    have hinv : s.store.Warnable := (run_invariant (I := Database.Warnable)
      (M := fun _ write => write.WithinBounds ∧ write.Agrees)
      (C := fun _ => AdminWrite.Clean)
      (fun _ _ _ _ h => ⟨AdminCall.read_withinBounds h, AdminCall.read_agrees h⟩)
      (fun _ _ _ _ hstore hmemo hok h => hok.commit hmemo.1 hmemo.2 hstore h) hrun
      ⟨Database.withinBounds_empty, hempty⟩ (Remembered.start _ _) hclean).1
    exact fun plan hplan => ⟨hinv.1.plans plan hplan, hinv.2 plan hplan⟩
  · intro step hmem i e hbefore hafter
    rw [hrun.eq_of hmem] at hafter ⊢
    exact store_eq_of_raised hbefore hafter

/-- A plan without a threshold; one request raises the threshold, another clears the webhook. -/
def sampleCalls : Nat → AdminCall
  | 0 => .createPlan samplePlanRequest
  | 1 => .updatePlan "free" { quotaSoftPct := some (some ⟨80, by decide, by decide⟩) }
  | _ => .updatePlan "free" { webhookUrl := some none }

/-- One request after the other: the second one is refused, and the threshold keeps its webhook. -/
theorem soft_threshold_has_webhook_sample :
    let s := Run.final (adminExec sampleCalls) (State.start Database.empty)
      [.read 0, .commit 0, .read 1, .commit 1, .read 2]
    (∃ plan ∈ s.store.plans, plan.quotaSoftPct = 80 ∧ plan.Warnable) ∧
      s.phase 2 = .raised (.validation
        "webhook_url is required when quota_soft_pct is greater than 0.") := by
  intro s
  have hrun := Run.of_events (adminExec sampleCalls) (State.start Database.empty)
    [.read 0, .commit 0, .read 1, .commit 1, .read 2]
  have hclean : ∀ step ∈ Run.trace (adminExec sampleCalls) (State.start Database.empty)
      [.read 0, .commit 0, .read 1, .commit 1, .read 2],
      Transaction.Clean (fun _ => AdminWrite.Clean) step.event step.before := by
    simp only [Run.trace, List.mem_cons, List.not_mem_nil, or_false, forall_eq_or_imp, forall_eq,
      Step.of_event, Step.of_before]
    refine ⟨clean_read 0 _, clean_commit (.insertPlan samplePlanRequest) (by decide +kernel) ?_,
      clean_read 1 _, clean_commit (.writePlan 1 { quotaSoftPct := some 80 }) (by decide +kernel) ?_,
      clean_read 2 _⟩
    · intro id columns hwrite
      cases hwrite
    · intro id columns hwrite plan hplan _
      cases hwrite
      refine ⟨fun pct _ _ _ => ?_, fun hcleared => ?_⟩
      · revert plan
        decide +kernel
      · cases hcleared
  have hpct : ∃ plan ∈ s.store.plans, plan.quotaSoftPct = 80 := by decide +kernel
  obtain ⟨plan, hplan, hset⟩ := hpct
  exact ⟨⟨plan, hplan, hset, ((soft_threshold_has_webhook hrun hclean).1 plan hplan).2⟩,
    by decide +kernel⟩

/-- Both requests read the row before either commits. -/
theorem soft_threshold_without_webhook :
    let s := Run.final (adminExec sampleCalls) (State.start Database.empty)
      [.read 0, .commit 0, .read 1, .read 2, .commit 1, .commit 2]
    (∃ steps, Run (adminExec sampleCalls) Undisturbed (State.start Database.empty) steps s) ∧
      s.phase 1 = .returned ∧ s.phase 2 = .returned ∧
      ∃ plan ∈ s.store.plans, plan.quotaSoftPct = 80 ∧ plan.webhookUrl = none ∧ ¬ plan.Warnable := by
  intro s
  have hrow : ∃ plan ∈ s.store.plans, plan.quotaSoftPct = 80 ∧ plan.webhookUrl = none := by
    decide +kernel
  refine ⟨⟨_, Run.of_events _ _ _⟩, by decide +kernel, by decide +kernel, ?_⟩
  obtain ⟨plan, hplan, hpct, hurl⟩ := hrow
  refine ⟨plan, hplan, hpct, hurl, fun hwarnable => ?_⟩
  rw [Plan.Warnable, hpct, hurl] at hwarnable
  obtain ⟨url, hfound⟩ := hwarnable (by decide)
  cases hfound

end QuotaGuard
