import QuotaGuard.Proof.Admin
import QuotaGuard.Proof.Reconcile
import QuotaGuard.Proof.Usage

/-!
# The limits of a key

A key has the limits of its plan but for those it overrides. What sets an override is checked by the type
of its field, so no override is zero, and resolving a limit by `or` and by `is not None` is the same. The
override of a key is the one that was set last; one that was set to null is again the plan's.
-/

namespace QuotaGuard

/-- `OVERRIDE_TO_PLAN_FIELD`: the limits that a key may override. -/
inductive LimitField where
  | burstCapacity
  | burstRefillPerSec
  | sustainedLimit
  | sustainedWindowSeconds
  | monthlyQuota
  deriving DecidableEq

namespace LimitField

def bound : LimitField → Int
  | burstCapacity => 1000000
  | burstRefillPerSec => 100000
  | sustainedLimit => 1000000
  | sustainedWindowSeconds => 86400
  | monthlyQuota => 1000000000000

def ofPlan (plan : Plan) : LimitField → Int
  | burstCapacity => plan.burstCapacity
  | burstRefillPerSec => plan.burstRefillPerSec
  | sustainedLimit => plan.sustainedLimit
  | sustainedWindowSeconds => plan.sustainedWindowSeconds
  | monthlyQuota => plan.monthlyQuota

/-- The override. -/
def ofKey (key : ApiKey) : LimitField → Option Int
  | burstCapacity => key.overrideBurstCapacity
  | burstRefillPerSec => key.overrideBurstRefillPerSec
  | sustainedLimit => key.overrideSustainedLimit
  | sustainedWindowSeconds => key.overrideSustainedWindowSeconds
  | monthlyQuota => key.overrideMonthlyQuota

/-- The effective limit. -/
def ofResolved (limits : ResolvedKey) : LimitField → Int
  | burstCapacity => limits.burstCapacity
  | burstRefillPerSec => limits.burstRefillPerSec
  | sustainedLimit => limits.sustainedLimit
  | sustainedWindowSeconds => limits.sustainedWindowSeconds
  | monthlyQuota => limits.monthlyQuota

/-- What the payload says of the override: nothing, null or a value. -/
def ofPayload (data : KeyUpdateRequest) : LimitField → Option (Option Int)
  | burstCapacity => KeyUpdateRequest.override data.overrideBurstCapacity
  | burstRefillPerSec => KeyUpdateRequest.override data.overrideBurstRefillPerSec
  | sustainedLimit => KeyUpdateRequest.override data.overrideSustainedLimit
  | sustainedWindowSeconds => KeyUpdateRequest.override data.overrideSustainedWindowSeconds
  | monthlyQuota => KeyUpdateRequest.override data.overrideMonthlyQuota

def ofColumns (columns : KeyColumns) : LimitField → Option (Option Int)
  | burstCapacity => columns.overrideBurstCapacity
  | burstRefillPerSec => columns.overrideBurstRefillPerSec
  | sustainedLimit => columns.overrideSustainedLimit
  | sustainedWindowSeconds => columns.overrideSustainedWindowSeconds
  | monthlyQuota => columns.overrideMonthlyQuota

variable {key : ApiKey} {plan : Plan}

theorem ofResolved_resolve (field : LimitField) :
    field.ofResolved (key.resolve plan) = orValue (field.ofKey key) (field.ofPlan plan) := by
  cases field <;> rfl

/-- A limit that the key does not override is that of the plan. -/
theorem ofResolved_of_none {field : LimitField} (h : field.ofKey key = none) :
    field.ofResolved (key.resolve plan) = field.ofPlan plan := by
  rw [ofResolved_resolve, h]
  rfl

theorem ofKey_write (columns : KeyColumns) (field : LimitField) :
    field.ofKey (columns.write key) = (field.ofColumns columns).getD (field.ofKey key) := by
  cases field <;> rfl

theorem ofColumns_columns (data : KeyUpdateRequest) (field : LimitField) :
    field.ofColumns (data.columns key) = changed (field.ofKey key) (field.ofPayload data) := by
  cases field <;> rfl

theorem ofResolved_within {limits : ResolvedKey} (h : limits.WithinBounds) (field : LimitField) :
    1 ≤ field.ofResolved limits ∧ field.ofResolved limits ≤ field.bound := by
  cases field with
  | burstCapacity => exact h.burstCapacity
  | burstRefillPerSec => exact h.burstRefillPerSec
  | sustainedLimit => exact h.sustainedLimit
  | sustainedWindowSeconds => exact h.sustainedWindowSeconds
  | monthlyQuota => exact h.monthlyQuota

end LimitField

/-! ### One quota for all -/

variable {db db' : Database} {key : ApiKey} {plan : Plan}

/-- No override of the quota is zero. -/
theorem ApiKey.WithinBounds.quotaLimit (hkey : key.WithinBounds) :
    key.quotaLimit plan = (key.resolve plan).monthlyQuota := by
  show key.quotaLimit plan = orValue key.overrideMonthlyQuota plan.monthlyQuota
  unfold ApiKey.quotaLimit orValue
  cases hoverride : key.overrideMonthlyQuota with
  | none => rfl
  | some quota =>
      have hpositive := (hkey.monthlyQuota quota hoverride).1
      exact (if_neg (by omega)).symm

theorem Database.load_keyHash (hkey : key ∈ db.keys) (hplan : db.planOfKey key = some plan) :
    db.load key.keyHash = some (key.resolve plan) := by
  unfold load
  rw [(Table.find?_eq_some_iff db.hashes).mpr ⟨hkey, rfl⟩]
  change (db.planOfKey key).map key.resolve = _
  rw [hplan]
  rfl

/-- A resolver of the quota of the key agrees with the one of the check path. -/
theorem upsertOf_quotaLimit (hkey : key ∈ db.keys) (hplan : db.planOfKey key = some plan)
    {name : String} {value : Int} {upsert : Upsert} (h : upsertOf db name value = some upsert)
    (hid : upsert.apiKeyId = key.id) : upsert.quotaLimit = key.quotaLimit plan := by
  simp only [upsertOf, Option.bind_eq_bind, Option.bind_eq_some_iff, Option.pure_def] at h
  obtain ⟨⟨keyId, month⟩, -, row, hrow, owner, howner, hupsert⟩ := h
  cases hupsert
  obtain rfl := Database.key_eq_of_id hkey (Database.keyOf_eq_some hrow).1 hid
  rw [howner, Option.some.injEq] at hplan
  rw [hplan]

theorem missingWarning_quota (hkey : key ∈ db.keys) (hplan : db.planOfKey key = some plan)
    {utcnow : ℚ} {redis : Keyspace} {h : History} {flag : String} {warning : Warning}
    (hwarning : missingWarning db utcnow redis h flag = some warning)
    (hid : warning.apiKeyId = key.id) : warning.payload.quota = key.quotaLimit plan := by
  simp only [missingWarning, Option.bind_eq_bind, Option.bind_eq_some_iff, Option.pure_def] at hwarning
  obtain ⟨⟨keyId, month⟩, -, row, hrow, -, -, used, -, owner, howner, hresult⟩ := hwarning
  cases hresult
  obtain rfl := Database.key_eq_of_id hkey (Database.keyOf_eq_some hrow).1 hid
  rw [howner, Option.some.injEq] at hplan
  rw [hplan]
  rfl

theorem getLiveUsage_quota {keyId : String} {quota : Int} {now : Time} {redis : Keyspace}
    {entry : MonthUsage} (h : getLiveUsage keyId quota now redis = some entry) :
    entry.quota = quota := by
  unfold getLiveUsage at h
  split at h
  · split at h
    · cases h
      rfl
    · cases h
  · cases h
  · cases h

theorem getRollupHistory_source {failing : Option SqlError} {h : History} {apiKeyId months : Nat}
    {entry : MonthUsage} (hentry : entry ∈ getRollupHistory failing h apiKeyId months) :
    entry.source = .rollup := by
  unfold getRollupHistory at hentry
  split at hentry
  · cases hentry
  · obtain ⟨rollup, -, rfl⟩ := List.mem_map.mp hentry
    rfl

theorem getUsageReport_quota (hkey : key ∈ db.keys) (hplan : db.planOfKey key = some plan)
    {failing : Option SqlError} {h : History} {redis : Keyspace} {now : Time} {months : Nat}
    {report : UsageReport}
    (hreport : getUsageReport db failing h redis now key.keyId.val months = some report)
    {entry : MonthUsage} (hentry : entry ∈ report.months) (hlive : entry.source = .live) :
    entry.quota = key.quotaLimit plan := by
  rw [getUsageReport, Database.keyOf_val hkey] at hreport
  change (do let plan ← db.planOfKey key; _) = _ at hreport
  rw [hplan] at hreport
  cases hreport
  rcases List.mem_append.mp hentry with hcurrent | hpast
  · exact getLiveUsage_quota (Option.mem_toList.mp hcurrent)
  · rw [getRollupHistory_source hpast] at hlive
    cases hlive

/-! ### One call after another -/

/-- A call that no other one interrupts. -/
def AdminCall.serve (call : AdminCall) (db : Database) : Except AdminError Unit × Database :=
  call.request.alone db

abbrev ServeStep := Step Database AdminCall (Except AdminError Unit)

/-- Calls one after another are a run of the system in which they could have interleaved. -/
theorem AdminCall.final_serve (calls : Nat → AdminCall) (db : Database) (is : List Nat)
    (hdistinct : is.Nodup) :
    (Run.final (adminExec calls) (Transaction.State.start db)
        (is.flatMap fun i => [.read i, .commit i])).store =
      Run.final AdminCall.serve db (is.map calls) := by
  have halone : Run.final (fun i => (calls i).request.alone) db is =
      Run.final AdminCall.serve db (is.map calls) := by
    induction is generalizing db with
    | nil => rfl
    | cons i is ih => exact ih _ (List.nodup_cons.mp hdistinct).2
  rw [← halone]
  exact Transaction.final_alone is hdistinct fun _ _ => rfl

/-- The payload a call has for the key. -/
def AdminCall.payloadFor (keyId : String) : AdminCall → KeyUpdateRequest
  | .updateKey id data => if id = keyId then data else {}
  | .createPlan _ => {}
  | .updatePlan _ _ => {}
  | .issueKey _ _ _ _ => {}
  | .revokeKey _ _ => {}

/-- What a step sets the override of the key to. A call that is rejected sets nothing. -/
def setsOverride (keyId : String) (field : LimitField) (step : ServeStep) : Option (Option Int) :=
  match step.reply with
  | .ok _ => field.ofPayload (step.event.payloadFor keyId)
  | .error _ => none

/-- What a call has pending for the row of a key is what its payload sets. -/
theorem AdminCall.read_columnsOf {call : AdminCall} {write : AdminWrite} (hkey : key ∈ db.keys)
    (h : call.read db = .ok write) (field : LimitField) :
    field.ofColumns (write.columnsOf key) =
      changed (field.ofKey key) (field.ofPayload (call.payloadFor key.keyId.val)) := by
  have hnothing : field.ofColumns {} = changed (field.ofKey key) (field.ofPayload {}) := by
    cases field <;> rfl
  cases call with
  | createPlan data =>
      obtain ⟨-, rfl⟩ := createPlan_ok h
      exact hnothing
  | updatePlan slug data =>
      obtain ⟨plan, -, -, rfl, -⟩ := updatePlan_ok h
      exact hnothing
  | issueKey slug name keyId keyHash =>
      obtain ⟨planId, rfl⟩ := issueKey_ok h
      exact hnothing
  | updateKey keyId data =>
      obtain ⟨row, hrow, rfl, -, rfl⟩ := updateKey_ok h
      by_cases hown : row.id = key.id
      · obtain rfl := Database.key_eq_of_id hkey hrow hown
        rw [AdminWrite.columnsOf, if_pos rfl, payloadFor, if_pos rfl]
        exact field.ofColumns_columns data
      · have hother : row.keyId.val ≠ key.keyId.val :=
          fun heq => hown (congrArg ApiKey.id (Database.key_eq_of_keyId hkey hrow heq))
        rw [AdminWrite.columnsOf, if_neg hown, payloadFor, if_neg hother]
        exact hnothing
  | revokeKey keyId now =>
      obtain ⟨row, -, -, -, rfl⟩ := revokeKey_ok h
      rw [AdminWrite.columnsOf]
      split
      · cases field <;> rfl
      · exact hnothing

/-- What a key keeps, and what has become of its overrides. -/
structure ApiKey.Follows (key row : ApiKey) (override : LimitField → Option Int) : Prop where
  id : row.id = key.id
  keyId : row.keyId = key.keyId
  planId : row.planId = key.planId
  ofKey : ∀ field : LimitField, field.ofKey row = override field

theorem AdminCall.serve_row (call : AdminCall) (hkey : key ∈ db.keys) :
    ∃ row ∈ (call.serve db).2.keys, key.Follows row fun field =>
      (setsOverride key.keyId.val field (Step.of AdminCall.serve call db)).getD (field.ofKey key) := by
  rcases call.request.alone_cases db with ⟨e, halone⟩ | ⟨write, db', hread, hcommit, halone⟩
  · refine ⟨key, ?_, rfl, rfl, rfl, fun field => ?_⟩
    · rw [serve, halone]
      exact hkey
    · rw [setsOverride, Step.of_reply, serve, halone]
      rfl
  · refine ⟨(write.columnsOf key).write key, ?_, rfl, rfl, rfl, fun field => ?_⟩
    · rw [serve, halone]
      exact AdminWrite.commit_row hkey hcommit
    · rw [field.ofKey_write, AdminCall.read_columnsOf hkey hread, getD_changed, setsOverride,
        Step.of_reply, serve, halone]
      rfl

/-! ### Every sequence of calls -/

variable {steps : List ServeStep} {keyId : String} {field : LimitField}

theorem AdminCall.serve_withinBounds (call : AdminCall) (hdb : db.WithinBounds) :
    (call.serve db).2.WithinBounds := by
  rcases call.request.alone_cases db with ⟨e, halone⟩ | ⟨write, db', hread, hcommit, halone⟩
  · rw [serve, halone]
    exact hdb
  · rw [serve, halone]
    exact AdminWrite.WithinBounds.commit (AdminCall.read_withinBounds hread) hdb hcommit

theorem withinBounds_of_serve (hrun : Run AdminCall.serve Undisturbed db steps db')
    (hdb : db.WithinBounds) : db'.WithinBounds := by
  refine (hrun.invariant (p := fun _ => True) ?_ ?_ hdb fun _ _ => trivial).1
  · intro call middle found hmiddle hlink
    cases hlink
    exact hmiddle
  · intro call middle _ hmiddle
    exact call.serve_withinBounds hmiddle

/-- What the steps leave of an override: the last of them that sets it decides. -/
def lastOverride (keyId : String) (field : LimitField) (steps : List ServeStep) (old : Option Int) :
    Option Int :=
  steps.foldl (fun old step => (setsOverride keyId field step).getD old) old

theorem lastOverride_none (h : ∀ step ∈ steps, ∀ v, setsOverride keyId field step ≠ some (some v)) :
    lastOverride keyId field steps none = none := by
  induction steps with
  | nil => rfl
  | cons step steps ih =>
      have hnull : (setsOverride keyId field step).getD none = none := by
        cases hset : setsOverride keyId field step with
        | none => rfl
        | some v =>
            cases v with
            | none => rfl
            | some v => exact absurd hset (h step (List.mem_cons_self ..) v)
      rw [lastOverride, List.foldl_cons, hnull]
      exact ih fun later hlater => h later (List.mem_cons_of_mem _ hlater)

/-- **The override of a key is the one that was set last.** -/
theorem row_of_serve (hrun : Run AdminCall.serve Undisturbed db steps db') (hkey : key ∈ db.keys) :
    ∃ row ∈ db'.keys, key.Follows row fun field =>
      lastOverride key.keyId.val field steps (field.ofKey key) := by
  induction hrun generalizing key with
  | nil => exact ⟨key, hkey, rfl, rfl, rfl, fun _ => rfl⟩
  | @cons db found db' call steps hlink hrest ih =>
      cases hlink
      obtain ⟨middle, hmiddle, hfirst⟩ := call.serve_row hkey
      obtain ⟨row, hrow, hlater⟩ := ih hmiddle
      refine ⟨row, hrow, hlater.id.trans hfirst.id, hlater.keyId.trans hfirst.keyId,
        hlater.planId.trans hfirst.planId, fun field => ?_⟩
      rw [hlater.ofKey, hfirst.ofKey, hfirst.keyId]
      rfl

/-- The quota of the key is the same for whoever resolves it. -/
structure OneQuota (db : Database) (key : ApiKey) (quota : Int) : Prop where
  run : ∀ name value upsert, upsertOf db name value = some upsert → upsert.apiKeyId = key.id →
    upsert.quotaLimit = quota
  reconcile : ∀ utcnow redis h flag warning,
    missingWarning db utcnow redis h flag = some warning → warning.apiKeyId = key.id →
    warning.payload.quota = quota
  report : ∀ failing h redis now months report,
    getUsageReport db failing h redis now key.keyId.val months = some report →
    ∀ entry ∈ report.months, entry.source = .live → entry.quota = quota

theorem oneQuota (hkey : key ∈ db.keys) (hplan : db.planOfKey key = some plan) :
    OneQuota db key (key.quotaLimit plan) where
  run := fun _ _ _ hupsert hid => upsertOf_quotaLimit hkey hplan hupsert hid
  reconcile := fun _ _ _ _ _ hwarning hid => missingWarning_quota hkey hplan hwarning hid
  report := fun _ _ _ _ _ _ hreport _ hentry hlive =>
    getUsageReport_quota hkey hplan hreport hentry hlive

/-- What a call leaves of the overrides of its key, and of one it has set to null as long as no later
call sets it to a value. -/
structure Overrides (key : ApiKey) (data : KeyUpdateRequest) (after : Database)
    (future : List ServeStep) (last : Database) : Prop where
  now : ∃ row ∈ after.keys, row.id = key.id ∧ ∀ field : LimitField,
    (field.ofPayload data = none → field.ofKey row = field.ofKey key) ∧
      ∀ override, field.ofPayload data = some override → field.ofKey row = override
  null : ∀ field : LimitField, field.ofPayload data = some none →
    (∀ later ∈ future, ∀ v, setsOverride key.keyId.val field later ≠ some (some v)) →
    ∃ row ∈ last.keys, row.id = key.id ∧ ∃ plan, last.planOfKey row = some plan ∧
      field.ofResolved (row.resolve plan) = field.ofPlan plan

/-- A call that is rejected changes nothing. -/
theorem AdminCall.serve_error {call : AdminCall} {e : AdminError}
    (h : (call.serve db).1 = .error e) : (call.serve db).2 = db := by
  rcases call.request.alone_cases db with ⟨e', halone⟩ | ⟨write, db', -, -, halone⟩
  · rw [serve, halone]
  · rw [serve, halone] at h
    cases h

/-- A call that updates a key has found it. -/
theorem AdminCall.serve_updateKey {data : KeyUpdateRequest}
    (h : ((AdminCall.updateKey keyId data).serve db).1 = .ok ()) :
    ∃ key ∈ db.keys, key.keyId.val = keyId := by
  rcases (AdminCall.updateKey keyId data).request.alone_cases db with
    ⟨e, halone⟩ | ⟨write, db', hread, -, -⟩
  · rw [serve, halone] at h
    cases h
  · obtain ⟨key, hkey, hid, -, -⟩ := updateKey_ok hread
    exact ⟨key, hkey, hid⟩

theorem overrides_of_serve {data : KeyUpdateRequest} (hkey : key ∈ db.keys)
    (hok : ((AdminCall.updateKey key.keyId.val data).serve db).1 = .ok ())
    (hfuture : Run AdminCall.serve Undisturbed ((AdminCall.updateKey key.keyId.val data).serve db).2
      steps db') :
    Overrides key data ((AdminCall.updateKey key.keyId.val data).serve db).2 steps db' := by
  obtain ⟨row, hrow, hnow⟩ := (AdminCall.updateKey key.keyId.val data).serve_row hkey
  have hset : ∀ field : LimitField, field.ofKey row = (field.ofPayload data).getD (field.ofKey key) := by
    intro field
    rw [hnow.ofKey, setsOverride, Step.of_reply, hok, Step.of_event, AdminCall.payloadFor, if_pos rfl]
  refine ⟨⟨row, hrow, hnow.id, fun field => ⟨fun habsent => ?_, fun override hpresent => ?_⟩⟩,
    fun field hnull hlater => ?_⟩
  · rw [hset, habsent]
    rfl
  · rw [hset, hpresent]
    rfl
  · obtain ⟨last, hlast, hthen⟩ := row_of_serve hfuture hrow
    obtain ⟨plan, hplan⟩ := Database.planOfKey_isSome hlast
    refine ⟨last, hlast, hthen.id.trans hnow.id, plan, hplan, LimitField.ofResolved_of_none ?_⟩
    have hcleared : field.ofKey row = none := by
      rw [hset, hnull]
      rfl
    rw [hthen.ofKey, hcleared, hnow.keyId]
    exact lastOverride_none hlater

/-- **The effective limits of every key are within the bounds, and resolved the same everywhere.** In
every state that a sequence of admin calls reaches: the limits a key resolves to are within the bounds of
the schemas, and the check path, the rollup job and the usage report find the same quota. A call that is
rejected changes nothing. One that updates a key keeps the overrides that its payload leaves out and sets
the others; a limit whose override it sets to null is that of the plan, now and in every later state, until
a later call sets the override to a value. -/
theorem limits_resolved (hrun : Run AdminCall.serve Undisturbed Database.empty steps db) :
    (∀ key ∈ db.keys, ∃ plan, db.planOfKey key = some plan ∧
      db.load key.keyHash = some (key.resolve plan) ∧
      (∀ field : LimitField, 1 ≤ field.ofResolved (key.resolve plan) ∧
        field.ofResolved (key.resolve plan) ≤ field.bound) ∧
      OneQuota db key (key.resolve plan).monthlyQuota) ∧
    ∀ past step future, steps = past ++ step :: future →
      (∀ e, step.reply = .error e → step.after = step.before) ∧
      ∀ keyId data, step.event = .updateKey keyId data → step.reply = .ok () →
        ∃ key ∈ step.before.keys, key.keyId.val = keyId ∧ Overrides key data step.after future db := by
  have hbounds := withinBounds_of_serve hrun Database.withinBounds_empty
  refine ⟨fun key hkey => ?_, ?_⟩
  · obtain ⟨plan, hplan⟩ := Database.planOfKey_isSome hkey
    have hload := Database.load_keyHash hkey hplan
    refine ⟨plan, hplan, hload, LimitField.ofResolved_within (hbounds.load hload), ?_⟩
    rw [← (hbounds.keys key hkey).quotaLimit]
    exact oneQuota hkey hplan
  · rintro past step future rfl
    obtain ⟨middle, -, hrest⟩ := Run.append_iff.mp hrun
    obtain ⟨call, found, rfl, hlink, hfuture⟩ := Run.cons_iff.mp hrest
    cases hlink
    refine ⟨fun e herror => AdminCall.serve_error herror, fun keyId data hevent hok => ?_⟩
    rw [Step.of_event] at hevent
    subst hevent
    obtain ⟨key, hkey, rfl⟩ := AdminCall.serve_updateKey hok
    exact ⟨key, hkey, rfl, overrides_of_serve hkey hok hfuture⟩

/-- A key overrides its quota, which is then set to null while the plan has another one. -/
def sampleOverrides : List AdminCall :=
  [.createPlan samplePlanRequest,
    .issueKey "free" ⟨"first", by decide +kernel, by decide +kernel⟩ sampleKey "digest",
    .updateKey sampleKey.val { overrideMonthlyQuota := some (some ⟨7, by decide, by decide⟩) },
    .updateKey sampleKey.val { overrideMonthlyQuota := some none },
    .updatePlan "free" { monthlyQuota := some (some ⟨9, by decide, by decide⟩) }]

theorem limits_resolved_sample :
    ((Run.final AdminCall.serve Database.empty sampleOverrides).load "digest").map
        ResolvedKey.monthlyQuota = some 9 ∧
      ∀ key ∈ (Run.final AdminCall.serve Database.empty sampleOverrides).keys, ∃ plan,
        (Run.final AdminCall.serve Database.empty sampleOverrides).planOfKey key = some plan ∧
          OneQuota (Run.final AdminCall.serve Database.empty sampleOverrides) key
            (key.resolve plan).monthlyQuota := by
  have hrun := Run.of_events AdminCall.serve Database.empty sampleOverrides
  refine ⟨by decide +kernel, fun key hkey => ?_⟩
  obtain ⟨plan, hplan, -, -, hquota⟩ := (limits_resolved hrun).1 key hkey
  exact ⟨plan, hplan, hquota⟩

end QuotaGuard
