import QuotaGuard.Service.System
import QuotaGuard.Proof.Rollup
import QuotaGuard.Proof.Soft

/-!
# Warnings that a run adds

Phase 3 goes through the flags in Redis, not through the counters. It adds the warning of every flag it
finds, so a key past its threshold has its warning after a run exactly if it had one before or its flag
was still there. A flag that was lost, or that no check has set because the threshold was lowered below
the counter, leaves the key without a warning.
-/

namespace QuotaGuard

variable {env : Environment} {db : Database} {redis redis' : Keyspace} {h h' : History}
  {key : ApiKey} {month : String} {flags : List String} {w : World}

/-- The warning of a key for a month. -/
def ApiKey.warning (key : ApiKey) (month : String) : Nat × String × WebhookKind :=
  (key.id, month, .quotaSoft)

/-- The outbox has a row for it. -/
def History.Has (h : History) (slot : Nat × String × WebhookKind) : Prop :=
  slot ∈ h.outbox.map WebhookOutbox.slot

/-! ### One flag -/

theorem parseFlagKey_flagName (key : KeyId) (now : Time) :
    parseFlagKey (flagName key now.monthStr) = some (key.val, now.monthStr) :=
  parseKey_join (by decide) key.sep_notMem now.sep_notMem_monthStr

theorem Database.keyOf_val (hkey : key ∈ db.keys) : db.keyOf key.keyId.val = some key := by
  unfold keyOf
  cases hfind : db.keys.find? fun other => other.keyId.val = key.keyId.val with
  | none => exact absurd rfl (Table.find?_eq_none_iff.mp hfind key hkey)
  | some found =>
      obtain ⟨hfound, hval⟩ := Table.find?_spec hfind
      rw [key_eq_of_keyId hkey hfound hval]

theorem Database.planOfKey_isSome (hkey : key ∈ db.keys) : ∃ plan, db.planOfKey key = some plan := by
  obtain ⟨plan, hplan, hid⟩ := db.planOf key hkey
  exact ⟨plan, (Table.find?_eq_some_iff db.planIds).mpr ⟨hplan, hid⟩⟩

theorem usedOf_of_pos {name : String} (hpos : 0 < redis.counter name) :
    usedOf redis name = some (redis.counter name) := by
  unfold usedOf Keyspace.counter at *
  cases hentry : redis name with
  | none => rfl
  | some entry =>
      obtain ⟨value, deadline⟩ := entry
      rw [hentry] at hpos
      cases value with
      | int n => rfl
      | hash t ts => exact absurd hpos (lt_irrefl _)
      | zset members => exact absurd hpos (lt_irrefl _)
      | text s => exact absurd hpos (lt_irrefl _)

/-- A warning is added for a flag of a known key. -/
theorem missingWarning_eq_some {utcnow : ℚ} {flag : String} {warning : Warning}
    (hwarning : missingWarning db utcnow redis h flag = some warning) :
    ∃ key ∈ db.keys, flag = flagName key.keyId warning.month ∧
      warning.slot = key.warning warning.month := by
  simp only [missingWarning, Option.bind_eq_bind, Option.bind_eq_some_iff, Option.pure_def] at hwarning
  obtain ⟨⟨keyId, month⟩, hflag, key, hkey, -, -, used, -, plan, -, hresult⟩ := hwarning
  cases hresult
  obtain ⟨hmem, rfl⟩ := Database.keyOf_eq_some hkey
  exact ⟨key, hmem, parseKey_eq_some hflag, rfl⟩

/-- The flag of a key whose counter can be read leads to its warning, unless that is there. -/
theorem missingWarning_flagName (utcnow : ℚ) (hkey : key ∈ db.keys) (now : Time)
    (hpos : 0 < redis.counter (quotaName key.keyId now.monthStr))
    (hmissing : ¬ h.Has (key.warning now.monthStr)) :
    ∃ warning, missingWarning db utcnow redis h (flagName key.keyId now.monthStr) = some warning ∧
      warning.slot = key.warning now.monthStr := by
  obtain ⟨plan, hplan⟩ := Database.planOfKey_isSome hkey
  have hused : usedOf redis ("qg:q:" ++ (key.keyId.val ++ ":" ++ now.monthStr)) =
      some (redis.counter (quotaName key.keyId now.monthStr)) := usedOf_of_pos hpos
  have hguard : (key.id, now.monthStr, WebhookKind.quotaSoft) ∉ h.outbox.map WebhookOutbox.slot :=
    hmissing
  refine ⟨⟨key.id, now.monthStr,
    key.payload plan now.monthStr (redis.counter (quotaName key.keyId now.monthStr)) utcnow, utcnow⟩,
    ?_, rfl⟩
  simp only [missingWarning, parseFlagKey_flagName, Option.bind_eq_bind, Option.bind_some,
    Database.keyOf_val hkey, hplan, hused, guard, if_pos hguard, Option.pure_def]

/-! ### All flags -/

/-- What phase 3 does to the outbox. -/
structure Reconciles (db : Database) (flags : List String) (h h' : History) : Prop where
  kept : ∀ slot, h.Has slot → h'.Has slot
  added : ∀ slot, h'.Has slot → h.Has slot ∨
    ∃ key ∈ db.keys, ∃ month, flagName key.keyId month ∈ flags ∧ slot = key.warning month

theorem reconciles (db : Database) (utcnow : ℚ) (redis : Keyspace) (flags : List String) (n : Nat)
    (h : History) : Reconciles db flags h (reconcileSoftWebhooks db utcnow redis flags n h).2 := by
  induction flags generalizing n h with
  | nil => exact ⟨fun _ hslot => hslot, fun _ hslot => .inl hslot⟩
  | cons flag rest ih =>
      have hlater {h : History} {n : Nat} (slot : Nat × String × WebhookKind)
          (hslot : (reconcileSoftWebhooks db utcnow redis rest n h).2.Has slot) : h.Has slot ∨
          ∃ key ∈ db.keys, ∃ month, flagName key.keyId month ∈ flag :: rest ∧
            slot = key.warning month := by
        rcases (ih n h).added slot hslot with hold | ⟨key, hkey, month, hflag, hslot⟩
        · exact .inl hold
        · exact .inr ⟨key, hkey, month, List.mem_cons_of_mem _ hflag, hslot⟩
      unfold reconcileSoftWebhooks
      cases hwarning : missingWarning db utcnow redis h flag with
      | none => exact ⟨(ih n h).kept, hlater⟩
      | some warning =>
          obtain ⟨-, hkept, hadded, -⟩ := enqueue_cases h warning
          refine ⟨fun slot hslot => (ih _ _).kept slot ?_, fun slot hslot => ?_⟩
          · obtain ⟨row, hrow, rfl⟩ := List.mem_map.mp hslot
            exact List.mem_map_of_mem (hkept row hrow)
          · rcases hlater slot hslot with hold | hnew
            · obtain ⟨row, hrow, rfl⟩ := List.mem_map.mp hold
              rcases hadded row hrow with hold | hnew
              · exact .inl (List.mem_map_of_mem hold)
              · obtain ⟨key, hkey, rfl, hslot⟩ := missingWarning_eq_some hwarning
                exact .inr ⟨key, hkey, _, List.mem_cons_self .., hnew.trans hslot⟩
            · exact .inr hnew

/-- Every flag of a key whose counter can be read has its warning in the end. -/
theorem has_of_flag (utcnow : ℚ) (hkey : key ∈ db.keys) (now : Time)
    (hpos : 0 < redis.counter (quotaName key.keyId now.monthStr))
    (hflag : flagName key.keyId now.monthStr ∈ flags) (n : Nat) (h : History) :
    (reconcileSoftWebhooks db utcnow redis flags n h).2.Has (key.warning now.monthStr) := by
  induction flags generalizing n h with
  | nil => cases hflag
  | cons flag rest ih =>
      by_cases hmissing : h.Has (key.warning now.monthStr)
      · exact (reconciles db utcnow redis (flag :: rest) n h).kept _ hmissing
      · unfold reconcileSoftWebhooks
        rcases List.mem_cons.mp hflag with rfl | hflag
        · obtain ⟨warning, hwarning, hslot⟩ := missingWarning_flagName utcnow hkey now hpos hmissing
          rw [hwarning]
          refine (reconciles db utcnow redis rest _ _).kept _ ?_
          rw [← hslot]
          exact (enqueue_cases h warning).2.2.2
        · split
          · exact ih hflag n h
          · exact ih hflag _ _

/-! ### A run that goes through -/

/-- A run meets no error: no upsert fails, the scans are those of Redis, and it returns. -/
structure Completes (env : Environment) (db : Database) (w : World) : Prop where
  failing : ∀ n, env.failing n = none
  quotas : IsScan "qg:q:" w.redis env.quotaKeys
  flags : IsScan "qg:f:" w.redis env.flagKeys
  returns : ∃ stats, (run env db w).1 = .ok stats

theorem upsertRollup_commit_ok (upsert : Upsert) (h : History) :
    ∃ h', (upsertRollup upsert h).commit h = .ok h' ∧ h'.outbox = h.outbox := by
  unfold upsertRollup
  cases hfind : h.rollups.find? fun rollup => rollup.slot = upsert.slot with
  | none =>
      rcases h.insertRollup_cases upsert with ⟨h', hok, -, -, houtbox⟩ | ⟨-, used, hused⟩
      · exact ⟨h', hok, houtbox⟩
      · rw [History.used, hfind] at hused
        cases hused
  | some existing =>
      simp only
      split
      · exact ⟨_, rfl, rfl⟩
      · exact ⟨_, rfl, rfl⟩

theorem upsertAll_of_no_failure {failing : Nat → Option SqlError} (hfailing : ∀ n, failing n = none)
    (db : Database) (found : List (String × Int)) (n : Nat) (h : History) :
    ∃ upserted history, upsertAll db failing found n h = ((upserted, none), history) ∧
      history.outbox = h.outbox := by
  induction found generalizing n h with
  | nil => exact ⟨n, h, rfl, rfl⟩
  | cons pair rest ih =>
      obtain ⟨name, value⟩ := pair
      unfold upsertAll
      cases upsertOf db name value with
      | none => exact ih n h
      | some upsert =>
          obtain ⟨h', hcommit, houtbox⟩ := upsertRollup_commit_ok upsert h
          obtain ⟨upserted, history, hrest, hsame⟩ := ih (n + 1) h'
          simp only [hfailing, hcommit]
          exact ⟨upserted, history, hrest, hsame.trans houtbox⟩

/-- Phase 3 of such a run goes over the outbox as it was before the run. -/
theorem Completes.reconciles (hcompletes : Completes env db w) (henv : env.registry = scriptRegistry) :
    ∃ redis history n, (∀ name ≠ lockKey, redis name = w.redis name) ∧
      history.outbox = w.history.outbox ∧
      (run env db w).2.history =
        (reconcileSoftWebhooks db env.utcnow redis env.flagKeys n history).2 := by
  obtain ⟨hfailing, -, -, stats, hreturns⟩ := hcompletes
  unfold run at hreturns ⊢
  cases hlock : acquireLock env.token env.now w.redis with
  | error e =>
      rw [hlock] at hreturns
      cases hreturns
  | ok redis =>
      rw [hlock] at hreturns
      simp only at hreturns ⊢
      unfold runPhases at hreturns ⊢
      cases hscan : scanQuotaKeys redis env.quotaKeys with
      | error e =>
          rw [hscan] at hreturns
          cases hreturns
      | ok found =>
          obtain ⟨upserted, history, hupserts, houtbox⟩ :=
            upsertAll_of_no_failure hfailing db found 0 w.history
          refine ⟨redis, history, 0, fun name hne => acquireLock_of_ne hlock hne, houtbox, ?_⟩
          simp only [hupserts, henv, restoreAll_scriptRegistry]

/-! ### Every run of the service -/

/-- The number of requests from which a key is warned about: the effective quota and the percentage of
its plan, rounded down. -/
def ApiKey.softThreshold (key : ApiKey) (plan : Plan) : Int :=
  (key.resolve plan).monthlyQuota * (key.resolve plan).quotaSoftPct / 100

namespace System

variable {s s' : System}

/-- The key has a threshold, and its counter of the month is not below it. -/
def PastThreshold (s : System) (month : String) (key : ApiKey) : Prop :=
  ∃ plan ∈ s.db.plans, plan.id = key.planId ∧ 0 < key.softThreshold plan ∧
    key.softThreshold plan ≤ s.world.redis.counter (quotaName key.keyId month)

/-- Every key that is past its threshold has its warning. -/
def Warned (s : System) (month : String) : Prop :=
  ∀ key ∈ s.db.keys, s.PastThreshold month key → s.world.history.Has (key.warning month)

/-- Every key that is past its threshold has its warning or its flag. -/
def Marked (s : System) (month : String) : Prop :=
  ∀ key ∈ s.db.keys, s.PastThreshold month key →
    s.world.history.Has (key.warning month) ∨ s.world.redis (flagName key.keyId month) ≠ none

/-- A run of the job warns about every key past its threshold exactly if all of them were marked. -/
theorem warned_rollup_iff (henv : env.registry = scriptRegistry)
    (hcompletes : Completes env s.db s.world) :
    (s.rollup env).2.Warned env.now.monthStr ↔ s.Marked env.now.monthStr := by
  have hredis := (run_leaves henv s.db s.world).redis
  have hpast (key : ApiKey) : (s.rollup env).2.PastThreshold env.now.monthStr key ↔
      s.PastThreshold env.now.monthStr key := by
    have hcounter : (s.rollup env).2.world.redis.counter (quotaName key.keyId env.now.monthStr) =
        s.world.redis.counter (quotaName key.keyId env.now.monthStr) :=
      Keyspace.counter_congr (hredis _ (quotaName_ne_lockKey _ _))
    unfold PastThreshold
    rw [hcounter]
    rfl
  obtain ⟨redis, history, n, hsame, houtbox, hrun⟩ := hcompletes.reconciles henv
  have hhas (slot : Nat × String × WebhookKind) : history.Has slot ↔ s.world.history.Has slot := by
    rw [History.Has, houtbox, History.Has]
  have hhistory : (s.rollup env).2.world.history = _ := hrun
  have hreconciles := reconciles s.db env.utcnow redis env.flagKeys n history
  constructor
  · intro hwarned key hkey hthreshold
    have hafter := hwarned key hkey ((hpast key).mpr hthreshold)
    rw [hhistory] at hafter
    rcases hreconciles.added _ hafter with hold | ⟨other, hother, month, hflag, hslot⟩
    · exact .inl ((hhas _).mp hold)
    · simp only [ApiKey.warning, Prod.mk.injEq, and_true] at hslot
      obtain ⟨hid, rfl⟩ := hslot
      obtain rfl := Database.key_eq_of_id hother hkey hid
      exact .inr ((hcompletes.flags _).mp hflag).2
  · intro hmarked key hkey hthreshold
    have hbefore := (hpast key).mp hthreshold
    rw [hhistory]
    rcases hmarked key hkey hbefore with hwarning | hflag
    · exact hreconciles.kept _ ((hhas _).mpr hwarning)
    · obtain ⟨plan, -, -, hpos, hle⟩ := hbefore
      refine has_of_flag env.utcnow hkey env.now ?_ ((hcompletes.flags _).mpr ⟨⟨_, rfl⟩, hflag⟩) n history
      rw [Keyspace.counter_congr (hsame _ (quotaName_ne_lockKey _ _))]
      exact lt_of_lt_of_le hpos hle

/-- **No missed warning, as long as the flag is there.** In any run of checks, of crashes between a check
and its warning, of admin writes and of runs of the rollup job, with any loss of Redis keys in between:
after a run of the job that meets no error, every key that is past the threshold of its current limits
has its warning for the month, exactly if before that run each of them had it or its flag was in
Redis. -/
theorem warned_iff_marked {steps : List SystemStep} (hrun : Run exec System.Losing s steps s') :
    ∀ step ∈ steps, ∀ env, step.event = .rollup env → env.registry = scriptRegistry →
      Completes env step.before.db step.before.world →
      (step.after.Warned env.now.monthStr ↔ step.before.Marked env.now.monthStr) := by
  intro step hmem env hevent henv hcompletes
  rw [hrun.eq_of hmem, hevent]
  exact warned_rollup_iff henv hcompletes

end System

/-! ### Runs with and without the flag -/

theorem System.redis_check (request : CheckRun) (s : System) :
    (s.check request).2.world.redis = (request.call.exec s.world.redis).2 := by
  unfold System.check
  rcases request.call.exec s.world.redis with ⟨reply, redis⟩
  rfl

/-- In each family, a check writes its own name only. -/
theorem Call.after_tag_of_ne {c : Call} {f : Family} {rest : String}
    (hne : f.tag ++ rest ≠ f.name c.key (c.rest f)) : c.after redis (f.tag ++ rest) = redis (f.tag ++ rest) := by
  have hother (g : Family) : f.tag ++ rest ≠ g.name c.key (c.rest g) := by
    intro h
    obtain ⟨rfl, -⟩ := Family.tag_append_inj h
    exact hne h
  apply Call.after_of_ne
  · exact hother .bucket
  · exact hother .window
  · rw [c.qkey_eq]
    exact hother .quota
  · rw [c.fkey_eq]
    exact hother .flag

/-- What a scan returns after one check on an empty keyspace. -/
theorem isScan_after_check {c : Call} {f : Family}
    (hpresent : (c.exec Keyspace.empty).2 (f.name c.key (c.rest f)) ≠ none) :
    IsScan f.tag (c.exec Keyspace.empty).2 [f.name c.key (c.rest f)] := by
  intro name
  rw [List.mem_singleton]
  constructor
  · rintro rfl
    exact ⟨⟨_, rfl⟩, hpresent⟩
  · rintro ⟨⟨rest, rfl⟩, hfound⟩
    by_contra hne
    rw [c.exec_after Keyspace.typed_empty, Call.after_tag_of_ne hne] at hfound
    exact hfound rfl

theorem isScan_after_check_of_none {c : Call} {f : Family}
    (habsent : (c.exec Keyspace.empty).2 (f.name c.key (c.rest f)) = none) :
    IsScan f.tag (c.exec Keyspace.empty).2 [] := by
  refine fun name => ⟨fun hmem => absurd hmem List.not_mem_nil, ?_⟩
  rintro ⟨⟨rest, rfl⟩, hfound⟩
  by_cases hne : f.tag ++ rest = f.name c.key (c.rest f)
  · rw [hne] at hfound
    exact absurd habsent hfound
  · rw [c.exec_after Keyspace.typed_empty, Call.after_tag_of_ne hne] at hfound
    exact absurd rfl hfound

/-- What a scan returns after one name has been lost. -/
theorem IsScan.erase {pattern : String} {names : List String} (hscan : IsScan pattern redis names)
    (lost : String) :
    IsScan pattern (Function.update redis lost none) (names.filter fun name => name ≠ lost) := by
  intro name
  rw [List.mem_filter, decide_eq_true_eq, hscan name]
  by_cases hname : name = lost
  · subst hname
    simp
  · rw [Function.update_of_ne hname]
    simp only [hname, ne_eq, not_false_eq_true, and_true]

/-- The plan warns from half of its quota, which is two requests. -/
def sampleHalfPlan : Plan := { samplePlanRow with quotaSoftPct := 50 }

def sampleHalf : System :=
  ⟨sampleDatabase.writePlan 1 { quotaSoftPct := some 50 }, ⟨Keyspace.empty, History.empty⟩⟩

/-- A check of cost two, with the limits of a plan. -/
def sampleCheckRun (plan : Plan) (crashes : Bool) : CheckRun where
  limits := sampleKeyRow.resolve plan
  resource := sampleResource
  cost := 2
  requestId := "a"
  now := sampleTime 0
  utcnow := 0
  crashes

/-- A run that finds the counter of that check, and these flags. -/
def sampleRollupRun (flagKeys : List String) : Environment :=
  { sampleEnvironment with quotaKeys := [quotaName sampleKey "1970-01"], flagKeys }

/-- The state after a check of the key of the sample on an empty Redis. -/
def sampleChecked (plan : Plan) (s : System) : System :=
  (System.exec (.check (sampleCheckRun plan true)) s).2

/-- A check crosses the threshold, and the process crashes before it enqueues the warning. As the flag is
there, the run of the job adds it. -/
theorem System.warned_iff_marked_sample :
    let crossed := sampleChecked sampleHalfPlan sampleHalf
    crossed.world.history.outbox = [] ∧ crossed.PastThreshold "1970-01" sampleKeyRow ∧
      (crossed.rollup (sampleRollupRun [flagName sampleKey "1970-01"])).2.Warned "1970-01" := by
  intro crossed
  have hmonth : (sampleRollupRun [flagName sampleKey "1970-01"]).now.monthStr = "1970-01" := by
    decide +kernel
  have hredis : crossed.world.redis =
      ((sampleCheckRun sampleHalfPlan true).call.exec Keyspace.empty).2 := System.redis_check _ _
  have hcompletes : Completes (sampleRollupRun [flagName sampleKey "1970-01"]) crossed.db
      crossed.world := by
    refine ⟨fun _ => rfl, ?_, ?_, ⟨1, 1, 0, 1⟩, by decide +kernel⟩
    · rw [hredis]
      exact isScan_after_check (f := .quota) (by decide +kernel)
    · rw [hredis]
      exact isScan_after_check (f := .flag) (by decide +kernel)
  have hmarked : crossed.Marked "1970-01" := by
    intro key hkey _
    obtain rfl : key = sampleKeyRow := List.mem_singleton.mp hkey
    exact .inr (by decide +kernel)
  have hrun : Run System.exec System.Losing sampleHalf
      [Step.of System.exec (.check (sampleCheckRun sampleHalfPlan true)) sampleHalf,
        Step.of System.exec (.rollup (sampleRollupRun [flagName sampleKey "1970-01"])) crossed] _ :=
    .cons (.refl _ _) (.cons (.refl _ _) (.nil _))
  refine ⟨by decide +kernel,
    ⟨sampleHalfPlan, by decide +kernel, rfl, by decide +kernel, by decide +kernel⟩, ?_⟩
  have hiff := System.warned_iff_marked hrun _ (List.mem_cons_of_mem _ (List.mem_singleton_self _)) _
    rfl rfl hcompletes
  rw [hmonth] at hiff
  exact hiff.mpr hmarked

/-- The key of the sample is past half of its quota and has no warning. -/
theorem System.not_warned {s : System} (hkeys : s.db.keys = [sampleKeyRow])
    (hplan : sampleHalfPlan ∈ s.db.plans)
    (hcounter : s.world.redis.counter (quotaName sampleKey "1970-01") = 2)
    (houtbox : s.world.history.outbox = []) : ¬ s.Warned "1970-01" := by
  intro hwarned
  have hpast : s.PastThreshold "1970-01" sampleKeyRow := by
    refine ⟨sampleHalfPlan, hplan, rfl, by decide +kernel, ?_⟩
    rw [show sampleKeyRow.keyId = sampleKey from rfl, hcounter]
    decide +kernel
  have hwarning := hwarned sampleKeyRow (hkeys ▸ List.mem_singleton_self _) hpast
  rw [History.Has, houtbox] at hwarning
  cases hwarning

/-- The process crashes after the check that crosses the threshold, and its flag is lost. Or the threshold
is lowered to where the counter is. Either way the run of the job finds no flag, and the key stays without
its warning. -/
theorem warning_missed :
    (∃ steps s', Run System.exec System.Losing sampleHalf steps s' ∧
      steps.map Step.event =
        [.check (sampleCheckRun sampleHalfPlan true), .rollup (sampleRollupRun [])] ∧
      ∃ step ∈ steps, step.event = .rollup (sampleRollupRun []) ∧
        Completes (sampleRollupRun []) step.before.db step.before.world ∧
        ¬ step.after.Warned "1970-01") ∧
    (∃ steps s', Run System.exec System.Losing ⟨sampleDatabase, ⟨Keyspace.empty, History.empty⟩⟩ steps s' ∧
      steps.map Step.event = [.check (sampleCheckRun samplePlanRow true),
        .admin (.writePlan 1 { quotaSoftPct := some 50 }), .rollup (sampleRollupRun [])] ∧
      ∃ step ∈ steps, step.event = .rollup (sampleRollupRun []) ∧
        Completes (sampleRollupRun []) step.before.db step.before.world ∧
        ¬ step.after.Warned "1970-01") := by
  constructor
  · let crossed := sampleChecked sampleHalfPlan sampleHalf
    let flag := flagName sampleKey "1970-01"
    let lost : System :=
      ⟨crossed.db, ⟨Function.update crossed.world.redis flag none, crossed.world.history⟩⟩
    have hredis : crossed.world.redis =
        ((sampleCheckRun sampleHalfPlan true).call.exec Keyspace.empty).2 := System.redis_check _ _
    have hloss : System.Losing (SystemEvent.rollup (sampleRollupRun [])) crossed lost :=
      ⟨rfl, rfl, .single _ _⟩
    have hquotas : IsScan "qg:q:" crossed.world.redis [quotaName sampleKey "1970-01"] := by
      rw [hredis]
      exact isScan_after_check (f := .quota) (by decide +kernel)
    have hflags : IsScan "qg:f:" crossed.world.redis [flag] := by
      rw [hredis]
      exact isScan_after_check (f := .flag) (by decide +kernel)
    refine ⟨_, _, .cons (.refl _ _) (.cons hloss (.nil _)), rfl, _,
      List.mem_cons_of_mem _ (List.mem_singleton_self _), rfl,
      ⟨fun _ => rfl, hquotas.erase flag, hflags.erase flag, ⟨1, 1, 0, 0⟩, by decide +kernel⟩, ?_⟩
    exact System.not_warned rfl (by decide +kernel) (by decide +kernel) (by decide +kernel)
  · let checked := sampleChecked samplePlanRow ⟨sampleDatabase, ⟨Keyspace.empty, History.empty⟩⟩
    have hredis : checked.world.redis =
        ((sampleCheckRun samplePlanRow true).call.exec Keyspace.empty).2 := System.redis_check _ _
    have hquotas : IsScan "qg:q:" checked.world.redis [quotaName sampleKey "1970-01"] := by
      rw [hredis]
      exact isScan_after_check (f := .quota) (by decide +kernel)
    have hflags : IsScan "qg:f:" checked.world.redis [] := by
      rw [hredis]
      exact isScan_after_check_of_none (f := .flag) (by decide +kernel)
    refine ⟨_, _, .cons (.refl _ _) (.cons (.refl _ _) (.cons (.refl _ _) (.nil _))), rfl, _,
      List.mem_cons_of_mem _ (List.mem_cons_of_mem _ (List.mem_singleton_self _)), rfl,
      ⟨fun _ => rfl, hquotas, hflags, ⟨1, 1, 0, 0⟩, by decide +kernel⟩, ?_⟩
    exact System.not_warned rfl (by decide +kernel) (by decide +kernel) (by decide +kernel)

end QuotaGuard
