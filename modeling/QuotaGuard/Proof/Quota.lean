import QuotaGuard.Lua.Restore
import QuotaGuard.Proof.Trace

/-!
# Monthly quota accounting

Two scripts write month counters: an admitted check adds its cost to the counter of its own month,
and a restore raises a counter to a floor. Over any interleaving the counter of a month is therefore
at least what was admitted in it, and an admission never leaves it above the limit the admission was
given.
-/

namespace QuotaGuard

abbrev quotaName (key : KeyId) (month : String) : String := Family.quota.name key month

/-- One execution of the restore script, on a month counter of a key. -/
structure RestoreCall where
  key : KeyId
  month : String
  floor : Int
  monthEnd : Int
  now : Time

namespace RestoreCall

variable [Arithmetic] (r : RestoreCall)

def exec (db : Keyspace) : Except RedisError Int × Keyspace :=
  restore (quotaName r.key r.month) r.floor r.monthEnd r.now db

def after (db : Keyspace) : Keyspace :=
  restored r.now (quotaName r.key r.month) r.floor r.monthEnd db

end RestoreCall

/-- An execution of either script. -/
inductive QuotaEvent where
  | check (c : Call)
  | restore (r : RestoreCall)

inductive QuotaReply where
  | check (reply : Except RedisError Reply)
  | restore (reply : Except RedisError Int)

namespace QuotaEvent

def exec [Arithmetic] : QuotaEvent → Keyspace → QuotaReply × Keyspace
  | check c, db => (.check (c.exec db).1, (c.exec db).2)
  | restore r, db => (.restore (r.exec db).1, (r.exec db).2)

def after [Arithmetic] : QuotaEvent → Keyspace → Keyspace
  | check c, db => c.after db
  | restore r, db => r.after db

end QuotaEvent

abbrev QuotaStep := Step Keyspace QuotaEvent QuotaReply

namespace QuotaStep

/-- The call, when the step is an admitted check of this key in this month. -/
def admission (key : KeyId) (month : String) (step : QuotaStep) : Option Call :=
  match step.event, step.reply with
  | .check c, .check reply =>
    if allows reply = true ∧ c.key = key ∧ c.now.monthStr = month then some c else none
  | _, _ => none

def Restores (key : KeyId) (month : String) (step : QuotaStep) : Prop :=
  ∃ r, step.event = .restore r ∧ r.key = key ∧ r.month = month

def KeepsCounters (step : QuotaStep) : Prop :=
  ∀ key month, step.before (quotaName key month) ≠ none → step.after (quotaName key month) ≠ none

end QuotaStep

def admissions (key : KeyId) (month : String) (steps : List QuotaStep) : List Call :=
  steps.filterMap (QuotaStep.admission key month)

def admittedCost (key : KeyId) (month : String) (steps : List QuotaStep) : Int :=
  ((admissions key month steps).map fun c => c.argv.cost).sum

variable {key : KeyId} {month : String} {db db' : Keyspace}

theorem quotaName_inj {key' : KeyId} {month' : String}
    (h : quotaName key month = quotaName key' month') : key = key' ∧ month = month' :=
  (Family.name_inj h).2

namespace Call

variable [Arithmetic] {c : Call}

omit [Arithmetic] in
theorem qkey_eq_quotaName : c.qkey = quotaName c.key c.now.monthStr := c.qkey_eq

theorem after_quotaName_of_ne (hne : ¬ (c.key = key ∧ c.now.monthStr = month)) :
    c.after db (quotaName key month) = db (quotaName key month) :=
  after_name fun h => hne ⟨h.1.symm, h.2.symm⟩

/-- An admitted check raises the counter of its key and month by its cost; nothing else moves a
counter. -/
theorem counter_after_quotaName (c : Call) (db : Keyspace) (key : KeyId) (month : String) :
    (c.after db).counter (quotaName key month) =
      db.counter (quotaName key month) +
        if c.admits db = true ∧ c.key = key ∧ c.now.monthStr = month then c.argv.cost else 0 := by
  by_cases hown : c.key = key ∧ c.now.monthStr = month
  · obtain ⟨rfl, rfl⟩ := hown
    rw [← qkey_eq_quotaName, counter_after_qkey]
    simp only [and_self, and_true]
  · rw [Keyspace.counter_congr (after_quotaName_of_ne hown), if_neg fun h => hown h.2, add_zero]

theorem counter_after_le (hadmits : c.admits db = true) :
    (c.after db).counter (quotaName c.key c.now.monthStr) ≤ c.argv.quotaHard := by
  rw [← qkey_eq_quotaName, counter_after_qkey, if_pos hadmits]
  exact (admits_iff.mp hadmits).2.2

theorem after_quotaName_ne_none (hpresent : db (quotaName key month) ≠ none) :
    c.after db (quotaName key month) ≠ none := by
  by_cases hown : c.key = key ∧ c.now.monthStr = month
  · obtain ⟨rfl, rfl⟩ := hown
    rw [← qkey_eq_quotaName] at hpresent ⊢
    by_cases hadmits : c.admits db = true
    · rw [after_qkey hadmits]
      exact Option.some_ne_none _
    · rw [after_denied hadmits, trimmed_of_ne c.skey_ne_qkey.symm]
      exact hpresent
  · rw [after_quotaName_of_ne hown]
    exact hpresent

end Call

section

variable [Arithmetic]

/-! ### Both scripts answer -/

namespace QuotaEvent

theorem typed_restored {r : RestoreCall} (h : db.Typed) : (r.after db).Typed := by
  intro f rest
  by_cases hname : f.tag ++ rest = quotaName r.key r.month
  · have hf := (Family.tag_append_inj hname).1
    rw [hname, hf]
    by_cases hlow : db.IsBelow (quotaName r.key r.month) r.floor
    · intro entry hentry
      rw [RestoreCall.after, restored_apply r.now r.monthEnd hlow] at hentry
      split at hentry
      · cases hentry
      · cases hentry
        rfl
    · rw [RestoreCall.after, restored, if_neg hlow]
      exact h .quota _
  · exact (h f rest).congr (restored_of_ne hname _ _)

theorem typed_after {e : QuotaEvent} (h : db.Typed) : (e.after db).Typed := by
  cases e with
  | check c => exact Call.typed_after h
  | restore r => exact typed_restored h

theorem exec_check {c : Call} (h : db.Typed) :
    exec (.check c) db = (.check (.ok (c.reply db)), c.after db) := by
  rw [exec, Call.exec_eq h]

theorem exec_restore {r : RestoreCall} (h : db.Typed) :
    ∃ reply, exec (.restore r) db = (.restore (.ok reply), r.after db) := by
  have hnumber := Keyspace.number_of_holds (h .quota (r.key.val ++ ":" ++ r.month))
  have hrun := restore_run r.now hnumber r.floor r.monthEnd
  exact ⟨_, congrArg (fun out => (QuotaReply.restore out.1, out.2)) hrun⟩

theorem exec_after {e : QuotaEvent} (h : db.Typed) : (e.exec db).2 = e.after db := by
  cases e with
  | check c => rw [exec_check h, after]
  | restore r =>
      obtain ⟨reply, hreply⟩ := exec_restore (r := r) h
      rw [hreply, after]

end QuotaEvent

/-! ### What one execution does to the account -/

namespace QuotaStep

theorem admission_check {c : Call} (h : db.Typed) :
    admission key month (Step.of QuotaEvent.exec (.check c) db) =
      if c.admits db = true ∧ c.key = key ∧ c.now.monthStr = month then some c else none := by
  rw [Step.of, QuotaEvent.exec_check h]
  simp only [admission, allows_reply]

theorem admission_restore {r : RestoreCall} :
    admission key month (Step.of QuotaEvent.exec (.restore r) db) = none := rfl

end QuotaStep

omit [Arithmetic] in
theorem admissions_concat (key : KeyId) (month : String) (past : List QuotaStep)
    (step : QuotaStep) :
    admissions key month (past ++ [step]) =
      admissions key month past ++ (step.admission key month).toList := by
  rw [admissions, List.filterMap_append, ← admissions]
  cases hadmission : step.admission key month <;> simp [hadmission]

omit [Arithmetic] in
theorem admittedCost_concat (key : KeyId) (month : String) (past : List QuotaStep)
    (step : QuotaStep) :
    admittedCost key month (past ++ [step]) =
      admittedCost key month past + ((step.admission key month).elim 0 fun c => c.argv.cost) := by
  rw [admittedCost, admissions_concat, List.map_append, List.sum_append, ← admittedCost]
  cases step.admission key month <;> simp

/-- What the executions so far say about one counter. -/
structure Account (key : KeyId) (month : String) (past : List QuotaStep) (db : Keyspace) : Prop where
  cost_le : admittedCost key month past ≤ db.counter (quotaName key month)
  within : admissions key month past = [] ∨
    ∃ c ∈ admissions key month past, admittedCost key month past ≤ c.argv.quotaHard
  exact : (∀ step ∈ past, ¬ step.Restores key month) →
    admittedCost key month past = db.counter (quotaName key month)

omit [Arithmetic] in
theorem Account.start (hstart : db (quotaName key month) = none) : Account key month [] db where
  cost_le := le_of_eq (Keyspace.counter_of_none hstart).symm
  within := .inl rfl
  exact := fun _ => (Keyspace.counter_of_none hstart).symm

theorem Account.check {past : List QuotaStep} {c : Call} (hacc : Account key month past db)
    (h : db.Typed) :
    Account key month (past ++ [Step.of QuotaEvent.exec (.check c) db]) (c.after db) := by
  have hcounter := c.counter_after_quotaName db key month
  have hcost := admittedCost_concat key month past (Step.of QuotaEvent.exec (.check c) db)
  have hlist := admissions_concat key month past (Step.of QuotaEvent.exec (.check c) db)
  rw [QuotaStep.admission_check h] at hcost hlist
  have hpast : (∀ step ∈ past ++ [Step.of QuotaEvent.exec (.check c) db],
      ¬ step.Restores key month) → ∀ step ∈ past, ¬ step.Restores key month :=
    fun hnone step hmem => hnone step (List.mem_append_left _ hmem)
  by_cases hown : c.admits db = true ∧ c.key = key ∧ c.now.monthStr = month
  · rw [if_pos hown] at hcounter hcost hlist
    simp only [Option.elim_some, Option.toList_some] at hcost hlist
    have hwithin : (c.after db).counter (quotaName key month) ≤ c.argv.quotaHard := by
      obtain ⟨hadmits, rfl, rfl⟩ := hown
      exact Call.counter_after_le hadmits
    have hle := hacc.cost_le
    refine ⟨by omega, .inr ⟨c, ?_, by omega⟩, fun hnone => ?_⟩
    · rw [hlist]
      exact List.mem_append_right _ (List.mem_singleton_self c)
    · have hexact := hacc.exact (hpast hnone)
      omega
  · rw [if_neg hown] at hcounter hcost hlist
    simp only [Option.elim_none, Option.toList_none, List.append_nil, add_zero] at hcounter hcost hlist
    refine ⟨?_, ?_, fun hnone => ?_⟩
    · rw [hcost, hcounter]
      exact hacc.cost_le
    · rw [hlist, hcost]
      exact hacc.within
    · rw [hcost, hcounter]
      exact hacc.exact (hpast hnone)

theorem RestoreCall.counter_le {r : RestoreCall} (h : db.Typed)
    (hkept : db (quotaName key month) ≠ none → r.after db (quotaName key month) ≠ none) :
    db.counter (quotaName key month) ≤ (r.after db).counter (quotaName key month) := by
  by_cases hname : quotaName key month = quotaName r.key r.month
  · rw [hname] at hkept ⊢
    exact counter_restored (h .quota _) _ _ hkept
  · exact le_of_eq (Keyspace.counter_congr (restored_of_ne hname _ _)).symm

theorem RestoreCall.counter_of_ne {r : RestoreCall} (hne : ¬ (r.key = key ∧ r.month = month)) :
    (r.after db).counter (quotaName key month) = db.counter (quotaName key month) := by
  apply Keyspace.counter_congr
  apply restored_of_ne
  intro hname
  obtain ⟨hkey, hmonth⟩ := quotaName_inj hname
  exact hne ⟨hkey.symm, hmonth.symm⟩

theorem Account.restore {past : List QuotaStep} {r : RestoreCall} (hacc : Account key month past db)
    (h : db.Typed) (hkept : db (quotaName key month) ≠ none → r.after db (quotaName key month) ≠ none) :
    Account key month (past ++ [Step.of QuotaEvent.exec (.restore r) db]) (r.after db) := by
  have hcost := admittedCost_concat key month past (Step.of QuotaEvent.exec (.restore r) db)
  have hlist := admissions_concat key month past (Step.of QuotaEvent.exec (.restore r) db)
  rw [QuotaStep.admission_restore] at hcost hlist
  simp only [Option.elim_none, Option.toList_none, List.append_nil, add_zero] at hcost hlist
  refine ⟨?_, ?_, fun hnone => ?_⟩
  · rw [hcost]
    exact hacc.cost_le.trans (RestoreCall.counter_le h hkept)
  · rw [hlist, hcost]
    exact hacc.within
  · have hother : ¬ (r.key = key ∧ r.month = month) := fun hown =>
      hnone _ (List.mem_append_right _ (List.mem_singleton_self _)) ⟨r, rfl, hown⟩
    rw [hcost, RestoreCall.counter_of_ne hother]
    exact hacc.exact fun step hmem => hnone step (List.mem_append_left _ hmem)

/-! ### Every interleaving -/

theorem quota_typed {steps : List QuotaStep} (hrun : Run QuotaEvent.exec Undisturbed db steps db')
    (htyped : db.Typed) : ∀ step ∈ steps, step.before.Typed := by
  have hlink (e : QuotaEvent) (db found : Keyspace) (h : db.Typed) (hfound : Undisturbed e db found) :
      found.Typed := by
    rw [hfound]
    exact h
  have hexec (e : QuotaEvent) (db : Keyspace) (_ : True) (h : db.Typed) : (e.exec db).2.Typed := by
    rw [QuotaEvent.exec_after h]
    exact QuotaEvent.typed_after h
  obtain ⟨-, hsteps⟩ := hrun.invariant hlink hexec htyped fun _ _ => trivial
  exact fun step hmem => (hsteps step hmem).1

theorem account_of_run {steps : List QuotaStep}
    (hrun : Run QuotaEvent.exec Undisturbed db steps db') (htyped : db.Typed)
    (hstart : ∀ key month, db (quotaName key month) = none)
    (hkept : ∀ step ∈ steps, step.KeepsCounters) (key : KeyId) (month : String) :
    Account key month steps db' := by
  have hhistory : db'.Typed ∧ Account key month steps db' := by
    refine hrun.history (P := fun past db => db.Typed ∧ Account key month past db)
      ⟨htyped, Account.start (hstart key month)⟩ ?_ hkept
    intro past middle e found hpast hlink hkept
    obtain ⟨htyped, hacc⟩ := hpast
    obtain rfl := hlink
    have hafter := QuotaEvent.exec_after (e := e) htyped
    have hkept' := hkept key month
    rw [Step.of_before, Step.of_after, hafter] at hkept'
    rw [hafter]
    refine ⟨QuotaEvent.typed_after htyped, ?_⟩
    cases e with
    | check c => exact hacc.check htyped
    | restore r => exact hacc.restore htyped hkept'
  exact hhistory.2

/-- An execution with a sensible cost, which loses no counter, lowers none. -/
theorem counter_le_after {e : QuotaEvent} (h : db.Typed) (hcost : ∀ c, e = .check c → 0 ≤ c.argv.cost)
    (hkept : db (quotaName key month) ≠ none → e.after db (quotaName key month) ≠ none) :
    db.counter (quotaName key month) ≤ (e.after db).counter (quotaName key month) := by
  cases e with
  | check c =>
      have hcost := hcost c rfl
      rw [QuotaEvent.after, c.counter_after_quotaName]
      split <;> omega
  | restore r => exact RestoreCall.counter_le h hkept

/-- **Monthly quota accounting.** With exact integers or with doubles, over every interleaving of checks and
restores of any keys that loses no counter: no counter ever decreases; a check answers, an admitted one raises the counter of
its key and month by its cost, up to the limit it was given at most, and no other; a denied one
changes none. What was admitted for a key in a month is at most its counter and at most the limit
some admission of that month was given, and it is the counter when nothing restored it. -/
theorem quota_accounting {steps : List QuotaStep}
    (hrun : Run QuotaEvent.exec Undisturbed db steps db') (htyped : db.Typed)
    (hstart : ∀ key month, db (quotaName key month) = none)
    (hcost : ∀ step ∈ steps, ∀ c, step.event = .check c → 0 ≤ c.argv.cost)
    (hkept : ∀ step ∈ steps, step.KeepsCounters) :
    (∀ step ∈ steps, ∀ key month,
      step.before.counter (quotaName key month) ≤ step.after.counter (quotaName key month)) ∧
    (∀ step ∈ steps, ∀ c, step.event = .check c → ∃ r, step.reply = .check (.ok r) ∧
      (r.allowed = 1 →
        step.after.counter (quotaName c.key c.now.monthStr) ≤ c.argv.quotaHard ∧
        ∀ key month, step.after.counter (quotaName key month) =
          step.before.counter (quotaName key month) +
            if c.key = key ∧ c.now.monthStr = month then c.argv.cost else 0) ∧
      (r.allowed ≠ 1 → ∀ key month,
        step.after.counter (quotaName key month) = step.before.counter (quotaName key month))) ∧
    ∀ key month, Account key month steps db' := by
  have hbefore := quota_typed hrun htyped
  refine ⟨fun step hmem key month => ?_, fun step hmem c hevent => ?_,
    account_of_run hrun htyped hstart hkept⟩
  · have heq := hrun.eq_of hmem
    have hafter : step.after = step.event.after step.before := by
      rw [heq]
      exact QuotaEvent.exec_after (hbefore step hmem)
    have hkept := hkept step hmem key month
    rw [hafter] at hkept ⊢
    exact counter_le_after (hbefore step hmem) (hcost step hmem) hkept
  · have heq := hrun.eq_of hmem
    have hexec := QuotaEvent.exec_check (c := c) (hbefore step hmem)
    rw [hevent] at heq
    have hreply : step.reply = .check (.ok (c.reply step.before)) := by
      rw [heq]
      exact congrArg Prod.fst hexec
    have hafter : step.after = c.after step.before := by
      rw [heq]
      exact congrArg Prod.snd hexec
    refine ⟨_, hreply, fun hallowed => ?_, fun hdenied key month => ?_⟩
    · have hadmits : c.admits step.before = true := by
        rw [← allows_reply, allows, hallowed]
        rfl
      rw [hafter]
      refine ⟨Call.counter_after_le hadmits, fun key month => ?_⟩
      rw [c.counter_after_quotaName]
      simp only [hadmits, true_and]
    · have hadmits : ¬ c.admits step.before = true := by
        rw [← allows_reply, allows, decide_eq_true_eq]
        exact hdenied
      rw [hafter, c.counter_after_quotaName, if_neg fun h => hadmits h.1, add_zero]

/-- A check keeps the counters, and so does a restore whose deadline is in the future. -/
theorem keepsCounters {e : QuotaEvent} (h : db.Typed)
    (hfuture : ∀ r, e = .restore r → r.now.ms < (r.monthEnd + monthGraceS) * 1000) :
    QuotaStep.KeepsCounters (Step.of QuotaEvent.exec e db) := by
  intro key month hpresent
  rw [Step.of_after, QuotaEvent.exec_after h]
  rw [Step.of_before] at hpresent
  cases e with
  | check c => exact Call.after_quotaName_ne_none hpresent
  | restore r =>
      by_cases hname : quotaName key month = quotaName r.key r.month
      · rw [hname] at hpresent ⊢
        exact restored_ne_none (hfuture r rfl) hpresent
      · rw [QuotaEvent.after, RestoreCall.after, restored_of_ne hname]
        exact hpresent

end

/-- A check that costs two, and a restore to three after it: the run exists and its account is the
one the theorem states. -/
theorem quota_accounting_sample :
    ∃ steps db', Run QuotaEvent.exec Undisturbed Keyspace.empty steps db' ∧
      steps.map Step.event = [.check (sampleCall 5 2 "a"),
        .restore ⟨sampleKey, "1970-01", 3, 2678400, sampleTime 9⟩] ∧
      Account sampleKey "1970-01" steps db' := by
  have hrun := Run.of_events QuotaEvent.exec Keyspace.empty
    [.check (sampleCall 5 2 "a"), .restore ⟨sampleKey, "1970-01", 3, 2678400, sampleTime 9⟩]
  have hevents := Run.map_event_trace QuotaEvent.exec Keyspace.empty
    [.check (sampleCall 5 2 "a"), .restore ⟨sampleKey, "1970-01", 3, 2678400, sampleTime 9⟩]
  generalize Run.trace QuotaEvent.exec Keyspace.empty _ = steps at hrun hevents
  generalize Run.final QuotaEvent.exec Keyspace.empty _ = db' at hrun
  have hmem (step : QuotaStep) (hstep : step ∈ steps) :
      step.event = .check (sampleCall 5 2 "a") ∨
        step.event = .restore ⟨sampleKey, "1970-01", 3, 2678400, sampleTime 9⟩ := by
    have hevent := List.mem_map_of_mem (f := Step.event) hstep
    rw [hevents] at hevent
    simpa using hevent
  have htyped := quota_typed hrun Keyspace.typed_empty
  refine ⟨steps, db', hrun, hevents, (quota_accounting hrun Keyspace.typed_empty
    (fun _ _ => rfl) (fun step hstep c hc => ?_) fun step hstep => ?_).2.2 _ _⟩
  · rcases hmem step hstep with h | h
    · rw [hc] at h
      cases h
      decide
    · rw [hc] at h
      cases h
  · rw [hrun.eq_of hstep]
    refine keepsCounters (htyped step hstep) fun r hr => ?_
    rcases hmem step hstep with h | h
    · rw [hr] at h
      cases h
    · rw [hr] at h
      cases h
      decide

end QuotaGuard
