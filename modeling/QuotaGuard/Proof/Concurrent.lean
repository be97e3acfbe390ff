import QuotaGuard.Proof.Quota
import QuotaGuard.Proof.Registry
import Mathlib.Algebra.BigOperators.Group.Finset.Piecewise
import Mathlib.Algebra.Order.BigOperators.Group.Finset

/-!
# Concurrent checks

What the callers of all processes are told, through their registries, is covered by what Redis has
counted. A check whose answer is lost may have been counted; none is counted twice, and none is granted
without having been counted.
-/

namespace QuotaGuard.ScriptRegistry

open State

variable {ι π δ : Type} {S : Scripts δ CheckArgs Reply} {s s' found : State ι π δ CheckArgs Reply}
  {e : Event ι π CheckArgs} {t : ι} {steps past : List (RegistryStep ι π δ CheckArgs Reply)}
  {redis : Keyspace} {now : Time} {key : KeyId} {month : String}

/-- The reply grants a check of this key in this month. -/
def grants (key : KeyId) (month : String) (args : CheckArgs) : Except RedisError Reply → Bool
  | .ok r => decide (r.allowed = 1 ∧ args.key = key ∧ r.monthStr = month)
  | .error _ => false

/-- What an execution takes from the quota of the key, as its reply says. -/
def charge (key : KeyId) (month : String) (e : Execution ι CheckArgs Reply) : Int :=
  if grants key month e.args e.reply then e.args.argv.cost else 0

/-- What a caller has been granted. -/
def State.granted (s : State ι π δ CheckArgs Reply) (key : KeyId) (month : String) (t : ι) : Int :=
  match s.phases t with
  | .finished (some c) (.value reply) => if grants key month c.args reply then c.args.argv.cost else 0
  | _ => 0

theorem grants_reply (args : CheckArgs) (now : Time) (redis : Keyspace) :
    grants key month args (.ok ((args.call now).reply redis)) = true ↔
      (args.call now).admits redis = true ∧ args.key = key ∧ now.monthStr = month := by
  have hmonth : ((args.call now).reply redis).monthStr = now.monthStr := by
    rw [Call.reply_eq_report]
    rfl
  rw [grants, decide_eq_true_iff, hmonth, Call.reply_allowed]
  cases (args.call now).admits redis <;> simp

/-- Nothing happens to the counter of the month but by the script. -/
def DriftsKeeping (name : String) (e : Event ι π CheckArgs) (s found : State ι π δ CheckArgs Reply) : Prop :=
  Drifts e s found ∧ found.redis name = s.redis name

/-- A check of the key is made with a quota of at most `quota`, and takes nothing back. -/
structure CheckUnder (key : KeyId) (quota : Int) (c : Invocation π CheckArgs) : Prop where
  name : c.name = scriptName
  cost_nonneg : 0 ≤ c.args.argv.cost
  quota_le : c.args.key = key → c.args.argv.quotaHard ≤ quota

/-- The counter of the month is what it was and what the executions have taken, and stays within the
quota. -/
structure Charged (key : KeyId) (month : String) (quota start : Int)
    (executed : List (Execution ι CheckArgs Reply)) (redis : Keyspace) : Prop where
  typed : redis.Typed
  counter : redis.counter (quotaName key month) = start + (executed.map (charge key month)).sum
  bound : redis.counter (quotaName key month) ≤ quota

namespace Charged

variable {quota start : Int} {executed : List (Execution ι CheckArgs Reply)}

theorem link (h : Charged key month quota start executed s.redis)
    (hlink : DriftsKeeping (quotaName key month) e s found) :
    Charged key month quota start executed found.redis := by
  obtain ⟨⟨-, -, hloses⟩, hsame⟩ := hlink
  refine ⟨h.typed.of_loss hloses, ?_, ?_⟩
  · rw [Keyspace.counter_congr hsame]
    exact h.counter
  · rw [Keyspace.counter_congr hsame]
    exact h.bound

/-- One execution of check.lua. -/
theorem execute (h : Charged key month quota start executed redis) {args : CheckArgs}
    (hquota : args.key = key → args.argv.quotaHard ≤ quota) (t : ι) (text : String) (now : Time) :
    Charged key month quota start (executed ++ [⟨t, text, args, now, ((args.call now).exec redis).1⟩])
      ((args.call now).exec redis).2 := by
  rw [Call.exec_eq h.typed]
  have hcharge : charge key month (⟨t, text, args, now, .ok ((args.call now).reply redis)⟩ :
      Execution ι CheckArgs Reply) =
      if (args.call now).admits redis = true ∧ args.key = key ∧ now.monthStr = month then args.argv.cost
      else 0 :=
    if_congr (grants_reply args now redis) rfl rfl
  have hafter := Call.counter_after_quotaName (args.call now) redis key month
  refine ⟨Call.typed_after h.typed, ?_, ?_⟩
  · rw [hafter, h.counter, List.map_append, List.sum_append, List.map_singleton, List.sum_singleton,
      hcharge, add_assoc]
    rfl
  · by_cases hgrants : (args.call now).admits redis = true ∧ args.key = key ∧ now.monthStr = month
    · obtain ⟨hadmits, hkey, hmonth⟩ := hgrants
      subst hkey hmonth
      exact (Call.counter_after_le hadmits).trans (hquota rfl)
    · have hsame : ((args.call now).after redis).counter (quotaName key month) =
          redis.counter (quotaName key month) := by
        rw [hafter]
        exact (congrArg (redis.counter (quotaName key month) + ·) (if_neg hgrants)).trans (add_zero _)
      rw [hsame]
      exact h.bound

variable [DecidableEq ι] [DecidableEq π] [DecidableEq δ]

theorem step (hdistinct : S.Distinct) (hcheck : S.RunsCheck) (hsound : Sound S s)
    (hcalls : ∀ t c, (s.phases t).invocation = some c → CheckUnder key quota c)
    (h : Charged key month quota start executed s.redis)
    {execution : Option (Execution ι CheckArgs Reply)} (hadvance : Advance S s e execution s') :
    Charged key month quota start (executed ++ execution.toList) s'.redis := by
  cases hadvance with
  | nothing => simpa using h
  | goes _ t shas phase wire hgoes =>
      rw [Option.toList_none, List.append_nil]
      exact h
  | loads t text hwire =>
      rw [Option.toList_none, List.append_nil]
      exact h
  | misses t sha args hwire hscript =>
      rw [Option.toList_none, List.append_nil]
      exact h
  | forgets =>
      rw [Option.toList_none, List.append_nil]
      exact h
  | executes t sha args text hwire hscript =>
      obtain ⟨c, hwaits, hsource, rfl⟩ := hsound.runs hdistinct hwire hscript
      have hunder := hcalls t c hwaits.invocation
      rw [hunder.name] at hsource
      rw [hcheck.eval text c.args s.now s.redis hsource]
      exact h.execute hunder.quota_le t text s.now

theorem of_run (hdistinct : S.Distinct) (hcheck : S.RunsCheck)
    (hrun : Run (exec S) (DriftsKeeping (quotaName key month)) (State.start redis now) steps s)
    (htyped : redis.Typed) (hstart : redis.counter (quotaName key month) ≤ quota)
    (hcalls : ∀ step ∈ steps, ∀ t c, step.event = .call t c → CheckUnder key quota c) :
    Charged key month quota (redis.counter (quotaName key month)) (executions steps) s.redis := by
  have hall : Sound S s ∧ (∀ t c, (s.phases t).invocation = some c → CheckUnder key quota c) ∧
      Charged key month quota (redis.counter (quotaName key month)) (executions steps) s.redis := by
    refine hrun.history (P := fun past s => Sound S s ∧
        (∀ t c, (s.phases t).invocation = some c → CheckUnder key quota c) ∧
        Charged key month quota (redis.counter (quotaName key month)) (executions past) s.redis)
      ⟨.start S redis now, fun _ _ h => (by cases h), htyped, (add_zero _).symm, hstart⟩ ?_ hcalls
    rintro past middle e found ⟨hsound, hunder, hcharged⟩ hlink hok
    have hfound := hsound.drifts hlink.1
    have hunder' : ∀ t c, (found.phases t).invocation = some c → CheckUnder key quota c := by
      rw [hlink.1.1]
      exact hunder
    refine ⟨hfound.advance (advance S e found), fun t c hc => ?_, ?_⟩
    · rcases (advance S e found).invocation hc with hcall | hc
      · exact hok t c hcall
      · exact hunder' t c hc
    · rw [executions_concat]
      exact (hcharged.link hlink).step hdistinct hcheck hfound hunder' (advance S e found)
  exact hall.2.2

end Charged

/-! ### What the callers are told -/

section Callers

variable [DecidableEq ι]

/-- A caller that has been granted a check has an execution that has been charged for it. -/
theorem granted_le {executed : List (Execution ι CheckArgs Reply)}
    (haccount : Account S (ofTask t executed) (s.phases t) (s.wires t))
    (hcharge : ∀ e ∈ executed, 0 ≤ charge key month e) :
    s.granted key month t ≤ ((ofTask t executed).map (charge key month)).sum := by
  have hnonneg : 0 ≤ ((ofTask t executed).map (charge key month)).sum := by
    refine List.sum_nonneg fun n hn => ?_
    obtain ⟨e, he, rfl⟩ := List.mem_map.mp hn
    exact hcharge e (List.mem_filter.mp he).1
  unfold State.granted
  split
  · rename_i c reply hphase
    rw [hphase] at haccount
    obtain ⟨e, he, hruns, rfl⟩ := haccount.of_returned
    rw [he, List.map_singleton, List.sum_singleton, charge, hruns.args]
  · exact hnonneg

/-- The executions of some callers are among all executions. -/
theorem sum_ofTask_le {executed : List (Execution ι CheckArgs Reply)} (tasks : Finset ι)
    {f : Execution ι CheckArgs Reply → Int} (hf : ∀ e ∈ executed, 0 ≤ f e) :
    ∑ t ∈ tasks, ((ofTask t executed).map f).sum ≤ (executed.map f).sum := by
  induction executed with
  | nil => simp [ofTask]
  | cons e executed ih =>
      have hrest := ih fun e' he' => hf e' (List.mem_cons_of_mem _ he')
      have hcons (t : ι) : ((ofTask t (e :: executed)).map f).sum =
          (if e.task = t then f e else 0) + ((ofTask t executed).map f).sum := by
        by_cases ht : e.task = t <;> simp [ofTask, ht]
      have hfirst : ∑ t ∈ tasks, (if e.task = t then f e else 0) ≤ f e := by
        rw [Finset.sum_ite_eq]
        split
        · exact le_refl _
        · exact hf e (List.mem_cons_self ..)
      simp only [hcons, Finset.sum_add_distrib, List.map_cons, List.sum_cons]
      exact add_le_add hfirst hrest

end Callers

variable [DecidableEq ι] [DecidableEq π] [DecidableEq δ]

/-- **Concurrent checks stay within the quota.** However the commands of the callers are ordered, lost and
repeated, the checks of a key that callers have been granted in a month cost no more than the quota
leaves. -/
theorem concurrent_quota {quota : Int} (hdistinct : S.Distinct) (hcheck : S.RunsCheck)
    (hrun : Run (exec S) (DriftsKeeping (quotaName key month)) (State.start redis now) steps s)
    (htyped : redis.Typed) (hstart : redis.counter (quotaName key month) ≤ quota)
    (hcalls : ∀ step ∈ steps, ∀ t c, step.event = .call t c → CheckUnder key quota c)
    (tasks : Finset ι) :
    redis.counter (quotaName key month) + ∑ t ∈ tasks, s.granted key month t ≤
        s.redis.counter (quotaName key month) ∧
      s.redis.counter (quotaName key month) ≤ quota := by
  have hdrifts := hrun.mono fun e s found (h : DriftsKeeping (quotaName key month) e s found) => h.1
  have hcharged := Charged.of_run hdistinct hcheck hrun htyped hstart hcalls
  have hlinearized := Linearized.of_run hdistinct hdrifts
  have hunder := calls_of_run (fun e s found (h : Drifts e s found) => by rw [h.1]) hdrifts hcalls
  have hcharge : ∀ e ∈ executions steps, 0 ≤ charge key month e := by
    intro e he
    have hmine : e ∈ ofTask e.task (executions steps) :=
      List.mem_filter.mpr ⟨he, decide_eq_true rfl⟩
    obtain ⟨c, hruns, hphase⟩ := (hlinearized.account e.task).own hmine
    have hc : (s.phases e.task).invocation = some c := by
      rcases hphase with hwaits | hreturned
      · exact hwaits.invocation
      · rw [hreturned]
        rfl
    unfold charge
    split
    · rw [hruns.args]
      exact (hunder e.task c hc).cost_nonneg
    · exact le_refl 0
  have htold : ∑ t ∈ tasks, s.granted key month t ≤
      ((executions steps).map (charge key month)).sum :=
    (Finset.sum_le_sum fun t _ => granted_le (hlinearized.account t) hcharge).trans
      (sum_ofTask_le tasks hcharge)
  exact ⟨hcharged.counter ▸ add_le_add_right htold _, hcharged.bound⟩

/-- check.lua behind its name. -/
def sampleCheckScripts : Scripts String CheckArgs Reply where
  stems := [scriptName]
  source := fun name => if name = scriptName then some "check.lua" else none
  sha := fun text => text
  eval := fun _ args now redis => (args.call now).exec redis

def sampleInvocation (requestId : String) : Invocation Unit CheckArgs :=
  ⟨(), scriptName, sampleKey, sampleResource, scriptArgv samplePlan 1 requestId⟩

/-- Two callers take turns; both find the script lost and load it again. -/
def sampleTurns : List (Event Bool Unit CheckArgs) :=
  [.call true (sampleInvocation "a"), .serve true, .receive true, .call false (sampleInvocation "b"),
    .flush, .serve true, .serve false, .receive true, .receive false, .serve false, .receive false,
    .serve true, .receive true, .serve false, .serve true, .receive true, .receive false]

/-- Both are granted a check, out of a quota of four. -/
theorem concurrent_quota_sample :
    let start : State Bool Unit String CheckArgs Reply := State.start Keyspace.empty (sampleTime 7)
    let s := Run.final (exec sampleCheckScripts) start sampleTurns
    s.granted sampleKey "1970-01" true = 1 ∧ s.granted sampleKey "1970-01" false = 1 ∧
      Keyspace.empty.counter (quotaName sampleKey "1970-01") +
          ∑ t ∈ {true, false}, s.granted sampleKey "1970-01" t ≤
        s.redis.counter (quotaName sampleKey "1970-01") ∧
      s.redis.counter (quotaName sampleKey "1970-01") ≤ 4 := by
  intro start s
  have hrun := (Run.of_events (exec sampleCheckScripts) start sampleTurns).mono
    fun e s found h => (by
      cases h
      exact ⟨⟨rfl, le_refl s.now, fun _ => .inl rfl⟩, rfl⟩ :
        DriftsKeeping (quotaName sampleKey "1970-01") e s found)
  have hevents := Run.map_event_trace (exec sampleCheckScripts) start sampleTurns
  refine ⟨by decide +kernel, by decide +kernel, concurrent_quota (fun _ _ _ _ _ _ h => h)
    ⟨by simp [sampleCheckScripts], fun _ _ _ _ _ => rfl⟩ hrun Keyspace.typed_empty (by decide)
    (fun step hstep t c hc => ?_) {true, false}⟩
  have hmem := List.mem_map_of_mem (f := Step.event) hstep
  rw [hevents, hc] at hmem
  have hwho : c = sampleInvocation "a" ∨ c = sampleInvocation "b" := by
    simp only [sampleTurns, List.mem_cons, Event.call.injEq, reduceCtorEq, List.not_mem_nil, or_false,
      false_or] at hmem
    rcases hmem with ⟨-, rfl⟩ | ⟨-, rfl⟩
    · exact .inl rfl
    · exact .inr rfl
  rcases hwho with rfl | rfl
  · exact ⟨rfl, by decide, fun _ => by decide⟩
  · exact ⟨rfl, by decide, fun _ => by decide⟩

end QuotaGuard.ScriptRegistry
