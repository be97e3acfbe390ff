import QuotaGuard.Proof.Reconcile

/-!
# A database error in a run

The log of a run has the calls it makes while it holds the lock, in their order; performing them one after
the other is the run. An upsert that raises leaves the loop and the `try` around all three phases, so
after it there is only the release.
-/

namespace QuotaGuard

variable {env : Environment} {db : Database} {w : World} {redis : Keyspace}
  {found : List (String × Int)} {failing : Nat → Option SqlError} {h : History}

/-- A call that a run makes. -/
inductive RunAction where
  | upsert (upsert : Upsert) (raised : Option SqlError)
  | restore
  | reconcile
  | release
  deriving DecidableEq

/-- The upserts of the counters that were scanned, of known keys. -/
def upsertsOf (db : Database) (found : List (String × Int)) : List Upsert :=
  found.filterMap fun counter => upsertOf db counter.1 counter.2

/-- The calls of phase 1. -/
def upsertActions (db : Database) (failing : Nat → Option SqlError) :
    List (String × Int) → Nat → History → List RunAction
  | [], _, _ => []
  | (name, value) :: rest, upserted, h =>
    match upsertOf db name value with
    | none => upsertActions db failing rest upserted h
    | some upsert =>
      match failing upserted with
      | some e => [.upsert upsert (some e)]
      | none =>
        match (upsertRollup upsert h).commit h with
        | .ok h' => .upsert upsert none :: upsertActions db failing rest (upserted + 1) h'
        | .error e => [.upsert upsert (some e)]

/-- The calls of a run that holds the lock. -/
def runActions (env : Environment) (db : Database) (w : World) : List RunAction :=
  match scanQuotaKeys w.redis env.quotaKeys with
  | .error _ => [.release]
  | .ok found =>
    let upserts := upsertActions db env.failing found 0 w.history
    match (upsertAll db env.failing found 0 w.history).1.2 with
    | some _ => upserts ++ [.release]
    | none => upserts ++ [.restore, .reconcile, .release]

/-- What a call does. -/
def perform (env : Environment) (db : Database) (w : World) : RunAction → World
  | .upsert upsert none =>
    { w with history := ((upsertRollup upsert w.history).commit w.history).toOption.getD w.history }
  | .upsert _ (some _) => w
  | .restore =>
    { w with redis := (restoreAll env.registry env.now db w.history.rollups 0 w.redis).2 }
  | .reconcile =>
    { w with
      history := (reconcileSoftWebhooks db env.utcnow w.redis env.flagKeys 0 w.history).2 }
  | .release => { w with redis := releaseLock env.decodeResponses env.token w.redis }

/-! ### The log is that of the run -/

theorem perform_upsertActions (env : Environment) (db : Database) (failing : Nat → Option SqlError)
    (found : List (String × Int)) (n : Nat) (w : World) :
    (upsertActions db failing found n w.history).foldl (perform env db) w =
      { w with history := (upsertAll db failing found n w.history).2 } := by
  induction found generalizing n w with
  | nil => rfl
  | cons counter rest ih =>
      obtain ⟨name, value⟩ := counter
      unfold upsertActions upsertAll
      cases upsertOf db name value with
      | none => exact ih n w
      | some upsert =>
          obtain ⟨h', hcommit, -⟩ := upsertRollup_commit_ok upsert w.history
          cases failing n with
          | some e => rfl
          | none =>
              simp only [hcommit, List.foldl_cons]
              have hfirst : perform env db w (.upsert upsert none) = { w with history := h' } := by
                rw [perform, hcommit]
                rfl
              rw [hfirst]
              exact ih (n + 1) { w with history := h' }

/-- **The log of a run replays it.** -/
theorem run_eq_perform (hlock : acquireLock env.token env.now w.redis = .ok redis) :
    (run env db w).2 =
      (runActions env db { w with redis }).foldl (perform env db) { w with redis } := by
  unfold run runPhases runActions
  rw [hlock]
  dsimp only
  cases scanQuotaKeys redis env.quotaKeys with
  | error e => rfl
  | ok found =>
      have hupserts := perform_upsertActions env db env.failing found 0 { w with redis }
      dsimp only at hupserts ⊢
      generalize upsertAll db env.failing found 0 w.history = out at hupserts ⊢
      obtain ⟨⟨upserted, failure⟩, history⟩ := out
      cases failure with
      | some e =>
          dsimp only at hupserts ⊢
          rw [List.foldl_append, hupserts]
          rfl
      | none =>
          dsimp only at hupserts ⊢
          rw [List.foldl_append, hupserts]
          rfl

/-! ### A failure ends the run -/

/-- None of so many upserts fails, from the n-th on. -/
def NoneFails (failing : Nat → Option SqlError) (n count : Nat) : Prop :=
  ∀ i < count, failing (n + i) = none

theorem noneFails_succ {n count : Nat} :
    NoneFails failing n (count + 1) ↔ failing n = none ∧ NoneFails failing (n + 1) count := by
  unfold NoneFails
  rw [Nat.forall_lt_succ_left]
  refine and_congr_right fun _ => forall₂_congr fun i _ => ?_
  rw [Nat.add_right_comm, Nat.add_assoc]

/-- Phase 1 gets through exactly when none of its upserts fails. -/
theorem upsertAll_completes_iff (db : Database) (failing : Nat → Option SqlError)
    (found : List (String × Int)) (n : Nat) (h : History) :
    (upsertAll db failing found n h).1.2 = none ↔
      NoneFails failing n (upsertsOf db found).length := by
  induction found generalizing n h with
  | nil => exact iff_of_true rfl fun i hi => absurd hi (Nat.not_lt_zero i)
  | cons counter rest ih =>
      obtain ⟨name, value⟩ := counter
      unfold upsertAll
      cases hupsert : upsertOf db name value with
      | none =>
          have hskip : upsertsOf db ((name, value) :: rest) = upsertsOf db rest :=
            List.filterMap_cons_none hupsert
          rw [hskip]
          exact ih n h
      | some upsert =>
          have htake : upsertsOf db ((name, value) :: rest) = upsert :: upsertsOf db rest :=
            List.filterMap_cons_some hupsert
          obtain ⟨h', hcommit, -⟩ := upsertRollup_commit_ok upsert h
          rw [htake, List.length_cons, noneFails_succ]
          cases hfailing : failing n with
          | some e => simp
          | none =>
              simp only [hcommit, true_and]
              exact ih (n + 1) h'

/-- Then every upsert is called, in the order of the scan. -/
theorem upsertActions_eq (n : Nat) (h : History)
    (hnone : NoneFails failing n (upsertsOf db found).length) :
    upsertActions db failing found n h =
      (upsertsOf db found).map fun upsert => .upsert upsert none := by
  induction found generalizing n h with
  | nil => rfl
  | cons counter rest ih =>
      obtain ⟨name, value⟩ := counter
      unfold upsertActions
      cases hupsert : upsertOf db name value with
      | none =>
          have hskip : upsertsOf db ((name, value) :: rest) = upsertsOf db rest :=
            List.filterMap_cons_none hupsert
          rw [hskip] at hnone ⊢
          exact ih n h hnone
      | some upsert =>
          have htake : upsertsOf db ((name, value) :: rest) = upsert :: upsertsOf db rest :=
            List.filterMap_cons_some hupsert
          obtain ⟨h', hcommit, -⟩ := upsertRollup_commit_ok upsert h
          rw [htake, List.length_cons, noneFails_succ] at hnone
          rw [htake, List.map_cons]
          simp only [hnone.1, hcommit]
          rw [ih (n + 1) h' hnone.2]

/-- The calls a run should make in spite of failures: the upserts that do not fail, and everything after
the upserts. -/
structure Resilient (failing : Nat → Option SqlError) (upserts : List Upsert)
    (actions : List RunAction) : Prop where
  upserted : ∀ n upsert, upserts[n]? = some upsert → failing n = none →
    .upsert upsert none ∈ actions
  restored : .restore ∈ actions
  reconciled : .reconcile ∈ actions
  released : .release ∈ actions

theorem restore_notMem_upsertActions (db : Database) (failing : Nat → Option SqlError)
    (found : List (String × Int)) (n : Nat) (h : History) :
    .restore ∉ upsertActions db failing found n h := by
  induction found generalizing n h with
  | nil => exact List.not_mem_nil
  | cons counter rest ih =>
      obtain ⟨name, value⟩ := counter
      unfold upsertActions
      cases upsertOf db name value with
      | none => exact ih n h
      | some upsert =>
          obtain ⟨h', hcommit, -⟩ := upsertRollup_commit_ok upsert h
          cases failing n with
          | some e => simp
          | none =>
              simp only [hcommit, List.mem_cons, reduceCtorEq, false_or]
              exact ih (n + 1) h'

/-- **A run goes on to its end exactly when no upsert fails.** It has the lock and has scanned its
counters. Whatever fails, it releases the lock; but one failure of an upsert is the end of everything
else, the upserts of the other counters included. -/
theorem run_resilient_iff (hlock : acquireLock env.token env.now w.redis = .ok redis)
    (hscan : scanQuotaKeys redis env.quotaKeys = .ok found) :
    (run env db w).2 =
        (runActions env db { w with redis }).foldl (perform env db) { w with redis } ∧
      .release ∈ runActions env db { w with redis } ∧
      (Resilient env.failing (upsertsOf db found) (runActions env db { w with redis }) ↔
        ∀ n < (upsertsOf db found).length, env.failing n = none) := by
  have hcompletes := upsertAll_completes_iff db env.failing found 0 w.history
  have hnone : NoneFails env.failing 0 (upsertsOf db found).length ↔
      ∀ n < (upsertsOf db found).length, env.failing n = none := by
    simp only [NoneFails, Nat.zero_add]
  refine ⟨run_eq_perform hlock, ?_, ?_⟩
  · unfold runActions
    rw [hscan]
    dsimp only
    split
    · exact List.mem_append_right _ (List.mem_singleton_self _)
    · simp
  · rw [← hnone]
    unfold runActions
    rw [hscan]
    dsimp only
    split
    · rename_i e hfailed
      rw [hfailed] at hcompletes
      refine iff_of_false (fun hresilient => ?_) fun hall => absurd (hcompletes.mpr hall) nofun
      rcases List.mem_append.mp hresilient.restored with hmem | hmem
      · exact restore_notMem_upsertActions _ _ _ _ _ hmem
      · exact absurd hmem (by decide)
    · rename_i hcompleted
      have hall := hcompletes.mp hcompleted
      refine iff_of_true ?_ hall
      rw [upsertActions_eq 0 w.history hall]
      refine ⟨fun n upsert hupsert _ => ?_, by simp, by simp, by simp⟩
      exact List.mem_append_left _ (List.mem_map_of_mem (List.mem_of_getElem? hupsert))

/-- Two months of the key of the sample have a counter. -/
def sampleMonths : World where
  redis := Function.update (Function.update Keyspace.empty
    (quotaName sampleKey "1970-01") (some ⟨.int 2, none⟩))
    (quotaName sampleKey "1970-02") (some ⟨.int 3, none⟩)
  history := History.empty

/-- A run that finds both, and what its upserts raise. -/
def sampleFailing (failing : Nat → Option SqlError) : Environment :=
  { sampleEnvironment with
    quotaKeys := [quotaName sampleKey "1970-01", quotaName sampleKey "1970-02"]
    failing := failing }

def sampleLocked : Keyspace :=
  Function.update sampleMonths.redis lockKey (some ⟨.text "4f6d", some 180000⟩)

def sampleFound : List (String × Int) :=
  [(quotaName sampleKey "1970-01", 2), (quotaName sampleKey "1970-02", 3)]

theorem sampleMonths_lock (failing : Nat → Option SqlError) :
    acquireLock (sampleFailing failing).token (sampleFailing failing).now sampleMonths.redis =
      .ok sampleLocked := by
  have hfree : sampleMonths.redis lockKey = none := by decide +kernel
  have hdeadline : (sampleTime 60).ms + 120000 = 180000 := by decide +kernel
  unfold acquireLock
  rw [hfree]
  simp [sampleLocked, sampleFailing, sampleEnvironment, hdeadline]

theorem sampleMonths_scan (failing : Nat → Option SqlError) :
    scanQuotaKeys sampleLocked (sampleFailing failing).quotaKeys = .ok sampleFound := by
  show scanQuotaKeys sampleLocked
    [quotaName sampleKey "1970-01", quotaName sampleKey "1970-02"] = .ok sampleFound
  decide +kernel

/-- Without a failure the run goes on to its end. -/
theorem run_resilient_iff_sample :
    Resilient (fun _ => none) (upsertsOf sampleDatabase sampleFound)
      (runActions (sampleFailing fun _ => none) sampleDatabase { sampleMonths with redis := sampleLocked }) :=
  (run_resilient_iff (sampleMonths_lock fun _ => none)
    (sampleMonths_scan fun _ => none)).2.2.mpr fun _ _ => rfl

/-- Another run has inserted the first rollup in the meantime: the second counter is not upserted either,
and nothing is restored or reconciled. -/
theorem failed_upsert_ends_run :
    let env := sampleFailing fun n => if n = 0 then some integrityError else none
    acquireLock env.token env.now sampleMonths.redis = .ok sampleLocked ∧
      scanQuotaKeys sampleLocked env.quotaKeys = .ok sampleFound ∧
      (run env sampleDatabase sampleMonths).2.history.rollups = [] ∧
      runActions env sampleDatabase { sampleMonths with redis := sampleLocked } =
        [.upsert ⟨1, "1970-01", 2, 4⟩ (some integrityError), .release] ∧
      ¬ Resilient env.failing (upsertsOf sampleDatabase sampleFound)
        (runActions env sampleDatabase { sampleMonths with redis := sampleLocked }) := by
  intro env
  have hactions : runActions env sampleDatabase { sampleMonths with redis := sampleLocked } =
      [.upsert ⟨1, "1970-01", 2, 4⟩ (some integrityError), .release] := by decide +kernel
  refine ⟨sampleMonths_lock _, sampleMonths_scan _, by decide +kernel, hactions, fun hresilient => ?_⟩
  have hrestored := hresilient.restored
  rw [hactions] at hrestored
  exact absurd hrestored (by decide)

end QuotaGuard
