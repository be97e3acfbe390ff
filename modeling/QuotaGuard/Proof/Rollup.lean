import QuotaGuard.Service.Rollup
import QuotaGuard.Proof.Upsert
import QuotaGuard.Proof.Quota

/-!
# What a run of the rollup job leaves behind

The registry the job is given has no attribute `scripts`, and the exception that this raises is caught in
`restore_from_rollup`. So a run writes no counter at all, and a counter that has been lost stays lost.
-/

namespace QuotaGuard

variable {env : Environment} {db : Database} {redis : Keyspace} {h h' : History} {upsert : Upsert}
  {key : ApiKey} {month name : String} {value : Int} {found : List (String × Int)}

/-! ### Names -/

theorem lockKey_ne (f : Family) (rest : String) : f.tag ++ rest ≠ lockKey := by
  intro h
  have hlist := congrArg String.toList h
  simp only [String.toList_append, Family.toList_tag, List.cons_append, List.nil_append] at hlist
  change _ = ['q', 'g', ':', 'l', 'o', 'c', 'k', ':', 'r', 'o', 'l', 'l', 'u', 'p'] at hlist
  simp at hlist

theorem quotaName_ne_lockKey (key : KeyId) (month : String) : quotaName key month ≠ lockKey :=
  lockKey_ne .quota _

theorem parseKey_eq_some {tag name : String} {keyId month : String}
    (h : parseKey tag name = some (keyId, month)) :
    name = "qg:" ++ tag ++ ":" ++ (keyId ++ ":" ++ month) := by
  unfold parseKey at h
  split at h
  · rename_i head family keyId' month' hsplit
    split at h
    · rename_i hparts
      obtain ⟨rfl, rfl⟩ := hparts
      cases h
      have hjoin : [':'].intercalate (name.toList.splitOn ':') = name.toList :=
        List.intercalate_splitOn ':'
      rw [hsplit] at hjoin
      apply String.toList_injective
      rw [← hjoin]
      simp
    · cases h
  · cases h

/-- A name is read back from its parts. -/
theorem parseKey_join {tag keyId month : String} (htag : ':' ∉ tag.toList)
    (hkeyId : ':' ∉ keyId.toList) (hmonth : ':' ∉ month.toList) :
    parseKey tag ("qg:" ++ tag ++ ":" ++ (keyId ++ ":" ++ month)) = some (keyId, month) := by
  have hparts : ∀ part ∈ ["qg".toList, tag.toList, keyId.toList, month.toList], ':' ∉ part := by
    intro part hpart
    simp only [List.mem_cons, List.not_mem_nil, or_false] at hpart
    rcases hpart with rfl | rfl | rfl | rfl
    · decide
    · exact htag
    · exact hkeyId
    · exact hmonth
  have hsplit : ("qg:" ++ tag ++ ":" ++ (keyId ++ ":" ++ month)).toList.splitOn ':' =
      ["qg".toList, tag.toList, keyId.toList, month.toList] := by
    rw [← List.splitOn_intercalate ':' hparts (by simp)]
    congr 1
    simp
  unfold parseKey
  rw [hsplit]
  simp

theorem Database.keyOf_eq_some {keyId : String} (h : db.keyOf keyId = some key) :
    key ∈ db.keys ∧ key.keyId.val = keyId :=
  Table.find?_spec h

/-- An upsert is of the key and the month that its counter is named after. -/
theorem upsertOf_eq_some (h : upsertOf db name value = some upsert) :
    ∃ key ∈ db.keys, key.id = upsert.apiKeyId ∧ name = quotaName key.keyId upsert.month ∧
      upsert.used = value := by
  simp only [upsertOf, Option.bind_eq_bind, Option.bind_eq_some_iff, Option.pure_def] at h
  obtain ⟨⟨keyId, month⟩, hname, key, hkey, plan, -, hupsert⟩ := h
  cases hupsert
  obtain ⟨hmem, rfl⟩ := Database.keyOf_eq_some hkey
  exact ⟨key, hmem, rfl, parseKey_eq_some hname, rfl⟩

/-! ### Phase 1 -/

theorem Keyspace.asInt_congr {redis' : Keyspace} (h : redis' name = redis name) :
    redis'.asInt name = redis.asInt name := by
  simp only [asInt, h]

/-- A name that the scan gets is gone again, or has a counter, which is read. -/
theorem scanQuotaKeys_cons_ok {names : List String}
    (h : scanQuotaKeys redis (name :: names) = .ok found) :
    (redis name = none ∧ scanQuotaKeys redis names = .ok found) ∨
      ∃ value found', redis.asInt name = some value ∧ scanQuotaKeys redis names = .ok found' ∧
        found = (name, value) :: found' := by
  unfold scanQuotaKeys at h
  cases hentry : redis name with
  | none =>
      rw [hentry] at h
      exact .inl ⟨rfl, h⟩
  | some entry =>
      rw [hentry] at h
      simp only at h
      cases hvalue : entry.value.asInt with
      | none =>
          rw [hvalue] at h
          simp only at h
          split at h <;> cases h
      | some value =>
          rw [hvalue] at h
          cases hrest : scanQuotaKeys redis names with
          | error e =>
              rw [hrest] at h
              cases h
          | ok found' =>
              rw [hrest] at h
              cases h
              refine .inr ⟨value, found', ?_, rfl, rfl⟩
              rw [Keyspace.asInt, hentry, Option.bind_some, hvalue]

/-- What a scan finds is there. -/
theorem scanQuotaKeys_ok {names : List String} (h : scanQuotaKeys redis names = .ok found) :
    ∀ name value, (name, value) ∈ found → redis.asInt name = some value := by
  induction names generalizing found with
  | nil =>
      cases h
      simp
  | cons first rest ih =>
      rcases scanQuotaKeys_cons_ok h with ⟨-, hrest⟩ | ⟨n, found', hfirst, hrest, rfl⟩
      · exact ih hrest
      · intro name value hmem
        rcases List.mem_cons.mp hmem with hhead | hmem
        · cases hhead
          exact hfirst
        · exact ih hrest name value hmem

/-- And every counter whose name the scan gets is found. -/
theorem mem_of_scanQuotaKeys {names : List String} (h : scanQuotaKeys redis names = .ok found)
    (hmem : name ∈ names) (hreads : redis.asInt name = some value) : (name, value) ∈ found := by
  induction names generalizing found with
  | nil => cases hmem
  | cons first rest ih =>
      rcases scanQuotaKeys_cons_ok h with ⟨habsent, hrest⟩ | ⟨n, found', hfirst, hrest, rfl⟩
      · rcases List.mem_cons.mp hmem with rfl | hmem
        · rw [Keyspace.asInt, habsent] at hreads
          cases hreads
        · exact ih hrest hmem
      · rcases List.mem_cons.mp hmem with rfl | hmem
        · rw [hfirst, Option.some.injEq] at hreads
          rw [hreads]
          exact List.mem_cons_self ..
        · exact List.mem_cons_of_mem _ (ih hrest hmem)

/-- From one table to the other, rollups were raised to or added with values that were read; one that was
as large as what was read for it is the same. -/
structure Persists (db : Database) (found : List (String × Int)) (h h' : History) : Prop where
  read : ∀ rollup ∈ h'.rollups, rollup ∈ h.rollups ∨
    ∃ name value upsert, (name, value) ∈ found ∧ upsertOf db name value = some upsert ∧
      rollup.slot = upsert.slot ∧ rollup.used = upsert.used
  kept : ∀ rollup ∈ h.rollups,
    (∀ name value upsert, (name, value) ∈ found → upsertOf db name value = some upsert →
      rollup.slot = upsert.slot → upsert.used ≤ rollup.used) → rollup ∈ h'.rollups

namespace Persists

theorem refl (db : Database) (found : List (String × Int)) (h : History) : Persists db found h h where
  read := fun _ hmem => .inl hmem
  kept := fun _ hmem _ => hmem

/-- One upsert, with nothing between its two steps. -/
theorem of_upsert (hupsert : upsertOf db name value = some upsert)
    (hcommit : (upsertRollup upsert h).commit h = .ok h') : Persists db [(name, value)] h h' := by
  have hown (rollup : Rollup) (hslot : rollup.slot = upsert.slot) (hused : rollup.used = upsert.used) :
      ∃ name' value' upsert', (name', value') ∈ [(name, value)] ∧
        upsertOf db name' value' = some upsert' ∧ rollup.slot = upsert'.slot ∧
        rollup.used = upsert'.used :=
    ⟨name, value, upsert, List.mem_singleton_self _, hupsert, hslot, hused⟩
  unfold upsertRollup at hcommit
  cases hfind : h.rollups.find? fun rollup => rollup.slot = upsert.slot with
  | none =>
      rw [hfind] at hcommit
      change h.insertRollup upsert = .ok h' at hcommit
      rcases h.insertRollup_cases upsert with ⟨h'', hok, -, hrows, -⟩ | ⟨herror, -⟩
      · rw [hok] at hcommit
        cases hcommit
        refine ⟨fun rollup hmem => ?_, fun rollup hmem _ => ?_⟩
        · rw [hrows] at hmem
          rcases List.mem_append.mp hmem with hold | hnew
          · exact .inl hold
          · rw [List.mem_singleton.mp hnew]
            exact .inr (hown _ rfl rfl)
        · rw [hrows]
          exact List.mem_append_left _ hmem
      · rw [herror] at hcommit
        cases hcommit
  | some existing =>
      obtain ⟨hexisting, hslot⟩ := (Table.find?_eq_some_iff h.rollupSlots).mp hfind
      rw [hfind] at hcommit
      simp only at hcommit
      split at hcommit
      · rename_i hlow
        cases hcommit
        refine ⟨fun rollup hmem => ?_, fun rollup hmem hkeep => ?_⟩
        · rcases (History.mem_writeRollup_iff hexisting).mp hmem with rfl | ⟨hold, -⟩
          · exact .inr (hown _ hslot rfl)
          · exact .inl hold
        · refine (History.mem_writeRollup_iff hexisting).mpr (.inr ⟨hmem, ?_⟩)
          rintro rfl
          exact absurd (hkeep name value upsert (List.mem_singleton_self _) hupsert hslot)
            (not_le.mpr hlow)
      · cases hcommit
        exact refl db _ h

theorem append {h'' : History} {left right : List (String × Int)} (hleft : Persists db left h h')
    (hright : Persists db right h' h'') : Persists db (left ++ right) h h'' where
  read := by
    intro rollup hmem
    rcases hright.read rollup hmem with hmem | ⟨name, value, upsert, hpair, hread⟩
    · rcases hleft.read rollup hmem with hold | ⟨name, value, upsert, hpair, hread⟩
      · exact .inl hold
      · exact .inr ⟨name, value, upsert, List.mem_append_left _ hpair, hread⟩
    · exact .inr ⟨name, value, upsert, List.mem_append_right _ hpair, hread⟩
  kept := by
    intro rollup hmem hlow
    exact hright.kept rollup
      (hleft.kept rollup hmem fun name value upsert hpair =>
        hlow name value upsert (List.mem_append_left _ hpair))
      fun name value upsert hpair => hlow name value upsert (List.mem_append_right _ hpair)

/-- Phase 1, also when a database error ends it. -/
theorem upsertAll (db : Database) (failing : Nat → Option SqlError) (found : List (String × Int))
    (n : Nat) (h : History) : Persists db found h (upsertAll db failing found n h).2 := by
  induction found generalizing n h with
  | nil => exact refl db [] h
  | cons pair rest ih =>
      obtain ⟨name, value⟩ := pair
      have hskip (n : Nat) : Persists db ((name, value) :: rest) h
          (QuotaGuard.upsertAll db failing rest n h).2 :=
        (refl db [(name, value)] h).append (ih n h)
      unfold QuotaGuard.upsertAll
      cases hupsert : upsertOf db name value with
      | none => exact hskip n
      | some upsert =>
          simp only
          cases failing n with
          | some e => exact refl db _ h
          | none =>
              simp only
              cases hcommit : (upsertRollup upsert h).commit h with
              | error e => exact refl db _ h
              | ok h' => exact (of_upsert hupsert hcommit).append (ih (n + 1) h')

end Persists

/-! ### Phase 2 -/

/-- Without the attribute nothing is restored. -/
theorem restoreAll_scriptRegistry (now : Time) (db : Database) (rollups : List Rollup) (n : Nat)
    (redis : Keyspace) : restoreAll scriptRegistry now db rollups n redis = (n, redis) := by
  induction rollups generalizing n with
  | nil => rfl
  | cons rollup rest ih =>
      have hnothing (keyId : String) :
          restoreFromRollup scriptRegistry now keyId rollup.month rollup.used redis = (0, redis) := by
        unfold restoreFromRollup
        cases monthEndOfText rollup.month <;> rfl
      unfold restoreAll
      cases db.keys.find? fun key => key.id = rollup.apiKeyId with
      | none => exact ih n
      | some key =>
          simp only [hnothing]
          exact ih (n + 0)

/-! ### The lock -/

theorem acquireLock_of_ne {token : String} {now : Time} {redis' : Keyspace}
    (h : acquireLock token now redis = .ok redis') (hne : name ≠ lockKey) : redis' name = redis name := by
  unfold acquireLock at h
  split at h
  · cases h
    exact Function.update_of_ne hne _ _
  · cases h

theorem releaseLock_of_ne {decodeResponses : Bool} {token : String} (hne : name ≠ lockKey) :
    releaseLock decodeResponses token redis name = redis name := by
  unfold releaseLock
  cases redis lockKey with
  | none => rfl
  | some entry =>
      obtain ⟨value, deadline⟩ := entry
      cases value with
      | text value =>
          simp only
          split
          · exact Function.update_of_ne hne _ _
          · rfl
      | hash t ts => rfl
      | zset members => rfl
      | int n => rfl

/-! ### The run -/

/-- An `INSERT` into the outbox adds the row, or raises because its warning is there already. -/
theorem History.insertOutbox_cases (h : History) (warning : Warning) :
    (∃ h' id, h.insertOutbox warning = .ok h' ∧ h'.outbox = h.outbox ++ [warning.row id] ∧
        h'.rollups = h.rollups) ∨
      h.insertOutbox warning = .error integrityError ∧
        warning.slot ∈ h.outbox.map WebhookOutbox.slot := by
  by_cases hslot : warning.slot ∈ h.outbox.map WebhookOutbox.slot
  · exact .inr ⟨dif_pos hslot, hslot⟩
  · exact .inl ⟨_, _, dif_neg hslot, rfl, rfl⟩

/-- Either way the warning is in the outbox, and nothing else has changed. -/
theorem enqueue_cases (h : History) (warning : Warning) :
    (enqueue h warning).2.rollups = h.rollups ∧
      (∀ row ∈ h.outbox, row ∈ (enqueue h warning).2.outbox) ∧
      (∀ row ∈ (enqueue h warning).2.outbox, row ∈ h.outbox ∨ row.slot = warning.slot) ∧
      warning.slot ∈ (enqueue h warning).2.outbox.map WebhookOutbox.slot := by
  unfold enqueue
  rcases h.insertOutbox_cases warning with ⟨h', id, hok, houtbox, hrollups⟩ | ⟨herror, hslot⟩
  · rw [hok]
    simp only [houtbox]
    refine ⟨hrollups, fun row hmem => List.mem_append_left _ hmem, fun row hmem => ?_, ?_⟩
    · rcases List.mem_append.mp hmem with hold | hnew
      · exact .inl hold
      · rw [List.mem_singleton.mp hnew]
        exact .inr rfl
    · rw [List.map_append]
      exact List.mem_append_right _ (List.mem_singleton_self _)
  · rw [herror]
    exact ⟨rfl, fun row hmem => hmem, fun row hmem => .inl hmem, hslot⟩

theorem rollups_reconcileSoftWebhooks (db : Database) (utcnow : ℚ) (redis : Keyspace)
    (flags : List String) (n : Nat) (h : History) :
    (reconcileSoftWebhooks db utcnow redis flags n h).2.rollups = h.rollups := by
  induction flags generalizing n h with
  | nil => rfl
  | cons flag rest ih =>
      unfold reconcileSoftWebhooks
      cases missingWarning db utcnow redis h flag with
      | none => exact ih n h
      | some warning =>
          simp only
          rw [ih]
          exact (enqueue_cases h warning).1

/-- What a run leaves behind: it has written no counter, and persisted only what it has found. -/
structure Leaves (db : Database) (w w' : World) : Prop where
  redis : ∀ name ≠ lockKey, w'.redis name = w.redis name
  rollups : ∃ found history, Persists db found w.history history ∧
    w'.history.rollups = history.rollups ∧
    ∀ name ≠ lockKey, ∀ value, (name, value) ∈ found → w.redis.asInt name = some value

theorem runPhases_leaves (henv : env.registry = scriptRegistry) (db : Database) (w : World) :
    Leaves db w (runPhases env db w).2 := by
  unfold runPhases
  cases hscan : scanQuotaKeys w.redis env.quotaKeys with
  | error e =>
      exact ⟨fun _ _ => rfl, [], w.history, .refl db [] _, rfl, fun _ _ _ hmem => by cases hmem⟩
  | ok found =>
      have hpersists := Persists.upsertAll db env.failing found 0 w.history
      simp only
      generalize upsertAll db env.failing found 0 w.history = out at hpersists ⊢
      obtain ⟨⟨upserted, failure⟩, history⟩ := out
      cases failure with
      | some e => exact ⟨fun _ _ => rfl, found, history, hpersists, rfl,
          fun name _ => scanQuotaKeys_ok hscan name⟩
      | none =>
          simp only [henv, restoreAll_scriptRegistry]
          exact ⟨fun _ _ => rfl, found, history, hpersists, rollups_reconcileSoftWebhooks ..,
            fun name _ => scanQuotaKeys_ok hscan name⟩

theorem run_leaves (henv : env.registry = scriptRegistry) (db : Database) (w : World) :
    Leaves db w (run env db w).2 := by
  unfold run
  cases hlock : acquireLock env.token env.now w.redis with
  | error e =>
      exact ⟨fun _ _ => rfl, [], w.history, .refl db [] _, rfl, fun _ _ _ hmem => by cases hmem⟩
  | ok redis =>
      obtain ⟨hredis, found, history, hpersists, hrollups, hfound⟩ :=
        runPhases_leaves henv db { w with redis }
      refine ⟨fun name hne => ?_, found, history, hpersists, hrollups, fun name hne value hmem => ?_⟩
      · exact (releaseLock_of_ne hne).trans ((hredis name hne).trans (acquireLock_of_ne hlock hne))
      · exact (Keyspace.asInt_congr (acquireLock_of_ne hlock hne)).symm.trans (hfound name hne value hmem)

/-! ### Lost counters -/

/-- The counter is there and not below the value. -/
def Keyspace.HasCounter (redis : Keyspace) (name : String) (value : Int) : Prop :=
  ∃ n, redis.asInt name = some n ∧ value ≤ n

/-- The month has an end, and its 45 days of grace are not over. -/
def InGrace (now : Time) (month : String) : Prop :=
  ∃ monthEnd, monthEndOfText month = some monthEnd ∧ (now.sec : Int) < monthEnd + monthGraceS

/-- **A run restores no counter.** After a run of the job, whatever it answers, every rollup of a month in
its grace has a counter that is not below it and not below what it was, exactly when every such rollup
had one before the run. -/
theorem counters_covered_iff (env : Environment) (db : Database) (w : World) :
    let w' := (run { env with registry := scriptRegistry } db w).2
    (∀ rollup ∈ w'.history.rollups, ∀ key ∈ db.keys, key.id = rollup.apiKeyId →
        InGrace env.now rollup.month →
        w'.redis.HasCounter (quotaName key.keyId rollup.month) rollup.used ∧
          ∀ n, w.redis.asInt (quotaName key.keyId rollup.month) = some n →
            w'.redis.HasCounter (quotaName key.keyId rollup.month) n) ↔
      ∀ rollup ∈ w.history.rollups, ∀ key ∈ db.keys, key.id = rollup.apiKeyId →
        InGrace env.now rollup.month →
        w.redis.HasCounter (quotaName key.keyId rollup.month) rollup.used := by
  intro w'
  have hleaves : Leaves db w w' := run_leaves rfl db w
  obtain ⟨hredis, found, history, hpersists, hrollups, hfound⟩ := hleaves
  have hcounters (key : ApiKey) (month : String) :
      w'.redis (quotaName key.keyId month) = w.redis (quotaName key.keyId month) :=
    hredis _ (quotaName_ne_lockKey _ _)
  have hsame (key : ApiKey) (month : String) (value : Int) :
      w'.redis.HasCounter (quotaName key.keyId month) value ↔
        w.redis.HasCounter (quotaName key.keyId month) value := by
    unfold Keyspace.HasCounter Keyspace.asInt
    rw [hcounters]
  -- What is read for a rollup is the value of its own counter.
  have hread : ∀ name value upsert, (name, value) ∈ found → upsertOf db name value = some upsert →
      ∀ rollup : Rollup, rollup.slot = upsert.slot → ∀ key ∈ db.keys, key.id = rollup.apiKeyId →
        w.redis.asInt (quotaName key.keyId rollup.month) = some upsert.used := by
    intro name value upsert hmem hupsert rollup hslot key hkey hid
    obtain ⟨hkeyId, hmonth⟩ := Prod.mk.injEq .. ▸ hslot
    obtain ⟨other, hother, hotherId, rfl, rfl⟩ := upsertOf_eq_some hupsert
    obtain rfl := Database.key_eq_of_id hkey hother (hotherId.trans (hkeyId.symm.trans hid.symm))
    rw [hmonth]
    exact hfound _ (quotaName_ne_lockKey _ _) _ hmem
  constructor
  · intro hafter rollup hrollup key hkey hid hgrace
    by_cases hlow : ∀ name value upsert, (name, value) ∈ found →
        upsertOf db name value = some upsert → rollup.slot = upsert.slot → upsert.used ≤ rollup.used
    · have hkept : rollup ∈ w'.history.rollups := by
        rw [hrollups]
        exact hpersists.kept rollup hrollup hlow
      exact (hsame key _ _).mp (hafter rollup hkept key hkey hid hgrace).1
    · push Not at hlow
      obtain ⟨name, value, upsert, hmem, hupsert, hslot, hless⟩ := hlow
      exact ⟨_, hread name value upsert hmem hupsert rollup hslot key hkey hid, hless.le⟩
  · intro hbefore rollup hrollup key hkey hid hgrace
    refine ⟨(hsame key _ _).mpr ?_, fun n hn => (hsame key _ _).mpr ⟨n, hn, le_rfl⟩⟩
    rw [hrollups] at hrollup
    rcases hpersists.read rollup hrollup with hold | ⟨name, value, upsert, hmem, hupsert, hslot, hused⟩
    · exact hbefore rollup hold key hkey hid hgrace
    · exact ⟨_, hread name value upsert hmem hupsert rollup hslot key hkey hid, hused.le⟩

def sampleEnvironment : Environment where
  registry := scriptRegistry
  decodeResponses := false
  token := "4f6d"
  now := sampleTime 60
  utcnow := 60
  quotaKeys := []
  flagKeys := []
  failing := fun _ => none

/-- Redis has lost everything: the run answers, and the counter of the rollup is still missing. -/
theorem lost_counter_stays_lost :
    let out := run sampleEnvironment sampleDatabase ⟨Keyspace.empty, sampleRollups⟩
    IsScan "qg:q:" Keyspace.empty sampleEnvironment.quotaKeys ∧
      out.1 = .ok ⟨0, 0, 0, 0⟩ ∧
      InGrace sampleEnvironment.now "1970-01" ∧
      out.2.history.rollups.map (fun rollup => (rollup.slot, rollup.used)) =
        [((sampleKeyRow.id, "1970-01"), 5)] ∧
      ¬ out.2.redis.HasCounter (quotaName sampleKeyRow.keyId "1970-01") 5 := by
  intro out
  refine ⟨fun name => by simp [sampleEnvironment], by decide +kernel,
    ⟨2678400, by decide +kernel, by decide +kernel⟩, by decide +kernel, ?_⟩
  rintro ⟨n, hcounter, -⟩
  have hlost : out.2.redis.asInt (quotaName sampleKeyRow.keyId "1970-01") = none := by decide +kernel
  rw [hlost] at hcounter
  cases hcounter

/-- With the attribute the same run restores it. -/
example :
    (run { sampleEnvironment with registry := ⟨some ["check", "restore", "unlock"]⟩ } sampleDatabase
      ⟨Keyspace.empty, sampleRollups⟩).2.redis.counter (quotaName sampleKey "1970-01") = 5 := by
  decide +kernel

end QuotaGuard
