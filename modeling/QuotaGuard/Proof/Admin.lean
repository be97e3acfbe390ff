import QuotaGuard.Proof.Trace
import QuotaGuard.Service.Admin

/-!
# What the admin requests write

What each request has pending when it commits, and the bounds: every row stays within those of the
schemas, whatever requests interleave, since what a request writes has been checked by the type of its
field.
-/

namespace QuotaGuard

open Transaction

/-! ### Bounds -/

structure Plan.WithinBounds (plan : Plan) : Prop where
  burstCapacity : 1 ≤ plan.burstCapacity ∧ plan.burstCapacity ≤ 1000000
  burstRefillPerSec : 1 ≤ plan.burstRefillPerSec ∧ plan.burstRefillPerSec ≤ 100000
  sustainedLimit : 1 ≤ plan.sustainedLimit ∧ plan.sustainedLimit ≤ 1000000
  sustainedWindowSeconds : 1 ≤ plan.sustainedWindowSeconds ∧ plan.sustainedWindowSeconds ≤ 86400
  monthlyQuota : 1 ≤ plan.monthlyQuota ∧ plan.monthlyQuota ≤ 1000000000000
  quotaSoftPct : 0 ≤ plan.quotaSoftPct ∧ plan.quotaSoftPct ≤ 100
  webhookUrl : ∀ url, plan.webhookUrl = some url → ∃ valid : WebhookUrl, valid.val = url

structure ApiKey.WithinBounds (key : ApiKey) : Prop where
  burstCapacity : ∀ v, key.overrideBurstCapacity = some v → 1 ≤ v ∧ v ≤ 1000000
  burstRefillPerSec : ∀ v, key.overrideBurstRefillPerSec = some v → 1 ≤ v ∧ v ≤ 100000
  sustainedLimit : ∀ v, key.overrideSustainedLimit = some v → 1 ≤ v ∧ v ≤ 1000000
  sustainedWindowSeconds : ∀ v, key.overrideSustainedWindowSeconds = some v → 1 ≤ v ∧ v ≤ 86400
  monthlyQuota : ∀ v, key.overrideMonthlyQuota = some v → 1 ≤ v ∧ v ≤ 1000000000000

structure Database.WithinBounds (db : Database) : Prop where
  plans : ∀ plan ∈ db.plans, plan.WithinBounds
  keys : ∀ key ∈ db.keys, key.WithinBounds

/-- What an `UPDATE` of `plans` may set. -/
structure PlanColumns.WithinBounds (columns : PlanColumns) : Prop where
  burstCapacity : ∀ v, columns.burstCapacity = some v → 1 ≤ v ∧ v ≤ 1000000
  burstRefillPerSec : ∀ v, columns.burstRefillPerSec = some v → 1 ≤ v ∧ v ≤ 100000
  sustainedLimit : ∀ v, columns.sustainedLimit = some v → 1 ≤ v ∧ v ≤ 1000000
  sustainedWindowSeconds : ∀ v, columns.sustainedWindowSeconds = some v → 1 ≤ v ∧ v ≤ 86400
  monthlyQuota : ∀ v, columns.monthlyQuota = some v → 1 ≤ v ∧ v ≤ 1000000000000
  quotaSoftPct : ∀ v, columns.quotaSoftPct = some v → 0 ≤ v ∧ v ≤ 100
  webhookUrl : ∀ url, columns.webhookUrl = some (some url) → ∃ valid : WebhookUrl, valid.val = url

/-- What an `UPDATE` of `api_keys` may set. -/
structure KeyColumns.WithinBounds (columns : KeyColumns) : Prop where
  burstCapacity : ∀ v, columns.overrideBurstCapacity = some (some v) → 1 ≤ v ∧ v ≤ 1000000
  burstRefillPerSec : ∀ v, columns.overrideBurstRefillPerSec = some (some v) → 1 ≤ v ∧ v ≤ 100000
  sustainedLimit : ∀ v, columns.overrideSustainedLimit = some (some v) → 1 ≤ v ∧ v ≤ 1000000
  sustainedWindowSeconds : ∀ v, columns.overrideSustainedWindowSeconds = some (some v) →
    1 ≤ v ∧ v ≤ 86400
  monthlyQuota : ∀ v, columns.overrideMonthlyQuota = some (some v) → 1 ≤ v ∧ v ≤ 1000000000000

theorem changed_eq_some {α : Type} [DecidableEq α] {old v : α} {new : Option α} :
    changed old new = some v ↔ new = some v ∧ v ≠ old := by
  rw [changed, Option.filter_eq_some_iff, decide_eq_true_iff]

/-- The columns of an update hold, together with the row that was read, what the update set. -/
theorem getD_changed {α : Type} [DecidableEq α] (old : α) (new : Option α) :
    (changed old new).getD old = new.getD old := by
  cases new with
  | none => rfl
  | some v =>
      by_cases hsame : v = old
      · rw [changed, Option.filter_some, if_neg (by simpa using hsame), hsame]
        rfl
      · rw [changed, Option.filter_some, if_pos (by simpa using hsame)]

section Columns

variable {lo hi : Int}

theorem changed_within {old v : Int} {field : Option (Option (Bounded lo hi))}
    (h : changed old (field.join.map Bounded.val) = some v) : lo ≤ v ∧ v ≤ hi := by
  obtain ⟨value, -, rfl⟩ := Option.map_eq_some_iff.mp (changed_eq_some.mp h).1
  exact ⟨value.ge, value.le⟩

theorem override_within {old : Option Int} {v : Int} {field : Option (Option (Bounded lo hi))}
    (h : changed old (KeyUpdateRequest.override field) = some (some v)) : lo ≤ v ∧ v ≤ hi := by
  obtain ⟨set, -, hset⟩ := Option.map_eq_some_iff.mp (changed_eq_some.mp h).1
  obtain ⟨value, -, rfl⟩ := Option.map_eq_some_iff.mp hset
  exact ⟨value.ge, value.le⟩

theorem getD_within {old : Int} {column : Option Int} (hold : lo ≤ old ∧ old ≤ hi)
    (hcolumn : ∀ v, column = some v → lo ≤ v ∧ v ≤ hi) :
    lo ≤ column.getD old ∧ column.getD old ≤ hi := by
  cases column with
  | none => exact hold
  | some v => exact hcolumn v rfl

theorem getD_override {old : Option Int} {column : Option (Option Int)}
    (hold : ∀ v, old = some v → lo ≤ v ∧ v ≤ hi)
    (hcolumn : ∀ v, column = some (some v) → lo ≤ v ∧ v ≤ hi) (v : Int)
    (hv : column.getD old = some v) : lo ≤ v ∧ v ≤ hi := by
  cases column with
  | none => exact hold v hv
  | some set => exact hcolumn v (congrArg some hv)

end Columns

theorem PlanUpdateRequest.columns_withinBounds (data : PlanUpdateRequest) (plan : Plan) :
    (data.columns plan).WithinBounds where
  burstCapacity := fun _ h => changed_within h
  burstRefillPerSec := fun _ h => changed_within h
  sustainedLimit := fun _ h => changed_within h
  sustainedWindowSeconds := fun _ h => changed_within h
  monthlyQuota := fun _ h => changed_within h
  quotaSoftPct := fun _ h => changed_within h
  webhookUrl := by
    intro url h
    obtain ⟨set, -, hset⟩ := Option.map_eq_some_iff.mp (changed_eq_some.mp h).1
    obtain ⟨valid, -, hvalid⟩ := Option.map_eq_some_iff.mp hset
    exact ⟨valid, hvalid⟩

theorem KeyUpdateRequest.columns_withinBounds (data : KeyUpdateRequest) (key : ApiKey) :
    (data.columns key).WithinBounds where
  burstCapacity := fun _ h => override_within h
  burstRefillPerSec := fun _ h => override_within h
  sustainedLimit := fun _ h => override_within h
  sustainedWindowSeconds := fun _ h => override_within h
  monthlyQuota := fun _ h => override_within h

theorem PlanCreateRequest.row_withinBounds (data : PlanCreateRequest) (id : Nat) :
    (data.row id).WithinBounds where
  burstCapacity := ⟨data.burstCapacity.ge, data.burstCapacity.le⟩
  burstRefillPerSec := ⟨data.burstRefillPerSec.ge, data.burstRefillPerSec.le⟩
  sustainedLimit := ⟨data.sustainedLimit.ge, data.sustainedLimit.le⟩
  sustainedWindowSeconds := ⟨data.sustainedWindowSeconds.ge, data.sustainedWindowSeconds.le⟩
  monthlyQuota := ⟨data.monthlyQuota.ge, data.monthlyQuota.le⟩
  quotaSoftPct := ⟨data.quotaSoftPct.ge, data.quotaSoftPct.le⟩
  webhookUrl := by
    intro url h
    obtain ⟨valid, -, hvalid⟩ := Option.map_eq_some_iff.mp h
    exact ⟨valid, hvalid⟩

theorem PlanColumns.WithinBounds.write {columns : PlanColumns} {plan : Plan}
    (h : columns.WithinBounds) (hplan : plan.WithinBounds) : (columns.write plan).WithinBounds where
  burstCapacity := getD_within hplan.burstCapacity h.burstCapacity
  burstRefillPerSec := getD_within hplan.burstRefillPerSec h.burstRefillPerSec
  sustainedLimit := getD_within hplan.sustainedLimit h.sustainedLimit
  sustainedWindowSeconds := getD_within hplan.sustainedWindowSeconds h.sustainedWindowSeconds
  monthlyQuota := getD_within hplan.monthlyQuota h.monthlyQuota
  quotaSoftPct := getD_within hplan.quotaSoftPct h.quotaSoftPct
  webhookUrl := by
    intro url hurl
    change columns.webhookUrl.getD plan.webhookUrl = some url at hurl
    cases hcolumn : columns.webhookUrl with
    | none =>
        rw [hcolumn] at hurl
        exact hplan.webhookUrl url hurl
    | some set =>
        rw [hcolumn] at hurl
        exact h.webhookUrl url (hcolumn.trans (congrArg some hurl))

theorem KeyColumns.WithinBounds.write {columns : KeyColumns} {key : ApiKey}
    (h : columns.WithinBounds) (hkey : key.WithinBounds) : (columns.write key).WithinBounds where
  burstCapacity := getD_override hkey.burstCapacity h.burstCapacity
  burstRefillPerSec := getD_override hkey.burstRefillPerSec h.burstRefillPerSec
  sustainedLimit := getD_override hkey.sustainedLimit h.sustainedLimit
  sustainedWindowSeconds := getD_override hkey.sustainedWindowSeconds h.sustainedWindowSeconds
  monthlyQuota := getD_override hkey.monthlyQuota h.monthlyQuota

/-! ### What a call has pending -/

theorem Database.mem_of_getPlan {db : Database} {slug : String} {plan : Plan}
    (h : db.getPlan slug = .ok plan) : plan ∈ db.plans ∧ plan.slug = slug := by
  unfold getPlan at h
  split at h
  · rename_i found hfind
    cases h
    exact Table.find?_spec hfind
  · cases h

theorem Database.mem_of_getKey {db : Database} {keyId : String} {key : ApiKey}
    (h : db.getKey keyId = .ok key) : key ∈ db.keys ∧ key.keyId.val = keyId := by
  unfold getKey at h
  split at h
  · rename_i found hfind
    cases h
    exact Table.find?_spec hfind
  · cases h

theorem requireWebhook_ok {pct : Int} {url : Option String}
    (h : requireWebhookForSoftThreshold pct url = .ok ()) : 0 < pct → url.getD "" ≠ "" := by
  intro hpct hurl
  rw [requireWebhookForSoftThreshold, if_pos ⟨hpct, hurl⟩] at h
  cases h

theorem createPlan_ok {data : PlanCreateRequest} {write : AdminWrite}
    (h : createPlan data = .ok write) :
    (0 < data.quotaSoftPct.val → (data.webhookUrl.map WebhookUrl.val).getD "" ≠ "") ∧
      write = .insertPlan data := by
  unfold createPlan at h
  cases hrule : requireWebhookForSoftThreshold data.quotaSoftPct.val
      (data.webhookUrl.map WebhookUrl.val) with
  | error e =>
      rw [hrule] at h
      cases h
  | ok _ =>
      rw [hrule] at h
      cases h
      exact ⟨requireWebhook_ok hrule, rfl⟩

theorem updatePlan_ok {slug : String} {data : PlanUpdateRequest} {db : Database}
    {write : AdminWrite} (h : updatePlan slug data db = .ok write) :
    ∃ plan ∈ db.plans, plan.slug = slug ∧ write = .writePlan plan.id (data.columns plan) ∧
      (0 < (data.columns plan).quotaSoftPct.getD plan.quotaSoftPct →
        ((data.columns plan).webhookUrl.getD plan.webhookUrl).getD "" ≠ "") := by
  unfold updatePlan at h
  cases hplan : db.getPlan slug with
  | error e =>
      rw [hplan] at h
      cases h
  | ok plan =>
      rw [hplan] at h
      cases hnulls : data.checkNulls with
      | error e =>
          rw [hnulls] at h
          cases h
      | ok _ =>
          rw [hnulls] at h
          cases hrule : requireWebhookForSoftThreshold
              ((data.quotaSoftPct.join.map Bounded.val).getD plan.quotaSoftPct)
              (data.url.getD plan.webhookUrl) with
          | error e =>
              simp only [bind, Except.bind, hrule] at h
              cases h
          | ok _ =>
              simp only [bind, Except.bind, hrule] at h
              cases h
              obtain ⟨hmem, hslug⟩ := Database.mem_of_getPlan hplan
              refine ⟨plan, hmem, hslug, rfl, ?_⟩
              rw [← getD_changed plan.quotaSoftPct, ← getD_changed plan.webhookUrl] at hrule
              exact requireWebhook_ok hrule

theorem issueKey_ok {slug : String} {name : Name} {keyId : KeyId} {keyHash : String} {db : Database}
    {write : AdminWrite} (h : issueKey slug name keyId keyHash db = .ok write) :
    ∃ planId, write = .insertKey ⟨keyId, keyHash, name, planId⟩ := by
  unfold issueKey at h
  cases hplan : db.getPlan slug with
  | error e =>
      rw [hplan] at h
      cases h
  | ok plan =>
      rw [hplan] at h
      cases h
      exact ⟨plan.id, rfl⟩

theorem updateKey_ok {keyId : String} {data : KeyUpdateRequest} {db : Database} {write : AdminWrite}
    (h : updateKey keyId data db = .ok write) :
    ∃ key ∈ db.keys, key.keyId.val = keyId ∧ key.revokedAt = none ∧
      write = .writeKey key.id (data.columns key) := by
  unfold updateKey at h
  cases hkey : db.getKey keyId with
  | error e =>
      rw [hkey] at h
      cases h
  | ok key =>
      obtain ⟨hmem, hid⟩ := Database.mem_of_getKey hkey
      simp only [hkey, bind, Except.bind] at h
      split at h
      · cases h
      · rename_i hlive
        refine ⟨key, hmem, hid, by simpa using hlive, ?_⟩
        split at h
        · cases h
        · split at h
          · cases h
          · cases h
            rfl

theorem revokeKey_ok {keyId : String} {now : Nat} {db : Database} {write : AdminWrite}
    (h : revokeKey keyId now db = .ok write) :
    ∃ key ∈ db.keys, key.keyId.val = keyId ∧ key.revokedAt = none ∧
      write = .writeKey key.id { revokedAt := some (some now) } := by
  unfold revokeKey at h
  cases hkey : db.getKey keyId with
  | error e =>
      rw [hkey] at h
      cases h
  | ok key =>
      obtain ⟨hmem, hid⟩ := Database.mem_of_getKey hkey
      simp only [hkey, bind, Except.bind] at h
      split at h
      · cases h
      · rename_i hlive
        cases h
        exact ⟨key, hmem, hid, by simpa using hlive, rfl⟩

/-! ### What a commit makes of the rows -/

theorem Database.mem_plans_writePlan {db : Database} {id : Nat} {columns : PlanColumns} {plan : Plan} :
    plan ∈ (db.writePlan id columns).plans ↔
      ∃ old ∈ db.plans, (if old.id = id then columns.write old else old) = plan :=
  List.mem_map

theorem Database.mem_keys_writeKey {db : Database} {id : Nat} {columns : KeyColumns} {key : ApiKey} :
    key ∈ (db.writeKey id columns).keys ↔
      ∃ old ∈ db.keys, (if old.id = id then columns.write old else old) = key :=
  List.mem_map

theorem Database.insertPlan_ok {db db' : Database} {data : PlanCreateRequest}
    (h : db.insertPlan data = .ok db') :
    (∃ id, db'.plans = db.plans ++ [data.row id]) ∧ db'.keys = db.keys := by
  unfold insertPlan at h
  split at h
  · cases h
  · cases h
    exact ⟨⟨_, rfl⟩, rfl⟩

theorem Database.insertKey_ok {db db' : Database} {issued : IssuedKey}
    (h : db.insertKey issued = .ok db') :
    db'.plans = db.plans ∧ ∃ id, db'.keys = db.keys ++ [issued.row id] := by
  unfold insertKey at h
  split at h
  · cases h
    exact ⟨rfl, _, rfl⟩
  · cases h

/-- The columns of the row of the key that are written. -/
def AdminWrite.columnsOf (key : ApiKey) : AdminWrite → KeyColumns
  | .writeKey id columns => if id = key.id then columns else {}
  | .insertPlan _ => {}
  | .writePlan _ _ => {}
  | .insertKey _ => {}

/-- What a commit makes of the row of a key. -/
theorem AdminWrite.commit_row {write : AdminWrite} {db db' : Database} {key : ApiKey}
    (hkey : key ∈ db.keys) (h : write.commit db = .ok db') :
    (write.columnsOf key).write key ∈ db'.keys := by
  cases write with
  | insertPlan data =>
      obtain ⟨-, hkeys⟩ := Database.insertPlan_ok h
      exact hkeys ▸ hkey
  | writePlan id columns =>
      cases h
      exact hkey
  | insertKey issued =>
      obtain ⟨-, id, hkeys⟩ := Database.insertKey_ok h
      rw [hkeys]
      exact List.mem_append_left _ hkey
  | writeKey id columns =>
      cases h
      refine Database.mem_keys_writeKey.mpr ⟨key, hkey, ?_⟩
      by_cases hid : key.id = id
      · rw [columnsOf, if_pos hid, if_pos hid.symm]
      · rw [columnsOf, if_neg hid, if_neg (Ne.symm hid), KeyColumns.write_empty]

/-- A commit keeps the row of a key, or is a write to it. -/
theorem AdminWrite.commit_cases {write : AdminWrite} {db db' : Database} {key : ApiKey}
    (hkey : key ∈ db.keys) (h : write.commit db = .ok db') :
    key ∈ db'.keys ∨ ∃ columns, write = .writeKey key.id columns ∧ columns.write key ∈ db'.keys := by
  have hrow := AdminWrite.commit_row hkey h
  cases write with
  | insertPlan data => exact .inl hrow
  | writePlan id columns => exact .inl hrow
  | insertKey issued => exact .inl hrow
  | writeKey id columns =>
      by_cases hid : id = key.id
      · rw [columnsOf, if_pos hid] at hrow
        exact .inr ⟨columns, hid ▸ rfl, hrow⟩
      · rw [columnsOf, if_neg hid] at hrow
        exact .inl hrow

/-! ### Bounds in every run -/

/-- What a call has pending is within the bounds. -/
def AdminWrite.WithinBounds : AdminWrite → Prop
  | .insertPlan _ => True
  | .writePlan _ columns => columns.WithinBounds
  | .insertKey _ => True
  | .writeKey _ columns => columns.WithinBounds

theorem AdminCall.read_withinBounds {call : AdminCall} {db : Database} {write : AdminWrite}
    (h : call.read db = .ok write) : write.WithinBounds := by
  cases call with
  | createPlan data =>
      obtain ⟨-, rfl⟩ := createPlan_ok h
      trivial
  | updatePlan slug data =>
      obtain ⟨plan, -, -, rfl, -⟩ := updatePlan_ok h
      exact data.columns_withinBounds plan
  | issueKey slug name keyId keyHash =>
      obtain ⟨planId, rfl⟩ := issueKey_ok h
      trivial
  | updateKey keyId data =>
      obtain ⟨key, -, -, -, rfl⟩ := updateKey_ok h
      exact data.columns_withinBounds key
  | revokeKey keyId now =>
      obtain ⟨key, -, -, -, rfl⟩ := revokeKey_ok h
      exact ⟨nofun, nofun, nofun, nofun, nofun⟩

theorem AdminWrite.WithinBounds.commit {write : AdminWrite} {db db' : Database}
    (hwrite : write.WithinBounds) (hdb : db.WithinBounds) (h : write.commit db = .ok db') :
    db'.WithinBounds := by
  cases write with
  | insertPlan data =>
      obtain ⟨⟨id, hplans⟩, hkeys⟩ := Database.insertPlan_ok h
      refine ⟨fun plan hplan => ?_, hkeys ▸ hdb.keys⟩
      rw [hplans] at hplan
      rcases List.mem_append.mp hplan with hold | hnew
      · exact hdb.plans plan hold
      · rw [List.mem_singleton.mp hnew]
        exact data.row_withinBounds id
  | writePlan id columns =>
      cases h
      refine ⟨fun plan hplan => ?_, hdb.keys⟩
      obtain ⟨old, hold, rfl⟩ := Database.mem_plans_writePlan.mp hplan
      split
      · exact PlanColumns.WithinBounds.write hwrite (hdb.plans old hold)
      · exact hdb.plans old hold
  | insertKey issued =>
      obtain ⟨hplans, id, hkeys⟩ := Database.insertKey_ok h
      refine ⟨hplans ▸ hdb.plans, fun key hkey => ?_⟩
      rw [hkeys] at hkey
      rcases List.mem_append.mp hkey with hold | hnew
      · exact hdb.keys key hold
      · rw [List.mem_singleton.mp hnew]
        exact ⟨nofun, nofun, nofun, nofun, nofun⟩
  | writeKey id columns =>
      cases h
      refine ⟨hdb.plans, fun key hkey => ?_⟩
      obtain ⟨old, hold, rfl⟩ := Database.mem_keys_writeKey.mp hkey
      split
      · exact KeyColumns.WithinBounds.write hwrite (hdb.keys old hold)
      · exact hdb.keys old hold

theorem Database.withinBounds_empty : Database.empty.WithinBounds where
  plans := fun _ hmem => absurd hmem List.not_mem_nil
  keys := fun _ hmem => absurd hmem List.not_mem_nil

/-- **The bounds hold** in every state any interleaving of admin requests reaches. -/
theorem withinBounds_of_run {calls : Nat → AdminCall} {db : Database} {steps : List AdminStep}
    {s : AdminState} (hrun : Run (adminExec calls) Undisturbed (State.start db) steps s)
    (hdb : db.WithinBounds) : s.store.WithinBounds :=
  (run_invariant (I := Database.WithinBounds) (M := fun _ => AdminWrite.WithinBounds)
    (C := fun _ _ _ => True) (fun _ _ _ _ h => AdminCall.read_withinBounds h)
    (fun _ _ _ _ hstore hmemo _ h => AdminWrite.WithinBounds.commit hmemo hstore h) hrun hdb
    (Remembered.start _ _) fun _ _ _ _ _ _ => trivial).1

/-! ### Resolved keys -/

theorem orValue_within {lo hi value : Int} {override : Option Int} (hvalue : lo ≤ value ∧ value ≤ hi)
    (hoverride : ∀ v, override = some v → lo ≤ v ∧ v ≤ hi) :
    lo ≤ orValue override value ∧ orValue override value ≤ hi := by
  unfold orValue
  split
  · exact hvalue
  · rename_i v
    split
    · exact hvalue
    · exact hoverride v rfl

/-- The limits of a key are within the bounds, whichever of them are overridden. -/
theorem ApiKey.WithinBounds.resolve {key : ApiKey} {plan : Plan} (hkey : key.WithinBounds)
    (hplan : plan.WithinBounds) : (key.resolve plan).WithinBounds where
  burstCapacity := orValue_within hplan.burstCapacity hkey.burstCapacity
  burstRefillPerSec := orValue_within hplan.burstRefillPerSec hkey.burstRefillPerSec
  sustainedLimit := orValue_within hplan.sustainedLimit hkey.sustainedLimit
  sustainedWindowSeconds := orValue_within hplan.sustainedWindowSeconds hkey.sustainedWindowSeconds
  monthlyQuota := orValue_within hplan.monthlyQuota hkey.monthlyQuota
  quotaSoftPct := hplan.quotaSoftPct

theorem Database.WithinBounds.load {db : Database} {digest : String} {limits : ResolvedKey}
    (hdb : db.WithinBounds) (hload : db.load digest = some limits) : limits.WithinBounds := by
  unfold Database.load at hload
  split at hload
  · cases hload
  · rename_i key hkey
    obtain ⟨plan, hplan, rfl⟩ := Option.map_eq_some_iff.mp hload
    exact (hdb.keys key (List.mem_of_find?_eq_some hkey)).resolve
      (hdb.plans plan (List.mem_of_find?_eq_some hplan))

/-! ### Requests, for the runs exhibited after the theorems -/

def samplePlanRequest : PlanCreateRequest where
  slug := ⟨"free", by decide, by decide, List.all_eq_true.mp (by decide)⟩
  name := ⟨"Free", by decide +kernel, by decide +kernel⟩
  burstCapacity := ⟨2, by decide, by decide⟩
  burstRefillPerSec := ⟨1, by decide, by decide⟩
  sustainedLimit := ⟨3, by decide, by decide⟩
  sustainedWindowSeconds := ⟨10, by decide, by decide⟩
  monthlyQuota := ⟨4, by decide, by decide⟩
  webhookUrl := some ⟨"https://example.com", by decide +kernel, by decide +kernel, by decide +kernel⟩

/-- A plan of one request of burst becomes one of a million; its rate is the highest. -/
def sampleGrowth (i : Nat) : AdminCall :=
  if i = 0 then .createPlan { samplePlanRequest with
    burstCapacity := ⟨1, by decide, by decide⟩
    burstRefillPerSec := ⟨100000, by decide, by decide⟩ }
  else if i = 1 then .issueKey "free" ⟨"sample", by decide +kernel, by decide +kernel⟩ sampleKey "digest"
  else .updatePlan "free" { burstCapacity := some (some ⟨1000000, by decide, by decide⟩) }

end QuotaGuard
