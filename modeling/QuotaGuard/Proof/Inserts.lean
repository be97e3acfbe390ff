import QuotaGuard.Proof.Tenants

/-!
# Plans and tenants are made once

`create_plan` and `issue_key` rely on the constraints of the tables: of any requests that make a plan of
one slug, or a key of one id or hash, at most one returns. What a request has made stays, and nothing else
is ever there.
-/

namespace QuotaGuard

open Transaction

variable {calls : Nat → AdminCall} {db db' : Database} {write : AdminWrite} {s : AdminState}

/-- The tenant has its two rows. -/
def Database.Registers (db : Database) (tenant : Tenant) : Prop :=
  ∃ key plan, tenant.Rows db key plan

/-! ### The columns nothing writes -/

/-- The id, the hash and the plan of each key. -/
def Database.owners (db : Database) : List (KeyId × String × Nat) :=
  db.keys.map fun key => (key.keyId, key.keyHash, key.planId)

/-- The id and the slug of each plan. -/
def Database.slots (db : Database) : List (Nat × String) :=
  db.plans.map fun plan => (plan.id, plan.slug)

theorem Database.slugs_eq (db : Database) : db.plans.map Plan.slug = db.slots.map Prod.snd := by
  rw [slots, List.map_map]
  rfl

theorem Database.registers_iff {tenant : Tenant} :
    db.Registers tenant ↔
      ∃ id, (tenant.keyId, tenant.keyHash, id) ∈ db.owners ∧ (id, tenant.slug) ∈ db.slots := by
  constructor
  · rintro ⟨key, plan, h⟩
    refine ⟨key.planId, List.mem_map.mpr ⟨key, h.mem_keys, ?_⟩, List.mem_map.mpr ⟨plan, h.mem_plans, ?_⟩⟩
    · rw [h.keyId, h.keyHash]
    · rw [h.planId, h.slug]
  · rintro ⟨id, howner, hslot⟩
    obtain ⟨key, hkey, howner⟩ := List.mem_map.mp howner
    obtain ⟨plan, hplan, hslot⟩ := List.mem_map.mp hslot
    simp only [Prod.mk.injEq] at howner hslot
    exact ⟨key, plan, hkey, hplan, howner.1, howner.2.1, hslot.1.trans howner.2.2.symm, hslot.2⟩

theorem Database.writePlan_slots (db : Database) (id : Nat) (columns : PlanColumns) :
    (db.writePlan id columns).slots = db.slots :=
  Table.map_update (fun plan => by split <;> rfl) db.plans

theorem Database.writeKey_owners (db : Database) (id : Nat) (columns : KeyColumns) :
    (db.writeKey id columns).owners = db.owners :=
  Table.map_update (fun key => by split <;> rfl) db.keys

theorem Database.insertPlan_slots {data : PlanCreateRequest} (h : db.insertPlan data = .ok db') :
    ∃ id, id ∉ db.plans.map Plan.id ∧ data.slug.val ∉ db.plans.map Plan.slug ∧
      db'.slots = db.slots ++ [(id, data.slug.val)] ∧ db'.owners = db.owners := by
  obtain ⟨⟨id, hplans⟩, hkeys⟩ := insertPlan_ok h
  have hids := db'.planIds
  have hslugs := db'.slugs
  rw [hplans, List.map_append, List.map_singleton] at hids hslugs
  refine ⟨id, fun hid => ?_, fun hslug => ?_, ?_, ?_⟩
  · exact List.disjoint_of_nodup_append hids hid (List.mem_singleton_self _)
  · exact List.disjoint_of_nodup_append hslugs hslug (List.mem_singleton_self _)
  · rw [slots, hplans, List.map_append]
    rfl
  · rw [owners, hkeys, owners]

theorem Database.insertKey_owners {issued : IssuedKey} (h : db.insertKey issued = .ok db') :
    issued.keyId ∉ db.keys.map ApiKey.keyId ∧ db'.slots = db.slots ∧
      db'.owners = db.owners ++ [(issued.keyId, issued.keyHash, issued.planId)] := by
  obtain ⟨hplans, id, hkeys⟩ := insertKey_ok h
  have hkeyIds := db'.keyIds
  rw [hkeys, List.map_append, List.map_singleton] at hkeyIds
  refine ⟨fun hid => ?_, ?_, ?_⟩
  · exact List.disjoint_of_nodup_append hkeyIds hid (List.mem_singleton_self _)
  · rw [slots, hplans, slots]
  · rw [owners, hkeys, List.map_append]
    rfl

/-! ### Plans -/

def AdminCall.newSlug : AdminCall → Option String
  | .createPlan data => some data.slug.val
  | .updatePlan _ _ => none
  | .issueKey _ _ _ _ => none
  | .updateKey _ _ => none
  | .revokeKey _ _ => none

def AdminWrite.newSlug : AdminWrite → Option String
  | .insertPlan data => some data.slug.val
  | .writePlan _ _ => none
  | .insertKey _ => none
  | .writeKey _ _ => none

theorem AdminCall.read_newSlug {call : AdminCall} (h : call.read db = .ok write) :
    write.newSlug = call.newSlug := by
  cases call with
  | createPlan data =>
      obtain ⟨-, rfl⟩ := createPlan_ok h
      rfl
  | updatePlan slug data =>
      obtain ⟨plan, -, -, rfl, -⟩ := updatePlan_ok h
      rfl
  | issueKey slug name keyId keyHash =>
      obtain ⟨planId, rfl⟩ := issueKey_ok h
      rfl
  | updateKey keyId data =>
      obtain ⟨key, -, -, -, rfl⟩ := updateKey_ok h
      rfl
  | revokeKey keyId now =>
      obtain ⟨key, -, -, -, rfl⟩ := revokeKey_ok h
      rfl

theorem AdminWrite.commit_slugs (h : write.commit db = .ok db') (slug : String) :
    (write.newSlug = some slug → slug ∉ db.plans.map Plan.slug) ∧
      (slug ∈ db'.plans.map Plan.slug ↔ slug ∈ db.plans.map Plan.slug ∨ write.newSlug = some slug) := by
  cases write with
  | insertPlan data =>
      obtain ⟨id, -, hfresh, hslots, -⟩ := Database.insertPlan_slots h
      refine ⟨fun hslug => Option.some.inj hslug ▸ hfresh, ?_⟩
      rw [db'.slugs_eq, hslots, List.map_append, ← db.slugs_eq]
      simp [newSlug, eq_comm]
  | writePlan id columns =>
      cases h
      rw [(db.writePlan id columns).slugs_eq, Database.writePlan_slots, ← db.slugs_eq]
      simp [newSlug]
  | insertKey issued =>
      obtain ⟨hplans, -⟩ := Database.insertKey_ok h
      rw [hplans]
      simp [newSlug]
  | writeKey id columns =>
      cases h
      simp [newSlug, Database.writeKey, Database.updateKeys]

theorem inserts_slugs : Inserts (fun i => (calls i).request)
    (fun _ i write => write.newSlug = (calls i).newSlug)
    (fun db slug => slug ∈ db.plans.map Plan.slug) (fun i => (calls i).newSlug) where
  read := fun _ _ _ h => AdminCall.read_newSlug h
  stable := fun _ _ _ _ _ _ _ _ h => h
  fresh := fun _ _ _ _ slug hwrite h hadds => (AdminWrite.commit_slugs h slug).1 (hwrite.trans hadds)
  shows := fun _ _ _ _ slug hwrite h => by
    rw [(AdminWrite.commit_slugs h slug).2, hwrite]

/-! ### Tenants -/

def AdminCall.newTenant : AdminCall → Option Tenant
  | .issueKey slug _ keyId keyHash => some ⟨keyId, keyHash, slug⟩
  | .createPlan _ => none
  | .updatePlan _ _ => none
  | .updateKey _ _ => none
  | .revokeKey _ _ => none

/-- The tenant that a commit makes: the plan of its key is there, under its slug. -/
def AdminWrite.Makes (db : Database) (tenant : Option Tenant) : AdminWrite → Prop
  | .insertKey issued => ∃ slug, (issued.planId, slug) ∈ db.slots ∧
      tenant = some ⟨issued.keyId, issued.keyHash, slug⟩
  | .insertPlan _ => tenant = none
  | .writePlan _ _ => tenant = none
  | .writeKey _ _ => tenant = none

theorem AdminCall.read_makes {call : AdminCall} (h : call.read db = .ok write) :
    write.Makes db call.newTenant := by
  cases call with
  | createPlan data =>
      obtain ⟨-, rfl⟩ := createPlan_ok h
      rfl
  | updatePlan slug data =>
      obtain ⟨plan, -, -, rfl, -⟩ := updatePlan_ok h
      rfl
  | issueKey slug name keyId keyHash =>
      change QuotaGuard.issueKey slug name keyId keyHash db = .ok write at h
      unfold QuotaGuard.issueKey at h
      cases hplan : db.getPlan slug with
      | error e =>
          rw [hplan] at h
          cases h
      | ok plan =>
          rw [hplan] at h
          cases h
          obtain ⟨hmem, rfl⟩ := Database.mem_of_getPlan hplan
          exact ⟨plan.slug, List.mem_map_of_mem hmem, rfl⟩
  | updateKey keyId data =>
      obtain ⟨key, -, -, -, rfl⟩ := updateKey_ok h
      rfl
  | revokeKey keyId now =>
      obtain ⟨key, -, -, -, rfl⟩ := revokeKey_ok h
      rfl

/-- No slot of a plan is lost. -/
theorem AdminWrite.commit_slots (h : write.commit db = .ok db') : db.slots ⊆ db'.slots := by
  cases write with
  | insertPlan data =>
      obtain ⟨id, -, -, hslots, -⟩ := Database.insertPlan_slots h
      rw [hslots]
      exact List.subset_append_left _ _
  | writePlan id columns =>
      cases h
      rw [Database.writePlan_slots]
      exact List.Subset.refl _
  | insertKey issued =>
      obtain ⟨-, hslots, -⟩ := Database.insertKey_owners h
      rw [hslots]
      exact List.Subset.refl _
  | writeKey id columns =>
      cases h
      exact List.Subset.refl _

/-- No key is lost. -/
theorem AdminWrite.commit_owners (h : write.commit db = .ok db') : db.owners ⊆ db'.owners := by
  cases write with
  | insertPlan data =>
      obtain ⟨id, -, -, -, howners⟩ := Database.insertPlan_slots h
      rw [howners]
      exact List.Subset.refl _
  | writePlan id columns =>
      cases h
      exact List.Subset.refl _
  | insertKey issued =>
      obtain ⟨-, -, howners⟩ := Database.insertKey_owners h
      rw [howners]
      exact List.subset_append_left _ _
  | writeKey id columns =>
      cases h
      rw [Database.writeKey_owners]
      exact List.Subset.refl _

/-- No commit ends a tenant. -/
theorem Database.Registers.commit {tenant : Tenant} (h : db.Registers tenant)
    (hcommit : write.commit db = .ok db') : db'.Registers tenant := by
  obtain ⟨id, howner, hslot⟩ := registers_iff.mp h
  exact registers_iff.mpr ⟨id, AdminWrite.commit_owners hcommit howner,
    AdminWrite.commit_slots hcommit hslot⟩

theorem AdminWrite.Makes.mono {tenant : Option Tenant} (h : write.Makes db tenant)
    (hslots : db.slots ⊆ db'.slots) : write.Makes db' tenant := by
  cases write with
  | insertKey issued =>
      obtain ⟨slug, hslug, htenant⟩ := h
      exact ⟨slug, hslots hslug, htenant⟩
  | insertPlan data => exact h
  | writePlan id columns => exact h
  | writeKey id columns => exact h

theorem Database.slot_unique {id : Nat} {slug slug' : String} (h : (id, slug) ∈ db.slots)
    (h' : (id, slug') ∈ db.slots) : slug = slug' := by
  obtain ⟨plan, hplan, hslot⟩ := List.mem_map.mp h
  obtain ⟨plan', hplan', hslot'⟩ := List.mem_map.mp h'
  simp only [Prod.mk.injEq] at hslot hslot'
  have hsame := List.inj_on_of_nodup_map db.planIds hplan hplan' (hslot.1.trans hslot'.1.symm)
  rw [← hslot.2, ← hslot'.2, hsame]

theorem Database.id_of_owner {keyId : KeyId} {keyHash : String} {id : Nat}
    (h : (keyId, keyHash, id) ∈ db.owners) :
    keyId ∈ db.keys.map ApiKey.keyId ∧ id ∈ db.plans.map Plan.id := by
  obtain ⟨key, hkey, howner⟩ := List.mem_map.mp h
  simp only [Prod.mk.injEq] at howner
  obtain ⟨plan, hplan, hid⟩ := db.planOf key hkey
  exact ⟨howner.1 ▸ List.mem_map_of_mem hkey, howner.2.2 ▸ hid ▸ List.mem_map_of_mem hplan⟩

/-- A commit registers the tenant it makes, and no other one. -/
theorem AdminWrite.Makes.registers {made : Option Tenant} (hmakes : write.Makes db made)
    (h : write.commit db = .ok db') (tenant : Tenant) :
    (made = some tenant → ¬ db.Registers tenant) ∧
      (db'.Registers tenant ↔ db.Registers tenant ∨ made = some tenant) := by
  simp only [Database.registers_iff]
  cases write with
  | insertPlan data =>
      obtain rfl : made = none := hmakes
      obtain ⟨id, hfresh, -, hslots, howners⟩ := Database.insertPlan_slots h
      refine ⟨fun hnone => (by cases hnone), ?_⟩
      rw [hslots, howners, or_iff_left fun hnone => by cases hnone]
      constructor
      · rintro ⟨planId, howner, hslot⟩
        rcases List.mem_append.mp hslot with hold | hnew
        · exact ⟨planId, howner, hold⟩
        · obtain ⟨rfl, -⟩ := Prod.mk.inj (List.mem_singleton.mp hnew)
          exact absurd (Database.id_of_owner howner).2 hfresh
      · rintro ⟨planId, howner, hslot⟩
        exact ⟨planId, howner, List.mem_append_left _ hslot⟩
  | writePlan id columns =>
      cases h
      obtain rfl : made = none := hmakes
      refine ⟨fun hnone => (by cases hnone), ?_⟩
      rw [Database.writePlan_slots, or_iff_left fun hnone => by cases hnone]
      rfl
  | insertKey issued =>
      obtain ⟨slug, hslug, rfl⟩ := hmakes
      obtain ⟨hfresh, hslots, howners⟩ := Database.insertKey_owners h
      rw [hslots, howners]
      refine ⟨?_, ?_, ?_⟩
      · rintro ⟨⟩ ⟨planId, howner, -⟩
        exact hfresh (Database.id_of_owner howner).1
      · rintro ⟨planId, howner, hslot⟩
        rcases List.mem_append.mp howner with hold | hnew
        · exact .inl ⟨planId, hold, hslot⟩
        · obtain ⟨hkeyId, hrest⟩ := Prod.mk.inj (List.mem_singleton.mp hnew)
          obtain ⟨hkeyHash, rfl⟩ := Prod.mk.inj hrest
          obtain ⟨keyId, keyHash, slug'⟩ := tenant
          obtain rfl := Database.slot_unique hslug hslot
          exact .inr (by rw [← hkeyId, ← hkeyHash])
      · rintro (⟨planId, howner, hslot⟩ | hmade)
        · exact ⟨planId, List.mem_append_left _ howner, hslot⟩
        · obtain rfl := Option.some.inj hmade
          exact ⟨issued.planId, List.mem_append_right _ (List.mem_singleton_self _), hslug⟩
  | writeKey id columns =>
      cases h
      obtain rfl : made = none := hmakes
      refine ⟨fun hnone => (by cases hnone), ?_⟩
      rw [Database.writeKey_owners, or_iff_left fun hnone => by cases hnone]
      rfl

theorem inserts_tenants : Inserts (fun i => (calls i).request)
    (fun db i write => write.Makes db (calls i).newTenant) Database.Registers
    (fun i => (calls i).newTenant) where
  read := fun _ _ _ h => AdminCall.read_makes h
  stable := fun _ _ _ _ _ _ _ h hmakes => hmakes.mono (AdminWrite.commit_slots h)
  fresh := fun _ _ _ _ tenant hmakes h hadds => (hmakes.registers h tenant).1 hadds
  shows := fun _ _ _ _ tenant hmakes h => (hmakes.registers h tenant).2

/-! ### Every run -/

/-- What has been made of plans and tenants, and by whom. -/
structure MadeOnce (calls : Nat → AdminCall) (db : Database) (s : AdminState) : Prop where
  plans : ∀ slug, slug ∈ s.store.plans.map Plan.slug ↔ slug ∈ db.plans.map Plan.slug ∨
    ∃ i data, calls i = .createPlan data ∧ s.phase i = .returned ∧ data.slug.val = slug
  plan_once : ∀ i j data data', calls i = .createPlan data → calls j = .createPlan data' →
    s.phase i = .returned → s.phase j = .returned → data.slug.val = data'.slug.val → i = j
  tenants : ∀ tenant, s.store.Registers tenant ↔ db.Registers tenant ∨
    ∃ i name, calls i = .issueKey tenant.slug name tenant.keyId tenant.keyHash ∧ s.phase i = .returned
  key_once : ∀ i j slug slug' name name' keyId keyId' keyHash keyHash',
    calls i = .issueKey slug name keyId keyHash → calls j = .issueKey slug' name' keyId' keyHash' →
    s.phase i = .returned → s.phase j = .returned → keyId = keyId' ∨ keyHash = keyHash' → i = j

theorem AdminCall.newSlug_eq_some {call : AdminCall} {slug : String} :
    call.newSlug = some slug ↔ ∃ data, call = .createPlan data ∧ data.slug.val = slug := by
  cases call <;> simp [newSlug]

theorem AdminCall.newTenant_eq_some {call : AdminCall} {tenant : Tenant} :
    call.newTenant = some tenant ↔
      ∃ name, call = .issueKey tenant.slug name tenant.keyId tenant.keyHash := by
  obtain ⟨keyId, keyHash, slug⟩ := tenant
  cases call with
  | issueKey slug' name keyId' keyHash' =>
      simp only [newTenant, Option.some.injEq, Tenant.mk.injEq, AdminCall.issueKey.injEq]
      exact ⟨fun ⟨hid, hhash, hslug⟩ => ⟨name, hslug, rfl, hid, hhash⟩,
        fun ⟨_, hslug, _, hid, hhash⟩ => ⟨hid, hhash, hslug⟩⟩
  | createPlan data => simp [newTenant]
  | updatePlan slug data => simp [newTenant]
  | updateKey keyId data => simp [newTenant]
  | revokeKey keyId now => simp [newTenant]

/-- Two tenants of one database that share the id or the hash of their key are one. -/
theorem Database.Registers.unique {tenant tenant' : Tenant} (h : db.Registers tenant)
    (h' : db.Registers tenant')
    (hshared : tenant.keyId = tenant'.keyId ∨ tenant.keyHash = tenant'.keyHash) : tenant = tenant' := by
  obtain ⟨key, plan, hrows⟩ := h
  obtain ⟨key', plan', hrows'⟩ := h'
  obtain rfl : key = key' := by
    rcases hshared with hkeyId | hkeyHash
    · apply List.inj_on_of_nodup_map db.keyIds hrows.mem_keys hrows'.mem_keys
      rw [hrows.keyId, hrows'.keyId, hkeyId]
    · apply List.inj_on_of_nodup_map db.hashes hrows.mem_keys hrows'.mem_keys
      rw [hrows.keyHash, hrows'.keyHash, hkeyHash]
  obtain rfl : plan = plan' := List.inj_on_of_nodup_map db.planIds hrows.mem_plans hrows'.mem_plans
    (hrows.planId.trans hrows'.planId.symm)
  obtain ⟨keyId, keyHash, slug⟩ := tenant
  obtain ⟨keyId', keyHash', slug'⟩ := tenant'
  have hkeyId : keyId = keyId' := hrows.keyId.symm.trans hrows'.keyId
  have hkeyHash : keyHash = keyHash' := hrows.keyHash.symm.trans hrows'.keyHash
  have hslug : slug = slug' := hrows.slug.symm.trans hrows'.slug
  rw [hkeyId, hkeyHash, hslug]

/-- **Plans and tenants are made once.** However the steps of any admin requests interleave: the plans and
the tenants in the end are those of the start and those of the requests that have returned, and no two of
these have made a plan of one slug, or a key of one id or one hash. -/
theorem made_once {steps : List AdminStep}
    (hrun : Run (adminExec calls) Undisturbed (State.start db) steps s) : MadeOnce calls db s := by
  have hplans := added_of_run inserts_slugs hrun
  have htenants := added_of_run inserts_tenants hrun
  refine ⟨fun slug => ?_, fun i j data data' hi hj hreturned hreturned' hslug => ?_, fun tenant => ?_, ?_⟩
  · rw [hplans.shows]
    simp only [AdminCall.newSlug_eq_some]
    exact or_congr_right ⟨fun ⟨i, hreturned, data, hcall, hslug⟩ => ⟨i, data, hcall, hreturned, hslug⟩,
      fun ⟨i, data, hcall, hreturned, hslug⟩ => ⟨i, hreturned, data, hcall, hslug⟩⟩
  · exact hplans.once i j data.slug.val hreturned hreturned' (by rw [hi]; rfl) (by rw [hj, hslug]; rfl)
  · rw [htenants.shows]
    simp only [AdminCall.newTenant_eq_some]
    exact or_congr_right ⟨fun ⟨i, hreturned, name, hcall⟩ => ⟨i, name, hcall, hreturned⟩,
      fun ⟨i, name, hcall, hreturned⟩ => ⟨i, hreturned, name, hcall⟩⟩
  · intro i j slug slug' name name' keyId keyId' keyHash keyHash' hi hj hreturned hreturned' hshared
    have hadds : (calls i).newTenant = some ⟨keyId, keyHash, slug⟩ := by rw [hi]; rfl
    have hadds' : (calls j).newTenant = some ⟨keyId', keyHash', slug'⟩ := by rw [hj]; rfl
    have hsame := ((htenants.shows _).mpr (.inr ⟨i, hreturned, hadds⟩)).unique
      ((htenants.shows _).mpr (.inr ⟨j, hreturned', hadds'⟩)) hshared
    exact htenants.once i j _ hreturned hreturned' hadds (hsame ▸ hadds')

/-- Two requests make a plan of one slug, and a third one issues a key of it. -/
def sampleMakers (i : Nat) : AdminCall :=
  if i = 0 then .createPlan samplePlanRequest
  else if i = 1 then .createPlan { samplePlanRequest with
    name := ⟨"Other", by decide +kernel, by decide +kernel⟩ }
  else .issueKey "free" ⟨"made", by decide +kernel, by decide +kernel⟩ sampleKey "digest"

theorem made_once_sample :
    let s := Run.final (adminExec sampleMakers) (State.start Database.empty)
      [.read 0, .read 1, .commit 1, .commit 0, .read 2, .commit 2]
    s.phase 1 = .returned ∧ s.phase 0 ≠ .returned ∧ s.store.Registers ⟨sampleKey, "digest", "free"⟩ := by
  intro s
  have hmade : MadeOnce sampleMakers Database.empty s := made_once (Run.of_events _ _ _)
  have hfirst : s.phase 1 = .returned := by decide +kernel
  refine ⟨hfirst, fun hsecond => ?_, (hmade.tenants _).mpr (.inr ⟨2, _, rfl, by decide +kernel⟩)⟩
  cases hmade.plan_once 1 0 _ _ rfl rfl hfirst hsecond rfl

end QuotaGuard
