import QuotaGuard.Proof.Endpoint
import QuotaGuard.Proof.Isolation

/-!
# Tenants

A tenant is a key and the plan it is on. Its requests are the checks with its secret and the admin
requests that name its key or its plan, and what they are answered depends on the tenant's two rows and
on the Redis names of its key. No other request touches these, so none can be told from the answers. The
one exception is the number of keys on the plan, which the keys of others count in.
-/

namespace QuotaGuard

structure Tenant where
  keyId : KeyId
  keyHash : String
  slug : String

/-- The columns without the primary keys, which depend on what else is in the tables. -/
def ApiKey.shown (key : ApiKey) : ApiKey := { key with id := 0, planId := 0 }

def Plan.shown (plan : Plan) : Plan := { plan with id := 0 }

/-- What is read off the other columns only. -/
theorem ApiKey.of_shown {α : Type} {f : ApiKey → α} (hf : ∀ key, f key.shown = f key) {key key' : ApiKey}
    (h : key'.shown = key.shown) : f key' = f key := by
  rw [← hf key', h, hf]

theorem Plan.of_shown {α : Type} {f : Plan → α} (hf : ∀ plan, f plan.shown = f plan)
    {plan plan' : Plan} (h : plan'.shown = plan.shown) : f plan' = f plan := by
  rw [← hf plan', h, hf]

namespace Tenant

variable (tenant : Tenant)

/-- The calls that name the key or the plan of a tenant. -/
def named : AdminCall → Bool
  | .createPlan _ => false
  | .updatePlan slug _ => slug = tenant.slug
  | .issueKey _ _ _ _ => false
  | .updateKey keyId _ => keyId = tenant.keyId.val
  | .revokeKey keyId _ => keyId = tenant.keyId.val

def asks : AdminRequest → Bool
  | .call call => tenant.named call
  | .getPlan slug => slug = tenant.slug
  | .getKey keyId => keyId = tenant.keyId.val

def owns (hash : String → String) : ApiRequest → Bool
  | .check _ payload _ _ _ => hash payload.apiKey.val = tenant.keyHash
  | .admin _ request => tenant.asks request

/-- The rows of a tenant. -/
structure Rows (db : Database) (key : ApiKey) (plan : Plan) : Prop where
  mem_keys : key ∈ db.keys
  mem_plans : plan ∈ db.plans
  keyId : key.keyId = tenant.keyId
  keyHash : key.keyHash = tenant.keyHash
  planId : plan.id = key.planId
  slug : plan.slug = tenant.slug

/-- Two states of the service show a tenant the same. -/
structure Agrees (s t : System) : Prop where
  rows : ∃ key plan key' plan', tenant.Rows s.db key plan ∧ tenant.Rows t.db key' plan' ∧
    key'.shown = key.shown ∧ plan'.shown = plan.shown
  redis : AgreesOn tenant.keyId t.world.redis s.world.redis
  typed : s.world.redis.Typed
  typed' : t.world.redis.Typed

end Tenant

/-- An answer but for `keys_count`. -/
def AdminOut.uncounted : AdminOut → AdminOut
  | .planDetail out _ => .plan out
  | out => out

def ApiReply.uncounted : ApiReply → ApiReply
  | .admin out => .admin (out.map AdminOut.uncounted)
  | reply => reply

variable {tenant : Tenant} {tokens : Tokens} {hash : String → String} {db db' : Database} {key : ApiKey}
  {plan : Plan} {s t : System} {call : AdminCall}

/-! ### What a tenant is told by the rows -/

namespace Tenant.Rows

theorem getKey (h : tenant.Rows db key plan) : db.getKey tenant.keyId.val = .ok key := by
  rw [← h.keyId, Database.getKey_keyId h.mem_keys]

theorem getPlan (h : tenant.Rows db key plan) : db.getPlan tenant.slug = .ok plan := by
  rw [← h.slug, Database.getPlan_slug h.mem_plans]

theorem planOfKey (h : tenant.Rows db key plan) : db.planOfKey key = some plan :=
  (Table.find?_eq_some_iff db.planIds).mpr ⟨h.mem_plans, h.planId⟩

theorem load (h : tenant.Rows db key plan) : db.load tenant.keyHash = some (key.resolve plan) := by
  rw [← h.keyHash]
  exact Database.load_keyHash h.mem_keys h.planOfKey

/-- Another secret resolves to another key. -/
theorem load_ne (h : tenant.Rows db key plan) {digest : String} (hne : digest ≠ tenant.keyHash)
    {limits : ResolvedKey} (hload : db.load digest = some limits) : limits.keyId ≠ tenant.keyId := by
  unfold Database.load at hload
  split at hload
  · cases hload
  · rename_i row hrow
    obtain ⟨owner, -, rfl⟩ := Option.map_eq_some_iff.mp hload
    obtain ⟨hmem, hhash⟩ := Table.find?_spec hrow
    intro hsame
    have hkeyId : row.keyId.val = key.keyId.val := by rw [h.keyId, ← hsame]; rfl
    have hrows := Database.key_eq_of_keyId h.mem_keys hmem hkeyId
    rw [hrows, h.keyHash] at hhash
    exact hne hhash.symm

end Tenant.Rows

theorem resolve_shown {key' : ApiKey} {plan' : Plan} (hkey : key'.shown = key.shown)
    (hplan : plan'.shown = plan.shown) : key'.resolve plan' = key.resolve plan := by
  have hkeys : key'.resolve plan' = key.resolve plan' :=
    ApiKey.of_shown (f := fun row => row.resolve plan') (fun _ => rfl) hkey
  rw [hkeys]
  exact Plan.of_shown (fun _ => rfl) hplan

theorem detail_shown {key' : ApiKey} {plan' : Plan} (hkey : key'.shown = key.shown)
    (hplan : plan'.shown = plan.shown) : key'.detail plan' = key.detail plan := by
  have hkeys : key'.detail plan' = key.detail plan' :=
    ApiKey.of_shown (f := fun row => row.detail plan') (fun _ => rfl) hkey
  rw [hkeys]
  exact Plan.of_shown (fun _ => rfl) hplan

/-! ### Admin requests of the tenant -/

namespace Tenant.Rows

theorem writeKey (h : tenant.Rows db key plan) (columns : KeyColumns) :
    tenant.Rows (db.writeKey key.id columns) (columns.write key) plan where
  mem_keys := Database.write_mem_keys h.mem_keys columns
  mem_plans := h.mem_plans
  keyId := h.keyId
  keyHash := h.keyHash
  planId := h.planId
  slug := h.slug

theorem writePlan (h : tenant.Rows db key plan) (columns : PlanColumns) :
    tenant.Rows (db.writePlan plan.id columns) key (columns.write plan) where
  mem_keys := h.mem_keys
  mem_plans := Database.write_mem_plans h.mem_plans columns
  keyId := h.keyId
  keyHash := h.keyHash
  planId := h.planId
  slug := h.slug

end Tenant.Rows

/-- Two calls raise the same, or write the same columns of the same row of the tenant. -/
inductive SameWrite (key key' : ApiKey) (plan plan' : Plan) :
    Except AdminError AdminWrite → Except AdminError AdminWrite → Prop
  | raises (e : AdminError) : SameWrite key key' plan plan' (.error e) (.error e)
  | writesKey (columns : KeyColumns) :
      SameWrite key key' plan plan' (.ok (.writeKey key.id columns)) (.ok (.writeKey key'.id columns))
  | writesPlan (columns : PlanColumns) :
      SameWrite key key' plan plan' (.ok (.writePlan plan.id columns))
        (.ok (.writePlan plan'.id columns))

section Own

variable {key' : ApiKey} {plan' : Plan}

theorem updateKey_same (h : tenant.Rows db key plan) (h' : tenant.Rows db' key' plan')
    (hkey : key'.shown = key.shown) (data : KeyUpdateRequest) :
    SameWrite key key' plan plan' (updateKey tenant.keyId.val data db)
      (updateKey tenant.keyId.val data db') := by
  have hrevoked : key'.revokedAt = key.revokedAt := ApiKey.of_shown (fun _ => rfl) hkey
  have hcolumns : data.columns key' = data.columns key := ApiKey.of_shown (fun _ => rfl) hkey
  simp only [updateKey, h.getKey, h'.getKey, bind, Except.bind, hrevoked, hcolumns]
  split
  · exact .raises _
  · split
    · exact .raises _
    · split
      · exact .raises _
      · exact .writesKey _

theorem revokeKey_same (h : tenant.Rows db key plan) (h' : tenant.Rows db' key' plan')
    (hkey : key'.shown = key.shown) (now : Nat) :
    SameWrite key key' plan plan' (revokeKey tenant.keyId.val now db)
      (revokeKey tenant.keyId.val now db') := by
  have hrevoked : key'.revokedAt = key.revokedAt := ApiKey.of_shown (fun _ => rfl) hkey
  simp only [revokeKey, h.getKey, h'.getKey, bind, Except.bind, hrevoked]
  split
  · exact .raises _
  · exact .writesKey _

theorem updatePlan_same (h : tenant.Rows db key plan) (h' : tenant.Rows db' key' plan')
    (hplan : plan'.shown = plan.shown) (data : PlanUpdateRequest) :
    SameWrite key key' plan plan' (updatePlan tenant.slug data db)
      (updatePlan tenant.slug data db') := by
  have hsoft : plan'.quotaSoftPct = plan.quotaSoftPct := Plan.of_shown (fun _ => rfl) hplan
  have hwebhook : plan'.webhookUrl = plan.webhookUrl := Plan.of_shown (fun _ => rfl) hplan
  have hcolumns : data.columns plan' = data.columns plan := Plan.of_shown (fun _ => rfl) hplan
  simp only [updatePlan, h.getPlan, h'.getPlan, bind, Except.bind, hsoft, hwebhook, hcolumns]
  cases data.checkNulls with
  | error e => exact .raises e
  | ok _ =>
      dsimp only
      cases requireWebhookForSoftThreshold ((data.quotaSoftPct.join.map Bounded.val).getD
          plan.quotaSoftPct) (data.url.getD plan.webhookUrl) with
      | error e => exact .raises e
      | ok _ => exact .writesPlan _

theorem Tenant.read_same (h : tenant.Rows db key plan) (h' : tenant.Rows db' key' plan')
    (hkey : key'.shown = key.shown) (hplan : plan'.shown = plan.shown) (hnamed : tenant.named call) :
    SameWrite key key' plan plan' (call.read db) (call.read db') := by
  cases call with
  | createPlan data => cases hnamed
  | updatePlan slug data =>
      obtain rfl : slug = tenant.slug := of_decide_eq_true hnamed
      exact updatePlan_same h h' hplan data
  | issueKey slug name keyId keyHash => cases hnamed
  | updateKey keyId data =>
      obtain rfl : keyId = tenant.keyId.val := of_decide_eq_true hnamed
      exact updateKey_same h h' hkey data
  | revokeKey keyId now =>
      obtain rfl : keyId = tenant.keyId.val := of_decide_eq_true hnamed
      exact revokeKey_same h h' hkey now

/-- A call of the tenant ends alike, and leaves rows that show the same. -/
theorem Tenant.alone_same (h : tenant.Rows db key plan) (h' : tenant.Rows db' key' plan')
    (hkey : key'.shown = key.shown) (hplan : plan'.shown = plan.shown) (hnamed : tenant.named call) :
    (call.request.alone db).1 = (call.request.alone db').1 ∧
      ∃ row owner row' owner', tenant.Rows (call.request.alone db).2 row owner ∧
        tenant.Rows (call.request.alone db').2 row' owner' ∧ row'.shown = row.shown ∧
        owner'.shown = owner.shown := by
  have hsame := Tenant.read_same h h' hkey hplan hnamed
  simp only [Transaction.Request.alone, AdminCall.request]
  generalize call.read db = read at hsame ⊢
  generalize call.read db' = read' at hsame ⊢
  cases hsame with
  | raises e => exact ⟨rfl, key, plan, key', plan', h, h', hkey, hplan⟩
  | writesKey columns =>
      have hwritten : (columns.write key').shown = (columns.write key).shown :=
        ApiKey.of_shown (f := fun row => (columns.write row).shown) (fun _ => rfl) hkey
      exact ⟨rfl, _, _, _, _, h.writeKey columns, h'.writeKey columns, hwritten, hplan⟩
  | writesPlan columns =>
      have hwritten : (columns.write plan').shown = (columns.write plan).shown :=
        Plan.of_shown (f := fun owner => (columns.write owner).shown) (fun _ => rfl) hplan
      exact ⟨rfl, _, _, _, _, h.writePlan columns, h'.writePlan columns, hkey, hwritten⟩

/-- Rows that show the same are shown the same. -/
theorem Tenant.out_same (h : tenant.Rows db key plan) (h' : tenant.Rows db' key' plan')
    (hkey : key'.shown = key.shown) (hplan : plan'.shown = plan.shown) (hnamed : tenant.named call) :
    call.out db = call.out db' := by
  cases call with
  | createPlan data => cases hnamed
  | updatePlan slug data =>
      obtain rfl : slug = tenant.slug := of_decide_eq_true hnamed
      have hout : plan'.out = plan.out := Plan.of_shown (fun _ => rfl) hplan
      simp only [AdminCall.out, h.getPlan, h'.getPlan, Except.toOption, Option.map_some, hout]
  | issueKey slug name keyId keyHash => cases hnamed
  | updateKey keyId data =>
      obtain rfl : keyId = tenant.keyId.val := of_decide_eq_true hnamed
      simp only [AdminCall.out, h.getKey, h'.getKey, Except.toOption, bind, Option.bind, h.planOfKey,
        h'.planOfKey, detail_shown hkey hplan]
  | revokeKey keyId now =>
      obtain rfl : keyId = tenant.keyId.val := of_decide_eq_true hnamed
      have hrevoked : key'.revokedAt = key.revokedAt := ApiKey.of_shown (fun _ => rfl) hkey
      have hkeyId : key'.keyId = key.keyId := h'.keyId.trans h.keyId.symm
      simp only [AdminCall.out, h.getKey, h'.getKey, Except.toOption, bind, Option.bind, hrevoked,
        hkeyId]

/-- An admin request of the tenant is answered alike but for the count of keys. -/
theorem Tenant.respond_same {request : AdminRequest} (h : tenant.Rows db key plan)
    (h' : tenant.Rows db' key' plan') (hkey : key'.shown = key.shown) (hplan : plan'.shown = plan.shown)
    (hown : tenant.asks request) :
    (request.respond db).1.map AdminOut.uncounted = (request.respond db').1.map AdminOut.uncounted ∧
      ∃ row owner row' owner', tenant.Rows (request.respond db).2 row owner ∧
        tenant.Rows (request.respond db').2 row' owner' ∧ row'.shown = row.shown ∧
        owner'.shown = owner.shown := by
  cases request with
  | call call =>
      obtain ⟨hdone, row, owner, row', owner', hrows, hrows', hrow, howner⟩ :=
        Tenant.alone_same h h' hkey hplan hown
      refine ⟨?_, row, owner, row', owner', hrows, hrows', hrow, howner⟩
      simp only [AdminRequest.respond, AdminCall.respond, hdone,
        Tenant.out_same hrows hrows' hrow howner hown]
  | getPlan slug =>
      obtain rfl : slug = tenant.slug := of_decide_eq_true hown
      have hout : plan'.out = plan.out := Plan.of_shown (fun _ => rfl) hplan
      refine ⟨?_, key, plan, key', plan', h, h', hkey, hplan⟩
      simp only [AdminRequest.respond, h.getPlan, h'.getPlan, Except.mapError, bind, Except.bind,
        Except.map, pure, Except.pure, AdminOut.uncounted, hout]
  | getKey keyId =>
      obtain rfl : keyId = tenant.keyId.val := of_decide_eq_true hown
      refine ⟨?_, key, plan, key', plan', h, h', hkey, hplan⟩
      simp only [AdminRequest.respond, h.getKey, h'.getKey, Except.mapError, bind, Except.bind,
        h.planOfKey, h'.planOfKey, Option.elim, detail_shown hkey hplan]

end Own

/-! ### Admin requests of others -/

namespace Tenant.Rows

/-- What keeps the two rows keeps the tenant's. -/
theorem kept (h : tenant.Rows db key plan) (hkey : key ∈ db'.keys) (hplan : plan ∈ db'.plans) :
    tenant.Rows db' key plan where
  mem_keys := hkey
  mem_plans := hplan
  keyId := h.keyId
  keyHash := h.keyHash
  planId := h.planId
  slug := h.slug

theorem keeps_writeKey (h : tenant.Rows db key plan) {row : ApiKey} (hrow : row ∈ db.keys)
    (hne : row.keyId.val ≠ tenant.keyId.val) (columns : KeyColumns) :
    tenant.Rows (db.writeKey row.id columns) key plan := by
  refine h.kept (Database.mem_keys_writeKey.mpr ⟨key, h.mem_keys, if_neg fun hid => ?_⟩) h.mem_plans
  rw [Database.key_eq_of_id hrow h.mem_keys hid] at h
  exact hne (congrArg KeyId.val h.keyId)

theorem keeps_writePlan (h : tenant.Rows db key plan) {other : Plan} (hother : other ∈ db.plans)
    (hne : other.slug ≠ tenant.slug) (columns : PlanColumns) :
    tenant.Rows (db.writePlan other.id columns) key plan := by
  refine h.kept h.mem_keys (Database.mem_plans_writePlan.mpr ⟨plan, h.mem_plans, if_neg fun hid => ?_⟩)
  rw [List.inj_on_of_nodup_map db.planIds h.mem_plans hother hid] at h
  exact hne h.slug

theorem keeps (h : tenant.Rows db key plan) (hother : tenant.named call = false) {write : AdminWrite}
    (hread : call.read db = .ok write) (hcommit : write.commit db = .ok db') :
    tenant.Rows db' key plan := by
  cases call with
  | createPlan data =>
      obtain ⟨-, rfl⟩ := createPlan_ok hread
      obtain ⟨⟨id, hplans⟩, hkeys⟩ := Database.insertPlan_ok hcommit
      exact h.kept (hkeys ▸ h.mem_keys) (hplans ▸ List.mem_append_left _ h.mem_plans)
  | updatePlan slug data =>
      obtain ⟨other, hmem, hslug, rfl, -⟩ := updatePlan_ok hread
      cases hcommit
      exact h.keeps_writePlan hmem (hslug ▸ of_decide_eq_false hother) _
  | issueKey slug name keyId keyHash =>
      obtain ⟨planId, rfl⟩ := issueKey_ok hread
      obtain ⟨hplans, id, hkeys⟩ := Database.insertKey_ok hcommit
      exact h.kept (hkeys ▸ List.mem_append_left _ h.mem_keys) (hplans ▸ h.mem_plans)
  | updateKey keyId data =>
      obtain ⟨row, hmem, hid, -, rfl⟩ := updateKey_ok hread
      cases hcommit
      exact h.keeps_writeKey hmem (hid ▸ of_decide_eq_false hother) _
  | revokeKey keyId now =>
      obtain ⟨row, hmem, hid, -, rfl⟩ := revokeKey_ok hread
      cases hcommit
      exact h.keeps_writeKey hmem (hid ▸ of_decide_eq_false hother) _

theorem keeps_alone (h : tenant.Rows db key plan) (hother : tenant.named call = false) :
    tenant.Rows (call.request.alone db).2 key plan := by
  rcases call.request.alone_cases db with ⟨e, halone⟩ | ⟨write, db', hread, hcommit, halone⟩
  · rw [halone]
    exact h
  · rw [halone]
    exact h.keeps hother hread hcommit

theorem keeps_respond (h : tenant.Rows db key plan) {request : AdminRequest}
    (hother : tenant.asks request = false) : tenant.Rows (request.respond db).2 key plan := by
  cases request with
  | call call => exact h.keeps_alone hother
  | getPlan slug => exact h
  | getKey keyId => exact h

end Tenant.Rows

/-! ### Checks -/

variable {payload : CheckRequest} {drawn : Drawn} {limits : ResolvedKey}

theorem check_same (payload : CheckRequest) (drawn : Drawn) (h : tenant.Agrees s t)
    (hfound : drawn.resolved = some limits) (hkeyId : limits.keyId = tenant.keyId) :
    (checkRoute payload drawn s).1 = (checkRoute payload drawn t).1 ∧
      tenant.Agrees (checkRoute payload drawn s).2 (checkRoute payload drawn t).2 := by
  unfold checkRoute
  rw [hfound]
  dsimp only
  split
  · exact ⟨rfl, h⟩
  · have hredis : AgreesOn (payload.run limits drawn).call.key t.world.redis s.world.redis := by
      have hkey : (payload.run limits drawn).call.key = tenant.keyId := hkeyId
      rw [hkey]
      exact h.redis
    rw [runCheck_eq limits payload drawn h.typed, runCheck_eq limits payload drawn h.typed',
      hredis.sameView.reply_eq]
    exact ⟨rfl, h.rows, hkeyId ▸ hredis.check, Call.typed_after h.typed, Call.typed_after h.typed'⟩

theorem check_other (h : tenant.Agrees s t)
    (hother : ∀ limits, drawn.resolved = some limits → limits.keyId ≠ tenant.keyId) :
    tenant.Agrees (checkRoute payload drawn s).2 t := by
  unfold checkRoute
  cases hfound : drawn.resolved with
  | none => exact h
  | some limits =>
      dsimp only
      split
      · exact h
      · rw [runCheck_eq limits payload drawn h.typed]
        refine ⟨h.rows, fun f rest => ?_, Call.typed_after h.typed, h.typed'⟩
        change Call.after _ s.world.redis (f.name tenant.keyId rest) = _
        rw [Call.after_name fun hown => hother limits hfound hown.1.symm]
        exact h.redis f rest

/-! ### Every run -/

theorem Tenant.Agrees.right (h : tenant.Agrees s t) : tenant.Agrees t t := by
  obtain ⟨-, -, key', plan', -, hrows', -, -⟩ := h.rows
  exact ⟨⟨key', plan', key', plan', hrows', hrows', rfl, rfl⟩, fun _ _ => rfl, h.typed', h.typed'⟩

/-- A request of the tenant is answered alike, and leaves states that show the tenant the same. -/
theorem serve_same {request : ApiRequest} (h : tenant.Agrees s t) (hown : tenant.owns hash request) :
    (tokens.serve hash request s).1.uncounted = (tokens.serve hash request t).1.uncounted ∧
      tenant.Agrees (tokens.serve hash request s).2 (tokens.serve hash request t).2 := by
  obtain ⟨key, plan, key', plan', hrows, hrows', hkey, hplan⟩ := h.rows
  cases request with
  | check header payload requestId now utcnow =>
      have hdigest : hash payload.apiKey.val = tenant.keyHash := of_decide_eq_true hown
      simp only [Tokens.serve, ApiRequest.event, Tokens.exec, postCheck, hdigest, hrows.load,
        hrows'.load, resolve_shown hkey hplan]
      cases requireServiceToken tokens.service header with
      | error e => exact ⟨rfl, h⟩
      | ok _ =>
          obtain ⟨hreply, hafter⟩ := check_same payload
            ⟨some (key.resolve plan), requestId, now, utcnow⟩ h rfl hrows.keyId
          exact ⟨congrArg ApiReply.check hreply, hafter⟩
  | admin header request =>
      simp only [Tokens.serve, ApiRequest.event, Tokens.exec]
      cases requireAdmin tokens.admin header with
      | error e => exact ⟨rfl, h⟩
      | ok _ =>
          obtain ⟨hout, hafter⟩ := Tenant.respond_same hrows hrows' hkey hplan hown
          exact ⟨congrArg ApiReply.admin hout, hafter, h.redis, h.typed, h.typed'⟩

theorem serve_other {request : ApiRequest} (h : tenant.Agrees s t)
    (hother : tenant.owns hash request = false) :
    tenant.Agrees (tokens.serve hash request s).2 t := by
  obtain ⟨key, plan, key', plan', hrows, hrows', hkey, hplan⟩ := h.rows
  cases request with
  | check header payload requestId now utcnow =>
      have hdigest : hash payload.apiKey.val ≠ tenant.keyHash := of_decide_eq_false hother
      simp only [Tokens.serve, ApiRequest.event, Tokens.exec, postCheck]
      cases requireServiceToken tokens.service header with
      | error e => exact h
      | ok _ => exact check_other h fun limits hload => hrows.load_ne hdigest hload
  | admin header request =>
      simp only [Tokens.serve, ApiRequest.event, Tokens.exec]
      cases requireAdmin tokens.admin header with
      | error e => exact h
      | ok _ =>
          exact ⟨⟨key, plan, key', plan', hrows.keeps_respond hother, hrows', hkey, hplan⟩, h.redis,
            h.typed, h.typed'⟩

/-- **Tenants are isolated.** Two services that show a tenant the same, and get the same requests of it
in the same order, answer these alike but for the number of keys on its plan, whatever else they are
asked: whichever keys are issued, checked, changed and revoked, and whichever plans are made, changed and
read. -/
theorem tenants_isolated {steps steps' : List (Step System ApiRequest ApiReply)} {last last' : System}
    (hrun : Run (tokens.serve hash) Undisturbed s steps last)
    (hrun' : Run (tokens.serve hash) Undisturbed t steps' last') (hagree : tenant.Agrees s t)
    (hrequests : (steps.filter fun step => tenant.owns hash step.event).map Step.event =
      (steps'.filter fun step => tenant.owns hash step.event).map Step.event) :
    (steps.filter fun step => tenant.owns hash step.event).map (fun step => step.reply.uncounted) =
      (steps'.filter fun step => tenant.owns hash step.event).map fun step => step.reply.uncounted :=
  Run.noninterference
    (fun request s => ((tokens.serve hash request s).1.uncounted, (tokens.serve hash request s).2))
    (R := tenant.Agrees) (fun _ _ _ h hown => serve_same h hown)
    (fun _ _ _ h hother => serve_other h hother) hrun hrun' hagree hagree.right hrequests

/-- The plan and the key of `sampleRequests`. The tenant checks its key; another key of the plan is
issued, which is counted when the tenant reads its plan, and in no other answer. -/
theorem tenants_isolated_sample :
    let tokens : Tokens := ⟨none, "root"⟩
    let hash : String → String := fun _ => "digest"
    let s := Run.final tokens.exec System.empty sampleRequests
    let asked : Fin 86400 → ApiRequest := fun i =>
      .check none sampleCheckRequest "asked" (sampleTime i) i.val
    let read : ApiRequest := .admin (some "root") (.getPlan "free")
    let between : ApiRequest :=
      .admin (some "root") (.call (.issueKey "free" sampleName sampleOtherKey "other"))
    let first := Step.of (tokens.serve hash) (asked 11) s
    let issued := Step.of (tokens.serve hash) between first.after
    let second := Step.of (tokens.serve hash) read issued.after
    let third := Step.of (tokens.serve hash) (asked 12) second.after
    let second' := Step.of (tokens.serve hash) read first.after
    let third' := Step.of (tokens.serve hash) (asked 12) second'.after
    issued.after.db.countKeys (samplePlanRequest.row 1) = 2 ∧
      first.after.db.countKeys (samplePlanRequest.row 1) = 1 ∧
      second.reply.uncounted = second'.reply.uncounted ∧
      third.reply.uncounted = third'.reply.uncounted := by
  intro tokens hash s asked read between first issued second third second' third'
  let tenant : Tenant := ⟨sampleKey, "digest", "free"⟩
  have hrun : Run (tokens.serve hash) Undisturbed s [first, issued, second, third] third.after :=
    .cons rfl (.cons rfl (.cons rfl (.cons rfl (.nil _))))
  have hrun' : Run (tokens.serve hash) Undisturbed s [first, second', third'] third'.after :=
    .cons rfl (.cons rfl (.cons rfl (.nil _)))
  let row : Database.IssuedKey := ⟨sampleKey, "digest", sampleName, 1⟩
  have hrows : tenant.Rows s.db (row.row 1) (samplePlanRequest.row 1) :=
    ⟨by decide +kernel, by decide +kernel, rfl, rfl, rfl, rfl⟩
  have htyped : s.world.redis.Typed := ((System.sound_empty.exec tokens _).exec tokens _).typed
  have hagree : tenant.Agrees s s :=
    ⟨⟨_, _, _, _, hrows, hrows, rfl, rfl⟩, fun _ _ => rfl, htyped, htyped⟩
  have hreplies := tenants_isolated hrun hrun' hagree rfl
  obtain ⟨hsecond, hrest⟩ := List.cons.inj (List.cons.inj hreplies).2
  exact ⟨by decide +kernel, by decide +kernel, hsecond, (List.cons.inj hrest).1⟩

end QuotaGuard
