import QuotaGuard.Proof.Headers
import QuotaGuard.Proof.Limits
import QuotaGuard.Proof.Overcount
import QuotaGuard.Service.Endpoint

/-!
# Every check is answered

A request for a check with the right token gets a decision: what the schemas admit into the database
keeps the script, the decoding and the rendering from raising, and no writer of Redis leaves a name with
a value of another type. The key may have been resolved at any earlier time.
-/

namespace QuotaGuard

variable {db found : Keyspace} {c : Call} {limits : ResolvedKey} {s : System}

/-! ### The types of the names -/

/-- The lock is under none of the names that a check reads. -/
theorem Keyspace.Typed.update_lock (h : db.Typed) (entry : Option Entry) :
    Keyspace.Typed (Function.update db lockKey entry) := by
  intro f rest
  exact (h f rest).congr (Function.update_of_ne (lockKey_ne f rest) _ _)

theorem acquireLock_typed {token : String} {now : Time} {redis : Keyspace} (h : db.Typed)
    (hlock : acquireLock token now db = .ok redis) : redis.Typed := by
  unfold acquireLock at hlock
  split at hlock
  · cases hlock
    exact h.update_lock _
  · cases hlock

theorem releaseLock_typed (decodeResponses : Bool) (token : String) (h : db.Typed) :
    (releaseLock decodeResponses token db).Typed := by
  unfold releaseLock
  split
  · split
    · exact h.update_lock none
    · exact h
  · exact h

theorem restoreFromRollup_typed (registry : Registry) (now : Time) (key : KeyId) (month : String)
    (rollupValue : Int) (h : db.Typed) :
    (restoreFromRollup registry now key.val month rollupValue db).2.Typed := by
  rcases restoreFromRollup_redis registry now key month rollupValue h with hsame | ⟨monthEnd, hrestored⟩
  · rw [hsame]
    exact h
  · rw [hrestored]
    exact QuotaEvent.typed_restored (r := ⟨key, month, rollupValue, monthEnd, now⟩) h

theorem restoreAll_typed (registry : Registry) (now : Time) (keys : Database) (rollups : List Rollup)
    (n : Nat) (h : db.Typed) : (restoreAll registry now keys rollups n db).2.Typed := by
  induction rollups generalizing n db with
  | nil => exact h
  | cons rollup rollups ih =>
      rw [restoreAll]
      split
      · exact ih n h
      · rename_i key hkey
        exact ih _ (restoreFromRollup_typed registry now key.keyId rollup.month rollup.used h)

theorem runPhases_typed (env : Environment) (keys : Database) {w : World} (h : w.redis.Typed) :
    (runPhases env keys w).2.redis.Typed := by
  unfold runPhases
  split
  · exact h
  · split
    · exact h
    · exact restoreAll_typed env.registry env.now keys _ 0 h

theorem run_typed (env : Environment) (keys : Database) {w : World} (h : w.redis.Typed) :
    (run env keys w).2.redis.Typed := by
  unfold run
  split
  · exact h
  · rename_i redis hlock
    have hphases := runPhases_typed env keys (w := { w with redis }) (acquireLock_typed h hlock)
    exact releaseLock_typed env.decodeResponses env.token hphases

/-! ### The response of a decision -/

/-- The headers of a check that shows this layer. -/
def Call.headers (c : Call) (limits : ResolvedKey) (db : Keyspace) (l : Layer) :
    List (String × String) :=
  let shown := [("RateLimit", rateLimitHeader ((c.reply db).result.layer l)),
    ("RateLimit-Policy", policyText (limits.items c.now))]
  if c.admits db then shown else shown ++ [("Retry-After", toString (c.reply db).retryAfter)]

/-- The response says what the check decided, and its reason, and shows one of its layers. -/
structure Decides (c : Call) (limits : ResolvedKey) (db : Keyspace) (out : CheckOut) : Prop where
  allowed : out.allowed = c.admits db
  reason : out.reason = (c.verdict db).denyLayer.map Layer.name
  degraded : out.degraded = false
  retryAfter : out.retryAfter = if c.admits db then none else some (c.reply db).retryAfter
  shown : ∃ l, (c.admits db = false → (c.verdict db).FirstDenying l) ∧
    out.limit = some (limits.quotas l) ∧
    out.remaining = some ((c.reply db).result.layer l).remaining ∧
    out.reset = some ((c.reply db).result.layer l).reset ∧ out.headers = c.headers limits db l
  layers : ∃ layers, out.layers = some layers ∧ layers.burst = (c.reply db).result.layer .burst ∧
    layers.sustained = (c.reply db).result.layer .sustained ∧
    layers.quota.toLayerOut = (c.reply db).result.layer .quota ∧
    layers.quota.month = c.now.monthStr ∧ layers.quota.used = (c.reply db).qUsed ∧
    layers.quota.softThresholdCrossed = ((c.reply db).softCrossed != 0)

theorem Layer.name_ne_empty (l : Layer) : l.name ≠ "" := by
  cases l <;> decide

/-- The name of the layer, or an empty text, and a text that is empty for none. -/
theorem reason_eq (layer : Option Layer) :
    (if layer.elim "" Layer.name = "" then none else some (layer.elim "" Layer.name)) =
      layer.map Layer.name := by
  cases layer with
  | none => rfl
  | some l => exact if_neg l.name_ne_empty

/-- Rendering does not raise, whichever way the check is decided. -/
theorem toOut_decides (hlimits : limits.WithinBounds) (hc : c.MarshalledFor limits) (db : Keyspace) :
    ∃ out, toOut limits (c.reply db).result = .ok out ∧ Decides c limits db out := by
  have hselected : ∃ l, (c.admits db = false → (c.verdict db).FirstDenying l) ∧
      selectedPolicy limits (c.reply db).result = .ok ((c.reply db).result.layer l) := by
    by_cases hadmits : c.admits db = true
    · obtain ⟨l, -, hselected⟩ := selectedPolicy_admitted hlimits hc hadmits
      exact ⟨l, fun hdenied => absurd hadmits (by rw [hdenied]; decide), hselected⟩
    · obtain ⟨l, hfirst, hselected⟩ := selectedPolicy_denied hlimits hadmits
      exact ⟨l, fun _ => hfirst, hselected⟩
  obtain ⟨l, hfirst, hselected⟩ := hselected
  have hlimit := Call.reply_limit hc db l
  rw [toOut, hselected, Call.result_month, policyHeader_eq hlimits, Call.result_allowed,
    Call.result_denyLayer]
  refine ⟨_, rfl, rfl, reason_eq _, rfl, ?_, ⟨l, hfirst, congrArg some hlimit, rfl, rfl, ?_⟩,
    ⟨_, rfl, rfl, rfl, rfl, rfl, rfl, rfl⟩⟩
  · cases c.admits db <;> rfl
  · unfold Call.headers
    cases c.admits db <;> rfl

/-! ### The service token -/

/-- A token is configured, and the header has none or another one. -/
def WrongToken (expected header : Option String) : Prop :=
  ∃ token, expected = some token ∧ token ≠ "" ∧
    ∀ given, header = some given → isAscii given ∧ isAscii token ∧ given ≠ token

/-- A token is configured and one is given, but not both are ASCII, and to compare them raises. The two
may be the same. -/
def Incomparable (expected header : Option String) : Prop :=
  ∃ token given, expected = some token ∧ token ≠ "" ∧ header = some given ∧
    ¬ (isAscii given ∧ isAscii token)

variable {expected header : Option String}

theorem compareDigest_of_ascii {a b : String} (ha : isAscii a) (hb : isAscii b) :
    compareDigest a b = .ok (a == b) := by
  rw [compareDigest, ha, hb]
  rfl

theorem compareDigest_of_not_ascii {a b : String} (h : ¬ (isAscii a ∧ isAscii b)) :
    compareDigest a b = .error .typeError := by
  rw [compareDigest, if_neg fun hascii => h (Bool.and_eq_true_iff.mp hascii)]

theorem filter_token {token : String} (hne : token ≠ "") :
    (some token).filter (fun text => decide (text ≠ "")) = some token := by
  simp [hne]

theorem requireServiceToken_wrong (h : WrongToken expected header) :
    requireServiceToken expected header = .error .unauthorized := by
  obtain ⟨token, rfl, hne, hgiven⟩ := h
  rw [requireServiceToken, filter_token hne]
  cases header with
  | none => rfl
  | some given =>
      obtain ⟨hgivenAscii, htokenAscii, hother⟩ := hgiven given rfl
      simp only [compareDigest_of_ascii hgivenAscii htokenAscii, beq_false_of_ne hother]
      rfl

theorem requireServiceToken_incomparable (h : Incomparable expected header) :
    requireServiceToken expected header = .error .typeError := by
  obtain ⟨token, given, rfl, hne, rfl, hascii⟩ := h
  rw [requireServiceToken, filter_token hne]
  simp only [compareDigest_of_not_ascii hascii]
  rfl

theorem requireServiceToken_right (hright : ¬ WrongToken expected header)
    (hcomparable : ¬ Incomparable expected header) : requireServiceToken expected header = .ok () := by
  cases expected with
  | none => rfl
  | some token =>
      by_cases hne : token = ""
      · rw [hne]
        rfl
      · rw [requireServiceToken, filter_token hne]
        cases header with
        | none => exact absurd ⟨token, rfl, hne, fun given hgiven => by cases hgiven⟩ hright
        | some given =>
            have hascii : isAscii given ∧ isAscii token := by
              by_contra hascii
              exact hcomparable ⟨token, given, rfl, hne, rfl, hascii⟩
            obtain rfl : given = token := by
              by_contra hother
              refine hright ⟨token, rfl, hne, fun other hgiven => ?_⟩
              cases hgiven
              exact ⟨hascii.1, hascii.2, hother⟩
            simp only [compareDigest_of_ascii hascii.1 hascii.2, beq_self_eq_true]
            rfl

/-! ### One request -/

variable {payload : CheckRequest} {drawn : Drawn}

/-- The check that a request asks for. -/
def CheckRequest.run (payload : CheckRequest) (key : ResolvedKey) (drawn : Drawn) : CheckRun where
  limits := key
  resource := payload.resource
  cost := payload.cost.val
  requestId := drawn.requestId
  now := drawn.now
  utcnow := drawn.utcnow
  crashes := false

/-- What a request with the right token is answered, and the state it leaves. -/
inductive Answers (payload : CheckRequest) (drawn : Drawn) (s : System) : CheckOut → System → Prop
  | unknown (hkey : drawn.resolved = none) : Answers payload drawn s (refused "unknown_key") s
  | revoked {key : ResolvedKey} (hkey : drawn.resolved = some key) (hrevoked : key.revoked = true) :
      Answers payload drawn s (refused "revoked_key") s
  | decided {key : ResolvedKey} {out : CheckOut} (hkey : drawn.resolved = some key)
      (hlive : key.revoked = false)
      (hout : Decides (payload.run key drawn).call key s.world.redis out) :
      Answers payload drawn s out (System.check (payload.run key drawn) s).2

theorem CheckRequest.marshalled (payload : CheckRequest) (key : ResolvedKey) (drawn : Drawn) :
    (payload.run key drawn).call.MarshalledFor key where
  key_eq := rfl
  argv_eq := rfl
  cost_nonneg := le_trans (by decide) payload.cost.ge

theorem runCheck_eq (key : ResolvedKey) (payload : CheckRequest) (drawn : Drawn) (htyped : db.Typed) :
    runCheck key payload drawn.requestId drawn.now db =
      (.ok ((payload.run key drawn).call.reply db).result, (payload.run key drawn).call.after db) := by
  have hexec : (payload.call key drawn.requestId drawn.now).exec db = _ :=
    Call.exec_eq (c := (payload.run key drawn).call) htyped
  rw [runCheck, hexec]
  rfl

/-- The flag of the tuple is one or zero. -/
theorem result_softCrossed (c : Call) (db : Keyspace) :
    (c.reply db).result.softCrossed = true ↔ (c.reply db).softCrossed = 1 := by
  change ((c.reply db).softCrossed != 0) = true ↔ _
  rw [Call.reply_softCrossed]
  split <;> decide

/-- What the route leaves is what the check of the service leaves. -/
theorem System.check_eq (key : ResolvedKey) (payload : CheckRequest) (drawn : Drawn)
    (htyped : s.world.redis.Typed) :
    (System.check (payload.run key drawn) s).2 =
      let c := (payload.run key drawn).call
      ⟨s.db, ⟨c.after s.world.redis,
        if (c.reply s.world.redis).result.softCrossed then
          (enqueueSoftWarning s.db key (c.reply s.world.redis).result.month
            (c.reply s.world.redis).result.quotaUsed drawn.utcnow s.world.history).2
        else s.world.history⟩⟩ := by
  rw [System.check, Call.exec_eq htyped]
  simp only [result_softCrossed]
  simp only [CheckRequest.run, and_true]
  rfl

theorem checkRoute_answers (payload : CheckRequest) (htyped : s.world.redis.Typed)
    (hlimits : ∀ key, drawn.resolved = some key → key.WithinBounds) :
    ∃ out, (checkRoute payload drawn s).1 = .ok out ∧
      Answers payload drawn s out (checkRoute payload drawn s).2 := by
  unfold checkRoute
  cases hkey : drawn.resolved with
  | none => exact ⟨_, rfl, .unknown hkey⟩
  | some key =>
      dsimp only
      cases hlive : key.revoked with
      | true => exact ⟨_, rfl, .revoked hkey hlive⟩
      | false =>
          obtain ⟨out, hout, hdecides⟩ :=
            toOut_decides (hlimits key hkey) (payload.marshalled key drawn) s.world.redis
          have hanswers := Answers.decided hkey hlive hdecides
          rw [System.check_eq key payload drawn htyped] at hanswers
          rw [if_neg Bool.false_ne_true, runCheck_eq key payload drawn htyped]
          simp only [hout]
          exact ⟨out, rfl, hanswers⟩

/-! ### What a refusal leaves -/

/-- Nothing is spent: at most a window has been trimmed. -/
structure System.Unspent (s after : System) : Prop where
  db : after.db = s.db
  history : after.world.history = s.world.history
  redis : ∀ name, (∀ rest, name ≠ Family.window.tag ++ rest) →
    after.world.redis name = s.world.redis name

theorem System.Unspent.refl (s : System) : s.Unspent s := ⟨rfl, rfl, fun _ _ => rfl⟩

theorem Verdict.denyLayer_eq_none (v : Verdict) : v.denyLayer = none ↔ v.allowed = true := by
  obtain ⟨burstOk, sustainedOk, quotaOk⟩ := v
  cases burstOk <;> cases sustainedOk <;> cases quotaOk <;> decide

namespace Answers

variable {out : CheckOut} {after : System}

/-- A refusal has a reason, and an admission has none. -/
theorem reason_iff (h : Answers payload drawn s out after) :
    out.allowed = true ↔ out.reason = none := by
  cases h with
  | unknown => exact iff_of_false (by decide) (by decide)
  | revoked => exact iff_of_false (by decide) (by decide)
  | decided hkey hlive hout =>
      rw [hout.allowed, hout.reason, Option.map_eq_none_iff, Verdict.denyLayer_eq_none]
      rfl

theorem unspent (h : Answers payload drawn s out after) (htyped : s.world.redis.Typed)
    (hrefused : out.allowed = false) : s.Unspent after := by
  cases h with
  | unknown => exact .refl s
  | revoked => exact .refl s
  | @decided key out hkey hlive hout =>
      rw [hout.allowed] at hrefused
      have hdenied : ¬ (payload.run key drawn).call.admits s.world.redis = true := by
        rw [hrefused]
        decide
      have hsoft : ¬ ((payload.run key drawn).call.reply s.world.redis).result.softCrossed = true := by
        rw [result_softCrossed, Call.reply_softCrossed, if_neg fun h => hdenied h.1]
        decide
      rw [System.check_eq key payload drawn htyped]
      refine ⟨rfl, if_neg hsoft, fun name hname => ?_⟩
      show Call.after _ s.world.redis name = _
      rw [Call.after_denied hdenied]
      exact Call.trimmed_of_ne (hname _)

end Answers

/-! ### Admin requests -/

namespace Database

variable {db : Database} {key : ApiKey} {plan : Plan}

theorem getPlan_slug (hplan : plan ∈ db.plans) : db.getPlan plan.slug = .ok plan := by
  unfold getPlan
  rw [(Table.find?_eq_some_iff db.slugs).mpr ⟨hplan, rfl⟩]

theorem getKey_keyId (hkey : key ∈ db.keys) : db.getKey key.keyId.val = .ok key := by
  have hfind := keyOf_val hkey
  unfold keyOf at hfind
  rw [getKey, hfind]

theorem getKey_ok {keyId : String} (h : db.getKey keyId = .ok key) : key ∈ db.keys := by
  unfold getKey at h
  split at h
  · cases h
    exact List.mem_of_find?_eq_some ‹_›
  · cases h

theorem write_mem_plans (hplan : plan ∈ db.plans) (columns : PlanColumns) :
    columns.write plan ∈ (db.writePlan plan.id columns).plans :=
  mem_plans_writePlan.mpr ⟨plan, hplan, if_pos rfl⟩

theorem write_mem_keys (hkey : key ∈ db.keys) (columns : KeyColumns) :
    columns.write key ∈ (db.writeKey key.id columns).keys :=
  mem_keys_writeKey.mpr ⟨key, hkey, if_pos rfl⟩

theorem getPlan_writePlan (hplan : plan ∈ db.plans) (columns : PlanColumns) :
    (db.writePlan plan.id columns).getPlan plan.slug = .ok (columns.write plan) :=
  getPlan_slug (write_mem_plans hplan columns)

theorem getKey_writeKey (hkey : key ∈ db.keys) (columns : KeyColumns) :
    (db.writeKey key.id columns).getKey key.keyId.val = .ok (columns.write key) :=
  getKey_keyId (write_mem_keys hkey columns)

end Database

/-- The row of a call that has committed is found again. -/
theorem AdminCall.out_of_commit {call : AdminCall} {db after : Database} {write : AdminWrite}
    (hread : call.read db = .ok write) (hcommit : write.commit db = .ok after) :
    ∃ out, call.out after = some out := by
  cases call with
  | createPlan data =>
      obtain ⟨-, rfl⟩ := createPlan_ok hread
      obtain ⟨⟨id, hplans⟩, -⟩ := Database.insertPlan_ok hcommit
      have hmem : data.row id ∈ after.plans :=
        hplans ▸ List.mem_append_right _ (List.mem_singleton_self _)
      have hfound : after.getPlan data.slug.val = .ok (data.row id) := Database.getPlan_slug hmem
      rw [out, hfound]
      exact ⟨_, rfl⟩
  | updatePlan slug data =>
      obtain ⟨plan, hplan, rfl, rfl, -⟩ := updatePlan_ok hread
      cases hcommit
      rw [out, Database.getPlan_writePlan hplan]
      exact ⟨_, rfl⟩
  | issueKey slug name keyId keyHash =>
      obtain ⟨planId, rfl⟩ := issueKey_ok hread
      obtain ⟨-, id, hkeys⟩ := Database.insertKey_ok hcommit
      have hmem : (Database.IssuedKey.row ⟨keyId, keyHash, name, planId⟩ id) ∈ after.keys :=
        hkeys ▸ List.mem_append_right _ (List.mem_singleton_self _)
      obtain ⟨plan, hplan⟩ := Database.planOfKey_isSome hmem
      have hfound : after.getKey keyId.val = .ok _ := Database.getKey_keyId hmem
      simp only [out, hfound, Except.toOption, bind, Option.bind, hplan]
      exact ⟨_, rfl⟩
  | updateKey keyId data =>
      obtain ⟨key, hkey, rfl, -, rfl⟩ := updateKey_ok hread
      cases hcommit
      obtain ⟨plan, hplan⟩ := Database.planOfKey_isSome (Database.write_mem_keys hkey (data.columns key))
      simp only [out, Database.getKey_writeKey hkey, Except.toOption, bind, Option.bind, hplan]
      exact ⟨_, rfl⟩
  | revokeKey keyId now =>
      obtain ⟨key, hkey, rfl, -, rfl⟩ := revokeKey_ok hread
      cases hcommit
      rw [out, Database.getKey_writeKey hkey]
      exact ⟨_, rfl⟩

/-- An admin request whose token is right is answered, or the services raise. -/
theorem AdminRequest.respond_ne_render (request : AdminRequest) (db : Database) :
    (request.respond db).1 ≠ .error .render := by
  cases request with
  | call call =>
      rw [respond, AdminCall.respond]
      rcases call.request.alone_cases db with ⟨e, halone⟩ | ⟨write, after, hread, hcommit, halone⟩
      · rw [halone]
        simp
      · obtain ⟨out, hout⟩ := AdminCall.out_of_commit hread hcommit
        rw [halone]
        simp [hout]
  | getPlan slug =>
      rw [respond]
      cases db.getPlan slug <;> simp [Except.mapError, bind, Except.bind, pure, Except.pure]
  | getKey keyId =>
      rw [respond]
      cases hkey : db.getKey keyId with
      | error e => simp [Except.mapError, bind, Except.bind]
      | ok key =>
          obtain ⟨plan, hplan⟩ := Database.planOfKey_isSome (Database.getKey_ok hkey)
          simp [Except.mapError, bind, Except.bind, hplan]

/-! ### Every run -/

/-- What holds in every state of the service. -/
structure System.Sound (s : System) : Prop where
  typed : s.world.redis.Typed
  withinBounds : s.db.WithinBounds

namespace System.Sound

/-- Whatever limits a request has been resolved to. -/
theorem checkRoute (h : s.Sound) (payload : CheckRequest) (drawn : Drawn) :
    (checkRoute payload drawn s).2.Sound := by
  unfold QuotaGuard.checkRoute
  cases drawn.resolved with
  | none => exact h
  | some key =>
      dsimp only
      split
      · exact h
      · rw [runCheck_eq key payload drawn h.typed]
        exact ⟨Call.typed_after h.typed, h.withinBounds⟩

theorem exec (tokens : Tokens) (e : ApiEvent) (h : s.Sound) : (tokens.exec e s).2.Sound := by
  cases e with
  | check header payload drawn =>
      show (postCheck tokens.service header payload drawn s).2.Sound
      unfold postCheck
      split
      · exact h
      · exact h.checkRoute payload drawn
  | admin header request =>
      unfold Tokens.exec
      dsimp only
      split
      · exact h
      · refine ⟨h.typed, ?_⟩
        cases request with
        | call call => exact call.serve_withinBounds h.withinBounds
        | getPlan slug => exact h.withinBounds
        | getKey keyId => exact h.withinBounds
  | rollup env => exact ⟨run_typed env s.db h.typed, h.withinBounds⟩

theorem lose {e : ApiEvent} {found : System} (h : s.Sound) (hloss : System.Losing e s found) :
    found.Sound where
  typed := h.typed.of_loss hloss.2.2
  withinBounds := by
    rw [hloss.1]
    exact h.withinBounds

end System.Sound

def System.empty : System := ⟨Database.empty, ⟨Keyspace.empty, History.empty⟩⟩

theorem System.sound_empty : System.empty.Sound := ⟨Keyspace.typed_empty, Database.withinBounds_empty⟩

/-- The key of a request has been looked up in a state the run has passed. -/
def Drawn.ResolvedIn (drawn : Drawn) (passed : List ApiStep) : Prop :=
  ∀ key, drawn.resolved = some key →
    ∃ digest, ∃ step ∈ passed, step.before.db.load digest = some key

/-- **Every check is answered.** In every run of the service, whatever Redis loses between two requests
and however long ago the key of a request was resolved: a check with a wrong token and one whose token
cannot be compared raise and change nothing, and any other one gets a decision. A refusal has a reason and
spends nothing, and an admission has none. -/
theorem checks_answered {tokens : Tokens} {steps : List ApiStep}
    (hrun : Run tokens.exec System.Losing System.empty steps s) {past future : List ApiStep} {step : ApiStep}
    (hsteps : steps = past ++ step :: future) {header : Option String}
    (hevent : step.event = .check header payload drawn) (hfound : drawn.ResolvedIn (past ++ [step])) :
    (WrongToken tokens.service header →
      step.reply = .check (.error .unauthorized) ∧ step.after = step.before) ∧
    (Incomparable tokens.service header →
      step.reply = .check (.error .typeError) ∧ step.after = step.before) ∧
    (¬ WrongToken tokens.service header → ¬ Incomparable tokens.service header →
      ∃ out, step.reply = .check (.ok out) ∧ Answers payload drawn step.before out step.after ∧
        (out.allowed = true ↔ out.reason = none) ∧
        (out.allowed = false → step.before.Unspent step.after)) := by
  have hsound := (hrun.invariant (I := System.Sound) (p := fun _ => True)
    (fun e s found h hloss => h.lose hloss) (fun e s _ h => h.exec tokens e) System.sound_empty
    fun _ _ => trivial).2
  have hlimits : ∀ key, drawn.resolved = some key → key.WithinBounds := by
    intro key hkey
    obtain ⟨digest, seen, hseen, hload⟩ := hfound key hkey
    have hmem : seen ∈ steps := by
      rw [hsteps, List.append_cons]
      exact List.mem_append_left _ hseen
    exact (hsound seen hmem).1.withinBounds.load hload
  have hmem : step ∈ steps := by
    rw [hsteps]
    exact List.mem_append_right _ (List.mem_cons_self ..)
  have hstep := hrun.eq_of hmem
  have htyped := (hsound step hmem).1.typed
  rw [hevent] at hstep
  have hreply : step.reply =
      .check (postCheck tokens.service header payload drawn step.before).1 := congrArg Step.reply hstep
  have hafter : step.after = (postCheck tokens.service header payload drawn step.before).2 :=
    congrArg Step.after hstep
  rw [hreply, hafter, postCheck]
  refine ⟨fun hwrong => ?_, fun hincomparable => ?_, fun hright hcomparable => ?_⟩
  · rw [requireServiceToken_wrong hwrong]
    exact ⟨rfl, rfl⟩
  · rw [requireServiceToken_incomparable hincomparable]
    exact ⟨rfl, rfl⟩
  · rw [requireServiceToken_right hright hcomparable]
    obtain ⟨out, hout, hanswers⟩ := checkRoute_answers payload htyped hlimits
    exact ⟨out, congrArg ApiReply.check hout, hanswers, hanswers.reason_iff, hanswers.unspent htyped⟩

def sampleCheckRequest : CheckRequest where
  apiKey := ⟨"secret", by decide +kernel, by decide +kernel⟩
  resource := sampleResource
  cost := ⟨11, by decide, by decide⟩

def sampleName : Name := ⟨"asked", by decide +kernel, by decide +kernel⟩

/-- A plan and a key of it are made. -/
def sampleRequests : List ApiEvent :=
  [.admin (some "root") (.call (.createPlan samplePlanRequest)),
    .admin (some "root") (.call (.issueKey "free" sampleName sampleKey "digest"))]

theorem checks_answered_sample :
    let tokens : Tokens := ⟨some "gateway", "root"⟩
    let s := Run.final tokens.exec System.empty sampleRequests
    let drawn : Drawn := ⟨s.db.load "digest", "a", sampleTime 7, 7⟩
    let step := fun header => Step.of tokens.exec (.check (some header) sampleCheckRequest drawn) s
    (∃ key, drawn.resolved = some key) ∧
      (∃ out, (step "gateway").reply = .check (.ok out) ∧
        Answers sampleCheckRequest drawn s out (step "gateway").after) ∧
      (step "other").reply = .check (.error .unauthorized) ∧
      (step "é").reply = .check (.error .typeError) := by
  intro tokens s drawn step
  have hrun := fun header => (Run.of_events tokens.exec System.empty
    (sampleRequests ++ [.check (some header) sampleCheckRequest drawn])).mono
      fun e s found (h : found = s) => (h ▸ .refl e s : System.Losing e s found)
  have hsteps : ∀ header, Run.trace tokens.exec System.empty
      (sampleRequests ++ [.check (some header) sampleCheckRequest drawn]) =
      Run.trace tokens.exec System.empty sampleRequests ++ step header :: [] := fun _ => rfl
  have hanswered := fun header => checks_answered (hrun header) (hsteps header) rfl
    fun key hkey => ⟨"digest", step header, by simp, hkey⟩
  have hright : ¬ WrongToken tokens.service (some "gateway") := by
    rintro ⟨token, hconfigured, -, hgiven⟩
    cases hconfigured
    exact (hgiven _ rfl).2.2 rfl
  have hcomparable : ¬ Incomparable tokens.service (some "gateway") := by
    rintro ⟨token, given, hconfigured, -, hheader, hascii⟩
    cases hconfigured
    cases hheader
    exact hascii (by decide +kernel)
  refine ⟨Option.isSome_iff_exists.mp (by decide +kernel), ?_, ?_, ?_⟩
  · obtain ⟨out, hreply, hanswers, -⟩ := (hanswered "gateway").2.2 hright hcomparable
    exact ⟨out, hreply, hanswers⟩
  · refine ((hanswered "other").1 ⟨"gateway", rfl, by decide, fun given hgiven => ?_⟩).1
    cases hgiven
    decide +kernel
  · exact ((hanswered "é").2.1 ⟨"gateway", "é", rfl, by decide, rfl, by decide +kernel⟩).1

end QuotaGuard
