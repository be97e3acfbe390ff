import QuotaGuard.Proof.Inserts
import QuotaGuard.Proof.Limits
import QuotaGuard.Proof.Revocation
import QuotaGuard.Service.Secrets

/-!
# Issued keys

An issued secret is accepted at once by whoever looks it up, and within a TTL by every process that has
cached that no such key exists. No secret of another hash is affected, and what is displayed of a secret
says the first 54 bits of the 256 it has.
-/

namespace QuotaGuard

variable {db db' : Database}

/-! ### Secrets -/

namespace KeyDraw

variable {draw draw' : KeyDraw}

theorem generateSecret_inj : draw.generateSecret = draw'.generateSecret ↔ draw.secret = draw'.secret := by
  constructor
  · intro h
    have hlist := congrArg String.toList h
    rw [toList_generateSecret, toList_generateSecret] at hlist
    exact Base64.encode_injective (List.cons.inj (List.cons.inj (List.cons.inj hlist).2).2).2
  · intro h
    rw [generateSecret, h, generateSecret]

theorem exists_nine {bytes : List UInt8} (hlength : bytes.length = 32) :
    ∃ a b c d e f g h i rest, bytes = a :: b :: c :: d :: e :: f :: g :: h :: i :: rest := by
  rcases bytes with _ | ⟨a, _ | ⟨b, _ | ⟨c, _ | ⟨d, _ | ⟨e, _ | ⟨f, _ | ⟨g, _ | ⟨h, _ | ⟨i, rest⟩⟩⟩⟩⟩⟩⟩⟩⟩
  all_goals first
    | exact ⟨a, b, c, d, e, f, g, h, i, rest, rfl⟩
    | simp at hlength

/-- The six bytes and six bits that the displayed characters are of. -/
theorem keyPrefix_inj : draw.keyPrefix = draw'.keyPrefix ↔
    draw.secret.take 6 = draw'.secret.take 6 ∧
      (draw.secret.getD 6 0).toNat / 4 = (draw'.secret.getD 6 0).toNat / 4 := by
  obtain ⟨a, b, c, d, e, f, g, h, i, rest, hbytes⟩ := exists_nine draw.secret_length
  obtain ⟨a', b', c', d', e', f', g', h', i', rest', hbytes'⟩ := exists_nine draw'.secret_length
  rw [keyPrefix, keyPrefix, toList_generateSecret, toList_generateSecret, hbytes, hbytes']
  simp only [List.take_succ_cons, List.cons.injEq, true_and, Base64.encode_inj_cons (n := 5),
    Base64.encode_inj_cons (n := 1), Base64.encode_inj_head]
  simp [and_assoc]

/-- **What is shown of a secret.** A secret has 46 characters and is of one draw of 32 bytes; the characters
that are stored and listed are those of its first 54 bits, and say nothing of the others. -/
theorem secret_prefix (draw draw' : KeyDraw) :
    draw.generateSecret.length = 46 ∧
      (draw.generateSecret = draw'.generateSecret ↔ draw.secret = draw'.secret) ∧
      (draw.keyPrefix = draw'.keyPrefix ↔ draw.secret.take 6 = draw'.secret.take 6 ∧
        (draw.secret.getD 6 0).toNat / 4 = (draw'.secret.getD 6 0).toNat / 4) :=
  ⟨draw.length_generateSecret, generateSecret_inj, keyPrefix_inj⟩

end KeyDraw

/-! ### At once -/

/-- Only the hash of the issued key is looked up otherwise than before. -/
theorem load_insertKey {issued : Database.IssuedKey} (h : db.insertKey issued = .ok db')
    {digest : String} (hne : digest ≠ issued.keyHash) : db'.load digest = db.load digest := by
  obtain ⟨hplans, id, hkeys⟩ := Database.insertKey_ok h
  have hskip : decide ((issued.row id).keyHash = digest) = false := decide_eq_false (Ne.symm hne)
  rw [Database.load, Database.load, hkeys, hplans, List.find?_append, List.find?_cons, hskip,
    List.find?_nil, Option.or_none]

theorem insertKey_eq_ok_iff (issued : Database.IssuedKey) :
    (∃ db', db.insertKey issued = .ok db') ↔
      issued.keyId ∉ db.keys.map ApiKey.keyId ∧ issued.keyHash ∉ db.keys.map ApiKey.keyHash ∧
        ∃ plan ∈ db.plans, plan.id = issued.planId := by
  unfold Database.insertKey
  split
  · rename_i hfree
    exact iff_of_true ⟨_, rfl⟩ hfree
  · rename_i hfree
    refine iff_of_false ?_ hfree
    rintro ⟨db', h⟩
    cases h

/-- The plan is there, and nobody has drawn the id or a secret of the hash before. -/
structure Free (db : Database) (hash : String → String) (planSlug : String) (draw : KeyDraw) : Prop where
  plan : planSlug ∈ db.plans.map Plan.slug
  keyId : draw.keyId ∉ db.keys.map ApiKey.keyId
  keyHash : hash draw.generateSecret ∉ db.keys.map ApiKey.keyHash

/-- What has become of the database when a key has been issued. -/
structure Issued (db db' : Database) (hash : String → String) (planSlug : String) (name : Name)
    (draw : KeyDraw) : Prop where
  unknown : db.load (hash draw.generateSecret) = none
  known : ∃ plan ∈ db.plans, plan.slug = planSlug ∧ ∃ limits,
    db'.load (hash draw.generateSecret) = some limits ∧ limits.keyId = draw.keyId ∧
      limits.name = name.val ∧ limits.planSlug = planSlug ∧ limits.revoked = false ∧
      ∀ field : LimitField, field.ofResolved limits = field.ofPlan plan
  others : ∀ digest, digest ≠ hash draw.generateSecret → db'.load digest = db.load digest

theorem load_eq_none {digest : String} (h : digest ∉ db.keys.map ApiKey.keyHash) :
    db.load digest = none := by
  have hnone : db.keys.find? (fun key => key.keyHash = digest) = none :=
    Table.find?_eq_none_iff.mpr fun key hkey hsame => h (hsame ▸ List.mem_map_of_mem hkey)
  rw [Database.load, hnone]

theorem issued_of_insertKey {hash : String → String} {name : Name} {draw : KeyDraw} {plan : Plan}
    (hplan : plan ∈ db.plans)
    (h : db.insertKey ⟨draw.keyId, hash draw.generateSecret, name, plan.id⟩ = .ok db') :
    Issued db db' hash plan.slug name draw where
  unknown := load_eq_none ((insertKey_eq_ok_iff _).mp ⟨db', h⟩).2.1
  known := by
    obtain ⟨hplans, id, hkeys⟩ := Database.insertKey_ok h
    have hrows : Tenant.Rows ⟨draw.keyId, hash draw.generateSecret, plan.slug⟩ db'
        (Database.IssuedKey.row ⟨draw.keyId, hash draw.generateSecret, name, plan.id⟩ id) plan :=
      ⟨hkeys ▸ List.mem_append_right _ (List.mem_singleton_self _), hplans ▸ hplan, rfl, rfl, rfl, rfl⟩
    exact ⟨plan, hplan, rfl, _, hrows.load, rfl, rfl, rfl, rfl,
      fun field => LimitField.ofResolved_of_none (by cases field <;> rfl)⟩
  others := fun digest hne => load_insertKey h hne

theorem issueKey_alone {hash : String → String} {name : Name} {draw : KeyDraw} {plan : Plan}
    (hplan : plan ∈ db.plans) :
    (draw.issueKey hash plan.slug name).request.alone db =
      match db.insertKey ⟨draw.keyId, hash draw.generateSecret, name, plan.id⟩ with
      | .ok db' => (.ok (), db')
      | .error e => (.error e, db) := by
  have hread : (draw.issueKey hash plan.slug name).read db =
      .ok (.insertKey ⟨draw.keyId, hash draw.generateSecret, name, plan.id⟩) := by
    rw [KeyDraw.issueKey, AdminCall.read, issueKey, Database.getPlan_slug hplan]
    rfl
  simp only [Transaction.Request.alone, AdminCall.request, hread, AdminWrite.commit]
  cases db.insertKey ⟨draw.keyId, hash draw.generateSecret, name, plan.id⟩ <;> rfl

/-- **An issued secret works at once, and nothing else changes.** Issuing a key succeeds exactly if its
plan is there and neither the id nor the hash of the secret has been drawn before, and changes nothing
otherwise. The secret then resolves to a live key with the limits of the plan, and one of any other hash
to what it has resolved to. -/
theorem issued_key (hash : String → String) (planSlug : String) (name : Name) (draw : KeyDraw)
    (db : Database) :
    (Free db hash planSlug draw → ∃ db',
      (draw.issueKey hash planSlug name).request.alone db = (.ok (), db') ∧
        Issued db db' hash planSlug name draw) ∧
    (¬ Free db hash planSlug draw →
      ∃ e, (draw.issueKey hash planSlug name).request.alone db = (.error e, db)) := by
  by_cases hslug : planSlug ∈ db.plans.map Plan.slug
  · obtain ⟨plan, hplan, rfl⟩ := List.mem_map.mp hslug
    rw [issueKey_alone hplan]
    cases hinsert : db.insertKey ⟨draw.keyId, hash draw.generateSecret, name, plan.id⟩ with
    | ok after =>
        obtain ⟨hid, hhash, -⟩ := (insertKey_eq_ok_iff _).mp ⟨after, hinsert⟩
        exact ⟨fun _ => ⟨after, rfl, issued_of_insertKey hplan hinsert⟩,
          fun hfree => absurd ⟨hslug, hid, hhash⟩ hfree⟩
    | error e =>
        refine ⟨fun hfree => ?_, fun _ => ⟨e, rfl⟩⟩
        obtain ⟨after, hok⟩ := (insertKey_eq_ok_iff ⟨draw.keyId, hash draw.generateSecret, name,
          plan.id⟩).mpr ⟨hfree.keyId, hfree.keyHash, plan, hplan, rfl⟩
        rw [hok] at hinsert
        cases hinsert
  · refine ⟨fun hfree => absurd hfree.plan hslug, fun _ => ?_⟩
    have hnone : db.plans.find? (fun plan => plan.slug = planSlug) = none :=
      Table.find?_eq_none_iff.mpr fun plan hplan hsame => hslug (hsame ▸ List.mem_map_of_mem hplan)
    have hread : (draw.issueKey hash planSlug name).read db =
        .error (.notFound ("No plan with slug '" ++ planSlug ++ "' exists.")) := by
      simp only [KeyDraw.issueKey, AdminCall.read, issueKey, Database.getPlan, hnone]
      rfl
    refine ⟨.notFound ("No plan with slug '" ++ planSlug ++ "' exists."), ?_⟩
    simp only [Transaction.Request.alone, AdminCall.request, hread]

/-! ### In every process -/

/-- A response that has been rendered reports its layers, and a refusal has none. -/
theorem toOut_ne_refused {limits : ResolvedKey} {result : ScriptResult} (reason : String) :
    toOut limits result ≠ .ok (refused reason) := by
  unfold toOut
  cases selectedPolicy limits result with
  | error e => exact fun h => by cases h
  | ok selected =>
      cases policyHeader limits result.month with
      | error e => exact fun h => by cases h
      | ok policy =>
          intro h
          cases congrArg (Except.map CheckOut.layers) h

/-- A key that is found is not refused as unknown. -/
theorem checkRoute_known {payload : CheckRequest} {drawn : Drawn} {limits : ResolvedKey}
    (hfound : drawn.resolved = some limits) (s : System) :
    (checkRoute payload drawn s).1 ≠ .ok (refused "unknown_key") := by
  unfold checkRoute
  rw [hfound]
  dsimp only
  split
  · intro h
    have hsame : refused "revoked_key" = refused "unknown_key" := Except.ok.inj h
    exact absurd (congrArg CheckOut.reason hsame) (by decide)
  · split
    · exact fun h => by cases h
    · rename_i result redis hrun
      intro h
      cases hout : toOut limits result with
      | error e =>
          rw [hout] at h
          cases h
      | ok out =>
          rw [hout] at h
          cases h
          exact toOut_ne_refused _ hout

open KeyCache in
/-- **An issued key is known everywhere.** However the steps of calls and mutations are ordered, and
whichever process issued the key and whoever commits afterwards: a request whose call of `resolve` begins
more than a TTL after the key is there is not refused as unknown, but decided for that key and its plan. -/
theorem issue_takes_effect {ttl : Int} (httl : 0 ≤ ttl) {committed later last : State}
    {past between future : List CacheStep} {t : Nat} {l : Lookup} {snapshot : Snapshot} {tenant : Tenant}
    (hpast : Run (exec ttl) Undisturbed (State.start db) past committed)
    (hbetween : Run (exec ttl) Undisturbed committed between later)
    (hfuture : Run (exec ttl) Undisturbed later future last)
    (hcommits : ∀ step ∈ between ++ future, AdminCommits step)
    (hissued : committed.current.Registers tenant) (hdigest : l.digest = tenant.keyHash)
    (hlate : committed.clock + ttl < later.clock) (hidle : later.resolves t = .idle)
    (hreturned : last.resolves t = .returned l snapshot)
    (expected header : Option String) (payload : CheckRequest) {drawn : Drawn}
    (hdrawn : drawn.resolved = snapshot.resolved) (system : System) :
    (∃ limits, drawn.resolved = some limits ∧ limits.keyId = tenant.keyId ∧
      limits.planSlug = tenant.slug) ∧
    (postCheck expected header payload drawn system).1 ≠ .ok (refused "unknown_key") := by
  obtain ⟨seen, ⟨key, plan, hrows⟩, hload⟩ := load_of_kept (I := (Database.Registers · tenant)) httl hpast
    hbetween hfuture hissued (fun step hmem db hdb hregisters => by
      obtain ⟨call, seen, write, -, hcommit⟩ := hcommits step hmem db hdb
      exact hregisters.commit hcommit) hlate hidle hreturned
  rw [hload, hdigest, hrows.load] at hdrawn
  refine ⟨⟨_, hdrawn, hrows.keyId, hrows.slug⟩, ?_⟩
  unfold postCheck
  cases requireServiceToken expected header with
  | error e => exact fun h => by cases h
  | ok _ => exact checkRoute_known hdrawn system

/-- A call has cached that there is no such key when another process issues it. -/
def sampleIssued : List KeyCache.Action :=
  [.call 0 "digest", .resolve 0, .resolve 0, .resolve 0, .resolve 0, .resolve 0, .resolve 0, .resolve 0,
    .otherCommit sampleDatabase]

open KeyCache in
theorem issue_takes_effect_sample :
    let committed := Run.final (exec 5) (State.start Database.empty) sampleIssued
    let later := Run.final (exec 5) committed [.tick 6]
    let last := Run.final (exec 5) later sampleLateCall
    let found : Snapshot := ⟨1, sampleDatabase.load "digest"⟩
    committed.resolves 0 = .returned ⟨0, "digest"⟩ ⟨0, none⟩ ∧
      last.resolves 1 = .returned ⟨0, "digest"⟩ found ∧
      ∃ limits, found.resolved = some limits ∧ limits.keyId = sampleKey ∧ limits.planSlug = "free" := by
  intro committed later last found
  have hreturned : last.resolves 1 = .returned ⟨0, "digest"⟩ found := by decide +kernel
  have hissued : committed.current.Registers ⟨sampleKey, "digest", "free"⟩ :=
    ⟨_, _, List.mem_singleton_self _, List.mem_singleton_self _, rfl, rfl, rfl, rfl⟩
  have hdrawn : (⟨found.resolved, "a", sampleTime 7, 7⟩ : Drawn).resolved = found.resolved := rfl
  refine ⟨by decide +kernel, hreturned, (issue_takes_effect (by decide)
    (Run.of_events (exec 5) (State.start Database.empty) sampleIssued)
    (Run.of_events (exec 5) committed [.tick 6]) (Run.of_events (exec 5) later sampleLateCall)
    (fun step hmem db hdb => ?_) hissued rfl ?_ rfl hreturned none none sampleCheckRequest hdrawn
    sampleHalf).1⟩
  · have hevents := List.mem_map_of_mem (f := Step.event) hmem
    rw [List.map_append, Run.map_event_trace, Run.map_event_trace] at hevents
    have hnone : ∀ a ∈ [.tick 6] ++ sampleLateCall, Action.commits a = none := by decide
    rw [hnone _ hevents] at hdb
    cases hdb
  · show (0 : ℚ) + (5 : Int) < max 0 6
    norm_num

end QuotaGuard
