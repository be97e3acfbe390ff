import QuotaGuard.Lib.Table
import QuotaGuard.Service.Checker

/-!
# Plans and keys

The rows of `plans` and `api_keys` the check path depends on, the limits of a key with its overrides
applied, and the lookup of a key by the hash of its secret.
-/

namespace QuotaGuard

/-- A row of `plans`. -/
structure Plan where
  id : Nat
  slug : String
  name : String
  burstCapacity : Int
  burstRefillPerSec : Int
  sustainedLimit : Int
  sustainedWindowSeconds : Int
  monthlyQuota : Int
  quotaSoftPct : Int
  webhookUrl : Option String
  redisDownPolicy : String
  deriving DecidableEq

/-- A row of `api_keys`. -/
structure ApiKey where
  id : Nat
  keyId : KeyId
  keyHash : String
  name : String
  planId : Nat
  overrideBurstCapacity : Option Int
  overrideBurstRefillPerSec : Option Int
  overrideSustainedLimit : Option Int
  overrideSustainedWindowSeconds : Option Int
  overrideMonthlyQuota : Option Int
  revokedAt : Option Nat
  deriving DecidableEq

/-- `override or value`: a missing override is falsy, and so is zero. -/
def orValue (override : Option Int) (value : Int) : Int :=
  match override with
  | none => value
  | some v => if v = 0 then value else v

/-- The two tables, with their foreign key and the columns that are unique. -/
structure Database where
  plans : List Plan
  keys : List ApiKey
  planOf : ∀ key ∈ keys, ∃ plan ∈ plans, plan.id = key.planId
  planIds : (plans.map Plan.id).Nodup
  slugs : (plans.map Plan.slug).Nodup
  ids : (keys.map ApiKey.id).Nodup
  keyIds : (keys.map ApiKey.keyId).Nodup
  hashes : (keys.map ApiKey.keyHash).Nodup

/-- `effective_limits`, with the other fields of a resolved key: what a row resolves to. -/
def ApiKey.resolve (key : ApiKey) (plan : Plan) : ResolvedKey where
  keyId := key.keyId
  name := key.name
  planSlug := plan.slug
  revoked := key.revokedAt.isSome
  burstCapacity := orValue key.overrideBurstCapacity plan.burstCapacity
  burstRefillPerSec := orValue key.overrideBurstRefillPerSec plan.burstRefillPerSec
  sustainedLimit := orValue key.overrideSustainedLimit plan.sustainedLimit
  sustainedWindowSeconds := orValue key.overrideSustainedWindowSeconds plan.sustainedWindowSeconds
  monthlyQuota := orValue key.overrideMonthlyQuota plan.monthlyQuota
  quotaSoftPct := plan.quotaSoftPct
  redisDownPolicy := plan.redisDownPolicy

namespace Database

/-- `_load`. The foreign key keeps the second lookup from failing. -/
def load (db : Database) (digest : String) : Option ResolvedKey :=
  match db.keys.find? (fun key => key.keyHash = digest) with
  | none => none
  | some key => (db.plans.find? fun plan => plan.id = key.planId).map key.resolve

variable {db : Database} {key row : ApiKey}

theorem key_eq_of_id (hkey : key ∈ db.keys) (hrow : row ∈ db.keys) (h : row.id = key.id) :
    row = key :=
  List.inj_on_of_nodup_map db.ids hrow hkey h

theorem key_eq_of_keyId (hkey : key ∈ db.keys) (hrow : row ∈ db.keys)
    (h : row.keyId.val = key.keyId.val) : row = key :=
  List.inj_on_of_nodup_map db.keyIds hrow hkey (KeyId.ext h)

/-- An `UPDATE` of `plans` that writes neither the id nor the slug. -/
def updatePlans (db : Database) (f : Plan → Plan) (hid : ∀ plan, (f plan).id = plan.id)
    (hslug : ∀ plan, (f plan).slug = plan.slug) : Database where
  plans := db.plans.map f
  keys := db.keys
  planOf := by
    intro key hkey
    obtain ⟨plan, hplan, hplanId⟩ := db.planOf key hkey
    exact ⟨f plan, List.mem_map_of_mem hplan, (hid plan).trans hplanId⟩
  planIds := by
    rw [Table.map_update hid]
    exact db.planIds
  slugs := by
    rw [Table.map_update hslug]
    exact db.slugs
  ids := db.ids
  keyIds := db.keyIds
  hashes := db.hashes

/-- The columns of `api_keys` that no `UPDATE` writes. -/
structure KeepsIdentity (f : ApiKey → ApiKey) : Prop where
  id : ∀ key, (f key).id = key.id
  keyId : ∀ key, (f key).keyId = key.keyId
  keyHash : ∀ key, (f key).keyHash = key.keyHash
  planId : ∀ key, (f key).planId = key.planId

/-- An `UPDATE` of `api_keys`. -/
def updateKeys (db : Database) (f : ApiKey → ApiKey) (hf : KeepsIdentity f) : Database where
  plans := db.plans
  keys := db.keys.map f
  planOf := by
    intro key hkey
    obtain ⟨before, hbefore, rfl⟩ := List.mem_map.mp hkey
    obtain ⟨plan, hplan, hplanId⟩ := db.planOf before hbefore
    exact ⟨plan, hplan, hplanId.trans (hf.planId before).symm⟩
  planIds := db.planIds
  slugs := db.slugs
  ids := by
    rw [Table.map_update hf.id]
    exact db.ids
  keyIds := by
    rw [Table.map_update hf.keyId]
    exact db.keyIds
  hashes := by
    rw [Table.map_update hf.keyHash]
    exact db.hashes

/-- What `revoke_key` commits for a live key; for an unknown or revoked one it raises before that. -/
def revoke (db : Database) (keyId : KeyId) (now : Nat) : Database :=
  db.updateKeys (fun key => if key.keyId = keyId then { key with revokedAt := some now } else key)
    ⟨fun key => by split <;> rfl, fun key => by split <;> rfl, fun key => by split <;> rfl,
      fun key => by split <;> rfl⟩

end Database

end QuotaGuard
