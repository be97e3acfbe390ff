import QuotaGuard.Service.Plans

/-!
# Api key issue, override and revoke

`issue_key`, `update_key` and `revoke_key`, each cut at its commit. The secret of a new key comes from
the caller as its hash.
-/

namespace QuotaGuard

/-- The columns an `UPDATE` of `api_keys` sets; an override column is set to null by `some none`. -/
structure KeyColumns where
  name : Option String := none
  overrideBurstCapacity : Option (Option Int) := none
  overrideBurstRefillPerSec : Option (Option Int) := none
  overrideSustainedLimit : Option (Option Int) := none
  overrideSustainedWindowSeconds : Option (Option Int) := none
  overrideMonthlyQuota : Option (Option Int) := none
  revokedAt : Option (Option Nat) := none
  deriving DecidableEq

def KeyColumns.write (columns : KeyColumns) (key : ApiKey) : ApiKey where
  id := key.id
  keyId := key.keyId
  keyHash := key.keyHash
  name := columns.name.getD key.name
  planId := key.planId
  overrideBurstCapacity := columns.overrideBurstCapacity.getD key.overrideBurstCapacity
  overrideBurstRefillPerSec := columns.overrideBurstRefillPerSec.getD key.overrideBurstRefillPerSec
  overrideSustainedLimit := columns.overrideSustainedLimit.getD key.overrideSustainedLimit
  overrideSustainedWindowSeconds :=
    columns.overrideSustainedWindowSeconds.getD key.overrideSustainedWindowSeconds
  overrideMonthlyQuota := columns.overrideMonthlyQuota.getD key.overrideMonthlyQuota
  revokedAt := columns.revokedAt.getD key.revokedAt

@[simp] theorem KeyColumns.write_empty (key : ApiKey) : ({} : KeyColumns).write key = key := rfl

namespace KeyUpdateRequest

/-- What is set for an override: a value, or null to clear it. -/
def override {lo hi : Int} (field : Option (Option (Bounded lo hi))) : Option (Option Int) :=
  field.map fun value => value.map Bounded.val

/-- `setattr` for each field, and what the flush finds changed. -/
def columns (data : KeyUpdateRequest) (key : ApiKey) : KeyColumns where
  name := changed key.name (data.name.join.map Name.val)
  overrideBurstCapacity := changed key.overrideBurstCapacity (override data.overrideBurstCapacity)
  overrideBurstRefillPerSec :=
    changed key.overrideBurstRefillPerSec (override data.overrideBurstRefillPerSec)
  overrideSustainedLimit := changed key.overrideSustainedLimit (override data.overrideSustainedLimit)
  overrideSustainedWindowSeconds :=
    changed key.overrideSustainedWindowSeconds (override data.overrideSustainedWindowSeconds)
  overrideMonthlyQuota := changed key.overrideMonthlyQuota (override data.overrideMonthlyQuota)

end KeyUpdateRequest

namespace Database

/-- `get_key`. -/
def getKey (db : Database) (keyId : String) : Except AdminError ApiKey :=
  match db.keys.find? fun key => key.keyId.val = keyId with
  | some key => .ok key
  | none => .error (.notFound ("No key with id '" ++ keyId ++ "' exists."))

/-- The row `issue_key` adds. -/
structure IssuedKey where
  keyId : KeyId
  keyHash : String
  name : Name
  planId : Nat
  deriving DecidableEq

def IssuedKey.row (issued : IssuedKey) (id : Nat) : ApiKey where
  id
  keyId := issued.keyId
  keyHash := issued.keyHash
  name := issued.name.val
  planId := issued.planId
  overrideBurstCapacity := none
  overrideBurstRefillPerSec := none
  overrideSustainedLimit := none
  overrideSustainedWindowSeconds := none
  overrideMonthlyQuota := none
  revokedAt := none

def addKey (db : Database) (key : ApiKey) (hid : key.id ∉ db.keys.map ApiKey.id)
    (hkeyId : key.keyId ∉ db.keys.map ApiKey.keyId) (hhash : key.keyHash ∉ db.keys.map ApiKey.keyHash)
    (hplan : ∃ plan ∈ db.plans, plan.id = key.planId) : Database where
  plans := db.plans
  keys := db.keys ++ [key]
  planOf := by
    intro other hother
    rcases List.mem_append.mp hother with hold | hnew
    · exact db.planOf other hold
    · rw [List.mem_singleton.mp hnew]
      exact hplan
  planIds := db.planIds
  slugs := db.slugs
  ids := Table.nodup_insert db.ids hid
  keyIds := Table.nodup_insert db.keyIds hkeyId
  hashes := Table.nodup_insert db.hashes hhash

/-- `INSERT INTO api_keys`: the key id and the hash are unique, and the plan exists. -/
def insertKey (db : Database) (issued : IssuedKey) : Except AdminError Database :=
  if h : issued.keyId ∉ db.keys.map ApiKey.keyId ∧ issued.keyHash ∉ db.keys.map ApiKey.keyHash ∧
      ∃ plan ∈ db.plans, plan.id = issued.planId then
    .ok (db.addKey (issued.row (nextId (db.keys.map ApiKey.id)))
      (fun hid => lt_irrefl _ (lt_nextId hid)) h.1 h.2.1 h.2.2)
  else .error .integrity

/-- `UPDATE api_keys SET … WHERE id = …`. -/
def writeKey (db : Database) (id : Nat) (columns : KeyColumns) : Database :=
  db.updateKeys (fun key => if key.id = id then columns.write key else key)
    ⟨fun key => by split <;> rfl, fun key => by split <;> rfl, fun key => by split <;> rfl,
      fun key => by split <;> rfl⟩

end Database

end QuotaGuard
