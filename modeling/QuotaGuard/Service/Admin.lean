import QuotaGuard.Lib.Transaction
import QuotaGuard.Service.Keys

/-!
# Admin requests

Every admin request runs in a thread and a session of its own: it reads rows and checks them, and then
commits what it has changed. There is no row version and no lock between the two steps.
-/

namespace QuotaGuard

/-- A call of an admin service, with what it draws: the id and the hash of a new key, the time of a
revocation. -/
inductive AdminCall where
  | createPlan (data : PlanCreateRequest)
  | updatePlan (slug : String) (data : PlanUpdateRequest)
  | issueKey (planSlug : String) (name : Name) (keyId : KeyId) (keyHash : String)
  | updateKey (keyId : String) (data : KeyUpdateRequest)
  | revokeKey (keyId : String) (now : Nat)

/-- What a call has pending in its session when it commits. -/
inductive AdminWrite where
  | insertPlan (data : PlanCreateRequest)
  | writePlan (id : Nat) (columns : PlanColumns)
  | insertKey (issued : Database.IssuedKey)
  | writeKey (id : Nat) (columns : KeyColumns)
  deriving DecidableEq

/-- `create_plan`, up to its commit. -/
def createPlan (data : PlanCreateRequest) : Except AdminError AdminWrite := do
  requireWebhookForSoftThreshold data.quotaSoftPct.val (data.webhookUrl.map WebhookUrl.val)
  return .insertPlan data

/-- `update_plan`, up to its commit. -/
def updatePlan (slug : String) (data : PlanUpdateRequest) (db : Database) :
    Except AdminError AdminWrite := do
  let plan ← db.getPlan slug
  data.checkNulls
  let mergedSoftPct := (data.quotaSoftPct.join.map Bounded.val).getD plan.quotaSoftPct
  let mergedWebhook := data.url.getD plan.webhookUrl
  requireWebhookForSoftThreshold mergedSoftPct mergedWebhook
  return .writePlan plan.id (data.columns plan)

/-- `issue_key`, up to its commit. -/
def issueKey (planSlug : String) (name : Name) (keyId : KeyId) (keyHash : String) (db : Database) :
    Except AdminError AdminWrite := do
  let plan ← db.getPlan planSlug
  return .insertKey ⟨keyId, keyHash, name, plan.id⟩

/-- `update_key`, up to its commit. -/
def updateKey (keyId : String) (data : KeyUpdateRequest) (db : Database) :
    Except AdminError AdminWrite := do
  let key ← db.getKey keyId
  if key.revokedAt.isSome then
    throw (.conflict ("Key '" ++ keyId ++ "' is revoked and can no longer be changed."))
  if data = {} then
    throw (.validation "Provide at least one field to set or clear.")
  if data.name = some none then
    throw (.validation "name cannot be set to null.")
  return .writeKey key.id (data.columns key)

/-- `revoke_key`, up to its commit. -/
def revokeKey (keyId : String) (now : Nat) (db : Database) : Except AdminError AdminWrite := do
  let key ← db.getKey keyId
  if key.revokedAt.isSome then
    throw (.conflict ("Key '" ++ keyId ++ "' is already revoked."))
  return .writeKey key.id { revokedAt := some (some now) }

def AdminCall.read (call : AdminCall) (db : Database) : Except AdminError AdminWrite :=
  match call with
  | .createPlan data => QuotaGuard.createPlan data
  | .updatePlan slug data => QuotaGuard.updatePlan slug data db
  | .issueKey planSlug name keyId keyHash => QuotaGuard.issueKey planSlug name keyId keyHash db
  | .updateKey keyId data => QuotaGuard.updateKey keyId data db
  | .revokeKey keyId now => QuotaGuard.revokeKey keyId now db

def AdminWrite.commit (write : AdminWrite) (db : Database) : Except AdminError Database :=
  match write with
  | .insertPlan data => db.insertPlan data
  | .writePlan id columns => .ok (db.writePlan id columns)
  | .insertKey issued => db.insertKey issued
  | .writeKey id columns => .ok (db.writeKey id columns)

/-- The two steps of a call. -/
def AdminCall.request (call : AdminCall) : Transaction.Request Database AdminWrite AdminError where
  read := call.read
  commit := AdminWrite.commit

abbrev AdminState := Transaction.State Nat Database AdminWrite AdminError

abbrev AdminStep := Step AdminState (Transaction.Action Nat) Unit

/-- The steps of any calls, in any order. -/
def adminExec (calls : Nat → AdminCall) :
    Transaction.Action Nat → AdminState → Unit × AdminState :=
  Transaction.exec fun i => (calls i).request

end QuotaGuard
