import QuotaGuard.Service.Admin
import QuotaGuard.Service.Rollup

/-!
# The admin routes

What the routes of plans and keys answer. A session reads its row again once it has committed, and a
read answers with the row it finds. The timestamps of a row and the first characters of a secret are
left out, and so are the two lists, which show the rows of every tenant and change none.
-/

namespace QuotaGuard

/-! ### Response models -/

structure PlanOut where
  slug : String
  name : String
  burstCapacity : Int
  burstRefillPerSec : Int
  sustainedLimit : Int
  sustainedWindowSeconds : Int
  monthlyQuota : Int
  quotaSoftPct : Int
  webhookUrl : Option String
  redisDownPolicy : String
  deriving DecidableEq

/-- `PlanOut.model_validate`. -/
def Plan.out (plan : Plan) : PlanOut where
  slug := plan.slug
  name := plan.name
  burstCapacity := plan.burstCapacity
  burstRefillPerSec := plan.burstRefillPerSec
  sustainedLimit := plan.sustainedLimit
  sustainedWindowSeconds := plan.sustainedWindowSeconds
  monthlyQuota := plan.monthlyQuota
  quotaSoftPct := plan.quotaSoftPct
  webhookUrl := plan.webhookUrl
  redisDownPolicy := plan.redisDownPolicy

structure KeyOut where
  keyId : KeyId
  name : String
  plan : String
  overrides : List (String × Int)
  revokedAt : Option Nat
  deriving DecidableEq

structure KeyDetailOut extends KeyOut where
  effectiveLimits : List (String × Int)
  deriving DecidableEq

/-- `overrides`: the columns that are not null. -/
def ApiKey.overrides (key : ApiKey) : List (String × Int) :=
  [("override_burst_capacity", key.overrideBurstCapacity),
    ("override_burst_refill_per_sec", key.overrideBurstRefillPerSec),
    ("override_sustained_limit", key.overrideSustainedLimit),
    ("override_sustained_window_seconds", key.overrideSustainedWindowSeconds),
    ("override_monthly_quota", key.overrideMonthlyQuota)].filterMap
      fun (field, override) => override.map fun value => (field, value)

/-- `effective_limits`. -/
def ApiKey.effectiveLimits (key : ApiKey) (plan : Plan) : List (String × Int) :=
  let limits := key.resolve plan
  [("burst_capacity", limits.burstCapacity), ("burst_refill_per_sec", limits.burstRefillPerSec),
    ("sustained_limit", limits.sustainedLimit),
    ("sustained_window_seconds", limits.sustainedWindowSeconds), ("monthly_quota", limits.monthlyQuota)]

/-- `_key_out`. -/
def ApiKey.out (key : ApiKey) (plan : Plan) : KeyOut where
  keyId := key.keyId
  name := key.name
  plan := plan.slug
  overrides := key.overrides
  revokedAt := key.revokedAt

def ApiKey.detail (key : ApiKey) (plan : Plan) : KeyDetailOut :=
  { key.out plan with effectiveLimits := key.effectiveLimits plan }

/-- What an admin request is answered. -/
inductive AdminOut where
  | plan (out : PlanOut)
  | planDetail (out : PlanOut) (keysCount : Nat)
  | keyIssued (keyId : KeyId) (name plan : String)
  | keyDetail (out : KeyDetailOut)
  | keyRevoked (keyId : KeyId) (revokedAt : Nat)
  deriving DecidableEq

/-- Why a request with the right token is not answered: the services raise, or a row lacks what its
response model asks for. -/
inductive AdminFault where
  | service (e : AdminError)
  | render
  deriving DecidableEq

/-! ### Routes -/

/-- `count_keys`. -/
def Database.countKeys (db : Database) (plan : Plan) : Nat := db.keys.countP fun key => key.planId = plan.id

namespace AdminCall

/-- The row of a call that has committed, as its route shows it. -/
def out (call : AdminCall) (db : Database) : Option AdminOut :=
  match call with
  | .createPlan data => (db.getPlan data.slug.val).toOption.map fun plan => .plan plan.out
  | .updatePlan slug _ => (db.getPlan slug).toOption.map fun plan => .plan plan.out
  | .issueKey _ _ keyId _ => do
    let key ← (db.getKey keyId.val).toOption
    let plan ← db.planOfKey key
    return .keyIssued key.keyId key.name plan.slug
  | .updateKey keyId _ => do
    let key ← (db.getKey keyId).toOption
    let plan ← db.planOfKey key
    return .keyDetail (key.detail plan)
  | .revokeKey keyId _ => do
    let key ← (db.getKey keyId).toOption
    let revokedAt ← key.revokedAt
    return .keyRevoked key.keyId revokedAt

/-- A call alone, and its answer. -/
def respond (call : AdminCall) (db : Database) : Except AdminFault AdminOut × Database :=
  let (done, after) := call.request.alone db
  (match done with
    | .error e => .error (.service e)
    | .ok () => (call.out after).elim (.error .render) .ok, after)

end AdminCall

/-- A call, or a read of a plan or a key. -/
inductive AdminRequest where
  | call (call : AdminCall)
  | getPlan (slug : String)
  | getKey (keyId : String)

/-- A request alone. -/
def AdminRequest.respond (request : AdminRequest) (db : Database) :
    Except AdminFault AdminOut × Database :=
  match request with
  | .call asked => asked.respond db
  | .getPlan slug =>
    (do
      let plan ← (db.getPlan slug).mapError .service
      return .planDetail plan.out (db.countKeys plan), db)
  | .getKey keyId =>
    (do
      let key ← (db.getKey keyId).mapError .service
      (db.planOfKey key).elim (.error .render) fun plan => .ok (.keyDetail (key.detail plan)), db)

end QuotaGuard
