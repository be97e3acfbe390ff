import QuotaGuard.Lib.Latest
import QuotaGuard.Service.Rollup
import Mathlib.Data.String.Basic

/-!
# The usage report

`get_usage_report` lists the months of a key: the current one as Redis has it now, and the months before
as they were persisted. Either source can fail, and is left out then.
-/

namespace QuotaGuard

/-- `source`. -/
inductive UsageSource where
  | live
  | rollup
  deriving DecidableEq

/-- An entry of `months`. -/
structure MonthUsage where
  month : String
  used : Int
  quota : Int
  remaining : Int
  softThresholdCrossed : Bool
  source : UsageSource
  deriving DecidableEq

structure UsageReport where
  keyId : String
  name : String
  plan : String
  months : List MonthUsage
  deriving DecidableEq

/-- `get_current_month`, at a reading of the clock. -/
def getCurrentMonth (now : Time) : String := now.monthStr

def usageQuotaKey (keyId : String) (now : Time) : String :=
  "qg:q:" ++ (keyId ++ ":" ++ getCurrentMonth now)

def usageFlagKey (keyId : String) (now : Time) : String :=
  "qg:f:" ++ (keyId ++ ":" ++ getCurrentMonth now)

/-- `get_live_usage`, up to the quota that the report adds: nothing if there is no counter, and nothing
where a `GET` or `int` raises. -/
def getLiveUsage (keyId : String) (quota : Int) (now : Time) (redis : Keyspace) : Option MonthUsage :=
  match (Redis.get (usageQuotaKey keyId now) now redis).1 with
  | .ok (some value) =>
    match value.asInt, (Redis.get (usageFlagKey keyId now) now redis).1 with
    | some used, .ok flag => some {
        month := getCurrentMonth now
        used
        quota
        remaining := quota - used
        softThresholdCrossed := flag.isSome
        source := .live }
    | _, _ => none
  | .ok none => none
  | .error _ => none

/-- What the report says of a rollup. Whether the threshold was crossed is not tracked there. -/
def Rollup.usage (rollup : Rollup) : MonthUsage where
  month := rollup.month
  used := rollup.used
  quota := rollup.quotaLimit
  remaining := rollup.quotaLimit - rollup.used
  softThresholdCrossed := false
  source := .rollup

def History.rollupsOf (h : History) (apiKeyId : Nat) : List Rollup :=
  h.rollups.filter fun rollup => rollup.apiKeyId = apiKeyId

/-- `get_rollup_history`: one row fewer than there are months, and none if the query raises. -/
def getRollupHistory (failing : Option SqlError) (h : History) (apiKeyId months : Nat) :
    List MonthUsage :=
  match failing with
  | some _ => []
  | none => ((Latest.orderDesc Rollup.month (h.rollupsOf apiKeyId)).take (months - 1)).map Rollup.usage

/-- `get_usage_report`: none for an unknown key. -/
def getUsageReport (db : Database) (failing : Option SqlError) (h : History) (redis : Keyspace)
    (now : Time) (keyId : String) (months : Nat) : Option UsageReport := do
  let key ← db.keyOf keyId
  let plan ← db.planOfKey key
  let live := getLiveUsage keyId (key.quotaLimit plan) now redis
  return {
    keyId := key.keyId.val
    name := key.name
    plan := plan.slug
    months := live.toList ++ getRollupHistory failing h key.id months }

end QuotaGuard
