import QuotaGuard.Service.Schemas
import Mathlib.Data.Option.Basic

/-!
# Plan CRUD

`create_plan` and `update_plan`, each cut at its commit: what it decides from the rows it reads, and
what it then writes to the rows it finds. A session writes only the columns whose value it has
changed.
-/

namespace QuotaGuard

/-- What the admin services raise; `integrity` is a constraint of the database that they do not
catch. -/
inductive AdminError where
  | validation (message : String)
  | notFound (message : String)
  | conflict (message : String)
  | integrity
  deriving DecidableEq

/-- What a session writes for a column: nothing where the value set is the one it loaded. -/
def changed {α : Type} [DecidableEq α] (old : α) (new : Option α) : Option α :=
  new.filter (· ≠ old)

/-- The primary key of the next row. -/
def nextId (ids : List Nat) : Nat := ids.foldr max 0 + 1

theorem lt_nextId {ids : List Nat} {id : Nat} (h : id ∈ ids) : id < nextId ids := by
  have hle : id ≤ ids.foldr max 0 := by
    induction ids with
    | nil => cases h
    | cons first ids ih =>
        rw [List.foldr_cons]
        rcases List.mem_cons.mp h with rfl | hmem
        · exact le_max_left _ _
        · exact (ih hmem).trans (le_max_right _ _)
  exact Nat.lt_succ_of_le hle

/-- `_require_webhook_for_soft_threshold`: both a missing url and an empty one are falsy. -/
def requireWebhookForSoftThreshold (quotaSoftPct : Int) (webhookUrl : Option String) :
    Except AdminError Unit :=
  if quotaSoftPct > 0 ∧ webhookUrl.getD "" = "" then
    .error (.validation "webhook_url is required when quota_soft_pct is greater than 0.")
  else .ok ()

/-- `Plan(**data.model_dump())`. -/
def PlanCreateRequest.row (data : PlanCreateRequest) (id : Nat) : Plan where
  id
  slug := data.slug.val
  name := data.name.val
  burstCapacity := data.burstCapacity.val
  burstRefillPerSec := data.burstRefillPerSec.val
  sustainedLimit := data.sustainedLimit.val
  sustainedWindowSeconds := data.sustainedWindowSeconds.val
  monthlyQuota := data.monthlyQuota.val
  quotaSoftPct := data.quotaSoftPct.val
  webhookUrl := data.webhookUrl.map WebhookUrl.val
  redisDownPolicy := data.redisDownPolicy.val

/-- The columns an `UPDATE` of `plans` sets. -/
structure PlanColumns where
  name : Option String := none
  burstCapacity : Option Int := none
  burstRefillPerSec : Option Int := none
  sustainedLimit : Option Int := none
  sustainedWindowSeconds : Option Int := none
  monthlyQuota : Option Int := none
  quotaSoftPct : Option Int := none
  webhookUrl : Option (Option String) := none
  redisDownPolicy : Option String := none
  deriving DecidableEq

def PlanColumns.write (columns : PlanColumns) (plan : Plan) : Plan where
  id := plan.id
  slug := plan.slug
  name := columns.name.getD plan.name
  burstCapacity := columns.burstCapacity.getD plan.burstCapacity
  burstRefillPerSec := columns.burstRefillPerSec.getD plan.burstRefillPerSec
  sustainedLimit := columns.sustainedLimit.getD plan.sustainedLimit
  sustainedWindowSeconds := columns.sustainedWindowSeconds.getD plan.sustainedWindowSeconds
  monthlyQuota := columns.monthlyQuota.getD plan.monthlyQuota
  quotaSoftPct := columns.quotaSoftPct.getD plan.quotaSoftPct
  webhookUrl := columns.webhookUrl.getD plan.webhookUrl
  redisDownPolicy := columns.redisDownPolicy.getD plan.redisDownPolicy

namespace PlanUpdateRequest

/-- The fields of the payload, in the order of `model_dump`, with whether they are an explicit null. -/
def nulls (data : PlanUpdateRequest) : List (String × Bool) :=
  [("name", data.name = some none), ("burst_capacity", data.burstCapacity = some none),
    ("burst_refill_per_sec", data.burstRefillPerSec = some none),
    ("sustained_limit", data.sustainedLimit = some none),
    ("sustained_window_seconds", data.sustainedWindowSeconds = some none),
    ("monthly_quota", data.monthlyQuota = some none),
    ("quota_soft_pct", data.quotaSoftPct = some none),
    ("webhook_url", data.webhookUrl = some none),
    ("redis_down_policy", data.redisDownPolicy = some none)]

/-- Only `webhook_url` is nullable. -/
def checkNulls (data : PlanUpdateRequest) : Except AdminError Unit :=
  match data.nulls.find? fun field => field.2 && field.1 ≠ "webhook_url" with
  | some field => .error (.validation (field.1 ++ " cannot be set to null."))
  | none => .ok ()

/-- The url that is set; an explicit null sets the column to null. -/
def url (data : PlanUpdateRequest) : Option (Option String) :=
  data.webhookUrl.map fun url => url.map WebhookUrl.val

/-- `setattr` for each field, and what the flush finds changed. -/
def columns (data : PlanUpdateRequest) (plan : Plan) : PlanColumns where
  name := changed plan.name (data.name.join.map Name.val)
  burstCapacity := changed plan.burstCapacity (data.burstCapacity.join.map Bounded.val)
  burstRefillPerSec := changed plan.burstRefillPerSec (data.burstRefillPerSec.join.map Bounded.val)
  sustainedLimit := changed plan.sustainedLimit (data.sustainedLimit.join.map Bounded.val)
  sustainedWindowSeconds :=
    changed plan.sustainedWindowSeconds (data.sustainedWindowSeconds.join.map Bounded.val)
  monthlyQuota := changed plan.monthlyQuota (data.monthlyQuota.join.map Bounded.val)
  quotaSoftPct := changed plan.quotaSoftPct (data.quotaSoftPct.join.map Bounded.val)
  webhookUrl := changed plan.webhookUrl data.url
  redisDownPolicy := changed plan.redisDownPolicy (data.redisDownPolicy.join.map RedisDownPolicy.val)

end PlanUpdateRequest

namespace Database

def empty : Database where
  plans := []
  keys := []
  planOf := by simp
  planIds := List.nodup_nil
  slugs := List.nodup_nil
  ids := List.nodup_nil
  keyIds := List.nodup_nil
  hashes := List.nodup_nil

/-- `get_plan`. -/
def getPlan (db : Database) (slug : String) : Except AdminError Plan :=
  match db.plans.find? fun plan => plan.slug = slug with
  | some plan => .ok plan
  | none => .error (.notFound ("No plan with slug '" ++ slug ++ "' exists."))

def addPlan (db : Database) (plan : Plan) (hid : plan.id ∉ db.plans.map Plan.id)
    (hslug : plan.slug ∉ db.plans.map Plan.slug) : Database where
  plans := db.plans ++ [plan]
  keys := db.keys
  planOf := by
    intro key hkey
    obtain ⟨owner, howner, hid⟩ := db.planOf key hkey
    exact ⟨owner, List.mem_append_left _ howner, hid⟩
  planIds := Table.nodup_insert db.planIds hid
  slugs := Table.nodup_insert db.slugs hslug
  ids := db.ids
  keyIds := db.keyIds
  hashes := db.hashes

/-- `INSERT INTO plans`: the slug is unique. -/
def insertPlan (db : Database) (data : PlanCreateRequest) : Except AdminError Database :=
  if hslug : data.slug.val ∈ db.plans.map Plan.slug then
    .error (.conflict ("A plan with slug '" ++ data.slug.val ++ "' already exists."))
  else
    .ok (db.addPlan (data.row (nextId (db.plans.map Plan.id)))
      (fun hid => lt_irrefl _ (lt_nextId hid)) hslug)

/-- `UPDATE plans SET … WHERE id = …`. -/
def writePlan (db : Database) (id : Nat) (columns : PlanColumns) : Database :=
  db.updatePlans (fun plan => if plan.id = id then columns.write plan else plan)
    (fun plan => by split <;> rfl) (fun plan => by split <;> rfl)

end Database

end QuotaGuard
