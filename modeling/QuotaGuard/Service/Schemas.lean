import QuotaGuard.Service.Models

/-!
# What the admin requests may say

The request models of plans and keys. Each constrained field is a type of its own, so that a request
whose bounds are violated cannot be built. Where a field may be left out or be an explicit null, an
outer `none` says that it is unset and an inner one that it is null.
-/

namespace QuotaGuard

/-- `Annotated[int, Field(ge=lo, le=hi)]`. -/
structure Bounded (lo hi : Int) where
  val : Int
  ge : lo ≤ val
  le : val ≤ hi
  deriving DecidableEq

abbrev BurstCapacity := Bounded 1 1000000

abbrev BurstRefillPerSec := Bounded 1 100000

abbrev SustainedLimit := Bounded 1 1000000

abbrev SustainedWindowSeconds := Bounded 1 86400

abbrev MonthlyQuota := Bounded 1 1000000000000

abbrev QuotaSoftPct := Bounded 0 100

/-- `Field(min_length=1, max_length=128)`. -/
structure Name where
  val : String
  minLength : 1 ≤ val.length
  maxLength : val.length ≤ 128
  deriving DecidableEq

/-- The characters of `SLUG_PATTERN`. -/
def isSlugChar (c : Char) : Bool := decide ('a' ≤ c ∧ c ≤ 'z') || c.isDigit || c = '-'

structure Slug where
  val : String
  pattern : 1 ≤ val.length ∧ val.length ≤ 64 ∧ ∀ c ∈ val.toList, isSlugChar c
  deriving DecidableEq

/-- `WebhookUrl`, with `_validate_webhook_url`. -/
structure WebhookUrl where
  val : String
  minLength : 1 ≤ val.length
  maxLength : val.length ≤ 2048
  scheme : "http://".toList <+: val.toList ∨ "https://".toList <+: val.toList
  deriving DecidableEq

inductive RedisDownPolicy where
  | failOpen
  | failClosed
  deriving DecidableEq

def RedisDownPolicy.val : RedisDownPolicy → String
  | .failOpen => "fail_open"
  | .failClosed => "fail_closed"

structure PlanCreateRequest where
  slug : Slug
  name : Name
  burstCapacity : BurstCapacity
  burstRefillPerSec : BurstRefillPerSec
  sustainedLimit : SustainedLimit
  sustainedWindowSeconds : SustainedWindowSeconds
  monthlyQuota : MonthlyQuota
  quotaSoftPct : QuotaSoftPct := ⟨0, by decide, by decide⟩
  webhookUrl : Option WebhookUrl := none
  redisDownPolicy : RedisDownPolicy := .failOpen
  deriving DecidableEq

/-- Any subset of the mutable fields; the slug is immutable. -/
structure PlanUpdateRequest where
  name : Option (Option Name) := none
  burstCapacity : Option (Option BurstCapacity) := none
  burstRefillPerSec : Option (Option BurstRefillPerSec) := none
  sustainedLimit : Option (Option SustainedLimit) := none
  sustainedWindowSeconds : Option (Option SustainedWindowSeconds) := none
  monthlyQuota : Option (Option MonthlyQuota) := none
  quotaSoftPct : Option (Option QuotaSoftPct) := none
  webhookUrl : Option (Option WebhookUrl) := none
  redisDownPolicy : Option (Option RedisDownPolicy) := none

/-- Rename and set or clear overrides; an explicit null clears one override. -/
structure KeyUpdateRequest where
  name : Option (Option Name) := none
  overrideBurstCapacity : Option (Option BurstCapacity) := none
  overrideBurstRefillPerSec : Option (Option BurstRefillPerSec) := none
  overrideSustainedLimit : Option (Option SustainedLimit) := none
  overrideSustainedWindowSeconds : Option (Option SustainedWindowSeconds) := none
  overrideMonthlyQuota : Option (Option MonthlyQuota) := none
  deriving DecidableEq

end QuotaGuard
