import QuotaGuard.Lua.Civil
import QuotaGuard.Lua.Number
import Mathlib.Data.Rat.Floor

/-!
# check.lua

The admission decision, one script: the burst bucket is refilled, the sliding window is trimmed, the
month counter is read, and only when all three layers allow is anything consumed. The refill computes
with quotients and products that Lua rounds; the other quotients are of two integers, and `math.floor`
and `math.ceil` make an integer of them at once.
-/

namespace QuotaGuard

open Redis Arithmetic

/-- The `KEYS` of the script. The month is appended to the last two inside the script. -/
structure Keys where
  bucket : String
  window : String
  quotaKeyPrefix : String
  flagKeyPrefix : String

/-- The `ARGV` of the script. -/
structure Argv where
  capUtok : Int
  rateUtok : Int
  sustainedLimit : Int
  windowUs : Int
  quotaHard : Int
  quotaSoft : Int
  cost : Int
  requestId : String
  deriving DecidableEq

inductive Layer where
  | burst
  | sustained
  | quota
  deriving DecidableEq, Repr

/-- The 15-element tuple the script returns. -/
structure Reply where
  allowed : Int
  denyLayer : Option Layer
  bLimit : Int
  bRemaining : Int
  bReset : Int
  sLimit : Int
  sRemaining : Int
  sReset : Int
  qLimit : Int
  qUsed : Int
  qRemaining : Int
  qReset : Int
  softCrossed : Int
  monthStr : String
  retryAfter : Int
  deriving DecidableEq

/-- Step 3: the level of the bucket now, and the time it is credited up to. The rate is positive. -/
def refill [Arithmetic] (capUtok rateUtok nowUs : Int) : Option (Int × Int) → Int × Int
  | none => (capUtok, nowUs)
  | some (tokens, ts) =>
    -- TIME can regress across a failover.
    let elapsed := if nowUs - ts < 0 then 0 else nowUs - ts
    if (elapsed : ℚ) ≥ product (quotient capUtok rateUtok) utok then (capUtok, nowUs)
    else
      let add := ⌊product (quotient elapsed utok) rateUtok⌋
      if add > 0 then
        if tokens + add ≥ capUtok then (capUtok, nowUs)
        else (tokens + add, ts + ⌈quotient (product add utok) rateUtok⌉)
      else (tokens, ts)

structure Verdict where
  burstOk : Bool
  sustainedOk : Bool
  quotaOk : Bool
  deriving DecidableEq, Repr

namespace Verdict

/-- Step 6: every layer agrees, or nothing is consumed. -/
def allowed (v : Verdict) : Bool := v.burstOk && v.sustainedOk && v.quotaOk

def denyLayer (v : Verdict) : Option Layer :=
  if v.allowed then none
  else if !v.burstOk then some .burst
  else if !v.sustainedOk then some .sustained
  else some .quota

theorem denyLayer_eq_burst (v : Verdict) : v.denyLayer = some .burst ↔ v.burstOk = false := by
  obtain ⟨burstOk, sustainedOk, quotaOk⟩ := v
  cases burstOk <;> cases sustainedOk <;> cases quotaOk <;> decide

end Verdict

/-- `n2s`: the decimal text of a number. -/
def n2s (value : Int) : String := toString value

def windowMember (nowUs : Int) (requestId : String) : String := n2s nowUs ++ "-" ++ requestId

/-- The seconds a month key outlives its month. -/
abbrev monthGraceS : Int := 3888000

/-- The time to live of a bucket: a full refill and a minute. -/
def bucketTtl (argv : Argv) : Int := ⌈(argv.capUtok : ℚ) / argv.rateUtok⌉ * 1000 + 60000

def windowTtl (argv : Argv) : Int := ⌈(argv.windowUs : ℚ) / 1000⌉ + 60000

/-- The condition under which an increment from `used` to `newUsed` may set the flag. -/
def CrossesSoft (quotaSoft used newUsed : Int) : Prop :=
  quotaSoft > 0 ∧ used < quotaSoft ∧ newUsed ≥ quotaSoft

instance (quotaSoft used newUsed : Int) : Decidable (CrossesSoft quotaSoft used newUsed) :=
  inferInstanceAs (Decidable (_ ∧ _ ∧ _))

/-! ### Step 7, when admitted -/

/-- The bucket and the window are written. -/
def spend (keys : Keys) (argv : Argv) (now : Time) (tokens ts : Int) : Script Unit := do
  hset keys.bucket (tokens - argv.cost * utok) ts
  pexpire keys.bucket (bucketTtl argv)
  zadd keys.window now.us (windowMember now.us argv.requestId)
  pexpire keys.window (windowTtl argv)

/-- The counter is raised; it gets a deadline when this check was its first. -/
def raiseCounter (qkey : String) (argv : Argv) (now : Time) : Script Int := do
  let newUsed ← incrby qkey argv.cost
  if newUsed = argv.cost then
    expireat qkey (now.monthEnd + monthGraceS)
  return newUsed

/-- The flag is set by the first check that takes the counter past the soft threshold. -/
def crossSoft (fkey : String) (argv : Argv) (now : Time) (used newUsed : Int) : Script Int := do
  if CrossesSoft argv.quotaSoft used newUsed then
    let softCrossed ← setnx fkey 1
    if softCrossed = 1 then
      expireat fkey (now.monthEnd + monthGraceS)
    return softCrossed
  return 0

/-- Step 8: the tuple. `tokens`, `count` and `newUsed` are the values after the decision. -/
def report (argv : Argv) (now : Time) (v : Verdict) (tokens count newUsed softCrossed : Int)
    (oldest : Option Int) : Reply :=
  let sReset := match oldest with
    | some score => max 0 ⌈((score + argv.windowUs - now.us : Int) : ℚ) / utok⌉
    | none => 0
  let qReset := now.monthEnd - now.sec
  let burstWait :=
    if v.burstOk then 0 else ⌈((argv.cost * utok - tokens : Int) : ℚ) / argv.rateUtok⌉
  let sustainedWait := if !v.sustainedOk && decide (sReset > burstWait) then sReset else burstWait
  let quotaWait := if !v.quotaOk && decide (qReset > sustainedWait) then qReset else sustainedWait
  { allowed := if v.allowed then 1 else 0
    denyLayer := v.denyLayer
    bLimit := ⌊(argv.capUtok : ℚ) / utok⌋
    bRemaining := ⌊(tokens : ℚ) / utok⌋
    bReset := ⌈((argv.capUtok - tokens : Int) : ℚ) / argv.rateUtok⌉
    sLimit := argv.sustainedLimit
    sRemaining := max 0 (argv.sustainedLimit - count)
    sReset
    qLimit := argv.quotaHard
    qUsed := newUsed
    qRemaining := max 0 (argv.quotaHard - newUsed)
    qReset
    softCrossed
    monthStr := now.monthStr
    retryAfter := if v.allowed then 0 else quotaWait }

/-- The script. -/
def check [Arithmetic] (keys : Keys) (argv : Argv) : Script Reply := do
  let now ← time
  let state ← hmget keys.bucket
  let refilled := refill argv.capUtok argv.rateUtok now.us (bothFields state)
  let tokens := refilled.1
  let ts := refilled.2
  let burstOk := decide (tokens ≥ argv.cost * utok)
  zremrangebyscore keys.window (now.us - argv.windowUs)
  let count ← zcard keys.window
  let sustainedOk := decide (count + 1 ≤ argv.sustainedLimit)
  let used := (tonumber (← get (keys.quotaKeyPrefix ++ now.monthStr))).getD (.int 0)
  let quotaOk := used.fits argv.cost argv.quotaHard
  let v : Verdict := ⟨burstOk, sustainedOk, quotaOk⟩
  if v.allowed then
    spend keys argv now tokens ts
    let newUsed ← raiseCounter (keys.quotaKeyPrefix ++ now.monthStr) argv now
    -- INCRBY has answered, so that the counter was an integer.
    let softCrossed ← crossSoft (keys.flagKeyPrefix ++ now.monthStr) argv now used.reply newUsed
    let oldest ← zrangeFirst keys.window
    return report argv now v (tokens - argv.cost * utok) (count + 1) newUsed softCrossed oldest
  else
    let oldest ← zrangeFirst keys.window
    return { report argv now v tokens count used.reply 0 oldest with
      qRemaining := used.remaining argv.quotaHard }

end QuotaGuard
