import QuotaGuard.Lib.Double
import QuotaGuard.Lib.Gregorian
import QuotaGuard.Service.Rollup

/-!
# Decoding and rendering

`decode` names the elements of the tuple the script returned, and `to_out` makes the response and its
rate limit headers of them. A quotient of two integers is the double nearest to it.
-/

namespace QuotaGuard

/-- What decoding and rendering can raise. -/
inductive RenderError where
  | internal
  | value
  | key
  | zeroDivision
  deriving DecidableEq

/-! ### The tuple -/

/-- An element of the array Redis delivers: an integer, or the bytes of a string. -/
inductive RawItem where
  | integer (n : Int)
  | bytes (s : String)
  deriving DecidableEq

namespace RawItem

/-- `_text`. -/
def text : RawItem → String
  | .integer n => toString n
  | .bytes s => s

def toInt : RawItem → Except RenderError Int
  | .integer n => .ok n
  | .bytes s => (int s.toList).elim (.error .value) .ok

def toBool : RawItem → Bool
  | .integer n => n != 0
  | .bytes s => s != ""

end RawItem

/-- What the script calls a layer in its tuple. -/
def Layer.name : Layer → String
  | .burst => "burst"
  | .sustained => "sustained"
  | .quota => "quota"

/-- The tuple on its way: Lua numbers are integers, Lua strings are bytes. -/
def Reply.raw (r : Reply) : List RawItem :=
  [.integer r.allowed, .bytes (r.denyLayer.elim "" Layer.name),
    .integer r.bLimit, .integer r.bRemaining, .integer r.bReset,
    .integer r.sLimit, .integer r.sRemaining, .integer r.sReset,
    .integer r.qLimit, .integer r.qUsed, .integer r.qRemaining, .integer r.qReset,
    .integer r.softCrossed, .bytes r.monthStr, .integer r.retryAfter]

/-- The 15-element tuple, named. -/
structure ScriptResult where
  allowed : Bool
  denyLayer : String
  burstLimit : Int
  burstRemaining : Int
  burstReset : Int
  sustainedLimit : Int
  sustainedRemaining : Int
  sustainedReset : Int
  quotaLimit : Int
  quotaUsed : Int
  quotaRemaining : Int
  quotaReset : Int
  softCrossed : Bool
  month : String
  retryAfter : Int
  deriving DecidableEq

/-- `decode`. -/
def decode : Option (List RawItem) → Except RenderError ScriptResult
  | some [allowed, denyLayer, bLimit, bRemaining, bReset, sLimit, sRemaining, sReset, qLimit, qUsed,
      qRemaining, qReset, softCrossed, month, retryAfter] => do
    return {
      allowed := allowed.toBool
      denyLayer := denyLayer.text
      burstLimit := ← bLimit.toInt
      burstRemaining := ← bRemaining.toInt
      burstReset := ← bReset.toInt
      sustainedLimit := ← sLimit.toInt
      sustainedRemaining := ← sRemaining.toInt
      sustainedReset := ← sReset.toInt
      quotaLimit := ← qLimit.toInt
      quotaUsed := ← qUsed.toInt
      quotaRemaining := ← qRemaining.toInt
      quotaReset := ← qReset.toInt
      softCrossed := softCrossed.toBool
      month := month.text
      retryAfter := ← retryAfter.toInt }
  | _ => .error .internal

/-! ### The policies -/

/-- `remaining / limit`, on integers. -/
def quotient (a b : Int) : Except RenderError ℚ :=
  if b = 0 then .error .zeroDivision else .ok (Double.round ((a : ℚ) / b))

/-- `burst_window_seconds`. -/
def burstWindowSeconds (key : ResolvedKey) : Except RenderError Int := do
  return ⌈← quotient key.burstCapacity key.burstRefillPerSec⌉

/-- `month_window_seconds`; `calendar.monthrange` knows the length of twelve months. -/
def monthWindowSeconds (month : String) : Except RenderError Int :=
  match (month.toList.splitOn '-').map int with
  | [some year, some monthNumber] =>
    if 1 ≤ monthNumber ∧ monthNumber ≤ 12 then
      .ok (Gregorian.monthLength year monthNumber * 86400)
    else .error .value
  | _ => .error .value

/-- The three policies, each a quota and a window in seconds. -/
def policies (key : ResolvedKey) (month : String) : Except RenderError (List (Int × Int)) := do
  let burst ← burstWindowSeconds key
  let monthly ← monthWindowSeconds month
  return [(key.burstCapacity, burst), (key.sustainedLimit, key.sustainedWindowSeconds),
    (key.monthlyQuota, monthly)]

/-- `policy_header`. -/
def policyHeader (key : ResolvedKey) (month : String) : Except RenderError String := do
  let items ← policies key month
  return ", ".intercalate (items.map fun item => toString item.1 ++ ";w=" ++ toString item.2)

/-! ### The layer of the header -/

/-- What one layer reports: limit, remaining and reset. -/
structure LayerOut where
  limit : Int
  remaining : Int
  reset : Int
  deriving DecidableEq

namespace ScriptResult

def layer (result : ScriptResult) : Layer → LayerOut
  | .burst => ⟨result.burstLimit, result.burstRemaining, result.burstReset⟩
  | .sustained => ⟨result.sustainedLimit, result.sustainedRemaining, result.sustainedReset⟩
  | .quota => ⟨result.quotaLimit, result.quotaRemaining, result.quotaReset⟩

/-- `remaining / limit` of a layer. -/
def ratio (result : ScriptResult) (l : Layer) : Except RenderError ℚ :=
  quotient (result.layer l).remaining (result.layer l).limit

end ScriptResult

/-- The value under a layer's own name, in a dictionary with one entry for each layer. -/
def Layer.pick {α : Type} (burst sustained quota : α) : Layer → α
  | .burst => burst
  | .sustained => sustained
  | .quota => quota

namespace Layer

variable {α : Type} (burst sustained quota : α)

@[simp] theorem pick_burst : pick burst sustained quota .burst = burst := rfl

@[simp] theorem pick_sustained : pick burst sustained quota .sustained = sustained := rfl

@[simp] theorem pick_quota : pick burst sustained quota .quota = quota := rfl

end Layer

/-- The layers, in the order the dictionaries have them. -/
def Layer.all : List Layer := [.burst, .sustained, .quota]

/-- Pairs are compared by the first elements that differ. -/
def keyLt (a b : ℚ × Int) : Bool := a.1 < b.1 || (a.1 == b.1 && a.2 < b.2)

/-- `min` with a key: of several that are equal, it keeps the first. -/
def minBy {α : Type} (key : α → ℚ × Int) : List α → Option α
  | [] => none
  | a :: rest => some (rest.foldl (fun best b => if keyLt (key b) (key best) then b else best) a)

/-- `selected_policy`. -/
def selectedPolicy (key : ResolvedKey) (result : ScriptResult) : Except RenderError LayerOut := do
  let burstWindow ← burstWindowSeconds key
  let monthWindow ← monthWindowSeconds result.month
  let windows := Layer.pick burstWindow key.sustainedWindowSeconds monthWindow
  if !result.allowed then
    ((Layer.all.find? fun l => l.name = result.denyLayer).map result.layer).elim (.error .key) .ok
  else
    let burst ← result.ratio .burst
    let sustained ← result.ratio .sustained
    let quota ← result.ratio .quota
    let ratios := Layer.pick burst sustained quota
    ((minBy (fun l => (ratios l, windows l)) Layer.all).map result.layer).elim (.error .value) .ok

/-! ### The response -/

structure QuotaLayerOut extends LayerOut where
  month : String
  used : Int
  softThresholdCrossed : Bool
  deriving DecidableEq

structure LayersOut where
  burst : LayerOut
  sustained : LayerOut
  quota : QuotaLayerOut
  deriving DecidableEq

structure CheckOut where
  allowed : Bool
  reason : Option String
  degraded : Bool
  limit : Option Int
  remaining : Option Int
  reset : Option Int
  retryAfter : Option Int
  headers : List (String × String)
  layers : Option LayersOut
  deriving DecidableEq

/-- The value of `RateLimit`. -/
def rateLimitHeader (out : LayerOut) : String :=
  "limit=" ++ toString out.limit ++ ", remaining=" ++ toString out.remaining ++ ", reset=" ++
    toString out.reset

/-- `to_out`. -/
def toOut (key : ResolvedKey) (result : ScriptResult) : Except RenderError CheckOut := do
  let selected ← selectedPolicy key result
  let policy ← policyHeader key result.month
  let headers := [("RateLimit", rateLimitHeader selected), ("RateLimit-Policy", policy)]
  return {
    allowed := result.allowed
    reason := if result.denyLayer = "" then none else some result.denyLayer
    degraded := false
    limit := some selected.limit
    remaining := some selected.remaining
    reset := some selected.reset
    retryAfter := if !result.allowed then some result.retryAfter else none
    headers :=
      if !result.allowed then headers ++ [("Retry-After", toString result.retryAfter)] else headers
    layers := some {
      burst := result.layer .burst
      sustained := result.layer .sustained
      quota := { result.layer .quota with
        month := result.month
        used := result.quotaUsed
        softThresholdCrossed := result.softCrossed } } }

end QuotaGuard
