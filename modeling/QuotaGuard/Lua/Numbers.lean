import QuotaGuard.Lib.Logged
import QuotaGuard.Lua.Check

/-!
# The numbers of check.lua

The script once more, expression by expression, with a log of every number it computes. What Redis
answers is given: the clock, the bucket, the cardinality, the counter before and after, the flag and
the oldest member. Quotients, and the products of the refill, are logged as doubles.
-/

namespace QuotaGuard.Numbers

open Logged Arithmetic

/-- `civil_from_days`. -/
def civilFromDays (days : Int) : Logged (Int × Int × Int) := do
  let z ← int (days + 719468)
  let era ← floorDiv z 146097
  let doe ← int (z - (← int (era * 146097)))
  let sum ← int (doe - (← floorDiv doe 1460))
  let sum ← int (sum + (← floorDiv doe 36524))
  let sum ← int (sum - (← floorDiv doe 146096))
  let yoe ← floorDiv sum 365
  let y ← int (yoe + (← int (era * 400)))
  let sum ← int ((← int (365 * yoe)) + (← floorDiv yoe 4))
  let sum ← int (sum - (← floorDiv yoe 100))
  let doy ← int (doe - sum)
  let mp ← floorDiv (← int ((← int (5 * doy)) + 2)) 153
  let d ← int (doy - (← floorDiv (← int ((← int (153 * mp)) + 2)) 5))
  let d ← int (d + 1)
  let m ← int (mp + 3)
  let m ← assignIf (mp ≥ 10) (mp - 9) m
  let y ← assignIf (m ≤ 2) (y + 1) y
  return (y, m, d)

/-- `days_from_civil`. -/
def daysFromCivil (y m d : Int) : Logged Int := do
  let y ← assignIf (m ≤ 2) (y - 1) y
  let era ← floorDiv y 400
  let yoe ← int (y - (← int (era * 400)))
  let mp ← int (m - 3)
  let mp ← assignIf (m ≤ 2) (m + 9) mp
  let doy ← int ((← floorDiv (← int ((← int (153 * mp)) + 2)) 5) + d)
  let doy ← int (doy - 1)
  let doe ← int ((← int (yoe * 365)) + (← floorDiv yoe 4))
  let doe ← int (doe - (← floorDiv yoe 100))
  let doe ← int (doe + doy)
  let days ← int ((← int (era * 146097)) + doe)
  int (days - 719468)

/-- The month after one. -/
def nextMonth (year month : Int) : Logged (Int × Int) := do
  let next ← int (month + 1)
  let nextYear ← assignIf (next > 12) (year + 1) year
  return (nextYear, if next > 12 then 1 else next)

/-- Steps 1 and 2: the microseconds of the clock, and the second its month ends. -/
def clock (now : Time) : Logged (Int × Int) := do
  let nowS ← int now.sec
  let nowUs ← int ((← int (nowS * utok)) + (← int now.usec))
  let civil ← civilFromDays (← floorDiv nowS 86400)
  let next ← nextMonth civil.1 civil.2.1
  let monthEndS ← int ((← daysFromCivil next.1 next.2 1) * 86400)
  return (nowUs, monthEndS)

/-- The end of step 3: `add` has been credited, and the time it is worth is spent. -/
def advance (capUtok rateUtok nowUs ts add tokens : Int) : Logged (Int × Int) :=
  if tokens ≥ capUtok then pure (capUtok, nowUs)
  else do
    let advance ← rat (quotient (← rat (product add utok)) rateUtok)
    return (tokens, ← int (ts + (← int ⌈advance⌉)))

def credit (capUtok rateUtok nowUs tokens ts add : Int) : Logged (Int × Int) :=
  if add > 0 then do advance capUtok rateUtok nowUs ts add (← int (tokens + add))
  else pure (tokens, ts)

def refillShort (capUtok rateUtok nowUs tokens ts elapsed : Int) (full : ℚ) :
    Logged (Int × Int) :=
  if (elapsed : ℚ) ≥ full then pure (capUtok, nowUs)
  else do
    let add ← rat (product (← rat (quotient elapsed utok)) rateUtok)
    credit capUtok rateUtok nowUs tokens ts (← int ⌊add⌋)

def refillStored (capUtok rateUtok nowUs tokens ts elapsed : Int) : Logged (Int × Int) := do
  let elapsed ← assignIf (elapsed < 0) 0 elapsed
  let full ← rat (product (← rat (quotient capUtok rateUtok)) utok)
  refillShort capUtok rateUtok nowUs tokens ts elapsed full

/-- Step 3. -/
def refill (capUtok rateUtok nowUs : Int) : Option (Int × Int) → Logged (Int × Int)
  | none => pure (capUtok, nowUs)
  | some (t, ts) => do
    let tokens ← int t
    let ts ← int ts
    refillStored capUtok rateUtok nowUs tokens ts (← int (nowUs - ts))

/-- Steps 4 to 6. -/
def verdict (argv : Argv) (nowUs tokens count used : Int) : Logged Verdict := do
  let price ← int (argv.cost * utok)
  let _ ← int (nowUs - argv.windowUs)
  let count ← int ((← int count) + 1)
  let used ← int ((← int used) + argv.cost)
  return ⟨decide (tokens ≥ price), decide (count ≤ argv.sustainedLimit),
    decide (used ≤ argv.quotaHard)⟩

/-- Step 7: the level and the cardinality that are left. -/
def consume (argv : Argv) (monthEndS tokens count newUsed softCrossed : Int) :
    Logged (Int × Int) := do
  let tokens ← int (tokens - (← int (argv.cost * utok)))
  let _ ← int ((← int ((← ceilDiv argv.capUtok argv.rateUtok) * 1000)) + 60000)
  let _ ← int ((← ceilDiv argv.windowUs 1000) + 60000)
  let countAfter ← int (count + 1)
  let newUsed ← int newUsed
  let _ ← assignIf (newUsed = argv.cost) (monthEndS + monthGraceS) 0
  let _ ← assignIf (softCrossed = 1) (monthEndS + monthGraceS) 0
  return (tokens, countAfter)

/-- The seconds until the oldest member is as old as the window. -/
def windowReset (argv : Argv) (nowUs : Int) : Option Int → Logged Int
  | some score => do ceilDiv (← int ((← int ((← int score) + argv.windowUs)) - nowUs)) utok
  | none => pure 0

/-- The seconds until the level pays for the check. -/
def burstWait (argv : Argv) (v : Verdict) (tokens : Int) : Logged Int :=
  if v.burstOk then pure 0
  else do ceilDiv (← int ((← int (argv.cost * utok)) - tokens)) argv.rateUtok

/-- The tuple, from the numbers of step 8: the comparisons only choose between them. -/
def tuple (argv : Argv) (now : Time) (v : Verdict) (newUsed softCrossed bLimit bRemaining bReset
    sRemaining sReset qRemaining qReset burstWait : Int) : Reply :=
  let sustainedWait := if !v.sustainedOk && decide (sReset > burstWait) then sReset else burstWait
  let quotaWait := if !v.quotaOk && decide (qReset > sustainedWait) then qReset else sustainedWait
  { allowed := if v.allowed then 1 else 0
    denyLayer := v.denyLayer
    bLimit, bRemaining, bReset
    sLimit := argv.sustainedLimit
    sRemaining, sReset
    qLimit := argv.quotaHard
    qUsed := newUsed
    qRemaining, qReset, softCrossed
    monthStr := now.monthStr
    retryAfter := if v.allowed then 0 else quotaWait }

/-- Step 8. -/
def report (argv : Argv) (now : Time) (nowUs monthEndS : Int) (v : Verdict)
    (tokens count newUsed softCrossed : Int) (oldest : Option Int) : Logged Reply := do
  let bLimit ← floorDiv argv.capUtok utok
  let bRemaining ← floorDiv tokens utok
  let bReset ← ceilDiv (← int (argv.capUtok - tokens)) argv.rateUtok
  let sRemaining ← int (argv.sustainedLimit - count)
  let sReset ← windowReset argv nowUs oldest
  let qRemaining ← int (argv.quotaHard - newUsed)
  let qReset ← int (monthEndS - now.sec)
  let burstWait ← burstWait argv v tokens
  return tuple argv now v newUsed softCrossed bLimit bRemaining bReset (max 0 sRemaining)
    (max 0 sReset) (max 0 qRemaining) qReset burstWait

/-- The `ARGV` that are numbers. -/
def arguments (argv : Argv) : Logged Unit := do
  let _ ← int argv.capUtok
  let _ ← int argv.rateUtok
  let _ ← int argv.sustainedLimit
  let _ ← int argv.windowUs
  let _ ← int argv.quotaHard
  let _ ← int argv.quotaSoft
  let _ ← int argv.cost
  return ()

/-- Steps 7 and 8. -/
def answer (argv : Argv) (now : Time) (nowUs monthEndS tokens : Int) (v : Verdict)
    (count used newUsed softCrossed : Int) (oldest : Option Int) : Logged Reply :=
  if v.allowed then do
    let left ← consume argv monthEndS tokens count newUsed softCrossed
    report argv now nowUs monthEndS v left.1 left.2 newUsed softCrossed oldest
  else report argv now nowUs monthEndS v tokens count used 0 oldest

/-- The script, on what Redis answers it. -/
def check (argv : Argv) (now : Time) (state : Option (Int × Int))
    (count used newUsed softCrossed : Int) (oldest : Option Int) : Logged Reply := do
  arguments argv
  let clock ← clock now
  let refilled ← refill argv.capUtok argv.rateUtok clock.1 state
  let v ← verdict argv clock.1 refilled.1 count used
  answer argv now clock.1 clock.2 refilled.1 v count used newUsed softCrossed oldest

/-! ### The values are those of the script -/

theorem civilFromDays_value (days : Int) :
    (civilFromDays days).value = QuotaGuard.civilFromDays days := rfl

theorem daysFromCivil_value (y m d : Int) :
    (daysFromCivil y m d).value = QuotaGuard.daysFromCivil y m d := rfl

theorem nextMonth_value (year month : Int) :
    (nextMonth year month).value = QuotaGuard.nextMonth year month := by
  show ((if month + 1 > 12 then year + 1 else year), if month + 1 > 12 then 1 else month + 1) =
    if month + 1 > 12 then (year + 1, 1) else (year, month + 1)
  split <;> rfl

theorem clock_value (now : Time) : (clock now).value = (now.us, now.monthEnd) := by
  show (_, (daysFromCivil (nextMonth now.civil.1 now.civil.2.1).value.1
    (nextMonth now.civil.1 now.civil.2.1).value.2 1).value * 86400) = _
  rw [nextMonth_value, daysFromCivil_value]
  rfl

theorem advance_value (capUtok rateUtok nowUs ts add tokens : Int) :
    (advance capUtok rateUtok nowUs ts add tokens).value =
      if tokens ≥ capUtok then (capUtok, nowUs)
      else (tokens, ts + ⌈quotient (product add utok) rateUtok⌉) := by
  rw [advance, value_ite]
  rfl

theorem credit_value (capUtok rateUtok nowUs tokens ts add : Int) :
    (credit capUtok rateUtok nowUs tokens ts add).value =
      if add > 0 then (advance capUtok rateUtok nowUs ts add (tokens + add)).value
      else (tokens, ts) := by
  rw [credit, value_ite]
  rfl

theorem refillShort_value (capUtok rateUtok nowUs tokens ts elapsed : Int) (full : ℚ) :
    (refillShort capUtok rateUtok nowUs tokens ts elapsed full).value =
      if (elapsed : ℚ) ≥ full then (capUtok, nowUs)
      else (credit capUtok rateUtok nowUs tokens ts
        ⌊product (quotient elapsed utok) rateUtok⌋).value := by
  rw [refillShort, value_ite]
  rfl

theorem refill_value (capUtok rateUtok nowUs : Int) (state : Option (Int × Int)) :
    (refill capUtok rateUtok nowUs state).value = QuotaGuard.refill capUtok rateUtok nowUs state := by
  cases state with
  | none => rfl
  | some stored =>
      obtain ⟨t, ts⟩ := stored
      show (refillShort capUtok rateUtok nowUs t ts (if nowUs - ts < 0 then 0 else nowUs - ts)
        (product (quotient capUtok rateUtok) utok)).value = _
      rw [refillShort_value, credit_value, advance_value]
      rfl

theorem verdict_value (argv : Argv) (nowUs tokens count used : Int) :
    (verdict argv nowUs tokens count used).value =
      ⟨decide (tokens ≥ argv.cost * utok), decide (count + 1 ≤ argv.sustainedLimit),
        decide (used + argv.cost ≤ argv.quotaHard)⟩ := rfl

theorem consume_value (argv : Argv) (monthEndS tokens count newUsed softCrossed : Int) :
    (consume argv monthEndS tokens count newUsed softCrossed).value =
      (tokens - argv.cost * utok, count + 1) := rfl

theorem windowReset_value (argv : Argv) (nowUs : Int) (oldest : Option Int) :
    max 0 (windowReset argv nowUs oldest).value =
      match oldest with
      | some score => max 0 ⌈((score + argv.windowUs - nowUs : Int) : ℚ) / utok⌉
      | none => 0 := by
  cases oldest with
  | none => rfl
  | some score => rfl

theorem burstWait_value (argv : Argv) (v : Verdict) (tokens : Int) :
    (burstWait argv v tokens).value =
      if v.burstOk then 0 else ⌈((argv.cost * utok - tokens : Int) : ℚ) / argv.rateUtok⌉ := by
  rw [burstWait, value_ite]
  rfl

theorem report_value (argv : Argv) (now : Time) (v : Verdict)
    (tokens count newUsed softCrossed : Int) (oldest : Option Int) :
    (report argv now now.us now.monthEnd v tokens count newUsed softCrossed oldest).value =
      QuotaGuard.report argv now v tokens count newUsed softCrossed oldest := by
  show tuple argv now v newUsed softCrossed (argv.capUtok / utok) (tokens / utok)
    ⌈((argv.capUtok - tokens : Int) : ℚ) / argv.rateUtok⌉ (max 0 (argv.sustainedLimit - count))
    (max 0 (windowReset argv now.us oldest).value) (max 0 (argv.quotaHard - newUsed))
    (now.monthEnd - now.sec) (burstWait argv v tokens).value = _
  rw [windowReset_value, burstWait_value, ← Rounding.floor_div_eq utok_pos,
    ← Rounding.floor_div_eq utok_pos]
  cases oldest with
  | none => rfl
  | some score => rfl

theorem answer_value (argv : Argv) (now : Time) (tokens : Int) (v : Verdict)
    (count used newUsed softCrossed : Int) (oldest : Option Int) :
    (answer argv now now.us now.monthEnd tokens v count used newUsed softCrossed oldest).value =
      if v.allowed then
        QuotaGuard.report argv now v (tokens - argv.cost * utok) (count + 1) newUsed softCrossed
          oldest
      else QuotaGuard.report argv now v tokens count used 0 oldest := by
  rw [answer, value_ite, value_bind, consume_value, report_value, report_value]

/-- What the script does with the clock, the level and the verdict. -/
theorem check_value (argv : Argv) (now : Time) (state : Option (Int × Int))
    (count used newUsed softCrossed : Int) (oldest : Option Int) :
    (check argv now state count used newUsed softCrossed oldest).value =
      (answer argv now now.us now.monthEnd
        (QuotaGuard.refill argv.capUtok argv.rateUtok now.us state).1
        (verdict argv now.us (QuotaGuard.refill argv.capUtok argv.rateUtok now.us state).1 count
          used).value count used newUsed softCrossed oldest).value := by
  simp only [check, value_bind, clock_value, refill_value]

end QuotaGuard.Numbers
