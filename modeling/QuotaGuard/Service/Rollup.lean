import QuotaGuard.Lua.Restore
import QuotaGuard.Service.Upsert

/-!
# The rollup job

One run takes the lock, persists the counters it scans, restores the counters that are below their
rollup, and adds the warnings that are missing. A run is read here as it goes alone, with the clock
standing still; what its environment decides is given in an `Environment`.
-/

namespace QuotaGuard

/-! ### Reading names and months -/

private def digit (c : Char) : Nat := c.toNat - '0'.toNat

/-- The digits after the first one; a single underscore may stand between two digits. -/
def intDigits (value : Nat) : List Char → Option Nat
  | [] => some value
  | '_' :: c :: rest => if c.isDigit then intDigits (value * 10 + digit c) rest else none
  | c :: rest => if c.isDigit then intDigits (value * 10 + digit c) rest else none

def intBody : List Char → Option Nat
  | [] => none
  | c :: rest => if c.isDigit then intDigits (digit c) rest else none

/-- The white space of Python among the ASCII characters. -/
def isPythonSpace (c : Char) : Bool :=
  c = ' ' || 9 ≤ c.toNat && c.toNat ≤ 13 || 28 ≤ c.toNat && c.toNat ≤ 31

/-- `int` on an ASCII text: a decimal literal, with a sign and white space around it. -/
def int (text : List Char) : Option Int :=
  let inner := (((text.dropWhile isPythonSpace).reverse).dropWhile isPythonSpace).reverse
  match inner with
  | '-' :: rest => (intBody rest).map fun n => -(n : Int)
  | '+' :: rest => (intBody rest).map fun n => (n : Int)
  | rest => (intBody rest).map fun n => (n : Int)

theorem intDigits_eq {digits : List Char} (h : ∀ c ∈ digits, c.isDigit) (value : Nat) :
    intDigits value digits = some (Nat.ofDigitChars 10 digits value) := by
  induction digits generalizing value with
  | nil => rfl
  | cons c digits ih =>
      have hdigit := h c (List.mem_cons_self ..)
      have hne : c ≠ '_' := by
        rintro rfl
        exact absurd hdigit (by decide)
      rw [intDigits, if_pos hdigit, ih fun d hd => h d (List.mem_cons_of_mem _ hd),
        Nat.ofDigitChars_cons, digit, Nat.mul_comm]
      · exact fun _ _ hc _ => hne hc

/-- A decimal literal without a sign or white space is the number it spells. -/
theorem int_digits {digits : List Char} (h : ∀ c ∈ digits, c.isDigit) (hne : digits ≠ []) :
    int digits = some ((Nat.ofDigitChars 10 digits 0 : Nat) : Int) := by
  have htrim {text : List Char} (htext : ∀ c ∈ text, c.isDigit) :
      text.dropWhile isPythonSpace = text := by
    cases text with
    | nil => rfl
    | cons c rest =>
        apply List.dropWhile_cons_of_neg
        intro hspace
        have hdigit := htext c (List.mem_cons_self ..)
        simp only [Char.isDigit, isPythonSpace, Bool.or_eq_true, Bool.and_eq_true, decide_eq_true_eq]
          at hdigit hspace
        have hlow : 48 ≤ c.toNat := hdigit.1
        rcases hspace with (rfl | hspace) | hspace
        · exact absurd hlow (by decide)
        · omega
        · omega
  have hback : ∀ c ∈ digits.reverse, c.isDigit := fun c hc => h c (List.mem_reverse.mp hc)
  unfold int
  rw [htrim h, htrim hback, List.reverse_reverse]
  cases digits with
  | nil => exact absurd rfl hne
  | cons c rest =>
      have hdigit := h c (List.mem_cons_self ..)
      have hbody : intBody (c :: rest) = some (Nat.ofDigitChars 10 (c :: rest) 0) := by
        rw [intBody, if_pos hdigit, intDigits_eq fun d hd => h d (List.mem_cons_of_mem _ hd),
          Nat.ofDigitChars_cons, Nat.mul_zero, Nat.zero_add, digit]
      dsimp only
      split
      · rename_i hsign
        rw [(List.cons.inj hsign).1] at hdigit
        exact absurd hdigit (by decide)
      · rename_i hsign
        rw [(List.cons.inj hsign).1] at hdigit
        exact absurd hdigit (by decide)
      · rw [hbody]
        rfl

/-- `month_end_seconds`; `datetime` raises where the first day of the next month is no date. -/
def monthEndSeconds (year month : Int) : Option Int :=
  let next := if month = 12 then (year + 1, 1) else (year, month + 1)
  if 1 ≤ next.1 ∧ next.1 ≤ 9999 ∧ 1 ≤ next.2 ∧ next.2 ≤ 12 then
    some (daysFromCivil next.1 next.2 1 * 86400)
  else none

/-- The end of a month from its text: `int(month[:4])`, `int(month[5:7])` and `month_end_seconds`. -/
def monthEndOfText (month : String) : Option Int := do
  let year ← int (month.toList.take 4)
  let monthNum ← int ((month.toList.drop 5).take 2)
  monthEndSeconds year monthNum

/-- The four parts of `qg:<tag>:<key id>:<month>`. -/
def parseKey (tag name : String) : Option (String × String) :=
  match name.toList.splitOn ':' with
  | [head, family, keyId, month] =>
    if head = "qg".toList ∧ family = tag.toList then
      some (String.ofList keyId, String.ofList month)
    else none
  | _ => none

def parseQuotaKey : String → Option (String × String) := parseKey "q"

def parseFlagKey : String → Option (String × String) := parseKey "f"

/-! ### The environment of a run -/

/-- The scripts that can be called through `registry.scripts`, or none if there is no such attribute.
Calling `restore` executes restore.lua. -/
structure Registry where
  scripts : Option (List String)

/-- An object of the class `ScriptRegistry`. Its attributes are `_client`, `_shas`, `_source`,
`register`, `load_all` and `run`. -/
def scriptRegistry : Registry := ⟨none⟩

structure Environment where
  registry : Registry
  /-- Redis replies are decoded to text; otherwise they are bytes. -/
  decodeResponses : Bool
  token : String
  now : Time
  /-- The same reading, as `utcnow` returns it. -/
  utcnow : ℚ
  /-- The names the two scans return, in their order; a name can come more than once. -/
  quotaKeys : List String
  flagKeys : List String
  /-- What the n-th upsert raises. -/
  failing : Nat → Option SqlError

/-- `SCAN … MATCH <pattern>*` until the cursor is zero again: it returns the names that are there. -/
def IsScan (pattern : String) (redis : Keyspace) (names : List String) : Prop :=
  ∀ name, name ∈ names ↔ (∃ rest, name = pattern ++ rest) ∧ redis name ≠ none

structure World where
  redis : Keyspace
  history : History

/-- What a run raises. -/
inductive RunError where
  | lockNotAcquired
  | redis (e : RedisError)
  | valueError
  deriving DecidableEq

structure Stats where
  scanned : Nat
  upserted : Nat
  restored : Nat
  reconciled : Nat
  deriving DecidableEq

/-! ### The lock -/

def lockKey : String := "qg:lock:rollup"

/-- `acquire_lock`: `SET qg:lock:rollup <token> NX PX 120000`. -/
def acquireLock (token : String) (now : Time) (redis : Keyspace) : Except RunError Keyspace :=
  match redis lockKey with
  | none => .ok (Function.update redis lockKey (some ⟨.text token, some (now.ms + 120000)⟩))
  | some _ => .error .lockNotAcquired

/-- `release_lock`, without a registry on the pool. Bytes are never equal to the token. -/
def releaseLock (decodeResponses : Bool) (token : String) (redis : Keyspace) : Keyspace :=
  match redis lockKey with
  | some ⟨.text value, _⟩ =>
    if decodeResponses = true ∧ value = token then Function.update redis lockKey none else redis
  | _ => redis

/-! ### Phase 1: counters are persisted -/

/-- `int` on a reply of `GET`. -/
def Value.asInt : Value → Option Int
  | .int n => some n
  | .text s => QuotaGuard.int s.toList
  | _ => none

/-- The number that Python reads from a key, if it is there. -/
def Keyspace.asInt (redis : Keyspace) (name : String) : Option Int :=
  (redis name).bind fun entry => entry.value.asInt

/-- `scan_quota_keys`, on the names that `SCAN` returns: each counter that is still there. -/
def scanQuotaKeys (redis : Keyspace) : List String → Except RunError (List (String × Int))
  | [] => .ok []
  | name :: rest =>
    match redis name with
    | none => scanQuotaKeys redis rest
    | some entry =>
      match entry.value.asInt with
      | some value => (scanQuotaKeys redis rest).map fun found => (name, value) :: found
      | none => if entry.value.kind = .text then .error .valueError else .error (.redis .wrongType)

/-- The row of a key id. -/
def Database.keyOf (db : Database) (keyId : String) : Option ApiKey :=
  db.keys.find? fun key => key.keyId.val = keyId

/-- `api_key.plan`. -/
def Database.planOfKey (db : Database) (key : ApiKey) : Option Plan :=
  db.plans.find? fun plan => plan.id = key.planId

/-- The quota of a key: its override if it is not null, else that of the plan. -/
def ApiKey.quotaLimit (key : ApiKey) (plan : Plan) : Int :=
  match key.overrideMonthlyQuota with
  | some quota => quota
  | none => plan.monthlyQuota

/-- The upsert a scanned counter leads to, if its name can be read and its key is known. The foreign key
keeps the plan from being missing. -/
def upsertOf (db : Database) (name : String) (value : Int) : Option Upsert := do
  let (keyId, month) ← parseQuotaKey name
  let key ← db.keyOf keyId
  let plan ← db.planOfKey key
  return ⟨key.id, month, value, key.quotaLimit plan⟩

/-- The upserts of phase 1, with how many there were and the error that has ended them. -/
def upsertAll (db : Database) (failing : Nat → Option SqlError) :
    List (String × Int) → Nat → History → (Nat × Option SqlError) × History
  | [], upserted, h => ((upserted, none), h)
  | (name, value) :: rest, upserted, h =>
    match upsertOf db name value with
    | none => upsertAll db failing rest upserted h
    | some upsert =>
      match failing upserted with
      | some e => ((upserted, some e), h)
      | none =>
        match (upsertRollup upsert h).commit h with
        | .ok h' => upsertAll db failing rest (upserted + 1) h'
        | .error e => ((upserted, some e), h)

/-! ### Phase 2: counters are restored -/

/-- `restore_from_rollup`. Whatever it raises, a month that is no date or a registry without the
attribute, it catches, and reports nothing restored. -/
def restoreFromRollup [Arithmetic] (registry : Registry) (now : Time) (keyId month : String)
    (rollupValue : Int) (redis : Keyspace) : Nat × Keyspace :=
  match monthEndOfText month with
  | none => (0, redis)
  | some monthEnd =>
    match registry.scripts with
    | none => (0, redis)
    | some scripts =>
      if "restore" ∈ scripts then
        match restore ("qg:q:" ++ (keyId ++ ":" ++ month)) rollupValue monthEnd now redis with
        | (.ok result, redis') => (if result = rollupValue then 1 else 0, redis')
        | (.error _, redis') => (0, redis')
      else (0, redis)

/-- The loop of phase 2 over the rows of `rollups`. -/
def restoreAll (registry : Registry) (now : Time) (db : Database) :
    List Rollup → Nat → Keyspace → Nat × Keyspace
  | [], restored, redis => (restored, redis)
  | rollup :: rest, restored, redis =>
    match db.keys.find? fun key => key.id = rollup.apiKeyId with
    | none => restoreAll registry now db rest restored redis
    | some key =>
      let (count, redis') := restoreFromRollup registry now key.keyId.val rollup.month rollup.used redis
      restoreAll registry now db rest (restored + count) redis'

/-! ### Phase 3: warnings are added -/

/-- `enqueue`: whether the row was inserted. -/
def enqueue (h : History) (warning : Warning) : Bool × History :=
  match h.insertOutbox warning with
  | .ok h' => (true, h')
  | .error _ => (false, h)

/-- `int` of the counter, or zero if there is none; nothing where the read or `int` raises. -/
def usedOf (redis : Keyspace) (name : String) : Option Int :=
  match redis name with
  | none => some 0
  | some entry => if entry.value = .text "" then some 0 else entry.value.asInt

/-- The payload of the warning for a key. -/
def ApiKey.payload (key : ApiKey) (plan : Plan) (month : String) (used : Int) (sentAt : ℚ) :
    Payload where
  keyId := key.keyId.val
  keyName := key.name
  plan := plan.slug
  month := month
  used := used
  quota := key.quotaLimit plan
  thresholdPct := plan.quotaSoftPct
  sentAt := sentAt

/-- The warning `reconcile_soft_webhooks` wants to add for a flag: none if the flag cannot be read, its
key is unknown, the outbox has the warning already, or the counter cannot be read. -/
def missingWarning (db : Database) (utcnow : ℚ) (redis : Keyspace) (h : History) (flag : String) :
    Option Warning := do
  let (keyId, month) ← parseFlagKey flag
  let key ← db.keyOf keyId
  guard ((key.id, month, WebhookKind.quotaSoft) ∉ h.outbox.map WebhookOutbox.slot)
  let used ← usedOf redis ("qg:q:" ++ (keyId ++ ":" ++ month))
  let plan ← db.planOfKey key
  return ⟨key.id, month, key.payload plan month used utcnow, utcnow⟩

/-- `reconcile_soft_webhooks`, on the names that `SCAN` returns. -/
def reconcileSoftWebhooks (db : Database) (utcnow : ℚ) (redis : Keyspace) :
    List String → Nat → History → Nat × History
  | [], reconciled, h => (reconciled, h)
  | flag :: rest, reconciled, h =>
    match missingWarning db utcnow redis h flag with
    | none => reconcileSoftWebhooks db utcnow redis rest reconciled h
    | some warning =>
      reconcileSoftWebhooks db utcnow redis rest (reconciled + 1) (enqueue h warning).2

/-! ### The run -/

/-- What a run does while it holds the lock. -/
def runPhases (env : Environment) (db : Database) (w : World) : Except RunError Stats × World :=
  match scanQuotaKeys w.redis env.quotaKeys with
  | .error e => (.error e, w)
  | .ok found =>
    match upsertAll db env.failing found 0 w.history with
    | ((upserted, some _), history) => (.ok ⟨found.length, upserted, 0, 0⟩, { w with history })
    | ((upserted, none), history) =>
      let (restored, redis) := restoreAll env.registry env.now db history.rollups 0 w.redis
      let (reconciled, history) := reconcileSoftWebhooks db env.utcnow redis env.flagKeys 0 history
      (.ok ⟨found.length, upserted, restored, reconciled⟩, ⟨redis, history⟩)

/-- `run`. -/
def run (env : Environment) (db : Database) (w : World) : Except RunError Stats × World :=
  match acquireLock env.token env.now w.redis with
  | .error e => (.error e, w)
  | .ok redis =>
    let (stats, after) := runPhases env db { w with redis }
    (stats, { after with redis := releaseLock env.decodeResponses env.token after.redis })

end QuotaGuard
