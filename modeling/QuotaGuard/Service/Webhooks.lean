import QuotaGuard.Service.History

/-!
# Delivery of the outbox

`deliver_webhooks` selects a batch of due rows and hands them, one after the other, to `deliver_one`.
What the network does to a POST, when, and with which jitter, is given for each row. Times are seconds.
-/

namespace QuotaGuard

/-- `random.uniform(0.8, 1.2)`. -/
structure Jitter where
  val : ℚ
  ge : 4 / 5 ≤ val
  le : val ≤ 6 / 5

/-- How a POST ends. `httpx.TimeoutException` is a `httpx.RequestError`; `httpx.InvalidURL` is not. -/
inductive PostOutcome where
  | response (status : Nat)
  | requestError (name : String)
  | otherError (name : String)
  deriving DecidableEq

/-- A POST, as the network and the clock decide it. -/
structure Attempt where
  outcome : PostOutcome
  now : ℚ
  jitter : Jitter

structure WebhookSettings where
  webhookMaxAttempts : Nat
  webhookSecret : String
  /-- The hexadecimal HMAC-SHA256 of the body. -/
  hmac : String → Payload → String

/-- The request that is sent for a row. -/
structure Post where
  rowId : Nat
  url : String
  headers : List (String × String)
  content : Payload
  deriving DecidableEq

abbrev baseBackoffSeconds : ℚ := 30

abbrev maxBackoffSeconds : ℚ := 3600

abbrev maxDoublings : Nat := 17

abbrev batchSize : Nat := 50

/-- `compute_next_attempt`. -/
def computeNextAttempt (attemptNum : Nat) (now : ℚ) (jitter : Jitter) : ℚ :=
  let exponent := min (attemptNum - 1) maxDoublings
  let baseSeconds := min (baseBackoffSeconds * 2 ^ exponent) maxBackoffSeconds
  now + baseSeconds * jitter.val

/-- `sign_payload`. -/
def signPayload (settings : WebhookSettings) (payload : Payload) : String :=
  if settings.webhookSecret = "" then "" else "sha256=" ++ settings.hmac settings.webhookSecret payload

/-- The request `deliver_one` makes. -/
def postFor (settings : WebhookSettings) (row : WebhookOutbox) (url : String) : Post :=
  let signature := signPayload settings row.payload
  let headers := [("User-Agent", "quotaguard/1.0"), ("X-QuotaGuard-Event", "quota.soft_threshold")]
  { rowId := row.id
    url
    headers :=
      if signature = "" then headers else headers ++ [("X-QuotaGuard-Signature", signature)]
    content := row.payload }

/-- The row after a POST that failed. -/
def WebhookOutbox.failed (row : WebhookOutbox) (error : String) (attempt : Attempt) :
    WebhookOutbox :=
  { row with
    attempts := row.attempts + 1
    lastError := some error
    nextAttemptAt := computeNextAttempt (row.attempts + 1) attempt.now attempt.jitter }

/-- `deliver_one`: the row it commits. An exception that is not a `RequestError` is not caught. -/
def deliverOne (row : WebhookOutbox) (attempt : Attempt) : Except String WebhookOutbox :=
  match attempt.outcome with
  | .response status =>
    if 200 ≤ status ∧ status < 300 then
      .ok { row with deliveredAt := some attempt.now, lastError := none }
    else .ok (row.failed ("HTTP " ++ toString status) attempt)
  | .requestError name => .ok (row.failed name attempt)
  | .otherError name => .error name

/-- The url a row is delivered to: there has to be a key, a plan and a url that is not empty. -/
def Database.webhookOf (db : Database) (apiKeyId : Nat) : Option String :=
  match db.keys.find? fun key => key.id = apiKeyId with
  | none => none
  | some key =>
    match db.plans.find? fun plan => plan.id = key.planId with
    | none => none
    | some plan => plan.webhookUrl.filter (· ≠ "")

/-- The row is due at the start of a pass. -/
def WebhookOutbox.Due (settings : WebhookSettings) (now : ℚ) (row : WebhookOutbox) : Prop :=
  row.deliveredAt = none ∧ row.nextAttemptAt ≤ now ∧ row.attempts < settings.webhookMaxAttempts

instance (settings : WebhookSettings) (now : ℚ) (row : WebhookOutbox) :
    Decidable (row.Due settings now) :=
  inferInstanceAs (Decidable (_ ∧ _ ∧ _))

/-- What the query of a pass may return: up to fifty of the due rows, in any order. -/
structure IsBatch (settings : WebhookSettings) (now : ℚ) (h : History) (batch : List WebhookOutbox) :
    Prop where
  nodup : batch.Nodup
  mem : ∀ row ∈ batch, row ∈ h.outbox ∧ row.Due settings now
  length : batch.length = min batchSize (h.outbox.filter fun row => row.Due settings now).length

/-- A row is written back by its id; a session keeps the columns that identify it. -/
def History.saveOutbox (h : History) (row : WebhookOutbox) : History :=
  h.updateOutbox
    (fun old => if old.id = row.id then
      { old with
        attempts := row.attempts
        nextAttemptAt := row.nextAttemptAt
        deliveredAt := row.deliveredAt
        lastError := row.lastError }
    else old)
    (fun old => by split <;> rfl) (fun old => by split <;> rfl)

/-- Where a pass stands: the table, the requests made, the rows processed, and the exception that has
ended it. -/
structure Pass where
  history : History
  posts : List Post
  processed : Nat
  raised : Option String

/-- The loop of `deliver_webhooks` over the rows of its batch. -/
def deliverRows (settings : WebhookSettings) (db : Database) (attempts : Nat → Attempt) :
    List WebhookOutbox → Pass → Pass
  | [], pass => pass
  | row :: rest, pass =>
    match db.webhookOf row.apiKeyId with
    | none => deliverRows settings db attempts rest pass
    | some url =>
      let posts := pass.posts ++ [postFor settings row url]
      match deliverOne row (attempts row.id) with
      | .ok saved => deliverRows settings db attempts rest
          { pass with
            history := pass.history.saveOutbox saved
            posts
            processed := pass.processed + 1 }
      | .error name => { pass with posts, raised := some name }

/-- `deliver_webhooks` on the batch its query returned. Only a `SQLAlchemyError` is caught here. -/
def deliverWebhooks (settings : WebhookSettings) (db : Database) (attempts : Nat → Attempt)
    (batch : List WebhookOutbox) (h : History) : Pass :=
  deliverRows settings db attempts batch ⟨h, [], 0, none⟩

end QuotaGuard
