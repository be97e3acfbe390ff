import QuotaGuard.Service.Delivery

/-!
# Overlapping passes

Any number of passes over the outbox at once, of one process or of several, step by step: a pass selects
its batch, looks the webhook of its next row up, makes the request, and commits what its session has
changed of the row it has loaded. Warnings are added in between.
-/

namespace QuotaGuard

/-- The columns an `UPDATE` of `webhook_outbox` sets. -/
structure OutboxColumns where
  attempts : Option Nat := none
  nextAttemptAt : Option ℚ := none
  deliveredAt : Option (Option ℚ) := none
  lastError : Option (Option String) := none
  deriving DecidableEq

def OutboxColumns.write (columns : OutboxColumns) (row : WebhookOutbox) : WebhookOutbox where
  id := row.id
  apiKeyId := row.apiKeyId
  month := row.month
  kind := row.kind
  payload := row.payload
  attempts := columns.attempts.getD row.attempts
  nextAttemptAt := columns.nextAttemptAt.getD row.nextAttemptAt
  deliveredAt := columns.deliveredAt.getD row.deliveredAt
  lastError := columns.lastError.getD row.lastError

/-- What the flush finds changed of a row that was loaded. -/
def WebhookOutbox.changes (loaded saved : WebhookOutbox) : OutboxColumns where
  attempts := changed loaded.attempts (some saved.attempts)
  nextAttemptAt := changed loaded.nextAttemptAt (some saved.nextAttemptAt)
  deliveredAt := changed loaded.deliveredAt (some saved.deliveredAt)
  lastError := changed loaded.lastError (some saved.lastError)

/-- `UPDATE webhook_outbox SET … WHERE id = …`. -/
def History.writeOutbox (h : History) (id : Nat) (columns : OutboxColumns) : History :=
  h.updateOutbox (fun row => if row.id = id then columns.write row else row)
    (fun row => by split <;> rfl) (fun row => by split <;> rfl)

/-- Where a pass stands, with the rows it has loaded and not gone through yet. -/
inductive PassPhase where
  | idle
  | working (todo : List WebhookOutbox)
  | posting (row : WebhookOutbox) (url : String) (todo : List WebhookOutbox)
  | committing (row saved : WebhookOutbox) (todo : List WebhookOutbox)
  | ended
  deriving DecidableEq

structure Deliveries where
  history : History
  passes : Nat → PassPhase

/-- A step of a pass, or what comes in between. -/
inductive PassEvent where
  | select (i : Nat) (now : ℚ) (batch : List WebhookOutbox)
  /-- A session keeps the plans it has loaded, so what it sees may be older than the database. -/
  | lookup (i : Nat) (seen : Database)
  | post (i : Nat) (attempt : Attempt)
  | commit (i : Nat)
  /-- A statement of the pass raises a `SQLAlchemyError`, and the session is rolled back. -/
  | fail (i : Nat)
  | enqueue (warning : Warning)

instance (settings : WebhookSettings) (now : ℚ) (h : History) (batch : List WebhookOutbox) :
    Decidable (IsBatch settings now h batch) :=
  decidable_of_iff (batch.Nodup ∧ (∀ row ∈ batch, row ∈ h.outbox ∧ row.Due settings now) ∧
      batch.length = min batchSize (h.outbox.filter fun row => row.Due settings now).length)
    ⟨fun h => ⟨h.1, h.2.1, h.2.2⟩, fun h => ⟨h.nodup, h.mem, h.length⟩⟩

namespace Deliveries

/-- No pass has begun, and the outbox is empty. -/
def init : Deliveries := ⟨History.empty, fun _ => .idle⟩

def goto (s : Deliveries) (i : Nat) (phase : PassPhase) : Deliveries :=
  { s with passes := Function.update s.passes i phase }

@[simp] theorem goto_history (s : Deliveries) (i : Nat) (phase : PassPhase) :
    (s.goto i phase).history = s.history := rfl

@[simp] theorem goto_passes_self (s : Deliveries) (i : Nat) (phase : PassPhase) :
    (s.goto i phase).passes i = phase :=
  Function.update_self ..

theorem goto_passes_of_ne {i j : Nat} (hne : j ≠ i) (s : Deliveries) (phase : PassPhase) :
    (s.goto i phase).passes j = s.passes j :=
  Function.update_of_ne hne ..

variable (settings : WebhookSettings)

/-- The query of a pass. -/
def select (i : Nat) (now : ℚ) (batch : List WebhookOutbox) (s : Deliveries) : Deliveries :=
  match s.passes i with
  | .idle => if IsBatch settings now s.history batch then s.goto i (.working batch) else s
  | _ => s

/-- The key and the plan of the next row; a pass that has no row left ends. -/
def lookup (i : Nat) (seen : Database) (s : Deliveries) : Deliveries :=
  match s.passes i with
  | .working [] => s.goto i .ended
  | .working (row :: todo) =>
    match seen.webhookOf row.apiKeyId with
    | none => s.goto i (.working todo)
    | some url => s.goto i (.posting row url todo)
  | _ => s

/-- The request of `deliver_one`, and what it makes of the row. -/
def post (i : Nat) (attempt : Attempt) (s : Deliveries) : Option Post × Deliveries :=
  match s.passes i with
  | .posting row url todo =>
    match deliverOne row attempt with
    | .ok saved => (some (postFor settings row url), s.goto i (.committing row saved todo))
    | .error _ => (some (postFor settings row url), s.goto i .ended)
  | _ => (none, s)

def commit (i : Nat) (s : Deliveries) : Deliveries :=
  match s.passes i with
  | .committing row saved todo =>
    { s with history := s.history.writeOutbox row.id (row.changes saved) }.goto i (.working todo)
  | _ => s

def fail (i : Nat) (s : Deliveries) : Deliveries :=
  match s.passes i with
  | .working _ => s.goto i .ended
  | .committing _ _ _ => s.goto i .ended
  | _ => s

/-- What a step does, and the request it makes. -/
def exec : PassEvent → Deliveries → Option Post × Deliveries
  | .select i now batch, s => (none, s.select settings i now batch)
  | .lookup i seen, s => (none, s.lookup i seen)
  | .post i attempt, s => s.post settings i attempt
  | .commit i, s => (none, s.commit i)
  | .fail i, s => (none, s.fail i)
  | .enqueue warning, s => (none, { s with history := (enqueue s.history warning).2 })

end Deliveries

abbrev PassStep := Step Deliveries PassEvent (Option Post)

end QuotaGuard
