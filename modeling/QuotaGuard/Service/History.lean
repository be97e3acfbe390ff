import QuotaGuard.Service.Plans

/-!
# Rollups and the webhook outbox

The two tables the service writes on its own account, with the columns that are unique, and the rows
that can be inserted and updated.
-/

namespace QuotaGuard

/-- A row of `rollups`. -/
structure Rollup where
  id : Nat
  apiKeyId : Nat
  month : String
  used : Int
  quotaLimit : Int
  deriving DecidableEq

/-- `WEBHOOK_KINDS`. -/
inductive WebhookKind where
  | quotaSoft
  deriving DecidableEq

/-- The fields of the body that `build_payload` freezes; its event is always the same. -/
structure Payload where
  keyId : String
  keyName : String
  plan : String
  month : String
  used : Int
  quota : Int
  thresholdPct : Int
  sentAt : ℚ
  deriving DecidableEq

/-- A row of `webhook_outbox`. -/
structure WebhookOutbox where
  id : Nat
  apiKeyId : Nat
  month : String
  kind : WebhookKind
  payload : Payload
  attempts : Nat
  nextAttemptAt : ℚ
  deliveredAt : Option ℚ
  lastError : Option String
  deriving DecidableEq

/-- The month of a key a rollup is of. -/
def Rollup.slot (rollup : Rollup) : Nat × String := (rollup.apiKeyId, rollup.month)

/-- The warning a row of the outbox is. -/
def WebhookOutbox.slot (row : WebhookOutbox) : Nat × String × WebhookKind :=
  (row.apiKeyId, row.month, row.kind)

structure History where
  rollups : List Rollup
  outbox : List WebhookOutbox
  rollupIds : (rollups.map Rollup.id).Nodup
  rollupSlots : (rollups.map Rollup.slot).Nodup
  outboxIds : (outbox.map WebhookOutbox.id).Nodup
  outboxSlots : (outbox.map WebhookOutbox.slot).Nodup

/-- The columns of a rollup that a call of `upsert_rollup` has values for. -/
structure Upsert where
  apiKeyId : Nat
  month : String
  used : Int
  quotaLimit : Int
  deriving DecidableEq

def Upsert.slot (upsert : Upsert) : Nat × String := (upsert.apiKeyId, upsert.month)

def Upsert.row (upsert : Upsert) (id : Nat) : Rollup where
  id
  apiKeyId := upsert.apiKeyId
  month := upsert.month
  used := upsert.used
  quotaLimit := upsert.quotaLimit

/-- The columns of a new row of the outbox. -/
structure Warning where
  apiKeyId : Nat
  month : String
  payload : Payload
  nextAttemptAt : ℚ
  deriving DecidableEq

def Warning.slot (warning : Warning) : Nat × String × WebhookKind :=
  (warning.apiKeyId, warning.month, .quotaSoft)

/-- The row, with the defaults of the other columns. -/
def Warning.row (warning : Warning) (id : Nat) : WebhookOutbox where
  id
  apiKeyId := warning.apiKeyId
  month := warning.month
  kind := .quotaSoft
  payload := warning.payload
  attempts := 0
  nextAttemptAt := warning.nextAttemptAt
  deliveredAt := none
  lastError := none

/-- An error that SQLAlchemy raises, by the name of its class. -/
structure SqlError where
  name : String
  deriving DecidableEq

/-- A constraint of a table is violated. -/
def integrityError : SqlError := ⟨"IntegrityError"⟩

namespace History

def empty : History := ⟨[], [], List.nodup_nil, List.nodup_nil, List.nodup_nil, List.nodup_nil⟩

theorem rollup_eq_of_id {h : History} {rollup other : Rollup} (hrollup : rollup ∈ h.rollups)
    (hother : other ∈ h.rollups) (hid : other.id = rollup.id) : other = rollup :=
  List.inj_on_of_nodup_map h.rollupIds hother hrollup hid

theorem rollup_eq_of_slot {h : History} {rollup other : Rollup} (hrollup : rollup ∈ h.rollups)
    (hother : other ∈ h.rollups) (hslot : other.slot = rollup.slot) : other = rollup :=
  List.inj_on_of_nodup_map h.rollupSlots hother hrollup hslot

theorem row_eq_of_id {h : History} {row other : WebhookOutbox} (hrow : row ∈ h.outbox)
    (hother : other ∈ h.outbox) (hid : other.id = row.id) : other = row :=
  List.inj_on_of_nodup_map h.outboxIds hother hrow hid

/-- An `UPDATE` of `webhook_outbox`, which writes no column that identifies a row. -/
def updateOutbox (h : History) (f : WebhookOutbox → WebhookOutbox) (hid : ∀ row, (f row).id = row.id)
    (hslot : ∀ row, (f row).slot = row.slot) : History where
  rollups := h.rollups
  outbox := h.outbox.map f
  rollupIds := h.rollupIds
  rollupSlots := h.rollupSlots
  outboxIds := by
    rw [Table.map_update hid]
    exact h.outboxIds
  outboxSlots := by
    rw [Table.map_update hslot]
    exact h.outboxSlots

/-- An `UPDATE` of `rollups`, likewise. -/
def updateRollups (h : History) (f : Rollup → Rollup) (hid : ∀ rollup, (f rollup).id = rollup.id)
    (hslot : ∀ rollup, (f rollup).slot = rollup.slot) : History where
  rollups := h.rollups.map f
  outbox := h.outbox
  rollupIds := by
    rw [Table.map_update hid]
    exact h.rollupIds
  rollupSlots := by
    rw [Table.map_update hslot]
    exact h.rollupSlots
  outboxIds := h.outboxIds
  outboxSlots := h.outboxSlots

/-- `INSERT INTO rollups`: a key has one rollup a month. -/
def insertRollup (h : History) (upsert : Upsert) : Except SqlError History :=
  let row := upsert.row (nextId (h.rollups.map Rollup.id))
  if hslot : row.slot ∈ h.rollups.map Rollup.slot then .error integrityError
  else .ok {
    rollups := h.rollups ++ [row]
    outbox := h.outbox
    rollupIds := Table.nodup_insert h.rollupIds fun hmem => lt_irrefl _ (lt_nextId hmem)
    rollupSlots := Table.nodup_insert h.rollupSlots hslot
    outboxIds := h.outboxIds
    outboxSlots := h.outboxSlots }

/-- Whether a warning is there already. -/
instance decidableHasSlot (h : History) (slot : Nat × String × WebhookKind) :
    Decidable (slot ∈ h.outbox.map WebhookOutbox.slot) := inferInstance

/-- `INSERT INTO webhook_outbox`: a key has one warning of a kind a month. -/
def insertOutbox (h : History) (warning : Warning) : Except SqlError History :=
  let row := warning.row (nextId (h.outbox.map WebhookOutbox.id))
  if hslot : row.slot ∈ h.outbox.map WebhookOutbox.slot then .error integrityError
  else .ok {
    rollups := h.rollups
    outbox := h.outbox ++ [row]
    rollupIds := h.rollupIds
    rollupSlots := h.rollupSlots
    outboxIds := Table.nodup_insert h.outboxIds fun hmem => lt_irrefl _ (lt_nextId hmem)
    outboxSlots := Table.nodup_insert h.outboxSlots hslot }

end History

end QuotaGuard
