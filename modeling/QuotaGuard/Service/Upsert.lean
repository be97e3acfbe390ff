import QuotaGuard.Lib.Transaction
import QuotaGuard.Service.History

/-!
# The upsert of a rollup

`upsert_rollup` selects the row of a key and a month, compares, and commits. It is called by any number
of runs, each in a session of its own: there is no row version, and the lock of a run can expire.
-/

namespace QuotaGuard

/-- What `upsert_rollup` has pending in its session when it commits. -/
inductive RollupWrite where
  | keep
  | update (id : Nat) (used : Int) (quotaLimit : Option Int)
  | insert (upsert : Upsert)
  deriving DecidableEq

/-- `upsert_rollup`, up to its commit. -/
def upsertRollup (upsert : Upsert) (h : History) : RollupWrite :=
  match h.rollups.find? fun rollup => rollup.slot = upsert.slot with
  | some existing =>
    if upsert.used > existing.used then
      .update existing.id upsert.used (changed existing.quotaLimit (some upsert.quotaLimit))
    else .keep
  | none => .insert upsert

/-- `UPDATE rollups SET used = …, quota_limit = … WHERE id = …`. -/
def History.writeRollup (h : History) (id : Nat) (used : Int) (quotaLimit : Option Int) : History :=
  h.updateRollups
    (fun rollup => if rollup.id = id then
      { rollup with used, quotaLimit := quotaLimit.getD rollup.quotaLimit }
    else rollup)
    (fun rollup => by split <;> rfl) (fun rollup => by split <;> rfl)

def RollupWrite.commit (write : RollupWrite) (h : History) : Except SqlError History :=
  match write with
  | .keep => .ok h
  | .update id used quotaLimit => .ok (h.writeRollup id used quotaLimit)
  | .insert upsert => h.insertRollup upsert

/-- The two steps of a call. -/
def Upsert.request (upsert : Upsert) : Transaction.Request History RollupWrite SqlError where
  read h := .ok (upsertRollup upsert h)
  commit := RollupWrite.commit

abbrev UpsertState := Transaction.State Nat History RollupWrite SqlError

abbrev UpsertStep := Step UpsertState (Transaction.Action Nat) Unit

/-- The steps of any calls, in any order. -/
def upsertExec (calls : Nat → Upsert) :
    Transaction.Action Nat → UpsertState → Unit × UpsertState :=
  Transaction.exec fun i => (calls i).request

/-- What is persisted for a key and a month. -/
def History.used (h : History) (slot : Nat × String) : Option Int :=
  (h.rollups.find? fun rollup => rollup.slot = slot).map Rollup.used

end QuotaGuard
