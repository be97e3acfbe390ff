import QuotaGuard.Service.Admin
import QuotaGuard.Service.Rollup

/-!
# Overlapping runs

Any number of runs of the rollup job at once, step by step: a run reads a counter, selects a row, commits,
loads the rows, and restores a counter, each at a moment of its own and with whatever it has in hand from
earlier. Checks, admin commits and the loss of Redis keys come in between. The lock is left out: it can
have expired.
-/

namespace QuotaGuard

/-- Where a run stands, with the values it has in hand. -/
inductive RunPhase where
  | idle
  | scanning (found : List (String × Int))
  | upserting (todo : List (String × Int))
  | committing (upsert : Upsert) (write : RollupWrite) (todo : List (String × Int))
  | restoring (todo : List Rollup)
  | ended

structure Overlap where
  redis : Keyspace
  db : Database
  history : History
  runs : Nat → RunPhase

/-- A step of the service. The cost of a check is at least one. -/
inductive OverlapEvent where
  | check (c : Call) (hcost : 1 ≤ c.argv.cost)
  | admin (write : AdminWrite)
  | start (i : Nat)
  | get (i : Nat) (name : String)
  | scanned (i : Nat)
  | select (i : Nat)
  | commit (i : Nat)
  | load (i : Nat)
  | restore (i : Nat) (now : Time)

namespace Overlap

/-- Nothing is stored or running yet. -/
def init (db : Database) : Overlap := ⟨Keyspace.empty, db, History.empty, fun _ => .idle⟩

def goto (s : Overlap) (i : Nat) (phase : RunPhase) : Overlap :=
  { s with runs := Function.update s.runs i phase }

@[simp] theorem runs_goto_self (s : Overlap) (i : Nat) (phase : RunPhase) :
    (s.goto i phase).runs i = phase :=
  Function.update_self ..

theorem runs_goto_of_ne {i j : Nat} (hne : j ≠ i) (s : Overlap) (phase : RunPhase) :
    (s.goto i phase).runs j = s.runs j :=
  Function.update_of_ne hne ..

/-- A run reads a counter that the scan has returned; `int` raises on a value that is no number. -/
def get (i : Nat) (name : String) (s : Overlap) : Overlap :=
  match s.runs i with
  | .scanning found =>
    match s.redis name with
    | none => s
    | some entry =>
      match entry.value.asInt with
      | some value => s.goto i (.scanning (found ++ [(name, value)]))
      | none => s.goto i .ended
  | _ => s

/-- A run takes the next counter, and selects its row. -/
def select (i : Nat) (s : Overlap) : Overlap :=
  match s.runs i with
  | .upserting ((name, value) :: todo) =>
    match upsertOf s.db name value with
    | none => s.goto i (.upserting todo)
    | some upsert => s.goto i (.committing upsert (upsertRollup upsert s.history) todo)
  | _ => s

/-- A run commits what it has pending; a database error ends it. -/
def commit (i : Nat) (s : Overlap) : Overlap :=
  match s.runs i with
  | .committing _ write todo =>
    match write.commit s.history with
    | .ok history => { s with history }.goto i (.upserting todo)
    | .error _ => s.goto i .ended
  | _ => s

/-- A run restores the counter of the next row. -/
def restore [Arithmetic] (registry : Registry) (i : Nat) (now : Time) (s : Overlap) : Overlap :=
  match s.runs i with
  | .restoring [] => s.goto i .ended
  | .restoring (rollup :: todo) =>
    match s.db.keys.find? fun key => key.id = rollup.apiKeyId with
    | none => s.goto i (.restoring todo)
    | some key =>
      let redis :=
        (restoreFromRollup registry now key.keyId.val rollup.month rollup.used s.redis).2
      { s with redis }.goto i (.restoring todo)
  | _ => s

/-- What a run does on its own account. -/
def step [Arithmetic] (registry : Registry) : OverlapEvent → Overlap → Overlap
  | .start i, s =>
    match s.runs i with
    | .idle | .ended => s.goto i (.scanning [])
    | _ => s
  | .get i name, s => s.get i name
  | .scanned i, s =>
    match s.runs i with
    | .scanning found => s.goto i (.upserting found)
    | _ => s
  | .select i, s => s.select i
  | .commit i, s => s.commit i
  | .load i, s =>
    match s.runs i with
    | .upserting [] => s.goto i (.restoring s.history.rollups)
    | _ => s
  | .restore i now, s => s.restore registry i now
  | .check _ _, s | .admin _, s => s

/-- The reply of a check is what the service has to answer for. -/
def exec [Arithmetic] (registry : Registry) (e : OverlapEvent) (s : Overlap) :
    Option (Except RedisError Reply) × Overlap :=
  match e with
  | .check c _ => (some (c.exec s.redis).1, { s with redis := (c.exec s.redis).2 })
  | .admin write =>
    match write.commit s.db with
    | .ok db => (none, { s with db })
    | .error _ => (none, s)
  | e => (none, s.step registry e)

/-- Any keys of Redis may be lost between two steps. -/
def Loses (_ : OverlapEvent) (s found : Overlap) : Prop :=
  found.db = s.db ∧ found.history = s.history ∧ found.runs = s.runs ∧ s.redis.Loses found.redis

end Overlap

abbrev OverlapStep := Step Overlap OverlapEvent (Option (Except RedisError Reply))

end QuotaGuard
