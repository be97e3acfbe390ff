import QuotaGuard.Service.Admin
import QuotaGuard.Service.Rollup

/-!
# The service

Redis and the database with everything that writes them: checks and the warnings they enqueue, admin
requests, and runs of the rollup job. Each event is taken as a whole here.
-/

namespace QuotaGuard

/-- `enqueue_soft_warning`, whose failures are logged and not raised. The limits are those of the check,
the row that of the key now. -/
def enqueueSoftWarning (db : Database) (key : ResolvedKey) (month : String) (used : Int) (utcnow : ℚ)
    (h : History) : Bool × History :=
  match db.keyOf key.keyId.val with
  | none => (false, h)
  | some row =>
    let payload : Payload :=
      { keyId := key.keyId.val
        keyName := key.name
        plan := key.planSlug
        month
        used
        quota := key.monthlyQuota
        thresholdPct := key.quotaSoftPct
        sentAt := utcnow }
    enqueue h ⟨row.id, month, payload, utcnow⟩

/-- The state of the service. -/
structure System where
  db : Database
  world : World

/-- A request that has been resolved, and whether the process is still there to enqueue a warning. -/
structure CheckRun where
  limits : ResolvedKey
  resource : Resource
  cost : Int
  requestId : String
  now : Time
  utcnow : ℚ
  crashes : Bool

/-- The execution of check.lua that `run_check` asks for. -/
def CheckRun.call (request : CheckRun) : Call :=
  ⟨request.limits.keyId, request.resource, request.now,
    scriptArgv request.limits request.cost request.requestId⟩

inductive SystemEvent where
  | check (request : CheckRun)
  | admin (write : AdminWrite)
  | rollup (env : Environment)

inductive SystemReply where
  | check (reply : Except RedisError Reply)
  | admin (error : Option AdminError)
  | rollup (stats : Except RunError Stats)

namespace System

/-- `/v1/check` after the key is resolved: the script, and the warning if it reports a crossing. -/
def check (request : CheckRun) (s : System) : SystemReply × System :=
  let (reply, redis) := request.call.exec s.world.redis
  let history :=
    match reply with
    | .ok r =>
      if r.softCrossed = 1 ∧ request.crashes = false then
        (enqueueSoftWarning s.db request.limits r.monthStr r.qUsed request.utcnow s.world.history).2
      else s.world.history
    | .error _ => s.world.history
  (.check reply, ⟨s.db, ⟨redis, history⟩⟩)

/-- The commit of an admin request. -/
def admin (write : AdminWrite) (s : System) : SystemReply × System :=
  match write.commit s.db with
  | .ok db => (.admin none, { s with db })
  | .error e => (.admin (some e), s)

def rollup (env : Environment) (s : System) : SystemReply × System :=
  let (stats, world) := run env s.db s.world
  (.rollup stats, { s with world })

def exec : SystemEvent → System → SystemReply × System
  | .check request => check request
  | .admin write => admin write
  | .rollup env => rollup env

end System

abbrev SystemStep := Step System SystemEvent SystemReply

/-- Any keys of Redis may be lost between two events. -/
def System.Losing {ε : Type} (_ : ε) (s found : System) : Prop :=
  found.db = s.db ∧ found.world.history = s.world.history ∧ s.world.redis.Loses found.world.redis

theorem System.Losing.refl {ε : Type} (e : ε) (s : System) : System.Losing e s s :=
  ⟨rfl, rfl, .refl s.world.redis⟩

end QuotaGuard
