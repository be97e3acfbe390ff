import QuotaGuard.Service.Rollup
import QuotaGuard.Lib.Run

/-!
# The lock of the rollup job

Any number of runs take the lock and release it, one Redis command after the other; the commands of
different runs come in any order. Between two commands time goes by, and Redis may remove the lock after
its deadline.
-/

namespace QuotaGuard

open Redis

/-- `DEL name`: the number of keys that were removed. -/
def Redis.del (name : String) : Script Int := fun _ db =>
  match db name with
  | none => (.ok 0, db)
  | some _ => (.ok 1, Function.update db name none)

/-- unlock.lua. The token is compared with the stored bytes, and an absent key with nothing. -/
def unlock (key token : String) : Script Int := do
  let stored ← get key
  if stored = some (.text token) then
    let _ ← del key
    return 1
  else
    return 0

/-- What `get_pool` returns: its `_script_registry`, if it has that attribute and it is not null, and
whether its replies are text. -/
structure Pool where
  registry : Option Registry
  decodeResponses : Bool

/-- The way `release_lock` goes: it calls the script, or it sends GET and DEL, or it raises before any
command and catches that. -/
inductive ReleasePath where
  | script
  | fallback
  | raises
  deriving DecidableEq

def Pool.path (pool : Pool) : ReleasePath :=
  match pool.registry with
  | none => .fallback
  | some registry =>
    match registry.scripts with
    | none => .raises
    | some scripts => if "unlock" ∈ scripts then .script else .fallback

/-- `execute_command("GET", LOCK_KEY) == token`. Bytes are never equal to the token; where GET raises,
nothing is deleted either. -/
def tokenMatches (decodeResponses : Bool) (token : String) (redis : Keyspace) : Bool :=
  match redis lockKey with
  | some ⟨.text value, _⟩ => decodeResponses && value == token
  | _ => false

/-- Where a run stands: it has not tried to take the lock; it has taken it, until its deadline; its GET has
replied its token, and DEL is next; it is done with the lock. -/
inductive LockPhase where
  | idle
  | holding (deadline : Int)
  | matched (deadline : Int)
  | ended
  deriving DecidableEq

/-- The lock among the other keys, the clock, and the runs. -/
structure LockState (ι : Type) where
  redis : Keyspace
  now : Time
  runs : ι → LockPhase

namespace LockState

variable {ι : Type} [DecidableEq ι]

/-- The deadline of the lock that a run has taken and has not released yet. -/
def deadline (s : LockState ι) (i : ι) : Option Int :=
  match s.runs i with
  | .holding deadline | .matched deadline => some deadline
  | .idle | .ended => none

/-- Run `i` goes on to `phase`, and leaves `redis`. -/
def goto (s : LockState ι) (i : ι) (phase : LockPhase) (redis : Keyspace) : LockState ι :=
  { s with redis, runs := Function.update s.runs i phase }

/-- The next command of a run, with what it does with the reply. -/
def exec (pool : Pool) (token : ι → String) (i : ι) (s : LockState ι) : Unit × LockState ι :=
  match s.runs i with
  | .idle =>
    match acquireLock (token i) s.now s.redis with
    | .ok redis => ((), s.goto i (.holding (s.now.ms + 120000)) redis)
    | .error _ => ((), s.goto i .ended s.redis)
  | .holding deadline =>
    match pool.path with
    | .script => ((), s.goto i .ended (unlock lockKey (token i) s.now s.redis).2)
    | .raises => ((), s.goto i .ended s.redis)
    | .fallback =>
      if tokenMatches pool.decodeResponses (token i) s.redis then
        ((), s.goto i (.matched deadline) s.redis)
      else ((), s.goto i .ended s.redis)
  | .matched _ => ((), s.goto i .ended (del lockKey s.now s.redis).2)
  | .ended => ((), s)

/-- No run has tried to take the lock yet. -/
def Fresh (s : LockState ι) : Prop := ∀ i, s.runs i = .idle

/-- The value of the lock. -/
def HeldBy (s : LockState ι) (token : String) : Prop :=
  ∃ deadline, s.redis lockKey = some ⟨.text token, deadline⟩

/-- A run has the lock, by its own account: it has not released it, and its time is not over. -/
def HoldsUnexpired (s : LockState ι) (i : ι) : Prop :=
  ∃ deadline, s.deadline i = some deadline ∧ s.now.ms < deadline

/-- At most one run has the lock. -/
def Exclusive (s : LockState ι) : Prop :=
  ∀ i j, s.HoldsUnexpired i → s.HoldsUnexpired j → i = j

end LockState

/-- Time goes by, and the lock may expire. -/
def Waits {ι : Type} (_ : ι) (s found : LockState ι) : Prop :=
  found.runs = s.runs ∧ s.now ≤ found.now ∧
    s.redis.KeptOrLapsed found.redis lockKey found.now

abbrev LockStep (ι : Type) := Step (LockState ι) ι Unit

end QuotaGuard
