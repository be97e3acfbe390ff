import QuotaGuard.Lib.Run
import QuotaGuard.Service.Models
import Mathlib.Data.List.AList

/-!
# The key cache

`resolve` runs on the event loop and awaits its database lookup; admin mutations run in other
threads. Every read or write of the cache or of its generation, the test of its size, a lookup and a
commit are one step each, and any thread whose turn it is may take the next one. The database is kept
with all its versions, one for each commit, so that a snapshot can say which of them it is of.
-/

namespace QuotaGuard.KeyCache

/-- `MAX_CACHE_ENTRIES`. -/
def maxCacheEntries : Nat := 10000

/-- What a lookup returned, and the version of the database it saw. -/
structure Snapshot where
  version : Nat
  resolved : Option ResolvedKey
  deriving DecidableEq

structure CacheEntry where
  expiresAt : ℚ
  snapshot : Snapshot
  deriving DecidableEq

/-- One call of `resolve`, with the newest version whose mutation had returned before it began. -/
structure Lookup where
  since : Nat
  digest : String
  deriving DecidableEq

/-- Where a call of `resolve` stands. -/
inductive ResolvePc where
  | idle
  | called (l : Lookup)
  | looked (l : Lookup) (entry : Option CacheEntry)
  | missed (l : Lookup) (now : ℚ)
  | awaiting (l : Lookup) (now : ℚ) (generation : Int)
  | loaded (l : Lookup) (now : ℚ) (generation : Int) (snapshot : Snapshot)
  | matched (l : Lookup) (now : ℚ) (snapshot : Snapshot)
  | dropping (l : Lookup) (now : ℚ) (snapshot : Snapshot)
  | storing (l : Lookup) (now : ℚ) (snapshot : Snapshot)
  | returned (l : Lookup) (snapshot : Snapshot)
  | raised (l : Lookup)
  deriving DecidableEq

/-- Where a mutation stands. Before its commit it has not touched what is shared. -/
inductive MutationPc where
  | idle
  | committed (version : Nat)
  | bumping (version : Nat) (generation : Int)
  | clearing (version : Nat)
  | returned (version : Nat)
  deriving DecidableEq

/-- What the threads share, and where each of them stands. -/
structure State where
  cache : AList fun _ : String => CacheEntry
  generation : Int
  clock : ℚ
  older : List Database
  current : Database
  /-- The newest version whose mutation has returned from `invalidate`. -/
  returned : Nat
  loop : Option Nat
  resolves : Nat → ResolvePc
  mutations : Nat → MutationPc

namespace State

def start (db : Database) : State where
  cache := ∅
  generation := 0
  clock := 0
  older := []
  current := db
  returned := 0
  loop := none
  resolves := fun _ => .idle
  mutations := fun _ => .idle

def versions (s : State) : List Database := s.older ++ [s.current]

def version (s : State) : Nat := s.older.length

def commit (db : Database) (s : State) : State :=
  { s with older := s.older ++ [s.current], current := db }

/-- The call moves on; `loop` says who runs on the event loop then. -/
def goto (t : Nat) (pc : ResolvePc) (loop : Option Nat) (s : State) : State :=
  { s with resolves := Function.update s.resolves t pc, loop }

def move (m : Nat) (pc : MutationPc) (s : State) : State :=
  { s with mutations := Function.update s.mutations m pc }

/-- The call can take a step: it is running on the loop, or in the pool, or the loop can resume it. -/
def hasTurn (t : Nat) (s : State) : Bool :=
  match s.resolves t with
  | .awaiting .. => true
  | .loaded .. => s.loop.isNone
  | _ => s.loop = some t

/-- The next step of `resolve`. -/
def resolve (ttl : Int) (t : Nat) (s : State) : State :=
  match s.resolves t with
  | .called l => s.goto t (.looked l (s.cache.lookup l.digest)) s.loop
  | .looked l entry =>
    match entry with
    | some e =>
      if e.expiresAt > s.clock then s.goto t (.returned l e.snapshot) none
      else s.goto t (.missed l s.clock) s.loop
    | none => s.goto t (.missed l s.clock) s.loop
  | .missed l now => s.goto t (.awaiting l now s.generation) none
  | .awaiting l now generation =>
    s.goto t (.loaded l now generation ⟨s.version, s.current.load l.digest⟩) s.loop
  | .loaded l now generation snapshot =>
    if ttl > 0 ∧ generation = s.generation then s.goto t (.matched l now snapshot) (some t)
    else s.goto t (.returned l snapshot) none
  | .matched l now snapshot =>
    if s.cache.keys.length ≥ maxCacheEntries then s.goto t (.dropping l now snapshot) s.loop
    else s.goto t (.storing l now snapshot) s.loop
  | .dropping l now snapshot => { s with cache := ∅ }.goto t (.storing l now snapshot) s.loop
  | .storing l now snapshot =>
    { s with cache := s.cache.insert l.digest ⟨now + ttl, snapshot⟩ }.goto t (.returned l snapshot)
      none
  | .idle => s
  | .returned .. => s
  | .raised _ => s

/-- The next step of a mutation after its commit: `invalidate`, and the return from it. -/
def mutate (m : Nat) (s : State) : State :=
  match s.mutations m with
  | .committed version => s.move m (.bumping version s.generation)
  | .bumping version generation =>
    { s.move m (.clearing version) with generation := generation + 1 }
  | .clearing version =>
    { s.move m (.returned version) with cache := ∅, returned := max s.returned version }
  | .idle => s
  | .returned _ => s

end State

/-- What can happen next. -/
inductive Action where
  /-- The clock goes on. -/
  | tick (now : ℚ)
  /-- A call of `resolve` begins. -/
  | call (t : Nat) (digest : String)
  /-- A call of `resolve` takes its next step. -/
  | resolve (t : Nat)
  /-- The lookup of a call fails, and `InternalError` is raised. -/
  | loadFails (t : Nat)
  /-- `update_plan`, `update_key`, `revoke_key` or `issue_key` commits. -/
  | commit (m : Nat) (db : Database)
  /-- A mutation takes its next step. -/
  | mutate (m : Nat)
  /-- Another process, or `create_plan`, commits. -/
  | otherCommit (db : Database)

/-- What an action does. An action that cannot happen now does nothing. -/
def step (ttl : Int) (a : Action) (s : State) : State :=
  match a with
  | .tick now => { s with clock := max s.clock now }
  | .call t digest =>
    match s.resolves t, s.loop with
    | .idle, none => s.goto t (.called ⟨s.returned, digest⟩) (some t)
    | _, _ => s
  | .resolve t => if s.hasTurn t then s.resolve ttl t else s
  | .loadFails t =>
    match s.resolves t with
    | .awaiting l _ _ => s.goto t (.raised l) s.loop
    | _ => s
  | .commit m db =>
    match s.mutations m with
    | .idle => (s.commit db).move m (.committed (s.version + 1))
    | _ => s
  | .mutate m => s.mutate m
  | .otherCommit db => s.commit db

/-- The threads answer nothing to each other. -/
def exec (ttl : Int) (a : Action) (s : State) : Unit × State := ((), step ttl a s)

end QuotaGuard.KeyCache
