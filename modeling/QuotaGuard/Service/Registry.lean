import QuotaGuard.Lib.Run
import QuotaGuard.Service.Checker

/-!
# The script registry

`ScriptRegistry.run` calls a script by the digest Redis has given it, and answers a `NOSCRIPT` with one
reload and one retry. The registries of any number of processes share one Redis, which forgets its
scripts when it restarts. Each command is sent, executed and answered in steps of their own, and a call
whose command has timed out no longer waits for it: the command may still be executed later, or never.
A process that calls `close` has a new registry afterwards. This is one of an owner without digests, and
the commands that were on their way in the old pool may fail.
-/

namespace QuotaGuard.ScriptRegistry

/-- What the registries work with. The arguments of a script are those of its keys and its `ARGV`. -/
structure Scripts (δ α ρ : Type) where
  /-- The files `load_all` finds in `LUA_DIR`, in their order. -/
  stems : List String
  /-- `_source`: the text of a script, unless its file cannot be read. -/
  source : String → Option String
  /-- The digest `SCRIPT LOAD` answers with. -/
  sha : String → δ
  /-- What Redis does to execute a text. -/
  eval : String → α → Time → Keyspace → Except RedisError ρ × Keyspace

/-- One call of `run`, on the registry of its owner: a process between two calls of `close`. -/
structure Invocation (π α : Type) where
  owner : π
  name : String
  args : α

inductive Command (δ α : Type) where
  | load (text : String)
  | evalsha (sha : δ) (args : α)

inductive Answer (δ ρ : Type) where
  | loaded (sha : δ)
  | value (reply : Except RedisError ρ)
  | noScript

/-- The command of a call on its way: sent and not executed yet, or executed and answered. -/
inductive Wire (δ α ρ : Type) where
  | empty
  | sent (command : Command δ α)
  | answered (answer : Answer δ ρ)

/-- What `run` awaits: `register` for lack of a digest, EVALSHA, `register` again, EVALSHA again. -/
inductive Stage where
  | registering
  | evaluating
  | reloading
  | retrying
  deriving DecidableEq

/-- How a call ends: with the reply of the script, or with what it raises. -/
inductive Outcome (ρ : Type) where
  | value (reply : Except RedisError ρ)
  | noScript
  /-- A connection error, a timeout, or any other error of a command. -/
  | redisError
  /-- The file of the script cannot be read. -/
  | runtimeError
  /-- `load_all` returns nothing. -/
  | loadedAll

/-- Where a caller stands. -/
inductive Phase (π α ρ : Type) where
  | idle
  | running (c : Invocation π α) (stage : Stage)
  /-- `load_all` awaits the digest of `name`, with the files after it. -/
  | preloading (owner : π) (name : String) (rest : List String)
  | finished (c : Option (Invocation π α)) (outcome : Outcome ρ)

/-- One execution of a script, for the caller that sent the command. -/
structure Execution (ι α ρ : Type) where
  task : ι
  text : String
  args : α
  now : Time
  reply : Except RedisError ρ

/-- Redis with its scripts and its clock, the registries, and the callers with their commands. -/
structure State (ι π δ α ρ : Type) where
  redis : Keyspace
  now : Time
  scripts : δ → Option String
  shas : π → String → Option δ
  phases : ι → Phase π α ρ
  wires : ι → Wire δ α ρ

/-- What can happen next. -/
inductive Event (ι π α : Type) where
  | call (t : ι) (c : Invocation π α)
  | loadAll (t : ι) (owner : π)
  /-- Redis executes the command of a caller. -/
  | serve (t : ι)
  /-- A caller takes the answer and goes on. -/
  | receive (t : ι)
  /-- The command a caller waits for raises. -/
  | fail (t : ι)
  /-- The command of a caller is lost on its way. -/
  | drop (t : ι)
  /-- Redis restarts, or `SCRIPT FLUSH`. -/
  | flush

variable {ι π δ α ρ : Type}

namespace State

/-- Before any script is loaded and any call is made. -/
def start (redis : Keyspace) (now : Time) : State ι π δ α ρ where
  redis
  now
  scripts := fun _ => none
  shas := fun _ _ => none
  phases := fun _ => .idle
  wires := fun _ => .empty

variable [DecidableEq ι]

/-- The caller goes on to `phase`, and leaves `wire` on its way. -/
def goto (s : State ι π δ α ρ) (t : ι) (phase : Phase π α ρ) (wire : Wire δ α ρ) : State ι π δ α ρ :=
  { s with phases := Function.update s.phases t phase, wires := Function.update s.wires t wire }

/-- The command of a caller has been executed. -/
def answer (s : State ι π δ α ρ) (t : ι) (answer : Answer δ ρ) : State ι π δ α ρ :=
  { s with wires := Function.update s.wires t (.answered answer) }

/-- `self._shas[name] = sha`. -/
def remember [DecidableEq π] (s : State ι π δ α ρ) (owner : π) (name : String) (sha : δ) : State ι π δ α ρ :=
  { s with shas := Function.update s.shas owner (Function.update (s.shas owner) name (some sha)) }

/-- `register`, up to its await. -/
def register (S : Scripts δ α ρ) (s : State ι π δ α ρ) (t : ι) (c : Invocation π α) (stage : Stage) :
    State ι π δ α ρ :=
  match S.source c.name with
  | some text => s.goto t (.running c stage) (.sent (.load text))
  | none => s.goto t (.finished (some c) .runtimeError) .empty

/-- `load_all`, up to its next await. -/
def preload (S : Scripts δ α ρ) (s : State ι π δ α ρ) (t : ι) (owner : π) : List String → State ι π δ α ρ
  | [] => s.goto t (.finished none .loadedAll) .empty
  | name :: rest =>
    match S.source name with
    | some text => s.goto t (.preloading owner name rest) (.sent (.load text))
    | none => s.goto t (.finished none .runtimeError) .empty

/-- `run`, up to its first await. A digest is never empty, so `or` asks whether there is one. -/
def call (S : Scripts δ α ρ) (s : State ι π δ α ρ) (t : ι) (c : Invocation π α) : State ι π δ α ρ :=
  match s.shas c.owner c.name with
  | some sha => s.goto t (.running c .evaluating) (.sent (.evalsha sha c.args))
  | none => s.register S t c .registering

variable [DecidableEq π]

/-- What a caller does with the answer to the command it waits for. -/
def receive (S : Scripts δ α ρ) (s : State ι π δ α ρ) (t : ι) (answer : Answer δ ρ) : State ι π δ α ρ :=
  match s.phases t, answer with
  | .running c .registering, .loaded sha =>
    (s.remember c.owner c.name sha).goto t (.running c .evaluating) (.sent (.evalsha sha c.args))
  | .running c .evaluating, .value reply => s.goto t (.finished (some c) (.value reply)) .empty
  | .running c .evaluating, .noScript => s.register S t c .reloading
  | .running c .reloading, .loaded sha =>
    (s.remember c.owner c.name sha).goto t (.running c .retrying) (.sent (.evalsha sha c.args))
  | .running c .retrying, .value reply => s.goto t (.finished (some c) (.value reply)) .empty
  | .running c .retrying, .noScript => s.goto t (.finished (some c) .noScript) .empty
  | .preloading owner name rest, .loaded sha => (s.remember owner name sha).preload S t owner rest
  | _, _ => s

/-- Redis executes a command, and answers it. -/
def serve [DecidableEq δ] (S : Scripts δ α ρ) (s : State ι π δ α ρ) (t : ι) :
    Command δ α → Option (Execution ι α ρ) × State ι π δ α ρ
  | .load text =>
    let scripts := Function.update s.scripts (S.sha text) (some text)
    (none, { s with scripts }.answer t (.loaded (S.sha text)))
  | .evalsha sha args =>
    match s.scripts sha with
    | none => (none, s.answer t .noScript)
    | some text =>
      let (reply, redis) := S.eval text args s.now s.redis
      (some ⟨t, text, args, s.now, reply⟩, { s with redis }.answer t (.value reply))

end State

open State

variable [DecidableEq ι] [DecidableEq π] [DecidableEq δ]

/-- One step, and the execution of a script if it is one. What cannot happen now does nothing. -/
def exec (S : Scripts δ α ρ) (e : Event ι π α) (s : State ι π δ α ρ) :
    Option (Execution ι α ρ) × State ι π δ α ρ :=
  match e with
  | .call t c =>
    match s.phases t with
    | .idle => (none, s.call S t c)
    | _ => (none, s)
  | .loadAll t owner =>
    match s.phases t with
    | .idle => (none, s.preload S t owner S.stems)
    | _ => (none, s)
  | .serve t =>
    match s.wires t with
    | .sent command => s.serve S t command
    | _ => (none, s)
  | .receive t =>
    match s.wires t with
    | .answered answer => (none, s.receive S t answer)
    | _ => (none, s)
  | .fail t =>
    match s.phases t with
    | .running c _ => (none, s.goto t (.finished (some c) .redisError) (s.wires t))
    | .preloading _ _ _ => (none, s.goto t (.finished none .redisError) (s.wires t))
    | _ => (none, s)
  | .drop t =>
    match s.wires t with
    | .sent _ => (none, { s with wires := Function.update s.wires t .empty })
    | _ => (none, s)
  | .flush => (none, { s with scripts := fun _ => none })

/-- Between two steps time goes by, and Redis may lose any keys. -/
def Drifts (_ : Event ι π α) (s found : State ι π δ α ρ) : Prop :=
  found = { s with redis := found.redis, now := found.now } ∧ s.now ≤ found.now ∧
    s.redis.Loses found.redis

abbrev RegistryStep (ι π δ α ρ : Type) :=
  Step (State ι π δ α ρ) (Event ι π α) (Option (Execution ι α ρ))

/-! ### Checks -/

/-- The keys and arguments `run_check` hands to `run`. The script reads the clock itself. -/
structure CheckArgs where
  key : KeyId
  resource : Resource
  argv : Argv

def CheckArgs.call (args : CheckArgs) (now : Time) : Call := ⟨args.key, args.resource, now, args.argv⟩

/-- `SCRIPT_NAME`. -/
def scriptName : String := "check"

/-- The file of this name is check.lua. -/
structure Scripts.RunsCheck (S : Scripts δ CheckArgs Reply) : Prop where
  readable : S.source scriptName ≠ none
  eval : ∀ text args now redis, S.source scriptName = some text →
    S.eval text args now redis = (args.call now).exec redis

end QuotaGuard.ScriptRegistry
