import QuotaGuard.Service.Headers
import QuotaGuard.Service.Routes
import QuotaGuard.Service.System

/-!
# The check endpoint

`POST /v1/check`: the service token, the answer to a key that is unknown or revoked, and otherwise the
script, the warning if the check has crossed the threshold, and the rendered decision.
-/

namespace QuotaGuard

/-- A response that is no 200: the handlers make a 401 of the first and a 500 of the others. -/
inductive CheckError where
  | unauthorized
  | typeError
  | redis (e : RedisError)
  | render (e : RenderError)
  deriving DecidableEq

/-! ### Tokens -/

def isAscii (text : String) : Bool := text.toList.all fun c => c.toNat < 128

/-- `hmac.compare_digest` of two strings: both have to be ASCII. -/
def compareDigest (a b : String) : Except CheckError Bool :=
  if isAscii a && isAscii b then .ok (a == b) else .error .typeError

/-- `require_service_token`: no-op unless a token is configured. -/
def requireServiceToken (expected header : Option String) : Except CheckError Unit :=
  match expected.filter (· ≠ "") with
  | none => .ok ()
  | some token =>
    match header with
    | none => .error .unauthorized
    | some given => do
      if ← compareDigest given token then return () else throw .unauthorized

/-- `require_admin`: the token is always required. -/
def requireAdmin (expected : String) (header : Option String) : Except CheckError Unit :=
  match header with
  | none => .error .unauthorized
  | some given => do
    if ← compareDigest given expected then return () else throw .unauthorized

/-! ### The route -/

/-- `api_key`, of 1 to `MAX_API_KEY_LENGTH` characters. -/
structure Secret where
  val : String
  minLength : 1 ≤ val.length
  maxLength : val.length ≤ 256

structure CheckRequest where
  apiKey : Secret
  resource : Resource
  cost : Bounded 1 1000 := ⟨1, by decide, by decide⟩

/-- `_refused`: there are no layers to report. -/
def refused (reason : String) : CheckOut where
  allowed := false
  reason := some reason
  degraded := false
  limit := none
  remaining := none
  reset := none
  retryAfter := none
  headers := []
  layers := none

/-- The execution of check.lua for a request. -/
def CheckRequest.call (payload : CheckRequest) (key : ResolvedKey) (requestId : String) (now : Time) :
    Call :=
  ⟨key.keyId, payload.resource, now, scriptArgv key payload.cost.val requestId⟩

/-- `run_check`. -/
def runCheck (key : ResolvedKey) (payload : CheckRequest) (requestId : String) (now : Time)
    (redis : Keyspace) : Except CheckError ScriptResult × Keyspace :=
  match (payload.call key requestId now).exec redis with
  | (.ok reply, redis') => ((decode (some reply.raw)).mapError .render, redis')
  | (.error e, redis') => (.error (.redis e), redis')

/-- What a request draws and finds: the id of its window member, the two clocks, and the key its secret
resolves to. -/
structure Drawn where
  resolved : Option ResolvedKey
  requestId : String
  now : Time
  utcnow : ℚ

/-- `check`, with the key resolved. -/
def checkRoute (payload : CheckRequest) (drawn : Drawn) (s : System) :
    Except CheckError CheckOut × System :=
  match drawn.resolved with
  | none => (.ok (refused "unknown_key"), s)
  | some key =>
    if key.revoked then (.ok (refused "revoked_key"), s)
    else
      match runCheck key payload drawn.requestId drawn.now s.world.redis with
      | (.error e, redis) => (.error e, ⟨s.db, ⟨redis, s.world.history⟩⟩)
      | (.ok result, redis) =>
        let history :=
          if result.softCrossed then
            (enqueueSoftWarning s.db key result.month result.quotaUsed drawn.utcnow
              s.world.history).2
          else s.world.history
        ((toOut key result).mapError .render, ⟨s.db, ⟨redis, history⟩⟩)

/-- The route behind its token. -/
def postCheck (expected header : Option String) (payload : CheckRequest) (drawn : Drawn) (s : System) :
    Except CheckError CheckOut × System :=
  match requireServiceToken expected header with
  | .error e => (.error e, s)
  | .ok () => checkRoute payload drawn s

/-! ### All requests -/

/-- What reaches the service: a request with its token, or a run of the rollup job. -/
inductive ApiEvent where
  | check (header : Option String) (payload : CheckRequest) (drawn : Drawn)
  | admin (header : Option String) (request : AdminRequest)
  | rollup (env : Environment)

/-- What an event ends with. The token of an admin request may be refused before its route is run. -/
inductive ApiReply where
  | check (out : Except CheckError CheckOut)
  | refusedAdmin (e : CheckError)
  | admin (out : Except AdminFault AdminOut)
  | rollup (stats : Except RunError Stats)

/-- The tokens that are configured. -/
structure Tokens where
  service : Option String
  admin : String

namespace Tokens

variable (tokens : Tokens)

/-- A request or a run, alone. -/
def exec : ApiEvent → System → ApiReply × System
  | .check header payload drawn, s =>
    let (out, after) := postCheck tokens.service header payload drawn s
    (.check out, after)
  | .admin header request, s =>
    match requireAdmin tokens.admin header with
    | .error e => (.refusedAdmin e, s)
    | .ok () =>
      let (out, db) := request.respond s.db
      (.admin out, { s with db })
  | .rollup env, s =>
    let (stats, world) := run env s.db s.world
    (.rollup stats, { s with world })

end Tokens

/-- A request, with what it draws. -/
inductive ApiRequest where
  | check (header : Option String) (payload : CheckRequest) (requestId : String) (now : Time)
    (utcnow : ℚ)
  | admin (header : Option String) (request : AdminRequest)

/-- With a cache of no duration, a check finds what its secret resolves to now. -/
def ApiRequest.event (hash : String → String) (db : Database) : ApiRequest → ApiEvent
  | .check header payload requestId now utcnow =>
    .check header payload ⟨db.load (hash payload.apiKey.val), requestId, now, utcnow⟩
  | .admin header request => .admin header request

/-- A request alone, with `hash_secret` for the hash. -/
def Tokens.serve (tokens : Tokens) (hash : String → String) (request : ApiRequest) (s : System) :
    ApiReply × System :=
  tokens.exec (request.event hash s.db) s

abbrev ApiStep := Step System ApiEvent ApiReply

end QuotaGuard
