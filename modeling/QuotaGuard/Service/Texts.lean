import QuotaGuard.Lib.Json
import QuotaGuard.Lua.Civil
import QuotaGuard.Service.History

/-!
# Timestamps, webhook bodies and log lines

`to_iso_utc`, the body that `build_payload` freezes, and the lines `JsonFormatter` writes. The values of
a log record are strings and numbers here, which are all that the code logs; `json.dumps` would write
booleans, lists and dicts as JSON too, and any other value as its `str`.
-/

namespace QuotaGuard

/-! ### Timestamps -/

/-- The second, the minute and so on of a UTC timestamp, from the year on. -/
def clockFields (sec : Int) : List Nat :=
  let date := civilFromDays (sec / 86400)
  let time := sec % 86400
  [date.1.toNat, date.2.1.toNat, date.2.2.toNat, (time / 3600).toNat, (time / 60 % 60).toNat,
    (time % 60).toNat]

/-- `%Y-%m-%dT%H:%M:%S`, with the character behind it. -/
def isoShape (last : Char) : List (Nat × Char) :=
  [(4, '-'), (2, '-'), (2, 'T'), (2, ':'), (2, ':'), (2, last)]

/-- `to_iso_utc`: the microseconds are dropped. -/
def toIsoUtc (value : ℚ) : String := String.ofList (Text.fields (isoShape 'Z') (clockFields ⌊value⌋))

/-! ### The body of a warning -/

/-- The members of the body, in their order. -/
def Payload.members (p : Payload) : Json.Members :=
  [("event", .string "quota.soft_threshold"), ("key_id", .string p.keyId),
    ("key_name", .string p.keyName), ("plan", .string p.plan), ("month", .string p.month),
    ("used", .number (.ofInt p.used)), ("quota", .number (.ofInt p.quota)),
    ("threshold_pct", .number (.ofInt p.thresholdPct)), ("sent_at", .string (toIsoUtc p.sentAt))]

/-- `build_payload`. -/
def buildPayload (p : Payload) : String := String.ofList (Json.dump p.members)

/-! ### Log lines -/

/-- `CONTEXT_FIELDS`. -/
inductive ContextField where
  | event
  | requestId
  | route
  | statusCode
  | durationMs
  | keyId
  | resource
  | denyLayer
  | policy
  | month
  | errorCode
  deriving DecidableEq

def ContextField.name : ContextField → String
  | .event => "event"
  | .requestId => "request_id"
  | .route => "route"
  | .statusCode => "status_code"
  | .durationMs => "duration_ms"
  | .keyId => "key_id"
  | .resource => "resource"
  | .denyLayer => "deny_layer"
  | .policy => "policy"
  | .month => "month"
  | .errorCode => "error_code"

def contextFields : List ContextField :=
  [.event, .requestId, .route, .statusCode, .durationMs, .keyId, .resource, .denyLayer, .policy, .month,
    .errorCode]

/-- What the formatter reads of a record; `requestId` is the attribute of the record. -/
structure LogRecord where
  created : ℚ
  msecs : Fin 1000
  levelname : String
  name : String
  message : String
  requestId : Option String
  extra : ContextField → Option Json.Value
  excInfo : Option String

/-- `%Y-%m-%dT%H:%M:%S` of the second and the milliseconds. -/
def LogRecord.timestamp (record : LogRecord) : String :=
  String.ofList (Text.fields (isoShape '.' ++ [(3, 'Z')])
    (clockFields ⌊record.created⌋ ++ [record.msecs.val]))

/-- `a or b` of two strings that may be missing: an empty one is falsy, and the second is then taken. -/
def orText (a b : Option String) : Option String := (a.filter (· ≠ "")).orElse fun _ => b

/-- The payload of a line. The request id of the context stands in for one the record lacks. -/
def LogRecord.members (context : Option String) (record : LogRecord) : Json.Members :=
  [("timestamp", .string record.timestamp), ("level", .string record.levelname),
    ("logger", .string record.name), ("message", .string record.message)] ++
  (((orText record.requestId context).filter (· ≠ "")).map
    fun id => ("request_id", .string id)).toList ++
  (contextFields.filter (· ≠ .requestId)).filterMap
    (fun field => (record.extra field).map fun value => (field.name, value)) ++
  (record.excInfo.map fun text => ("exception", .string text)).toList

/-- `JsonFormatter.format`. -/
def LogRecord.format (context : Option String) (record : LogRecord) : String :=
  String.ofList (Json.dump (record.members context))

/-- What the handler has written for the records: each line and its terminator. -/
def logStream (records : List (Option String × LogRecord)) : List Char :=
  records.flatMap fun record => (record.2.format record.1).toList ++ ['\n']

/-- The objects on the lines of a stream. -/
def readLog (text : List Char) : Option (List Json.Members) :=
  (text.splitOn '\n').dropLast.mapM Json.read

end QuotaGuard
