import QuotaGuard.Lib.Run
import QuotaGuard.Proof.Effect
import QuotaGuard.Service.Models

/-!
# Runs of checks

Every front end hands its checks to the same Redis, which executes them one after the other. A run is
the list of these executions. The link of a run says what may happen to the keyspace between two of
them; all links used here keep the types of the families, so every check of a run answers.
-/

namespace QuotaGuard

/-- One execution of the check script. -/
abbrev CheckStep := Step Keyspace Call (Except RedisError Reply)

def allows : Except RedisError Reply → Bool
  | .ok r => decide (r.allowed = 1)
  | .error _ => false

namespace CheckStep

def admitted (step : CheckStep) : Bool := allows step.reply

def us (step : CheckStep) : Int := step.event.now.us

def cost (step : CheckStep) : Int := step.event.argv.cost

end CheckStep

def admittedCosts (steps : List CheckStep) : Int :=
  ((steps.filter CheckStep.admitted).map CheckStep.cost).sum

/-- Between two checks anything may happen but to the key `name`. -/
def Keeping (name : String) (_ : Call) (db found : Keyspace) : Prop :=
  found.Typed ∧ found name = db name

section

variable [Arithmetic]

/-- The execution found a typed keyspace and did what `Call.exec_eq` says. -/
structure CheckStep.Answered (step : CheckStep) : Prop where
  typed : step.before.Typed
  reply_eq : step.reply = .ok (step.event.reply step.before)
  after_eq : step.after = step.event.after step.before

theorem Call.answered (c : Call) {db : Keyspace} (h : db.Typed) :
    CheckStep.Answered (Step.of Call.exec c db) where
  typed := h
  reply_eq := congrArg Prod.fst (exec_eq h)
  after_eq := congrArg Prod.snd (exec_eq h)

theorem allows_reply {c : Call} {db : Keyspace} : allows (.ok (c.reply db)) = c.admits db := by
  rw [allows, Call.reply_allowed]
  cases c.admits db <;> rfl

theorem CheckStep.Answered.admitted_eq {step : CheckStep} (h : step.Answered) :
    step.admitted = step.event.admits step.before := by
  rw [admitted, h.reply_eq, allows_reply]

theorem Call.admitted_step (c : Call) {db : Keyspace} (h : db.Typed) :
    CheckStep.admitted (Step.of Call.exec c db) = c.admits db :=
  (c.answered h).admitted_eq

theorem Call.exec_after (c : Call) {db : Keyspace} (h : db.Typed) : (c.exec db).2 = c.after db :=
  congrArg Prod.snd (exec_eq h)

theorem Call.us_step (c : Call) (db : Keyspace) :
    CheckStep.us (Step.of Call.exec c db) = c.now.us := rfl

/-- In a run that starts typed, and whose link keeps types, every check answers. -/
theorem answered_of_run {link : Call → Keyspace → Keyspace → Prop}
    (hlink : ∀ c db found, db.Typed → link c db found → found.Typed)
    {db db' : Keyspace} {steps : List CheckStep} (hrun : Run Call.exec link db steps db')
    (hstart : db.Typed) : db'.Typed ∧ ∀ step ∈ steps, step.Answered := by
  have hexec (c : Call) (db : Keyspace) (_ : True) (h : db.Typed) : (c.exec db).2.Typed := by
    rw [Call.exec_eq h]
    exact Call.typed_after h
  obtain ⟨hend, htyped⟩ := hrun.invariant hlink hexec hstart fun _ _ => trivial
  refine ⟨hend, fun step hmem => ?_⟩
  rw [hrun.eq_of hmem]
  exact Call.answered _ (htyped step hmem).1

end

/-! ### A key and a plan, for the runs exhibited after the theorems -/

def sampleKey : KeyId :=
  generateKeyId (List.replicate 12 'a') rfl (List.all_eq_true.mp (by decide))

def sampleOtherKey : KeyId :=
  generateKeyId (List.replicate 12 'b') rfl (List.all_eq_true.mp (by decide))

def sampleResource : Resource :=
  ⟨"pdf", by decide, by decide, List.all_eq_true.mp (by decide)⟩

/-- Two requests of burst, one a second; three in any ten seconds; four a month. -/
def samplePlan : ResolvedKey where
  keyId := sampleKey
  name := "sample"
  planSlug := "free"
  revoked := false
  burstCapacity := 2
  burstRefillPerSec := 1
  sustainedLimit := 3
  sustainedWindowSeconds := 10
  monthlyQuota := 4
  quotaSoftPct := 75
  redisDownPolicy := "closed"

theorem samplePlan_withinBounds : samplePlan.WithinBounds := by
  constructor <;> decide

/-- For the numerals of `sampleTime`. -/
instance neZero_day : NeZero 86400 := ⟨by decide⟩

/-- A reading in the first day of the epoch. -/
def sampleTime (sec : Fin 86400) : Time := ⟨sec, 0, by decide⟩

def sampleCall (sec : Fin 86400) (cost : Int) (requestId : String) : Call :=
  ⟨sampleKey, sampleResource, sampleTime sec, scriptArgv samplePlan cost requestId⟩

def samplePlanRow : Plan :=
  ⟨1, "free", "Free", 2, 1, 3, 10, 4, 75, some "https://example.com", "fail_closed"⟩

def sampleKeyRow : ApiKey :=
  ⟨1, sampleKey, "digest", "sample", 1, none, none, none, none, none, none⟩

def sampleDatabase : Database where
  plans := [samplePlanRow]
  keys := [sampleKeyRow]
  planOf := by
    intro key hkey
    rw [List.mem_singleton.mp hkey]
    exact ⟨samplePlanRow, List.mem_singleton_self _, rfl⟩
  planIds := List.nodup_singleton _
  slugs := List.nodup_singleton _
  ids := List.nodup_singleton _
  keyIds := List.nodup_singleton _
  hashes := List.nodup_singleton _

theorem sample_typed [Arithmetic] (c : Call) : (Step.of Call.exec c Keyspace.empty).after.Typed := by
  rw [Step.of_after, c.exec_after Keyspace.typed_empty]
  exact Call.typed_after Keyspace.typed_empty

end QuotaGuard
