import QuotaGuard.Proof.Bucket
import QuotaGuard.Proof.Denied

/-!
# Isolation

Names are built by concatenation and resources may contain the separator, but a key id can be read
back from every name. So a check touches the names of its own key only, and of one resource of the
key it touches one bucket and one window; the counter and the flag are what the resources of a key
share.
-/

namespace QuotaGuard

open CheckStep

variable {key : KeyId} {resource : Resource} {db db' : Keyspace} {c : Call}

/-! ### Between keys -/

/-- The keyspaces hold the same under every name of the key. -/
def AgreesOn (key : KeyId) (db db' : Keyspace) : Prop :=
  ∀ (f : Family) (rest : String), db' (f.name key rest) = db (f.name key rest)

theorem AgreesOn.sameView (h : AgreesOn c.key db db') : c.SameView db db' := by
  have hbucket := h .bucket c.resource.val
  have hwindow := h .window c.resource.val
  have hcounter := h .quota c.now.monthStr
  have hflag := h .flag c.now.monthStr
  rw [← Call.bkey_eq] at hbucket
  rw [← Call.skey_eq] at hwindow
  rw [← Call.qkey_eq] at hcounter
  rw [← Call.fkey_eq] at hflag
  refine .of_same hbucket ?_ hcounter hflag
  rw [Call.live, Keyspace.window_congr hwindow, ← Call.live]

theorem AgreesOn.check (h : AgreesOn c.key db db') : AgreesOn c.key (c.after db) (c.after db') := by
  intro f rest
  have hview := h.sameView
  by_cases hs : f.name c.key rest = c.skey
  · have hwindow := h f rest
    rw [hs] at hwindow ⊢
    by_cases hadmits : c.admits db = true
    · rw [Call.after_skey hadmits, Call.after_skey (hview.admits_eq.trans hadmits), hview.live]
    · have hdenied : ¬ c.admits db' = true := hview.admits_eq ▸ hadmits
      rw [Call.after_denied hadmits, Call.after_denied hdenied]
      exact Redis.trim_congr hwindow _
  · exact hview.after_eq hs (h f rest)

def CheckStep.ofKey (key : KeyId) (step : CheckStep) : Bool := decide (step.event.key = key)

theorem replies_of_key {steps steps' : List CheckStep} {first last first' last' : Keyspace}
    (hrun : Run Call.exec Undisturbed first steps last)
    (hrun' : Run Call.exec Undisturbed first' steps' last') (htyped : first.Typed)
    (htyped' : first'.Typed) (hstart : AgreesOn key first first')
    (hevents : (steps.filter (ofKey key)).map Step.event =
      (steps'.filter (ofKey key)).map Step.event) :
    (steps.filter (ofKey key)).map Step.reply = (steps'.filter (ofKey key)).map Step.reply := by
  refine Run.noninterference Call.exec
    (R := fun db solo => db.Typed ∧ solo.Typed ∧ AgreesOn key solo db)
    (fun c db solo h hown => ?_) (fun c db solo h hother => ?_) hrun hrun'
    ⟨htyped, htyped, fun _ _ => rfl⟩ ⟨htyped', htyped, hstart⟩ hevents
  · obtain ⟨hdb, hsolo, hagrees⟩ := h
    obtain rfl : c.key = key := of_decide_eq_true hown
    rw [Step.of_reply, Step.of_event, Call.exec_eq hdb, Call.exec_eq hsolo, hagrees.sameView.reply_eq]
    exact ⟨rfl, Call.typed_after hdb, Call.typed_after hsolo, hagrees.check⟩
  · obtain ⟨hdb, hsolo, hagrees⟩ := h
    have hne : c.key ≠ key := of_decide_eq_false hother
    rw [c.exec_after hdb]
    refine ⟨Call.typed_after hdb, hsolo, fun f rest => ?_⟩
    rw [Call.after_name fun h => hne h.1.symm]
    exact hagrees f rest

/-! ### Between the resources of a key -/

/-- The parts of a reply the burst and sustained layers decide, and the decision. -/
structure ShortReply where
  allowed : Int
  denyLayer : Option Layer
  bLimit : Int
  bRemaining : Int
  bReset : Int
  sLimit : Int
  sRemaining : Int
  sReset : Int
  deriving DecidableEq

def Reply.short (r : Reply) : ShortReply :=
  ⟨r.allowed, r.denyLayer, r.bLimit, r.bRemaining, r.bReset, r.sLimit, r.sRemaining, r.sReset⟩

/-- The state of the burst and sustained layers of one resource. -/
structure ShortState where
  bucket : Option (Int × Int)
  window : SortedSet String Int

/-- The two layers alone: one check, told what the quota layer says. -/
def shortExec (told : Call × Bool) (s : ShortState) : ShortReply × ShortState :=
  let argv := told.1.argv
  let now := told.1.now
  let refilled := refill argv.capUtok argv.rateUtok now.us s.bucket
  let live := s.window.removeBelow (now.us - argv.windowUs)
  let v : Verdict := ⟨decide (refilled.1 ≥ argv.cost * utok),
    decide ((live.card : Int) + 1 ≤ argv.sustainedLimit), told.2⟩
  if v.allowed then
    let bucket := if bucketTtl argv ≤ 0 then none
      else some (refilled.1 - argv.cost * utok, refilled.2)
    let window := if windowTtl argv ≤ 0 then ∅
      else live.insert (windowMember now.us argv.requestId) now.us
    ((report argv now v (refilled.1 - argv.cost * utok) (live.card + 1) 0 0 window.minScore).short,
      ⟨bucket, window⟩)
  else ((report argv now v refilled.1 live.card 0 0 live.minScore).short, ⟨s.bucket, live⟩)

/-- What the keyspace says about the two layers of a resource. -/
def shortState (key : KeyId) (resource : Resource) (db : Keyspace) : ShortState :=
  ⟨db.bucket (bucketName key resource), db.window (windowName key resource)⟩

/-- What the quota layer says to a check. -/
def CheckStep.quotaOk (step : CheckStep) : Bool := (step.event.verdict step.before).quotaOk

/-- The check is one of this resource of the key. -/
def CheckStep.ofResource (key : KeyId) (resource : Resource) (step : CheckStep) : Bool :=
  decide (step.event.key = key ∧ step.event.resource = resource)

/-- The script does what the two layers do when they are told what the quota layer says. -/
theorem shortExec_eq (c : Call) (db : Keyspace) :
    shortExec (c, (c.verdict db).quotaOk) (shortState c.key c.resource db) =
      ((c.reply db).short, shortState c.key c.resource (c.after db)) := by
  have hbkey : bucketName c.key c.resource = c.bkey := rfl
  have hskey : windowName c.key c.resource = c.skey := rfl
  have hexec : shortExec (c, (c.verdict db).quotaOk) (shortState c.key c.resource db) =
      if c.admits db then
        let bucket := if bucketTtl c.argv ≤ 0 then none
          else some ((c.refilled db).1 - c.argv.cost * utok, (c.refilled db).2)
        let window := if windowTtl c.argv ≤ 0 then ∅
          else (c.live db).insert (windowMember c.now.us c.argv.requestId) c.now.us
        ((report c.argv c.now (c.verdict db) ((c.refilled db).1 - c.argv.cost * utok)
          ((c.live db).card + 1) 0 0 window.minScore).short, ⟨bucket, window⟩)
      else ((report c.argv c.now (c.verdict db) (c.refilled db).1 (c.live db).card 0 0
        (c.live db).minScore).short, ⟨db.bucket c.bkey, c.live db⟩) := rfl
  rw [hexec, shortState, hbkey, hskey]
  by_cases hadmits : c.admits db = true
  · rw [if_pos hadmits, Call.reply, if_pos hadmits, Call.window_after_admitted hadmits,
      Call.bucket_after_admitted hadmits]
    rfl
  · rw [if_neg hadmits, Call.reply, if_neg hadmits, Call.window_after_denied hadmits,
      Call.bucket_after_denied hadmits]
    rfl

theorem shortState_after_of_ne (hother : ¬ (c.key = key ∧ c.resource = resource)) :
    shortState key resource (c.after db) = shortState key resource db := by
  have hown : ¬ (key = c.key ∧ resource.val = c.resource.val) :=
    fun h => hother ⟨h.1.symm, Resource.ext h.2.symm⟩
  have hbucket : c.after db (bucketName key resource) = db (bucketName key resource) :=
    Call.after_name hown
  have hwindow : c.after db (windowName key resource) = db (windowName key resource) :=
    Call.after_name hown
  rw [shortState, shortState, Keyspace.bucket_congr hbucket, Keyspace.window_congr hwindow]

theorem short_replies_of_resource {steps steps' : List CheckStep} {first last first' last' : Keyspace}
    (hrun : Run Call.exec Undisturbed first steps last)
    (hrun' : Run Call.exec Undisturbed first' steps' last') (htyped : first.Typed)
    (htyped' : first'.Typed)
    (hstart : shortState key resource first' = shortState key resource first)
    (hevents : (steps.filter (ofResource key resource)).map (fun step => (step.event, step.quotaOk)) =
      (steps'.filter (ofResource key resource)).map fun step => (step.event, step.quotaOk)) :
    (steps.filter (ofResource key resource)).map (fun step => step.reply.map Reply.short) =
      (steps'.filter (ofResource key resource)).map fun step => step.reply.map Reply.short := by
  refine Run.noninterference (fun told s => (Except.ok (shortExec told s).1, (shortExec told s).2))
    (R := fun db s => db.Typed ∧ s = shortState key resource db) (fun c db s h hown => ?_)
    (fun c db s h hother => ?_) hrun hrun' ⟨htyped, rfl⟩ ⟨htyped', hstart.symm⟩ hevents
  · obtain ⟨hdb, rfl⟩ := h
    obtain ⟨rfl, rfl⟩ : c.key = key ∧ c.resource = resource := of_decide_eq_true hown
    show Except.map Reply.short (c.exec db).1 =
        .ok (shortExec (c, (c.verdict db).quotaOk) (shortState c.key c.resource db)).1 ∧
      (c.exec db).2.Typed ∧
        (shortExec (c, (c.verdict db).quotaOk) (shortState c.key c.resource db)).2 =
          shortState c.key c.resource (c.exec db).2
    rw [Call.exec_eq hdb, shortExec_eq]
    exact ⟨rfl, Call.typed_after hdb, rfl⟩
  · obtain ⟨hdb, rfl⟩ := h
    have hne : ¬ (c.key = key ∧ c.resource = resource) := of_decide_eq_false hother
    rw [c.exec_after hdb]
    exact ⟨Call.typed_after hdb, (shortState_after_of_ne hne).symm⟩

/-- **Isolation between keys and resources.** Two runs that start alike for a key and have the same
checks of it, in the same order and whatever the checks of other keys, give these checks the same
replies. Two runs that start alike for one resource of a key, and have the same checks of it with the
same verdicts of the quota layer, give these checks the same decision and the same burst and
sustained outputs, whatever the checks of the other resources. -/
theorem isolation {steps steps' : List CheckStep} {first last first' last' : Keyspace}
    (hrun : Run Call.exec Undisturbed first steps last)
    (hrun' : Run Call.exec Undisturbed first' steps' last') (htyped : first.Typed)
    (htyped' : first'.Typed) (key : KeyId) :
    (AgreesOn key first first' →
      (steps.filter (ofKey key)).map Step.event = (steps'.filter (ofKey key)).map Step.event →
      (steps.filter (ofKey key)).map Step.reply = (steps'.filter (ofKey key)).map Step.reply) ∧
    ∀ resource, shortState key resource first' = shortState key resource first →
      (steps.filter (ofResource key resource)).map (fun step => (step.event, step.quotaOk)) =
        (steps'.filter (ofResource key resource)).map (fun step => (step.event, step.quotaOk)) →
      (steps.filter (ofResource key resource)).map (fun step => step.reply.map Reply.short) =
        (steps'.filter (ofResource key resource)).map fun step => step.reply.map Reply.short :=
  ⟨replies_of_key hrun hrun' htyped htyped',
    fun _ => short_replies_of_resource hrun hrun' htyped htyped'⟩

/-- Two checks of one key, with and without a check of another key between them. -/
theorem isolation_sample :
    let first : CheckStep := Step.of Call.exec (sampleCall 5 2 "a") Keyspace.empty
    let between : CheckStep := Step.of Call.exec { sampleCall 6 1 "b" with key := sampleOtherKey } first.after
    let second : CheckStep := Step.of Call.exec (sampleCall 8 2 "c") between.after
    let second' : CheckStep := Step.of Call.exec (sampleCall 8 2 "c") first.after
    between.admitted = true ∧ second.reply = second'.reply := by
  intro first between second second'
  have hrun : Run Call.exec Undisturbed Keyspace.empty [first, between, second] second.after :=
    .cons rfl (.cons rfl (.cons rfl (.nil _)))
  have hrun' : Run Call.exec Undisturbed Keyspace.empty [first, second'] second'.after :=
    .cons rfl (.cons rfl (.nil _))
  have hown : [first, between, second].filter (ofKey sampleKey) = [first, second] := by
    rw [List.filter_cons_of_pos (by decide +kernel),
      List.filter_cons_of_neg (by decide +kernel), List.filter_cons_of_pos (by decide +kernel),
      List.filter_nil]
  have hown' : [first, second'].filter (ofKey sampleKey) = [first, second'] := by
    rw [List.filter_cons_of_pos (by decide +kernel), List.filter_cons_of_pos (by decide +kernel),
      List.filter_nil]
  have hevents : ([first, between, second].filter (ofKey sampleKey)).map Step.event =
      ([first, second'].filter (ofKey sampleKey)).map Step.event := by
    rw [hown, hown']
    simp only [first, second, second', List.map_cons, List.map_nil, Step.of_event]
  have hreplies := (isolation hrun hrun' Keyspace.typed_empty Keyspace.typed_empty sampleKey).1
    (fun _ _ => rfl) hevents
  rw [hown, hown', List.map_cons, List.map_cons, List.map_cons, List.map_cons] at hreplies
  exact ⟨by decide +kernel, (List.cons.inj (List.cons.inj hreplies).2).1⟩

end QuotaGuard
