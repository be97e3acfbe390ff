import QuotaGuard.Proof.Delivery

/-!
# Rows that are passed over

The query of a pass takes fifty due rows before anyone asks which of them can be delivered. A row whose
plan has lost its webhook is passed over and left as it is, so it is due again in the next pass; fifty of
them can keep every other row out.
-/

namespace QuotaGuard

variable {settings : WebhookSettings} {s s' : System} {steps : List DeliveryStep}

/-- The due rows that can be delivered. -/
def System.deliverable (settings : WebhookSettings) (now : ℚ) (s : System) : List WebhookOutbox :=
  (s.world.history.outbox.filter fun row => row.Due settings now).filter fun row =>
    (s.db.webhookOf row.apiKeyId).isSome

/-- The query has taken no row that cannot be delivered, or all that can. -/
def DeliveryPass.Fair (settings : WebhookSettings) (pass : DeliveryPass) (s : System) : Prop :=
  (∀ row ∈ pass.batch, (s.db.webhookOf row.apiKeyId).isSome) ∨
    ∀ row ∈ s.deliverable settings pass.now, row ∈ pass.batch

/-- **A pass attempts as many deliverable rows as it may exactly when its query was fair.** The rows it
attempts are due, can be delivered, and are different ones, in every pass of every run. -/
theorem pass_attempts_iff (hrun : Run (System.deliveryExec settings) System.Losing s steps s')
    (hregular : ∀ step ∈ steps, DeliveryStep.Regular settings step) :
    ∀ step ∈ steps, ∀ pass, step.event = .deliver pass →
      (step.reply.map Post.rowId).Nodup ∧
      (∀ post ∈ step.reply, ∃ row ∈ step.before.deliverable settings pass.now, row.id = post.rowId) ∧
      (step.reply.length = min batchSize (step.before.deliverable settings pass.now).length ↔
        pass.Fair settings step.before) := by
  intro step hmem pass hevent
  have hbatch := (hregular step hmem).queried pass hevent
  have hposts : step.reply = pass.batch.filterMap fun row =>
      (step.before.db.webhookOf row.apiKeyId).map (postFor settings row) := by
    have hstep : step = Step.of (System.deliveryExec settings) (.deliver pass) step.before := by
      rw [← hevent]
      exact hrun.eq_of hmem
    rw [congrArg Step.reply hstep]
    exact (System.deliver_eq hbatch ((hregular step hmem).caught pass hevent)).2
  have hids : step.reply.map Post.rowId = (pass.batch.filter fun row =>
      (step.before.db.webhookOf row.apiKeyId).isSome).map WebhookOutbox.id := by
    rw [hposts, rowIds_posts]
  have hdue {row : WebhookOutbox} (hrow : row ∈ pass.batch) :
      row ∈ step.before.world.history.outbox.filter fun row => row.Due settings pass.now :=
    List.mem_filter.mpr ((hbatch.mem row hrow).imp_right decide_eq_true)
  refine ⟨?_, fun post hpost => ?_, ?_⟩
  · rw [hids]
    refine (hbatch.nodup.filter _).map_on fun row hrow other hother hid => ?_
    exact History.row_eq_of_id (hbatch.mem other (List.mem_filter.mp hother).1).1
      (hbatch.mem row (List.mem_filter.mp hrow).1).1 hid
  · have hid : post.rowId ∈ step.reply.map Post.rowId := List.mem_map_of_mem hpost
    rw [hids] at hid
    obtain ⟨row, hrow, hsame⟩ := List.mem_map.mp hid
    obtain ⟨hrow, hurl⟩ := List.mem_filter.mp hrow
    exact ⟨row, List.mem_filter.mpr ⟨hdue hrow, hurl⟩, hsame⟩
  · have hlength : step.reply.length = (pass.batch.filter fun row =>
        (step.before.db.webhookOf row.apiKeyId).isSome).length := by
      rw [← List.length_map Post.rowId, hids, List.length_map]
    have houtbox := List.Nodup.of_map _ step.before.world.history.outboxIds
    rw [hlength, System.deliverable, Table.length_filter_limit_iff (houtbox.filter _) hbatch.nodup
      (fun row hrow => hdue hrow) hbatch.length, DeliveryPass.Fair]
    simp only [System.deliverable, List.mem_filter (p := fun row : WebhookOutbox =>
      (step.before.db.webhookOf row.apiKeyId).isSome), and_imp]

def sampleProPlan : Plan := { sampleHalfPlan with id := 2, slug := "pro" }

/-- A key of each plan. -/
def samplePair : Database where
  plans := [sampleHalfPlan, sampleProPlan]
  keys := [sampleKeyRow, { sampleKeyRow with
    id := 2
    keyId := sampleOtherKey
    keyHash := "other"
    planId := 2 }]
  planOf := by decide +kernel
  planIds := by decide +kernel
  slugs := by decide +kernel
  ids := by decide +kernel
  keyIds := by decide +kernel
  hashes := by decide +kernel

/-- Each key makes a check that crosses its threshold, and then a plan gives up its webhook. -/
def samplePairEvents : List SystemEvent :=
  (samplePair.keys.zip samplePair.plans).map (fun (key, plan) =>
    .check { sampleCheckRun plan false with limits := key.resolve plan }) ++
    [.admin (.writePlan 1 { quotaSoftPct := some 0, webhookUrl := some none })]

/-- Both warnings are due. The one of the plan without a webhook is passed over, the other attempted. -/
theorem pass_attempts_iff_sample :
    let exec := System.deliveryExec sampleWebhookSettings
    let first : System := ⟨samplePair, ⟨Keyspace.empty, History.empty⟩⟩
    let silenced := Run.final exec first (samplePairEvents.map .service)
    let pass := samplePass 60 500 silenced.world.history.outbox
    let last := Step.of exec (.deliver pass) silenced
    pass.batch.map (fun row => (silenced.db.webhookOf row.apiKeyId).isSome) = [false, true] ∧
      last.reply.length = min batchSize (silenced.deliverable sampleWebhookSettings 60).length := by
  intro exec first silenced pass last
  have hdue : ∀ row ∈ pass.batch, row.Due sampleWebhookSettings 60 := by decide +kernel
  have hbatch : IsBatch sampleWebhookSettings 60 silenced.world.history pass.batch :=
    ⟨List.Nodup.of_map _ silenced.world.history.outboxIds, fun row hrow => ⟨hrow, hdue row hrow⟩,
      by decide +kernel⟩
  have hrun : Run exec System.Losing first
      (Run.trace exec first (samplePairEvents.map .service) ++ [last]) last.after := by
    refine Run.append_iff.mpr ⟨silenced, (Run.of_events _ _ _).mono fun e s found hlink => ?_,
      .cons (.refl _ _) (.nil _)⟩
    cases hlink
    exact .refl e s
  have hregular : ∀ step ∈ Run.trace exec first (samplePairEvents.map .service) ++ [last],
      DeliveryStep.Regular sampleWebhookSettings step := by
    intro step hmem
    rcases List.mem_append.mp hmem with hmem | hmem
    · have hevent := List.mem_map_of_mem (f := Step.event) hmem
      rw [Run.map_event_trace] at hevent
      obtain ⟨event, -, hevent⟩ := List.mem_map.mp hevent
      exact .of_service hevent.symm
    · rw [List.mem_singleton.mp hmem]
      constructor
      · rintro _ ⟨⟩
        exact hbatch
      · rintro _ ⟨⟩
        exact fun _ _ => nofun
  have hfair : pass.Fair sampleWebhookSettings last.before :=
    .inr fun row hrow => (List.mem_filter.mp (List.mem_filter.mp hrow).1).1
  exact ⟨by decide +kernel, ((pass_attempts_iff hrun hregular last
    (List.mem_append_right _ (List.mem_singleton_self _)) _ rfl).2.2).mpr hfair⟩

/-! ### Fifty rows in the way -/

/-- The digits of the ids of the fifty-one keys. -/
def sampleDigits (i : Fin 51) : List Char :=
  List.replicate 10 'a' ++ [Nat.digitChar (i / 10), Nat.digitChar (i % 10)]

theorem sampleDigits_hex : ∀ i : Fin 51, (sampleDigits i).all isHex = true := by decide +kernel

/-- Fifty keys have the first plan, the last one has the second. -/
def samplePlanOf (i : Fin 51) : Plan := if i < 50 then sampleHalfPlan else sampleProPlan

def sampleOwner (i : Fin 51) : ApiKey :=
  { sampleKeyRow with
    id := i + 1
    keyId := generateKeyId (sampleDigits i) rfl (List.all_eq_true.mp (sampleDigits_hex i))
    keyHash := toString i
    planId := (samplePlanOf i).id }

def sampleOwners : Database where
  plans := [sampleHalfPlan, sampleProPlan]
  keys := List.ofFn sampleOwner
  planOf := by decide +kernel
  planIds := by decide +kernel
  slugs := by decide +kernel
  ids := by decide +kernel
  keyIds := by decide +kernel
  hashes := by decide +kernel

/-- A check of the key that crosses its threshold. -/
def sampleCrossing (i : Fin 51) : CheckRun where
  limits := (sampleOwner i).resolve (samplePlanOf i)
  resource := sampleResource
  cost := 2
  requestId := "a"
  now := sampleTime 0
  utcnow := 0
  crashes := false

theorem sampleCrossing_reply : ∀ i : Fin 51,
    ((sampleCrossing i).call.reply Keyspace.empty).softCrossed = 1 := by decide +kernel

theorem sampleOwner_mem (i : Fin 51) : sampleOwner i ∈ sampleOwners.keys := List.mem_ofFn.mpr ⟨i, rfl⟩

theorem sampleOwner_ne {i j : Fin 51} (hne : j ≠ i) : (sampleOwner j).keyId ≠ (sampleOwner i).keyId := by
  intro hsame
  have howner := List.inj_on_of_nodup_map sampleOwners.keyIds (sampleOwner_mem j) (sampleOwner_mem i) hsame
  exact hne (Fin.ext (Nat.succ_injective (congrArg ApiKey.id howner)))

/-- A check that crosses the threshold of its key enqueues a warning. -/
theorem System.check_crossed {request : CheckRun} {key : ApiKey} (htyped : s.world.redis.Typed)
    (hcrossed : (request.call.reply s.world.redis).softCrossed = 1) (hcrashes : request.crashes = false)
    (hkey : s.db.keyOf request.limits.keyId.val = some key) :
    ∃ warning : Warning, warning.apiKeyId = key.id ∧ warning.nextAttemptAt = request.utcnow ∧
      (s.check request).2 =
        ⟨s.db, ⟨request.call.after s.world.redis, (enqueue s.world.history warning).2⟩⟩ := by
  unfold System.check enqueueSoftWarning
  rw [Call.exec_eq htyped]
  simp only [hcrossed, hcrashes, hkey, and_self, if_true]
  exact ⟨_, rfl, rfl, rfl⟩

/-- The first keys have crossed their thresholds, the others have made no check. -/
structure Crossed (n : Nat) (s : System) : Prop where
  db : s.db = sampleOwners
  typed : s.world.redis.Typed
  unseen : ∀ i : Fin 51, n ≤ i → ∀ f rest,
    s.world.redis (Family.name f (sampleOwner i).keyId rest) = none
  owners : s.world.history.outbox.map WebhookOutbox.apiKeyId = (List.range n).map (· + 1)
  enqueued : ∀ row ∈ s.world.history.outbox,
    row.attempts = 0 ∧ row.deliveredAt = none ∧ row.nextAttemptAt = 0

theorem Crossed.check {i : Fin 51} (h : Crossed i s) :
    Crossed (i + 1) (s.check (sampleCrossing i)).2 := by
  let c := (sampleCrossing i).call
  have hnew (f : Family) (rest : String) : s.world.redis (f.name c.key rest) = none :=
    h.unseen i le_rfl f rest
  have hlive : c.live s.world.redis = c.live Keyspace.empty := by
    rw [Call.live, Call.live, c.skey_eq, Keyspace.window_of_none (hnew _ _),
      Keyspace.window_of_none (Keyspace.empty_apply _)]
  have hview : c.SameView Keyspace.empty s.world.redis :=
    .of_same (hnew .bucket _) hlive (c.qkey_eq ▸ hnew .quota _) (c.fkey_eq ▸ hnew .flag _)
  have hcrossed : (c.reply s.world.redis).softCrossed = 1 := by
    rw [hview.reply_eq]
    exact sampleCrossing_reply i
  have hkey : s.db.keyOf (sampleCrossing i).limits.keyId.val = some (sampleOwner i) := by
    rw [h.db]
    exact Database.keyOf_val (sampleOwner_mem i)
  obtain ⟨warning, howner, hnow, hcheck⟩ := System.check_crossed h.typed hcrossed rfl hkey
  have hfree : warning.slot ∉ s.world.history.outbox.map WebhookOutbox.slot := by
    intro hmem
    obtain ⟨row, hrow, hslot⟩ := List.mem_map.mp hmem
    have hold : row.apiKeyId ∈ s.world.history.outbox.map WebhookOutbox.apiKeyId :=
      List.mem_map_of_mem hrow
    have hsame : row.apiKeyId = i + 1 := (congrArg Prod.fst hslot).trans howner
    rw [h.owners, hsame] at hold
    simp at hold
  obtain ⟨id, houtbox⟩ : ∃ id, (enqueue s.world.history warning).2.outbox =
      s.world.history.outbox ++ [warning.row id] := by
    unfold enqueue
    rcases s.world.history.insertOutbox_cases warning with ⟨h', id, hok, houtbox, -⟩ | ⟨-, hslot⟩
    · rw [hok]
      exact ⟨id, houtbox⟩
    · exact absurd hslot hfree
  rw [hcheck]
  refine ⟨h.db, Call.typed_after h.typed, fun j hj f rest => ?_, ?_, ?_⟩
  · have hne : j ≠ i := by
      rintro rfl
      omega
    show c.after s.world.redis _ = none
    rw [Call.after_name fun hown => sampleOwner_ne hne hown.1]
    exact h.unseen j (by omega) f rest
  · show (enqueue s.world.history warning).2.outbox.map _ = _
    rw [houtbox, List.map_append, h.owners, List.range_succ, List.map_append]
    exact congrArg (_ ++ [·]) howner
  · show ∀ row ∈ (enqueue s.world.history warning).2.outbox, _
    rw [houtbox]
    intro row hrow
    rcases List.mem_append.mp hrow with hold | hadded
    · exact h.enqueued row hold
    · rw [List.mem_singleton.mp hadded]
      exact ⟨rfl, rfl, hnow⟩

/-- Each of the fifty-one keys makes a check. -/
theorem crossed_run (settings : WebhookSettings) {n : Nat} (hn : n ≤ 51) :
    ∃ steps s, Run (System.deliveryExec settings) System.Losing
        ⟨sampleOwners, ⟨Keyspace.empty, History.empty⟩⟩ steps s ∧
      (∀ step ∈ steps, DeliveryStep.Regular settings step) ∧ Crossed n s := by
  induction n with
  | zero =>
      refine ⟨[], _, .nil _, fun _ hmem => absurd hmem List.not_mem_nil, rfl, Keyspace.typed_empty,
        fun _ _ _ _ => rfl, rfl, fun _ hmem => absurd hmem List.not_mem_nil⟩
  | succ n ih =>
      obtain ⟨steps, s, hrun, hregular, hcrossed⟩ := ih (by omega)
      let event : DeliveryEvent := .service (.check (sampleCrossing ⟨n, hn⟩))
      refine ⟨steps ++ [Step.of (System.deliveryExec settings) event s], _,
        Run.snoc_iff.mpr ⟨s, event, s, hrun, .refl _ _, rfl, rfl⟩, fun step hmem => ?_,
        Crossed.check (i := ⟨n, hn⟩) hcrossed⟩
      rcases List.mem_append.mp hmem with hmem | hmem
      · exact hregular step hmem
      · rw [List.mem_singleton.mp hmem]
        exact .of_service rfl

/-- The first plan gives up its threshold and its webhook. -/
def sampleSilenced : PlanUpdateRequest :=
  { quotaSoftPct := some (some ⟨0, le_rfl, Int.natCast_nonneg 100⟩), webhookUrl := some none }

def sampleSilencedWrite : AdminWrite :=
  .writePlan 1 { quotaSoftPct := some 0, webhookUrl := some none }

def sampleSilencedOwners : Database :=
  sampleOwners.writePlan 1 { quotaSoftPct := some 0, webhookUrl := some none }

theorem sampleSilencedOwners_webhooks : ∀ i : Fin 51,
    (sampleSilencedOwners.webhookOf (i + 1)).isSome = decide (i = 50) := by decide +kernel

theorem Crossed.due (h : Crossed 51 s) : s.world.history.outbox.filter
    (fun row => row.Due sampleWebhookSettings 60) = s.world.history.outbox := by
  rw [List.filter_eq_self]
  intro row hrow
  obtain ⟨hattempts, hdelivered, hnext⟩ := h.enqueued row hrow
  refine decide_eq_true ⟨hdelivered, ?_, ?_⟩
  · rw [hnext]
    norm_num
  · rw [hattempts]
    decide

/-- What the query of a pass may return: the rows of the first fifty keys. -/
theorem Crossed.isBatch (h : Crossed 51 s) :
    IsBatch sampleWebhookSettings 60 s.world.history (s.world.history.outbox.take 50) where
  nodup := (List.Nodup.of_map _ s.world.history.outboxIds).sublist (List.take_sublist _ _)
  mem := by
    intro row hrow
    have hmem := List.mem_of_mem_take hrow
    rw [← h.due, List.mem_filter, decide_eq_true_eq] at hmem
    exact hmem
  length := by
    rw [h.due, List.length_take]

theorem Crossed.unreachable (h : Crossed 51 s) (row : WebhookOutbox)
    (hrow : row ∈ s.world.history.outbox.take 50) :
    sampleSilencedOwners.webhookOf row.apiKeyId = none := by
  have howner : row.apiKeyId ∈ ((List.range 51).map (· + 1)).take 50 := by
    rw [← h.owners, ← List.map_take]
    exact List.mem_map_of_mem hrow
  rw [← List.map_take, show (List.range 51).take 50 = List.range 50 by decide] at howner
  obtain ⟨i, hi, howner⟩ := List.mem_map.mp howner
  rw [List.mem_range] at hi
  have hnone := sampleSilencedOwners_webhooks ⟨i, by omega⟩
  rw [show decide ((⟨i, by omega⟩ : Fin 51) = 50) = false by
    rw [decide_eq_false_iff_not, Fin.ext_iff]
    exact hi.ne] at hnone
  rw [← howner]
  exact Option.not_isSome_iff_eq_none.mp (by simpa using hnone)

theorem Crossed.one_deliverable (h : Crossed 51 s) :
    (System.deliverable sampleWebhookSettings 60 ⟨sampleSilencedOwners, s.world⟩).length = 1 := by
  have hcount : ((s.world.history.outbox.map WebhookOutbox.apiKeyId).filter fun owner =>
      (sampleSilencedOwners.webhookOf owner).isSome).length = 1 := by
    rw [h.owners]
    decide +kernel
  rw [List.filter_map, List.length_map] at hcount
  rw [System.deliverable, h.due]
  exact hcount

/-- Fifty-one keys are to be warned when fifty of them lose their webhook. The query of the next pass
takes these fifty, and the pass attempts nothing, though the one row behind them is due and can be
delivered. -/
theorem starved_pass :
    updatePlan "free" sampleSilenced sampleOwners = .ok sampleSilencedWrite ∧
    ∃ steps s', Run (System.deliveryExec sampleWebhookSettings) System.Losing
        ⟨sampleOwners, ⟨Keyspace.empty, History.empty⟩⟩ steps s' ∧
      (∀ step ∈ steps, DeliveryStep.Regular sampleWebhookSettings step) ∧
      ∃ step ∈ steps, ∃ pass, step.event = .deliver pass ∧ step.reply = [] ∧
        (step.before.deliverable sampleWebhookSettings pass.now).length = 1 := by
  refine ⟨by decide +kernel, ?_⟩
  obtain ⟨steps, s, hrun, hregular, hcrossed⟩ := crossed_run sampleWebhookSettings le_rfl
  let silencing : DeliveryEvent := .service (.admin sampleSilencedWrite)
  let pass := samplePass 60 200 (s.world.history.outbox.take 50)
  let silenced : System := ⟨sampleSilencedOwners, s.world⟩
  have hsilenced : (System.deliveryExec sampleWebhookSettings silencing s).2 = silenced := by
    show (System.admin sampleSilencedWrite s).2 = silenced
    rw [System.admin, sampleSilencedWrite, AdminWrite.commit, hcrossed.db]
    rfl
  let last := Step.of (System.deliveryExec sampleWebhookSettings) (.deliver pass) silenced
  have hlast : DeliveryStep.Regular sampleWebhookSettings last := by
    constructor
    · rintro _ ⟨⟩
      exact hcrossed.isBatch
    · rintro _ ⟨⟩
      exact fun _ _ => nofun
  have hnothing : last.reply = [] := by
    refine (System.deliver_eq (hlast.queried pass rfl) (hlast.caught pass rfl)).2.trans ?_
    rw [List.filterMap_eq_nil_iff]
    intro row hrow
    show (sampleSilencedOwners.webhookOf row.apiKeyId).map _ = none
    rw [hcrossed.unreachable row hrow]
    rfl
  refine ⟨steps ++ [Step.of (System.deliveryExec sampleWebhookSettings) silencing s] ++ [last], _,
    Run.snoc_iff.mpr ⟨silenced, .deliver pass, silenced, Run.snoc_iff.mpr
      ⟨s, silencing, s, hrun, .refl _ _, rfl, hsilenced.symm⟩, .refl _ _, rfl, rfl⟩,
    fun step hmem => ?_, last, List.mem_append_right _ (List.mem_singleton_self _), pass, rfl,
    hnothing, hcrossed.one_deliverable⟩
  rcases List.mem_append.mp hmem with hmem | hmem
  · rcases List.mem_append.mp hmem with hmem | hmem
    · exact hregular step hmem
    · rw [List.mem_singleton.mp hmem]
      exact .of_service rfl
  · rw [List.mem_singleton.mp hmem]
    exact hlast

end QuotaGuard
