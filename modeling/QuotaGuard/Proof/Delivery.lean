import QuotaGuard.Proof.Reconcile
import QuotaGuard.Proof.Webhooks
import QuotaGuard.Service.Delivery

/-!
# The life of a warning

A row enters the outbox undelivered and without an attempt, and only passes change it: a POST that
succeeds delivers it for good, and one that fails counts an attempt and puts the row off. `Life` is that
life of one row, with the requests made for it.
-/

namespace QuotaGuard

variable {settings : WebhookSettings} {db : Database} {attempts : Nat → Attempt}
  {batch rest : List WebhookOutbox} {first row saved : WebhookOutbox} {url : String} {pass : Pass} {h h' h'' : History}
  {now : ℚ}

/-! ### One pass -/

/-- The row as `deliver_one` leaves it. -/
def WebhookOutbox.afterAttempt (row : WebhookOutbox) (attempt : Attempt) : WebhookOutbox :=
  (deliverOne row attempt).toOption.getD row

/-- The row as a pass leaves it: rows without a webhook are passed over. -/
def WebhookOutbox.served (db : Database) (attempts : Nat → Attempt) (batch : List WebhookOutbox)
    (row : WebhookOutbox) : WebhookOutbox :=
  if row ∈ batch ∧ (db.webhookOf row.apiKeyId).isSome then row.afterAttempt (attempts row.id) else row

namespace WebhookOutbox

theorem served_nil : served db attempts [] = fun row => row := by
  funext row
  simp [served]

theorem served_cons_none (hurl : db.webhookOf first.apiKeyId = none) :
    served db attempts (first :: batch) = served db attempts batch := by
  funext row
  by_cases hrow : row = first
  · subst hrow
    simp [served, hurl]
  · simp [served, hrow]

/-- The first row is saved, and the rest of the batch is served after it. -/
theorem served_cons_some (hurl : db.webhookOf first.apiKeyId = some url)
    (hunsaved : first.afterAttempt (attempts first.id) ∉ batch) :
    served db attempts (first :: batch) = fun row => served db attempts batch
      (if row = first then first.afterAttempt (attempts first.id) else row) := by
  funext row
  by_cases hrow : row = first
  · subst hrow
    simp [served, hurl, hunsaved]
  · simp [served, hrow]

end WebhookOutbox

theorem deliverOne_caught {attempt : Attempt} (hcaught : ∀ name, attempt.outcome ≠ .otherError name)
    (row : WebhookOutbox) : deliverOne row attempt = .ok (row.afterAttempt attempt) ∧
      row.SameWarning (row.afterAttempt attempt) := by
  rcases deliverOne_cases row attempt with ⟨saved, hone, hsame, -, -⟩ | ⟨name, -, houtcome⟩
  · have hsaved : row.afterAttempt attempt = saved := by
      rw [WebhookOutbox.afterAttempt, hone]
      rfl
    rw [hsaved]
    exact ⟨hone, hsame⟩
  · exact absurd houtcome (hcaught name)

/-- A row is written back where it stood. -/
theorem History.outbox_saveOutbox (hrow : row ∈ h.outbox) (hsame : row.SameWarning saved) :
    (h.saveOutbox saved).outbox = h.outbox.map fun old => if old = row then saved else old := by
  refine List.map_congr_left fun old hold => ?_
  by_cases hid : old.id = saved.id
  · obtain rfl := History.row_eq_of_id hrow hold (hid.trans hsame.id)
    rw [if_pos hid, if_pos rfl, ← hsame.id, ← hsame.apiKeyId, ← hsame.month, ← hsame.kind,
      ← hsame.payload]
  · rw [if_neg hid, if_neg]
    rintro rfl
    exact hid hsame.id.symm

/-- A pass in which no POST raises what is not caught: it makes the requests of the rows of its batch
that have a webhook, in their order, and leaves the other rows as they are. -/
theorem deliverRows_eq (pass : Pass) (hstored : ∀ row ∈ batch, row ∈ pass.history.outbox)
    (hbatch : batch.Nodup) (hcaught : ∀ row ∈ batch, ∀ name, (attempts row.id).outcome ≠ .otherError name) :
    (deliverRows settings db attempts batch pass).history.outbox =
        pass.history.outbox.map (WebhookOutbox.served db attempts batch) ∧
      (deliverRows settings db attempts batch pass).posts = pass.posts ++
        batch.filterMap fun row => (db.webhookOf row.apiKeyId).map (postFor settings row) := by
  induction batch generalizing pass with
  | nil =>
      rw [WebhookOutbox.served_nil, List.map_id']
      simp [deliverRows]
  | cons first rest ih =>
      obtain ⟨hfirst, hrest⟩ := List.nodup_cons.mp hbatch
      have hcaught' : ∀ row ∈ rest, ∀ name, (attempts row.id).outcome ≠ .otherError name :=
        fun row hmem => hcaught row (List.mem_cons_of_mem _ hmem)
      have hin := hstored first (List.mem_cons_self ..)
      cases hurl : db.webhookOf first.apiKeyId with
      | none =>
          obtain ⟨hout, hposts⟩ :=
            ih pass (fun row hmem => hstored row (List.mem_cons_of_mem _ hmem)) hrest hcaught'
          rw [deliverRows, hurl, WebhookOutbox.served_cons_none hurl]
          refine ⟨hout, ?_⟩
          rw [hposts, List.filterMap_cons_none (by rw [hurl]; rfl)]
      | some url =>
          obtain ⟨hone, hsame⟩ := deliverOne_caught (hcaught first (List.mem_cons_self ..)) first
          have hid : ∀ row ∈ rest, row.id ≠ (first.afterAttempt (attempts first.id)).id := by
            intro row hmem heq
            have hrow := hstored row (List.mem_cons_of_mem _ hmem)
            exact hfirst (History.row_eq_of_id hin hrow (heq.trans hsame.id) ▸ hmem)
          have hunsaved : first.afterAttempt (attempts first.id) ∉ rest := fun hmem => hid _ hmem rfl
          have hlater : ∀ row ∈ rest,
              row ∈ (pass.history.saveOutbox (first.afterAttempt (attempts first.id))).outbox :=
            fun row hmem => History.mem_saveOutbox_of_ne (hstored row (List.mem_cons_of_mem _ hmem))
              (hid row hmem)
          rw [deliverRows, hurl]
          simp only [hone]
          obtain ⟨hout, hposts⟩ :=
            ih ⟨pass.history.saveOutbox (first.afterAttempt (attempts first.id)),
              pass.posts ++ [postFor settings first url], pass.processed + 1, pass.raised⟩ hlater hrest
              hcaught'
          refine ⟨hout.trans ?_, ?_⟩
          · show (pass.history.saveOutbox _).outbox.map _ = _
            rw [History.outbox_saveOutbox hin hsame, List.map_map,
              WebhookOutbox.served_cons_some hurl hunsaved]
            rfl
          · rw [hposts, List.append_assoc,
              List.filterMap_cons_some (b := postFor settings first url) (by rw [hurl]; rfl)]
            rfl

/-! ### One row -/

/-- The POST is answered with a 2xx. -/
def Attempt.Succeeds (attempt : Attempt) : Prop :=
  ∃ status, attempt.outcome = .response status ∧ 200 ≤ status ∧ status < 300

/-- The least number of seconds after the n-th failure: `min(30 * 2^(n-1), 3600)` with the least jitter. -/
def leastDelay (n : Nat) : ℚ := 4 / 5 * min (30 * 2 ^ (n - 1)) 3600

/-- Where the doublings stop, the cap has been reached. -/
theorem le_computeNextAttempt (n : Nat) (now : ℚ) (jitter : Jitter) :
    now + leastDelay n ≤ computeNextAttempt n now jitter := by
  have hbase : (min (30 * 2 ^ (n - 1)) 3600 : ℚ) ≤
      min (baseBackoffSeconds * 2 ^ min (n - 1) maxDoublings) maxBackoffSeconds := by
    by_cases hfew : n - 1 ≤ maxDoublings
    · rw [min_eq_left hfew]
    · rw [min_eq_right (not_le.mp hfew).le]
      refine le_min ((min_le_right _ _).trans ?_) (min_le_right _ _)
      norm_num
  have hpos : (0 : ℚ) ≤ min (30 * 2 ^ (n - 1)) 3600 := le_min (by positivity) (by norm_num)
  refine add_le_add_right ?_ now
  calc leastDelay n = min (30 * 2 ^ (n - 1)) 3600 * (4 / 5) := mul_comm _ _
    _ ≤ min (30 * 2 ^ (n - 1)) 3600 * jitter.val := mul_le_mul_of_nonneg_left jitter.ge hpos
    _ ≤ _ := mul_le_mul_of_nonneg_right hbase (le_trans (by norm_num) jitter.ge)

/-- A POST delivers the row, or counts an attempt and puts the row off. -/
theorem afterAttempt_cases {attempt : Attempt} (hcaught : ∀ name, attempt.outcome ≠ .otherError name)
    (row : WebhookOutbox) :
    (attempt.Succeeds ∧ (row.afterAttempt attempt).deliveredAt = some attempt.now ∧
        (row.afterAttempt attempt).attempts = row.attempts) ∨
      ¬ attempt.Succeeds ∧ (row.afterAttempt attempt).deliveredAt = row.deliveredAt ∧
        (row.afterAttempt attempt).attempts = row.attempts + 1 ∧
        attempt.now + leastDelay (row.attempts + 1) ≤ (row.afterAttempt attempt).nextAttemptAt := by
  have hfailed := le_computeNextAttempt (row.attempts + 1) attempt.now attempt.jitter
  unfold WebhookOutbox.afterAttempt deliverOne Attempt.Succeeds
  cases houtcome : attempt.outcome with
  | response status =>
      simp only
      split
      · exact .inl ⟨⟨status, rfl, ‹_›⟩, rfl, rfl⟩
      · refine .inr ⟨?_, rfl, rfl, hfailed⟩
        rintro ⟨_, heq, hok⟩
        cases heq
        exact absurd hok ‹_›
  | requestError name => exact .inr ⟨nofun, rfl, rfl, hfailed⟩
  | otherError name => exact absurd houtcome (hcaught name)

/-- A request made for a row: when its pass started, and how it went. -/
structure Sent where
  startedAt : ℚ
  attempt : Attempt

/-- A row, with the requests that were made for it, oldest first. -/
inductive Life (settings : WebhookSettings) : WebhookOutbox → List Sent → Prop
  | enqueued {row : WebhookOutbox} (hattempts : row.attempts = 0) (hdelivered : row.deliveredAt = none) :
      Life settings row []
  | sent {row : WebhookOutbox} {posts : List Sent} {now : ℚ} {attempt : Attempt}
      (hlife : Life settings row posts) (hdue : row.Due settings now)
      (hcaught : ∀ name, attempt.outcome ≠ .otherError name) :
      Life settings (row.afterAttempt attempt) (posts ++ [⟨now, attempt⟩])

/-- What is true of a row and its requests. -/
structure Lived (settings : WebhookSettings) (row : WebhookOutbox) (posts : List Sent) : Prop where
  bound : posts.length ≤ settings.webhookMaxAttempts
  attempts : row.deliveredAt = none → row.attempts = posts.length
  failed : row.deliveredAt = none → ∀ post ∈ posts, ¬ post.attempt.Succeeds
  put_off : row.deliveredAt = none → ∀ n last, posts[n]? = some last → n + 1 = posts.length →
    last.attempt.now + leastDelay (n + 1) ≤ row.nextAttemptAt
  between : ∀ n post next, posts[n]? = some post → posts[n + 1]? = some next →
    ¬ post.attempt.Succeeds ∧ post.attempt.now + leastDelay (n + 1) ≤ next.startedAt

theorem Life.lived {posts : List Sent} (h : Life settings row posts) : Lived settings row posts := by
  induction h with
  | enqueued hattempts hdelivered =>
      exact ⟨Nat.zero_le _, fun _ => hattempts, fun _ _ hmem => absurd hmem List.not_mem_nil,
        fun _ _ _ hnone => by simp at hnone, fun _ _ _ hnone => by simp at hnone⟩
  | @sent row posts now attempt hlife hdue hcaught ih =>
      obtain ⟨hopen, hnow, hfew⟩ := hdue
      have hcount := ih.attempts hopen
      have hlength : (posts ++ [Sent.mk now attempt]).length = posts.length + 1 := List.length_append
      have hcases := afterAttempt_cases hcaught row
      have hundelivered : (row.afterAttempt attempt).deliveredAt = none → ¬ attempt.Succeeds ∧
          (row.afterAttempt attempt).attempts = row.attempts + 1 ∧
          attempt.now + leastDelay (row.attempts + 1) ≤ (row.afterAttempt attempt).nextAttemptAt := by
        intro hnone
        rcases hcases with ⟨-, hdelivered, -⟩ | ⟨hfailed, -, hrest⟩
        · rw [hdelivered] at hnone
          cases hnone
        · exact ⟨hfailed, hrest⟩
      refine ⟨?_, ?_, ?_, ?_, ?_⟩
      · rw [hlength]
        omega
      · intro hnone
        rw [hlength, (hundelivered hnone).2.1, hcount]
      · intro hnone post hmem
        rcases List.mem_append.mp hmem with hold | hnew
        · exact ih.failed hopen post hold
        · rw [List.mem_singleton.mp hnew]
          exact (hundelivered hnone).1
      · intro hnone n last hlast hend
        rw [hlength] at hend
        obtain rfl : n = posts.length := by omega
        rw [List.getElem?_concat_length] at hlast
        cases hlast
        rw [← hcount]
        exact (hundelivered hnone).2.2
      · intro n post next hpost hnext
        have hn : n < posts.length := by
          have := (List.getElem?_eq_some_iff.mp hnext).1
          omega
        rw [List.getElem?_append_left hn] at hpost
        by_cases hlater : n + 1 < posts.length
        · rw [List.getElem?_append_left hlater] at hnext
          exact ih.between n post next hpost hnext
        · -- The new request follows the last of the old ones.
          have hend : n + 1 = posts.length := by omega
          rw [hend, List.getElem?_concat_length] at hnext
          cases hnext
          exact ⟨ih.failed hopen post (List.mem_of_getElem? hpost),
            (ih.put_off hopen n post hpost hend).trans hnow⟩

/-! ### The outbox between two passes -/

/-- Rows are only added, and they are new. -/
def History.Grows (h h' : History) : Prop :=
  ∃ added, h'.outbox = h.outbox ++ added ∧
    ∀ row ∈ added, row.attempts = 0 ∧ row.deliveredAt = none

namespace History.Grows

theorem of_eq (houtbox : h'.outbox = h.outbox) : h.Grows h' :=
  ⟨[], by rw [houtbox, List.append_nil], fun _ hmem => absurd hmem List.not_mem_nil⟩

theorem trans (hfirst : h.Grows h') (hsecond : h'.Grows h'') : h.Grows h'' := by
  obtain ⟨added, houtbox, hnew⟩ := hfirst
  obtain ⟨added', houtbox', hnew'⟩ := hsecond
  refine ⟨added ++ added', by rw [houtbox', houtbox, List.append_assoc], fun row hmem => ?_⟩
  rcases List.mem_append.mp hmem with hmem | hmem
  · exact hnew row hmem
  · exact hnew' row hmem

theorem enqueue (h : History) (warning : Warning) : h.Grows (QuotaGuard.enqueue h warning).2 := by
  unfold QuotaGuard.enqueue
  rcases h.insertOutbox_cases warning with ⟨h', id, hok, houtbox, -⟩ | ⟨herror, -⟩
  · rw [hok]
    refine ⟨[warning.row id], houtbox, fun row hmem => ?_⟩
    rw [List.mem_singleton.mp hmem]
    exact ⟨rfl, rfl⟩
  · rw [herror]
    exact of_eq rfl

theorem reconcile (db : Database) (utcnow : ℚ) (redis : Keyspace) (flags : List String) (n : Nat)
    (h : History) : h.Grows (reconcileSoftWebhooks db utcnow redis flags n h).2 := by
  induction flags generalizing n h with
  | nil => exact of_eq rfl
  | cons flag rest ih =>
      unfold reconcileSoftWebhooks
      cases missingWarning db utcnow redis h flag with
      | none => exact ih n h
      | some warning => exact (enqueue h warning).trans (ih _ _)

theorem upsertAll (db : Database) (failing : Nat → Option SqlError) (found : List (String × Int))
    (n : Nat) (h : History) : h.Grows (QuotaGuard.upsertAll db failing found n h).2 := by
  induction found generalizing n h with
  | nil => exact of_eq rfl
  | cons pair rest ih =>
      obtain ⟨name, value⟩ := pair
      unfold QuotaGuard.upsertAll
      cases upsertOf db name value with
      | none => exact ih n h
      | some upsert =>
          obtain ⟨h', hcommit, houtbox⟩ := upsertRollup_commit_ok upsert h
          cases failing n with
          | some e => exact of_eq rfl
          | none =>
              simp only [hcommit]
              exact (of_eq houtbox).trans (ih _ _)

theorem run (env : Environment) (db : Database) (w : World) :
    w.history.Grows (QuotaGuard.run env db w).2.history := by
  unfold QuotaGuard.run
  cases acquireLock env.token env.now w.redis with
  | error e => exact of_eq rfl
  | ok redis =>
      show w.history.Grows (runPhases env db { w with redis }).2.history
      unfold runPhases
      cases scanQuotaKeys redis env.quotaKeys with
      | error e => exact of_eq rfl
      | ok found =>
          have hupserts := upsertAll db env.failing found 0 w.history
          simp only
          generalize QuotaGuard.upsertAll db env.failing found 0 w.history = out at hupserts ⊢
          obtain ⟨⟨upserted, failure⟩, history⟩ := out
          cases failure with
          | some e => exact hupserts
          | none => exact hupserts.trans (reconcile ..)

/-- No event but a pass changes a row. -/
theorem exec (event : SystemEvent) (s : System) :
    s.world.history.Grows (System.exec event s).2.world.history := by
  cases event with
  | admin write =>
      show s.world.history.Grows (System.admin write s).2.world.history
      unfold System.admin
      cases write.commit s.db with
      | error e => exact of_eq rfl
      | ok db => exact of_eq rfl
  | rollup env => exact run env s.db s.world
  | check request =>
      show s.world.history.Grows (System.check request s).2.world.history
      unfold System.check enqueueSoftWarning
      rcases request.call.exec s.world.redis with ⟨reply, redis⟩
      cases reply with
      | error e => exact of_eq rfl
      | ok r =>
          simp only
          split
          · split
            · exact of_eq rfl
            · exact enqueue _ _
          · exact of_eq rfl

end History.Grows

/-! ### Runs -/

/-- The request an event makes for a row, if it makes one. -/
def DeliveryStep.sentFor (rowId : Nat) (step : DeliveryStep) : List Sent :=
  match step.event with
  | .service _ => []
  | .deliver pass =>
    if rowId ∈ step.reply.map Post.rowId then [⟨pass.now, pass.attempts rowId⟩] else []

/-- The requests that were made for a row in a run, oldest first. -/
def sentFor (rowId : Nat) (steps : List DeliveryStep) : List Sent :=
  steps.flatMap (DeliveryStep.sentFor rowId)

theorem sentFor_append (rowId : Nat) (left right : List DeliveryStep) :
    sentFor rowId (left ++ right) = sentFor rowId left ++ sentFor rowId right := List.flatMap_append

theorem sentFor_singleton (rowId : Nat) (step : DeliveryStep) :
    sentFor rowId [step] = step.sentFor rowId := by
  simp [sentFor]

/-- The rows as a pass leaves them, and the requests it makes. -/
theorem System.deliver_eq {pass : DeliveryPass} {s : System}
    (hbatch : IsBatch settings pass.now s.world.history pass.batch)
    (hcaught : ∀ rowId name, (pass.attempts rowId).outcome ≠ .otherError name) :
    (s.deliver settings pass).2.world.history.outbox =
        s.world.history.outbox.map (WebhookOutbox.served s.db pass.attempts pass.batch) ∧
      (s.deliver settings pass).1 = pass.batch.filterMap fun row =>
        (s.db.webhookOf row.apiKeyId).map (postFor settings row) :=
  deliverRows_eq ⟨s.world.history, [], 0, none⟩ (fun row hmem => (hbatch.mem row hmem).1) hbatch.nodup
    fun row _ => hcaught row.id

/-- A pass makes a request for each row of its batch that has a webhook. -/
theorem rowIds_posts (settings : WebhookSettings) (db : Database) (batch : List WebhookOutbox) :
    (batch.filterMap fun row => (db.webhookOf row.apiKeyId).map (postFor settings row)).map
        Post.rowId =
      (batch.filter fun row => (db.webhookOf row.apiKeyId).isSome).map WebhookOutbox.id := by
  induction batch with
  | nil => rfl
  | cons row rest ih =>
      cases hurl : db.webhookOf row.apiKeyId with
      | none => simpa [hurl] using ih
      | some url => simpa [hurl, postFor] using ih

theorem mem_posts_iff {s : System} (hstored : ∀ row ∈ batch, row ∈ s.world.history.outbox)
    (hrow : row ∈ s.world.history.outbox) :
    row.id ∈ (batch.filterMap fun row =>
        (s.db.webhookOf row.apiKeyId).map (postFor settings row)).map Post.rowId ↔
      row ∈ batch ∧ (s.db.webhookOf row.apiKeyId).isSome := by
  rw [rowIds_posts, List.mem_map]
  constructor
  · rintro ⟨other, hother, hid⟩
    obtain ⟨hmem, hsome⟩ := List.mem_filter.mp hother
    obtain rfl := History.row_eq_of_id hrow (hstored other hmem) hid
    exact ⟨hmem, hsome⟩
  · exact fun hmem => ⟨row, List.mem_filter.mpr hmem, rfl⟩

theorem id_served (hcaught : ∀ rowId name, (attempts rowId).outcome ≠ .otherError name)
    (row : WebhookOutbox) : (row.served db attempts batch).id = row.id := by
  unfold WebhookOutbox.served
  split
  · exact (deliverOne_caught (hcaught row.id) row).2.id
  · rfl

/-- The rows of the outbox have lived as the requests made for them say, and no request was made for a
row that is not there. -/
structure Delivering (settings : WebhookSettings) (steps : List DeliveryStep) (s : System) : Prop where
  life : ∀ row ∈ s.world.history.outbox, Life settings row (sentFor row.id steps)
  none : ∀ rowId, rowId ∉ s.world.history.outbox.map WebhookOutbox.id → sentFor rowId steps = []

namespace Delivering

variable {s found : System} {past : List DeliveryStep}

theorem link {e : DeliveryEvent} (h : Delivering settings past s) (hlink : System.Losing e s found) :
    Delivering settings past found where
  life := by
    rw [hlink.2.1]
    exact h.life
  none := by
    rw [hlink.2.1]
    exact h.none

theorem service {event : SystemEvent} (h : Delivering settings past s) :
    Delivering settings (past ++ [Step.of (System.deliveryExec settings) (.service event) s])
      (System.deliveryExec settings (.service event) s).2 := by
  obtain ⟨added, houtbox, hnew⟩ := History.Grows.exec event s
  have hids := (System.exec event s).2.world.history.outboxIds
  have hsent (rowId : Nat) :
      sentFor rowId (past ++ [Step.of (System.deliveryExec settings) (.service event) s]) =
        sentFor rowId past := by
    rw [sentFor_append, sentFor_singleton]
    exact List.append_nil _
  constructor
  · intro row hrow
    rw [hsent]
    change row ∈ (System.exec event s).2.world.history.outbox at hrow
    rw [houtbox] at hrow hids
    rcases List.mem_append.mp hrow with hold | hadded
    · exact h.life row hold
    · have hfresh : row.id ∉ s.world.history.outbox.map WebhookOutbox.id := by
        rw [List.map_append] at hids
        exact fun hmem => List.disjoint_of_nodup_append hids hmem (List.mem_map_of_mem hadded)
      rw [h.none row.id hfresh]
      exact .enqueued (hnew row hadded).1 (hnew row hadded).2
  · intro rowId hout
    rw [hsent]
    refine h.none rowId fun hmem => hout ?_
    show rowId ∈ (System.exec event s).2.world.history.outbox.map WebhookOutbox.id
    rw [houtbox, List.map_append]
    exact List.mem_append_left _ hmem

theorem deliver {pass : DeliveryPass} (h : Delivering settings past s)
    (hbatch : IsBatch settings pass.now s.world.history pass.batch)
    (hcaught : ∀ rowId name, (pass.attempts rowId).outcome ≠ .otherError name) :
    Delivering settings (past ++ [Step.of (System.deliveryExec settings) (.deliver pass) s])
      (System.deliveryExec settings (.deliver pass) s).2 := by
  obtain ⟨houtbox, hposts⟩ := System.deliver_eq hbatch hcaught
  have hstored : ∀ row ∈ pass.batch, row ∈ s.world.history.outbox :=
    fun row hmem => (hbatch.mem row hmem).1
  have hsent (rowId : Nat) :
      sentFor rowId (past ++ [Step.of (System.deliveryExec settings) (.deliver pass) s]) =
        sentFor rowId past ++ if rowId ∈ (s.deliver settings pass).1.map Post.rowId then
          [⟨pass.now, pass.attempts rowId⟩] else [] := by
    rw [sentFor_append, sentFor_singleton]
    rfl
  constructor
  · intro saved hsaved
    change saved ∈ (s.deliver settings pass).2.world.history.outbox at hsaved
    rw [houtbox] at hsaved
    obtain ⟨row, hrow, rfl⟩ := List.mem_map.mp hsaved
    rw [id_served hcaught, hsent, hposts]
    have hlife := h.life row hrow
    by_cases hserved : row ∈ pass.batch ∧ (s.db.webhookOf row.apiKeyId).isSome
    · rw [if_pos ((mem_posts_iff hstored hrow).mpr hserved), WebhookOutbox.served, if_pos hserved]
      exact hlife.sent (hbatch.mem row hserved.1).2 (hcaught row.id)
    · rw [if_neg (mt (mem_posts_iff hstored hrow).mp hserved), WebhookOutbox.served, if_neg hserved,
        List.append_nil]
      exact hlife
  · intro rowId hout
    change rowId ∉ (s.deliver settings pass).2.world.history.outbox.map WebhookOutbox.id at hout
    rw [houtbox, List.map_map] at hout
    have hids : s.world.history.outbox.map
        (WebhookOutbox.id ∘ WebhookOutbox.served s.db pass.attempts pass.batch) =
          s.world.history.outbox.map WebhookOutbox.id :=
      List.map_congr_left fun row _ => id_served hcaught row
    rw [hids] at hout
    rw [hsent, h.none rowId hout, if_neg]
    · rfl
    · rw [hposts, rowIds_posts]
      intro hmem
      obtain ⟨row, hrow, rfl⟩ := List.mem_map.mp hmem
      exact hout (List.mem_map_of_mem (hstored row (List.mem_filter.mp hrow).1))

end Delivering

theorem delivering_of_run {steps : List DeliveryStep} {s s' : System}
    (hrun : Run (System.deliveryExec settings) System.Losing s steps s')
    (hstart : s.world.history.outbox = [])
    (hregular : ∀ step ∈ steps, DeliveryStep.Regular settings step) :
    Delivering settings steps s' := by
  refine hrun.history (P := Delivering settings) ⟨by simp [hstart], fun _ _ => rfl⟩ ?_ hregular
  intro past middle e found hpast hlink hregular
  have hfound := hpast.link hlink
  cases e with
  | service event => exact hfound.service
  | deliver pass => exact hfound.deliver (hregular.queried pass rfl) (hregular.caught pass rfl)

/-- A row has gone on, not back. -/
structure WebhookOutbox.Onwards (row later : WebhookOutbox) : Prop where
  id : later.id = row.id
  attempts : row.attempts ≤ later.attempts
  delivered : ∀ t, row.deliveredAt = some t → later.deliveredAt = some t

theorem WebhookOutbox.Onwards.refl (row : WebhookOutbox) : row.Onwards row :=
  ⟨rfl, le_rfl, fun _ h => h⟩

theorem WebhookOutbox.Onwards.trans {row later last : WebhookOutbox} (h : row.Onwards later)
    (h' : later.Onwards last) : row.Onwards last :=
  ⟨h'.id.trans h.id, h.attempts.trans h'.attempts, fun t ht => h'.delivered t (h.delivered t ht)⟩

theorem onwards_served {s : System} {pass : DeliveryPass}
    (hbatch : IsBatch settings pass.now s.world.history pass.batch)
    (hcaught : ∀ rowId name, (pass.attempts rowId).outcome ≠ .otherError name) (row : WebhookOutbox) :
    row.Onwards (row.served s.db pass.attempts pass.batch) := by
  unfold WebhookOutbox.served
  split
  · rename_i hserved
    obtain ⟨hopen, -, -⟩ := (hbatch.mem row hserved.1).2
    refine ⟨(deliverOne_caught (hcaught row.id) row).2.id, ?_, fun t ht => ?_⟩
    · rcases afterAttempt_cases (hcaught row.id) row with ⟨-, -, hsame⟩ | ⟨-, -, hmore, -⟩
      · exact hsame.ge
      · omega
    · rw [hopen] at ht
      cases ht
  · exact .refl row

theorem onwards_of_run {steps : List DeliveryStep} {s s' : System}
    (hrun : Run (System.deliveryExec settings) System.Losing s steps s')
    (hregular : ∀ step ∈ steps, DeliveryStep.Regular settings step) :
    ∀ row ∈ s.world.history.outbox, ∃ later ∈ s'.world.history.outbox, row.Onwards later := by
  refine hrun.history (P := fun _ s' =>
    ∀ row ∈ s.world.history.outbox, ∃ later ∈ s'.world.history.outbox, row.Onwards later)
    (fun row hrow => ⟨row, hrow, .refl row⟩) ?_ hregular
  intro past middle e found hpast hlink hregular row hrow
  obtain ⟨later, hlater, honwards⟩ := hpast row hrow
  rw [← hlink.2.1] at hlater
  cases e with
  | service event =>
      obtain ⟨added, houtbox, -⟩ := History.Grows.exec event found
      refine ⟨later, ?_, honwards⟩
      show later ∈ (System.exec event found).2.world.history.outbox
      rw [houtbox]
      exact List.mem_append_left _ hlater
  | deliver pass =>
      have hbatch : IsBatch settings pass.now found.world.history pass.batch :=
        hregular.queried pass rfl
      have hcaught := hregular.caught pass rfl
      refine ⟨later.served found.db pass.attempts pass.batch, ?_,
        honwards.trans (onwards_served hbatch hcaught later)⟩
      show _ ∈ (found.deliver settings pass).2.world.history.outbox
      rw [(System.deliver_eq hbatch hcaught).1]
      exact List.mem_map_of_mem hlater

/-- **The life of every warning.** The outbox starts empty, and passes, checks, runs of the rollup job and
admin requests come in any order. No row is sent more often than the settings allow, nor after a 2xx, nor
earlier than the schedule says; while it is undelivered, its attempts are the requests made for it; and no
row ever goes back. -/
theorem delivery_lifecycle {past future : List DeliveryStep} {s middle s' : System}
    (hpast : Run (System.deliveryExec settings) System.Losing s past middle)
    (hstart : s.world.history.outbox = [])
    (hfuture : Run (System.deliveryExec settings) System.Losing middle future s')
    (hregular : ∀ step ∈ past ++ future, DeliveryStep.Regular settings step) :
    (∀ rowId, (sentFor rowId (past ++ future)).length ≤ settings.webhookMaxAttempts ∧
      ∀ n post next, (sentFor rowId (past ++ future))[n]? = some post →
        (sentFor rowId (past ++ future))[n + 1]? = some next →
        ¬ post.attempt.Succeeds ∧ post.attempt.now + leastDelay (n + 1) ≤ next.startedAt) ∧
    (∀ row ∈ s'.world.history.outbox, row.deliveredAt = none →
      row.attempts = (sentFor row.id (past ++ future)).length) ∧
    ∀ row ∈ middle.world.history.outbox, ∃ later ∈ s'.world.history.outbox, row.Onwards later := by
  have hdelivering :=
    delivering_of_run (Run.append_iff.mpr ⟨middle, hpast, hfuture⟩) hstart hregular
  refine ⟨fun rowId => ?_, fun row hrow => (hdelivering.life row hrow).lived.attempts, ?_⟩
  · by_cases hrow : rowId ∈ s'.world.history.outbox.map WebhookOutbox.id
    · obtain ⟨row, hmem, rfl⟩ := List.mem_map.mp hrow
      have hlived := (hdelivering.life row hmem).lived
      exact ⟨hlived.bound, hlived.between⟩
    · rw [hdelivering.none rowId hrow]
      exact ⟨Nat.zero_le _, fun n post next hnone => by simp at hnone⟩
  · exact onwards_of_run hfuture fun step hmem => hregular step (List.mem_append_right _ hmem)

theorem one_ge_jitter : (4 : ℚ) / 5 ≤ 1 := by norm_num

theorem one_le_jitter : (1 : ℚ) ≤ 6 / 5 := by norm_num

/-- Only a pass can go otherwise. -/
theorem DeliveryStep.Regular.of_service {step : DeliveryStep} {event : SystemEvent}
    (h : step.event = .service event) : step.Regular settings := by
  constructor
  · intro pass hpass
    cases h.symm.trans hpass
  · intro pass hpass
    cases h.symm.trans hpass

def samplePass (now : ℚ) (status : Nat) (batch : List WebhookOutbox) : DeliveryPass where
  now := now
  batch := batch
  attempts := fun _ => ⟨.response status, now + 1, ⟨1, one_ge_jitter, one_le_jitter⟩⟩

/-- The warning that a check of the sample enqueues. -/
def sampleEnqueued : WebhookOutbox :=
  (Warning.mk 1 "1970-01" ⟨sampleKey.val, "sample", "free", "1970-01", 2, 4, 50, 0⟩ 0).row 1

theorem regular_samplePass {s : System} {status : Nat} (houtbox : s.world.history.outbox = [row])
    (hdue : row.Due settings now) : DeliveryStep.Regular settings
      (Step.of (System.deliveryExec settings) (.deliver (samplePass now status [row])) s) where
  queried := by
    rintro pass ⟨⟩
    refine ⟨List.nodup_singleton row, fun other hmem => ?_, ?_⟩
    · rw [List.mem_singleton.mp hmem]
      exact ⟨houtbox ▸ List.mem_singleton_self row, hdue⟩
    · have hrows : s.world.history.outbox.filter (fun row => row.Due settings now) = [row] := by
        rw [houtbox]
        exact List.filter_cons_of_pos (decide_eq_true hdue)
      show [row].length = min batchSize (s.world.history.outbox.filter _).length
      rw [show (samplePass now status [row]).now = now from rfl, hrows]
      rfl
  caught := by
    rintro pass ⟨⟩
    exact fun _ _ => nofun

def sampleRetried : WebhookOutbox :=
  { sampleEnqueued with attempts := 1, nextAttemptAt := 91, lastError := some "HTTP 500" }

/-- A check crosses the threshold; the first request for its warning is answered with an error, and the
second one, thirty seconds later, with success. -/
theorem delivery_lifecycle_sample :
    let settings := sampleWebhookSettings
    let checked := Step.of (System.deliveryExec settings)
      (.service (.check (sampleCheckRun sampleHalfPlan false))) sampleHalf
    let first := Step.of (System.deliveryExec settings)
      (.deliver (samplePass 60 500 [sampleEnqueued])) checked.after
    let second := Step.of (System.deliveryExec settings)
      (.deliver (samplePass 91 200 [sampleRetried])) first.after
    (sentFor 1 [checked, first, second]).length = 2 ∧
      (sentFor 1 [checked, first, second]).length ≤ settings.webhookMaxAttempts ∧
      ∀ row ∈ first.after.world.history.outbox, ∃ later ∈ second.after.world.history.outbox,
        row.Onwards later := by
  intro settings checked first second
  have hpast : Run (System.deliveryExec settings) System.Losing sampleHalf [checked, first] first.after :=
    .cons (.refl _ _) (.cons (.refl _ _) (.nil _))
  have hfuture : Run (System.deliveryExec settings) System.Losing first.after [second] second.after :=
    .cons (.refl _ _) (.nil _)
  have hchecked : DeliveryStep.Regular settings checked := .of_service rfl
  have hfirst : DeliveryStep.Regular settings first :=
    regular_samplePass (by decide +kernel) (by decide +kernel)
  have hsecond : DeliveryStep.Regular settings second :=
    regular_samplePass (by decide +kernel) (by decide +kernel)
  have hregular : ∀ step ∈ [checked, first] ++ [second], DeliveryStep.Regular settings step := by
    simp only [List.cons_append, List.nil_append, List.mem_cons, List.not_mem_nil, or_false,
      forall_eq_or_imp, forall_eq]
    exact ⟨hchecked, hfirst, hsecond⟩
  obtain ⟨hposts, -, honwards⟩ := delivery_lifecycle hpast rfl hfuture hregular
  exact ⟨by decide +kernel, (hposts 1).1, honwards⟩

end QuotaGuard
