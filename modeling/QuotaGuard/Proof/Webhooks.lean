import QuotaGuard.Service.Webhooks
import QuotaGuard.Proof.Trace

/-!
# What a delivery pass does for its rows

The rows of a batch are written one by one, each only in its own turn. A POST that ends in an exception
`deliver_one` does not catch ends the pass, so the rows of a batch are all served exactly when none of
their POSTs does that.
-/

namespace QuotaGuard

variable {settings : WebhookSettings} {db : Database} {attempts : Nat → Attempt}
  {batch rest : List WebhookOutbox} {row row' saved : WebhookOutbox} {pass : Pass} {h : History}

/-! ### One row -/

theorem lt_computeNextAttempt (attemptNum : Nat) (now : ℚ) (jitter : Jitter) :
    now < computeNextAttempt attemptNum now jitter := by
  have hbase : 0 < min (baseBackoffSeconds * 2 ^ min (attemptNum - 1) maxDoublings) maxBackoffSeconds :=
    lt_min (by positivity) (by norm_num)
  have hjitter : 0 < jitter.val := lt_of_lt_of_le (by norm_num) jitter.ge
  exact lt_add_of_pos_right now (mul_pos hbase hjitter)

/-- The row has been delivered, or its attempt is counted and it is due again after that. -/
def WebhookOutbox.Processed (row : WebhookOutbox) (attempt : Attempt) (saved : WebhookOutbox) : Prop :=
  saved.deliveredAt.isSome ∨
    saved.attempts = row.attempts + 1 ∧ saved.lastError.isSome ∧ attempt.now < saved.nextAttemptAt

/-- The columns of a row that its delivery does not write. -/
structure WebhookOutbox.SameWarning (row saved : WebhookOutbox) : Prop where
  id : saved.id = row.id
  apiKeyId : saved.apiKeyId = row.apiKeyId
  month : saved.month = row.month
  kind : saved.kind = row.kind
  payload : saved.payload = row.payload

/-- `deliver_one` commits the row processed, or raises what it does not catch. -/
theorem deliverOne_cases (row : WebhookOutbox) (attempt : Attempt) :
    (∃ saved, deliverOne row attempt = .ok saved ∧ row.SameWarning saved ∧
        row.Processed attempt saved ∧ ∀ name, attempt.outcome ≠ .otherError name) ∨
      ∃ name, deliverOne row attempt = .error name ∧ attempt.outcome = .otherError name := by
  have hfailed (error : String) : row.Processed attempt (row.failed error attempt) :=
    .inr ⟨rfl, rfl, lt_computeNextAttempt ..⟩
  unfold deliverOne
  cases attempt.outcome with
  | response status =>
      left
      simp only
      split
      · exact ⟨_, rfl, ⟨rfl, rfl, rfl, rfl, rfl⟩, .inl rfl, by simp⟩
      · exact ⟨_, rfl, ⟨rfl, rfl, rfl, rfl, rfl⟩, hfailed _, by simp⟩
  | requestError name => exact .inl ⟨_, rfl, ⟨rfl, rfl, rfl, rfl, rfl⟩, hfailed name, by simp⟩
  | otherError name => exact .inr ⟨name, rfl, rfl⟩

/-! ### The table -/

theorem History.mem_saveOutbox_of_ne (hrow : row ∈ h.outbox) (hid : row.id ≠ saved.id) :
    row ∈ (h.saveOutbox saved).outbox :=
  List.mem_map.mpr ⟨row, hrow, if_neg hid⟩

theorem History.mem_saveOutbox_self (hrow : row ∈ h.outbox) (hsame : row.SameWarning saved) :
    saved ∈ (h.saveOutbox saved).outbox := by
  refine List.mem_map.mpr ⟨row, hrow, ?_⟩
  rw [if_pos hsame.id.symm, ← hsame.id, ← hsame.apiKeyId, ← hsame.month, ← hsame.kind, ← hsame.payload]

/-! ### The loop -/

/-- What a turn of the loop does: it passes a row without a webhook over, commits the row of a POST that
ends in a response or in a `RequestError`, and is ended by any other exception. -/
theorem deliverRows_cons (settings : WebhookSettings) (db : Database) (attempts : Nat → Attempt)
    (row : WebhookOutbox) (rest : List WebhookOutbox) (pass : Pass) :
    (db.webhookOf row.apiKeyId = none ∧
        deliverRows settings db attempts (row :: rest) pass =
          deliverRows settings db attempts rest pass) ∨
      (∃ url saved, db.webhookOf row.apiKeyId = some url ∧
        (∀ name, (attempts row.id).outcome ≠ .otherError name) ∧ row.SameWarning saved ∧
        row.Processed (attempts row.id) saved ∧
        deliverRows settings db attempts (row :: rest) pass =
          deliverRows settings db attempts rest
            ⟨pass.history.saveOutbox saved, pass.posts ++ [postFor settings row url],
              pass.processed + 1, pass.raised⟩) ∨
      ∃ url name, db.webhookOf row.apiKeyId = some url ∧
        (attempts row.id).outcome = .otherError name ∧
        deliverRows settings db attempts (row :: rest) pass =
          ⟨pass.history, pass.posts ++ [postFor settings row url], pass.processed, some name⟩ := by
  cases hurl : db.webhookOf row.apiKeyId with
  | none => exact .inl ⟨rfl, by rw [deliverRows, hurl]⟩
  | some url =>
      right
      rcases deliverOne_cases row (attempts row.id) with
        ⟨saved, hone, hsame, hprocessed, hcaught⟩ | ⟨name, hone, houtcome⟩
      · exact .inl ⟨url, saved, rfl, hcaught, hsame, hprocessed, by rw [deliverRows, hurl]; simp only [hone]⟩
      · exact .inr ⟨url, name, rfl, houtcome, by rw [deliverRows, hurl]; simp only [hone]⟩

theorem posts_subset_deliverRows (settings : WebhookSettings) (db : Database)
    (attempts : Nat → Attempt) (batch : List WebhookOutbox) (pass : Pass) :
    pass.posts ⊆ (deliverRows settings db attempts batch pass).posts := by
  induction batch generalizing pass with
  | nil => exact List.Subset.refl _
  | cons row rest ih =>
      rcases deliverRows_cons settings db attempts row rest pass with
        ⟨-, heq⟩ | ⟨url, saved, -, -, -, -, heq⟩ | ⟨url, name, -, -, heq⟩
      · rw [heq]
        exact ih pass
      · rw [heq]
        intro post hmem
        exact ih _ (List.mem_append_left _ hmem)
      · rw [heq]
        exact List.subset_append_left _ _

/-- A row is left as it is in the turns of other rows, and in its own if that ends the pass. -/
theorem mem_deliverRows_of_unsaved (hrow : row ∈ pass.history.outbox)
    (hunsaved : ∀ other ∈ batch, other.id = row.id →
      ∃ name, (attempts row.id).outcome = .otherError name) :
    row ∈ (deliverRows settings db attempts batch pass).history.outbox := by
  induction batch generalizing pass with
  | nil => exact hrow
  | cons other rest ih =>
      have hrest : ∀ other ∈ rest, other.id = row.id →
          ∃ name, (attempts row.id).outcome = .otherError name :=
        fun other hmem => hunsaved other (List.mem_cons_of_mem _ hmem)
      rcases deliverRows_cons settings db attempts other rest pass with
        ⟨-, heq⟩ | ⟨url, saved, -, hcaught, hsame, -, heq⟩ | ⟨url, name, -, -, heq⟩
      · rw [heq]
        exact ih hrow hrest
      · rw [heq]
        refine ih (History.mem_saveOutbox_of_ne hrow fun hid => ?_) hrest
        have hother : other.id = row.id := hsame.id.symm.trans hid.symm
        obtain ⟨name, houtcome⟩ := hunsaved other (List.mem_cons_self ..) hother
        exact hcaught name (hother ▸ houtcome)
      · rw [heq]
        exact hrow

/-- What the pass owes a row of its batch. -/
structure Pass.Serves (attempts : Nat → Attempt) (row : WebhookOutbox) (pass : Pass) : Prop where
  attempted : row.id ∈ pass.posts.map Post.rowId
  processed : ∃ saved ∈ pass.history.outbox, saved.id = row.id ∧
    row.Processed (attempts row.id) saved

/-- As long as no POST ends the pass, every row is served in its turn. -/
theorem serves_deliverRows (hstored : ∀ row ∈ batch, row ∈ pass.history.outbox)
    (hids : (batch.map WebhookOutbox.id).Nodup)
    (hcaught : ∀ row ∈ batch, ∀ url name, db.webhookOf row.apiKeyId = some url →
      (attempts row.id).outcome ≠ .otherError name) :
    ∀ row ∈ batch, ∀ url, db.webhookOf row.apiKeyId = some url →
      (deliverRows settings db attempts batch pass).Serves attempts row := by
  induction batch generalizing pass with
  | nil => simp
  | cons first rest ih =>
      obtain ⟨hfirst, hids⟩ := List.nodup_cons.mp hids
      have hne : ∀ row ∈ rest, row.id ≠ first.id := fun row hmem hid =>
        hfirst (hid ▸ List.mem_map_of_mem hmem)
      have hrest : ∀ row ∈ rest, row ∈ pass.history.outbox :=
        fun row hmem => hstored row (List.mem_cons_of_mem _ hmem)
      have hlater : ∀ row ∈ rest, ∀ url name, db.webhookOf row.apiKeyId = some url →
          (attempts row.id).outcome ≠ .otherError name :=
        fun row hmem => hcaught row (List.mem_cons_of_mem _ hmem)
      intro row hmem url hurl
      rcases deliverRows_cons settings db attempts first rest pass with
        ⟨hnone, heq⟩ | ⟨url', saved, hurl', -, hsame, hprocessed, heq⟩ | ⟨url', name, hurl', houtcome, -⟩
      · rw [heq]
        rcases List.mem_cons.mp hmem with rfl | hmem
        · rw [hnone] at hurl
          cases hurl
        · exact ih hrest hids hlater row hmem url hurl
      · rw [heq]
        have hsaved : saved ∈ (pass.history.saveOutbox saved).outbox :=
          History.mem_saveOutbox_self (hstored first (List.mem_cons_self ..)) hsame
        rcases List.mem_cons.mp hmem with rfl | hmem
        · refine ⟨?_, saved, mem_deliverRows_of_unsaved hsaved ?_, hsame.id, hprocessed⟩
          · refine List.mem_map.mpr ⟨postFor settings row url', posts_subset_deliverRows _ _ _ _ _ ?_, rfl⟩
            exact List.mem_append_right _ (List.mem_singleton_self _)
          · intro other hother hid
            exact absurd (hid.trans hsame.id) (hne other hother)
        · refine ih (fun row hmem => ?_) hids hlater row hmem url hurl
          refine History.mem_saveOutbox_of_ne (hrest row hmem) ?_
          rw [hsame.id]
          exact hne row hmem
      · exact absurd houtcome (hcaught first (List.mem_cons_self ..) url' name hurl')

/-- **A pass serves every row of its batch exactly when no POST raises what is not caught.** Served means
that the request is made, and that the row ends the pass delivered, or with one attempt more, an error,
and due after the time of the attempt. -/
theorem every_row_served_iff {now : ℚ} (hbatch : IsBatch settings now h batch) :
    (∀ row ∈ batch, ∀ url, db.webhookOf row.apiKeyId = some url →
        (deliverWebhooks settings db attempts batch h).Serves attempts row) ↔
      ∀ row ∈ batch, ∀ url name, db.webhookOf row.apiKeyId = some url →
        (attempts row.id).outcome ≠ .otherError name := by
  constructor
  · intro hserves row hmem url name hurl houtcome
    obtain ⟨-, saved, hsaved, hid, hprocessed⟩ := hserves row hmem url hurl
    obtain ⟨hrow, hdue⟩ := hbatch.mem row hmem
    have hkept : row ∈ (deliverWebhooks settings db attempts batch h).history.outbox :=
      mem_deliverRows_of_unsaved hrow fun _ _ _ => ⟨name, houtcome⟩
    obtain rfl := History.row_eq_of_id hkept hsaved hid
    rcases hprocessed with hdelivered | ⟨hattempts, -⟩
    · rw [hdue.1] at hdelivered
      cases hdelivered
    · omega
  · refine serves_deliverRows (fun row hmem => (hbatch.mem row hmem).1) ?_
    exact hbatch.nodup.map_on fun row hrow row' hrow' hid =>
      History.row_eq_of_id (hbatch.mem row' hrow').1 (hbatch.mem row hrow).1 hid

/-- Two keys, each with a plan of its own. The first plan has a webhook that only looks like a url: its
port is not a number. -/
def sampleHooksDatabase : Database where
  plans :=
    [{ samplePlanRow with webhookUrl := some "https://example.com:port" },
      { samplePlanRow with id := 2, slug := "pro" }]
  keys :=
    [sampleKeyRow,
      { sampleKeyRow with
        id := 2
        keyId := sampleOtherKey
        keyHash := "digest2"
        planId := 2 }]
  planOf := by decide +kernel
  planIds := by decide +kernel
  slugs := by decide +kernel
  ids := by decide +kernel
  keyIds := by decide +kernel
  hashes := by decide +kernel

def sampleWarning (id : Nat) : WebhookOutbox where
  id := id
  apiKeyId := id
  month := "1970-01"
  kind := .quotaSoft
  payload := ⟨"k", "sample", "free", "1970-01", 3, 4, 75, 0⟩
  attempts := 0
  nextAttemptAt := 0
  deliveredAt := none
  lastError := none

def sampleOutbox : History :=
  { History.empty with
    outbox := [sampleWarning 1, sampleWarning 2]
    outboxIds := by decide +kernel
    outboxSlots := by decide +kernel }

def sampleWebhookSettings : WebhookSettings := ⟨8, "", fun _ _ => ""⟩

def sampleAttempts (first : PostOutcome) (id : Nat) : Attempt :=
  ⟨if id = 1 then first else .response 200, 60, ⟨1, by norm_num, by norm_num⟩⟩

theorem sampleOutbox_isBatch : IsBatch sampleWebhookSettings 60 sampleOutbox
    [sampleWarning 1, sampleWarning 2] where
  nodup := by decide +kernel
  mem := by decide +kernel
  length := by decide +kernel

/-- The first webhook answers with an error, the second is delivered. -/
theorem every_row_served_iff_sample :
    let pass := deliverWebhooks sampleWebhookSettings sampleHooksDatabase
      (sampleAttempts (.response 500)) [sampleWarning 1, sampleWarning 2] sampleOutbox
    pass.Serves (sampleAttempts (.response 500)) (sampleWarning 1) ∧
      pass.Serves (sampleAttempts (.response 500)) (sampleWarning 2) := by
  intro pass
  have hserves : ∀ row ∈ [sampleWarning 1, sampleWarning 2], ∀ url,
      sampleHooksDatabase.webhookOf row.apiKeyId = some url →
      pass.Serves (sampleAttempts (.response 500)) row := by
    refine (every_row_served_iff sampleOutbox_isBatch).mpr fun row _ url name _ houtcome => ?_
    unfold sampleAttempts at houtcome
    split at houtcome <;> cases houtcome
  exact ⟨hserves _ List.mem_cons_self _ rfl,
    hserves _ (List.mem_cons_of_mem _ List.mem_cons_self) _ rfl⟩

/-- The first webhook raises `InvalidURL` and ends the pass: its row is not written, and the row after it
is not even attempted. -/
theorem row_after_invalid_url :
    let pass := deliverWebhooks sampleWebhookSettings sampleHooksDatabase
      (sampleAttempts (.otherError "InvalidURL")) [sampleWarning 1, sampleWarning 2] sampleOutbox
    IsBatch sampleWebhookSettings 60 sampleOutbox [sampleWarning 1, sampleWarning 2] ∧
      sampleHooksDatabase.webhookOf (sampleWarning 2).apiKeyId = some "https://example.com" ∧
      pass.raised = some "InvalidURL" ∧ pass.history.outbox = sampleOutbox.outbox ∧
      ¬ pass.Serves (sampleAttempts (.otherError "InvalidURL")) (sampleWarning 2) := by
  intro pass
  refine ⟨sampleOutbox_isBatch, by decide +kernel, by decide +kernel, by decide +kernel, ?_⟩
  intro hserves
  have hattempted := hserves.attempted
  revert hattempted
  decide +kernel

end QuotaGuard
