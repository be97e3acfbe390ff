import QuotaGuard.Proof.Admin
import QuotaGuard.Proof.Delivery
import QuotaGuard.Service.Passes

/-!
# Passes that overlap

Two passes can hold the same row, and then the warning is sent twice and a count of attempts is lost. What
remains true: a row is delivered only once a receiver has accepted it, for good, and no pass that begins
after that sends it; and a request that was accepted leaves its row delivered unless the commit fails.
-/

namespace QuotaGuard

/-- The POST is answered with a 2xx. -/
def Attempt.accepted (attempt : Attempt) : Bool :=
  match attempt.outcome with
  | .response status => 200 ≤ status && status < 300
  | .requestError _ => false
  | .otherError _ => false

/-- What `deliver_one` changes of a row. -/
theorem deliverOne_ok {row saved : WebhookOutbox} {attempt : Attempt}
    (h : deliverOne row attempt = .ok saved) :
    saved.id = row.id ∧ (attempt.accepted = true ∧ saved.deliveredAt = some attempt.now ∧
        saved.attempts = row.attempts ∨
      attempt.accepted = false ∧ saved.deliveredAt = row.deliveredAt ∧
        saved.attempts = row.attempts + 1) := by
  unfold deliverOne at h
  unfold Attempt.accepted
  cases houtcome : attempt.outcome with
  | response status =>
      rw [houtcome] at h
      dsimp only at h ⊢
      split at h
      · rename_i hok
        cases h
        exact ⟨rfl, .inl ⟨by simpa using hok, rfl, rfl⟩⟩
      · rename_i hbad
        cases h
        exact ⟨rfl, .inr ⟨by simpa using hbad, rfl, rfl⟩⟩
  | requestError name =>
      rw [houtcome] at h
      cases h
      exact ⟨rfl, .inr ⟨rfl, rfl, rfl⟩⟩
  | otherError name =>
      rw [houtcome] at h
      cases h

/-- An exception that is not caught is no answer. -/
theorem accepted_of_error {row : WebhookOutbox} {attempt : Attempt} {name : String}
    (h : deliverOne row attempt = .error name) : attempt.accepted = false := by
  rcases deliverOne_cases row attempt with ⟨saved, hone, -⟩ | ⟨_, -, houtcome⟩
  · rw [h] at hone
    cases hone
  · rw [Attempt.accepted, houtcome]

/-- A column that a session writes ends up as it found it or as the session set it. -/
theorem getD_changed_cases {α : Type} [DecidableEq α] (old new current : α) :
    (changed old (some new)).getD current = current ∨ (changed old (some new)).getD current = new := by
  unfold changed
  by_cases hsame : new = old
  · left
    rw [hsame, Option.filter_some]
    simp
  · right
    rw [Option.filter_some]
    simp [hsame]

theorem History.ext {h h' : History} (hrollups : h.rollups = h'.rollups) (houtbox : h.outbox = h'.outbox) :
    h = h' := by
  cases h
  cases h'
  cases hrollups
  cases houtbox
  rfl

theorem History.mem_writeOutbox {h : History} {id : Nat} {columns : OutboxColumns}
    {row : WebhookOutbox} : row ∈ (h.writeOutbox id columns).outbox ↔
      ∃ old ∈ h.outbox, (if old.id = id then columns.write old else old) = row :=
  List.mem_map

/-- A row that nobody else has written is saved as it is. -/
theorem WebhookOutbox.write_changes {row saved : WebhookOutbox} (h : row.SameWarning saved) :
    (row.changes saved).write row = saved := by
  have hcolumn {α : Type} [DecidableEq α] (old new : α) : (changed old (some new)).getD old = new :=
    getD_changed old (some new)
  unfold changes OutboxColumns.write
  rw [hcolumn, hcolumn, hcolumn, hcolumn, ← h.id, ← h.apiKeyId, ← h.month, ← h.kind, ← h.payload]

/-- The rows a pass has loaded and not committed. -/
def PassPhase.rows : PassPhase → List WebhookOutbox
  | .idle => []
  | .working todo => todo
  | .posting row _ todo => row :: todo
  | .committing row _ todo => row :: todo
  | .ended => []

namespace Deliveries

variable {settings : WebhookSettings} {s s' : Deliveries} {e : PassEvent} {reply : Option Post}
  {past future steps : List PassStep} {row loaded saved : WebhookOutbox} {i id : Nat}

/-! ### One step -/

/-- What a step can do. -/
inductive Moves (settings : WebhookSettings) (s : Deliveries) :
    PassEvent → Option Post → Deliveries → Prop
  | still (e : PassEvent) : Moves settings s e none s
  | selects {i : Nat} {now : ℚ} {batch : List WebhookOutbox} (hidle : s.passes i = .idle)
      (hbatch : IsBatch settings now s.history batch) :
      Moves settings s (.select i now batch) none (s.goto i (.working batch))
  | ends {i : Nat} {seen : Database} (hphase : s.passes i = .working []) :
      Moves settings s (.lookup i seen) none (s.goto i .ended)
  | skips {i : Nat} {seen : Database} {row : WebhookOutbox} {todo : List WebhookOutbox}
      (hphase : s.passes i = .working (row :: todo)) :
      Moves settings s (.lookup i seen) none (s.goto i (.working todo))
  | finds {i : Nat} {seen : Database} {row : WebhookOutbox} {url : String} {todo : List WebhookOutbox}
      (hphase : s.passes i = .working (row :: todo)) :
      Moves settings s (.lookup i seen) none (s.goto i (.posting row url todo))
  | posts {i : Nat} {attempt : Attempt} {row saved : WebhookOutbox} {url : String}
      {todo : List WebhookOutbox} (hphase : s.passes i = .posting row url todo)
      (hone : deliverOne row attempt = .ok saved) :
      Moves settings s (.post i attempt) (some (postFor settings row url))
        (s.goto i (.committing row saved todo))
  | raises {i : Nat} {attempt : Attempt} {row : WebhookOutbox} {url name : String}
      {todo : List WebhookOutbox} (hphase : s.passes i = .posting row url todo)
      (hone : deliverOne row attempt = .error name) :
      Moves settings s (.post i attempt) (some (postFor settings row url)) (s.goto i .ended)
  | commits {i : Nat} {row saved : WebhookOutbox} {todo : List WebhookOutbox}
      (hphase : s.passes i = .committing row saved todo) :
      Moves settings s (.commit i) none
        ({ s with history := s.history.writeOutbox row.id (row.changes saved) }.goto i (.working todo))
  | fails {i : Nat} : Moves settings s (.fail i) none (s.goto i .ended)
  | enqueues {warning : Warning} :
      Moves settings s (.enqueue warning) none { s with history := (enqueue s.history warning).2 }

theorem exec_moves (settings : WebhookSettings) (e : PassEvent) (s : Deliveries) :
    Moves settings s e (exec settings e s).1 (exec settings e s).2 := by
  cases e with
  | select i now batch =>
      show Moves settings s _ none (s.select settings i now batch)
      unfold select
      split
      · split
        · exact .selects ‹_› ‹_›
        · exact .still _
      · exact .still _
  | lookup i seen =>
      show Moves settings s _ none (s.lookup i seen)
      unfold lookup
      split
      · exact .ends ‹_›
      · split
        · exact .skips ‹_›
        · exact .finds ‹_›
      · exact .still _
  | post i attempt =>
      show Moves settings s _ (s.post settings i attempt).1 (s.post settings i attempt).2
      unfold post
      split
      · split
        · exact .posts ‹_› ‹_›
        · exact .raises ‹_› ‹_›
      · exact .still _
  | commit i =>
      show Moves settings s _ none (s.commit i)
      unfold commit
      split
      · exact .commits ‹_›
      · exact .still _
  | fail i =>
      show Moves settings s _ none (s.fail i)
      unfold fail
      split
      · exact .fails
      · exact .fails
      · exact .still _
  | enqueue warning => exact .enqueues

/-! ### What a step changes -/

theorem goto_passes (s : Deliveries) (i : Nat) (phase : PassPhase) (j : Nat) :
    (s.goto i phase).passes j = if j = i then phase else s.passes j :=
  Function.update_apply ..

theorem goto_goto (s : Deliveries) (i : Nat) (first second : PassPhase) :
    (s.goto i first).goto i second = s.goto i second := by
  unfold goto
  rw [Function.update_idem]

namespace Moves

/-- A pass has only rows that it had, or those of its batch. -/
theorem rows (h : Moves settings s e reply s') {j : Nat} (hrow : row ∈ (s'.passes j).rows) :
    row ∈ (s.passes j).rows ∨ s.passes j = .idle ∧ s'.passes j ≠ .idle ∧
      row ∈ s.history.outbox ∧ ∃ now, row.Due settings now := by
  have hkept {i : Nat} {phase : PassPhase} {history : History} (hsub : phase.rows ⊆ (s.passes i).rows)
      (hmem : row ∈ (({ s with history }.goto i phase).passes j).rows) : row ∈ (s.passes j).rows := by
    rw [goto_passes] at hmem
    split at hmem
    · rename_i hown
      rw [hown]
      exact hsub hmem
    · exact hmem
  cases h with
  | still => exact .inl hrow
  | @selects i now batch hidle hbatch =>
      rw [goto_passes] at hrow ⊢
      split at hrow
      · rename_i hown
        obtain ⟨hstored, hdue⟩ := hbatch.mem row hrow
        rw [if_pos hown, hown]
        exact .inr ⟨hidle, by simp, hstored, now, hdue⟩
      · exact .inl hrow
  | ends hphase => exact .inl (hkept (List.nil_subset _) hrow)
  | skips hphase => exact .inl (hkept (by rw [hphase]; exact List.subset_cons_self ..) hrow)
  | finds hphase => exact .inl (hkept (by rw [hphase]; exact List.Subset.refl _) hrow)
  | posts hphase hone => exact .inl (hkept (by rw [hphase]; exact List.Subset.refl _) hrow)
  | raises hphase hone => exact .inl (hkept (List.nil_subset _) hrow)
  | commits hphase => exact .inl (hkept (by rw [hphase]; exact List.subset_cons_self ..) hrow)
  | fails => exact .inl (hkept (List.nil_subset _) hrow)
  | enqueues => exact .inl hrow

/-- A pass has a row to commit since its request for the row was answered. -/
theorem committing (h : Moves settings s e reply s') {j : Nat} {todo : List WebhookOutbox}
    (hphase : s'.passes j = .committing row saved todo) :
    s.passes j = .committing row saved todo ∨ row ∈ (s.passes j).rows ∧
      ∃ attempt url, e = .post j attempt ∧ reply = some (postFor settings row url) ∧
        deliverOne row attempt = .ok saved := by
  have hkept {i : Nat} {phase : PassPhase} {history : History}
      (hother : ∀ row saved todo, phase ≠ .committing row saved todo)
      (hnow : ({ s with history }.goto i phase).passes j = .committing row saved todo) :
      s.passes j = .committing row saved todo := by
    rw [goto_passes] at hnow
    split at hnow
    · exact absurd hnow (hother _ _ _)
    · exact hnow
  cases h with
  | still => exact .inl hphase
  | selects hidle hbatch => exact .inl (hkept (by simp) hphase)
  | ends hold => exact .inl (hkept (by simp) hphase)
  | skips hold => exact .inl (hkept (by simp) hphase)
  | finds hold => exact .inl (hkept (by simp) hphase)
  | posts hold hone =>
      rw [goto_passes] at hphase
      split at hphase
      · rename_i hown
        cases hphase
        rw [hown, hold]
        exact .inr ⟨List.mem_cons_self .., _, _, rfl, rfl, hone⟩
      · exact .inl hphase
  | raises hold hone => exact .inl (hkept (by simp) hphase)
  | commits hold => exact .inl (hkept (by simp) hphase)
  | fails => exact .inl (hkept (by simp) hphase)
  | enqueues => exact .inl hphase

/-- What becomes of a row that a pass has to commit. -/
theorem resolves (h : Moves settings s e reply s') {j : Nat} {todo : List WebhookOutbox}
    (hphase : s.passes j = .committing row saved todo) :
    s'.passes j = .committing row saved todo ∨ e = .fail j ∨
      s'.history = s.history.writeOutbox row.id (row.changes saved) := by
  have hother {i : Nat} {phase : PassPhase} (hphase' : s.passes i ≠ .committing row saved todo) :
      (s.goto i phase).passes j = .committing row saved todo := by
    rw [goto_passes, if_neg]
    · exact hphase
    · rintro rfl
      exact hphase' hphase
  cases h with
  | still => exact .inl hphase
  | selects hidle hbatch => exact .inl (hother (by rw [hidle]; simp))
  | ends hold => exact .inl (hother (by rw [hold]; simp))
  | skips hold => exact .inl (hother (by rw [hold]; simp))
  | finds hold => exact .inl (hother (by rw [hold]; simp))
  | posts hold hone => exact .inl (hother (by rw [hold]; simp))
  | raises hold hone => exact .inl (hother (by rw [hold]; simp))
  | @commits i row' saved' todo' hold =>
      by_cases hown : j = i
      · subst hown
        rw [hold] at hphase
        cases hphase
        exact .inr (.inr rfl)
      · left
        rw [goto_passes_of_ne hown]
        exact hphase
  | @fails i =>
      by_cases hown : j = i
      · exact .inr (.inl (by rw [hown]))
      · left
        rw [goto_passes_of_ne hown]
        exact hphase
  | enqueues => exact .inl hphase

/-- The request of a step is for a row that the pass has in hand. -/
theorem request (h : Moves settings s e reply s') {post : Post} (hreply : reply = some post) :
    ∃ j attempt row url, e = .post j attempt ∧ row ∈ (s.passes j).rows ∧
      post = postFor settings row url ∧ ∀ saved, deliverOne row attempt = .ok saved →
        ∃ todo, s'.passes j = .committing row saved todo := by
  cases h with
  | posts hphase hone =>
      cases hreply
      refine ⟨_, _, _, _, rfl, ?_, rfl, ?_⟩
      · rw [hphase]
        exact List.mem_cons_self ..
      · intro saved hsaved
        rw [hone] at hsaved
        cases hsaved
        exact ⟨_, goto_passes_self ..⟩
  | raises hphase hone =>
      cases hreply
      refine ⟨_, _, _, _, rfl, ?_, rfl, ?_⟩
      · rw [hphase]
        exact List.mem_cons_self ..
      · intro saved hsaved
        rw [hone] at hsaved
        cases hsaved
  | _ => cases hreply

/-- A row is as it was, or new, or it has been committed. -/
theorem outbox (h : Moves settings s e reply s') (hrow : row ∈ s'.history.outbox) :
    row ∈ s.history.outbox ∨ (row.attempts = 0 ∧ row.deliveredAt = none) ∨
      ∃ j loaded saved todo, s.passes j = .committing loaded saved todo ∧
        ∃ old ∈ s.history.outbox, old.id = loaded.id ∧ row = (loaded.changes saved).write old := by
  cases h with
  | @commits i loaded saved todo hphase =>
      obtain ⟨old, hold, rfl⟩ := History.mem_writeOutbox.mp hrow
      split
      · rename_i hid
        exact .inr (.inr ⟨i, loaded, saved, todo, hphase, old, hold, hid, rfl⟩)
      · exact .inl hold
  | @enqueues warning =>
      obtain ⟨added, houtbox, hadded⟩ := History.Grows.enqueue s.history warning
      change row ∈ (enqueue s.history warning).2.outbox at hrow
      rw [houtbox] at hrow
      rcases List.mem_append.mp hrow with hold | hnew
      · exact .inl hold
      · exact .inr (.inl (hadded row hnew))
  | _ => exact .inl hrow

/-- The warning that a row is does not change. -/
theorem sameWarning (h : Moves settings s e reply s') (hrow : row ∈ s.history.outbox) :
    ∃ row' ∈ s'.history.outbox, row.SameWarning row' := by
  have hsame : row.SameWarning row := ⟨rfl, rfl, rfl, rfl, rfl⟩
  cases h with
  | @commits i loaded saved todo hphase =>
      refine ⟨_, History.mem_writeOutbox.mpr ⟨row, hrow, rfl⟩, ?_⟩
      split
      · exact ⟨rfl, rfl, rfl, rfl, rfl⟩
      · exact hsame
  | @enqueues warning =>
      obtain ⟨added, houtbox, -⟩ := History.Grows.enqueue s.history warning
      exact ⟨row, by rw [houtbox]; exact List.mem_append_left _ hrow, hsame⟩
  | _ => exact ⟨row, hrow, hsame⟩

/-- A pass begins once. -/
theorem begun (h : Moves settings s e reply s') {j : Nat} (hbegun : s.passes j ≠ .idle) :
    s'.passes j ≠ .idle := by
  have hkept {i : Nat} {phase : PassPhase} {history : History} (hphase : phase ≠ .idle) :
      ({ s with history }.goto i phase).passes j ≠ .idle := by
    rw [goto_passes]
    split
    · exact hphase
    · exact hbegun
  cases h with
  | still => exact hbegun
  | enqueues => exact hbegun
  | selects => exact hkept (by simp)
  | ends => exact hkept (by simp)
  | skips => exact hkept (by simp)
  | finds => exact hkept (by simp)
  | posts => exact hkept (by simp)
  | raises => exact hkept (by simp)
  | commits => exact hkept (by simp)
  | fails => exact hkept (by simp)

end Moves

/-! ### A pass alone -/

/-- The steps of a pass through these rows, with no step of another between them. -/
def alone (db : Database) (attempts : Nat → Attempt) (i : Nat) : List WebhookOutbox → List PassEvent
  | [] => [.lookup i db]
  | row :: rest => match db.webhookOf row.apiKeyId with
    | none => .lookup i db :: alone db attempts i rest
    | some _ => .lookup i db :: .post i (attempts row.id) :: .commit i :: alone db attempts i rest

theorem final_ended (db : Database) (attempts : Nat → Attempt) (batch : List WebhookOutbox)
    (hended : s.passes i = .ended) : Run.final (exec settings) s (alone db attempts i batch) = s := by
  have hlookup : (exec settings (.lookup i db) s).2 = s := by
    show s.lookup i db = s
    rw [lookup, hended]
  induction batch with
  | nil => rw [alone, Run.final, hlookup, Run.final]
  | cons row rest ih =>
      have hpost : (exec settings (.post i (attempts row.id)) s).2 = s := by
        show (s.post settings i _).2 = s
        rw [post, hended]
      have hcommit : (exec settings (.commit i) s).2 = s := by
        show s.commit i = s
        rw [commit, hended]
      unfold alone
      split
      · rw [Run.final, hlookup, ih]
      · rw [Run.final, hlookup, Run.final, hpost, Run.final, hcommit, ih]

/-- The commit of a row that nobody else has written saves it. -/
theorem writeOutbox_changes {h : History} (hrow : row ∈ h.outbox) (hsame : row.SameWarning saved) :
    h.writeOutbox row.id (row.changes saved) = h.saveOutbox saved := by
  refine History.ext rfl ?_
  rw [History.outbox_saveOutbox hrow hsame]
  refine List.map_congr_left fun old hold => ?_
  by_cases hid : old.id = row.id
  · obtain rfl := History.row_eq_of_id hrow hold hid
    rw [if_pos rfl, if_pos rfl, WebhookOutbox.write_changes hsame]
  · rw [if_neg hid, if_neg fun heq => hid (congrArg WebhookOutbox.id heq)]

/-- **The steps of a pass that no other interrupts are `deliver_webhooks`.** -/
theorem final_alone {db : Database} {attempts : Nat → Attempt} {batch : List WebhookOutbox} {pass : Pass}
    (hphase : s.passes i = .working batch) (hbatch : batch.Nodup)
    (hstored : ∀ row ∈ batch, row ∈ s.history.outbox) (hpass : pass.history = s.history) :
    (Run.final (exec settings) s (alone db attempts i batch)).history =
      (deliverRows settings db attempts batch pass).history := by
  induction batch generalizing s pass with
  | nil =>
      rw [alone, Run.final, Run.final]
      show (s.lookup i db).history = pass.history
      rw [lookup, hphase, hpass, goto_history]
  | cons row rest ih =>
      obtain ⟨hfirst, hrest⟩ := List.nodup_cons.mp hbatch
      have hin := hstored row (List.mem_cons_self ..)
      have hlater : ∀ other ∈ rest, other ∈ s.history.outbox :=
        fun other hmem => hstored other (List.mem_cons_of_mem _ hmem)
      unfold alone
      cases hurl : db.webhookOf row.apiKeyId with
      | none =>
          have hlookup : (exec settings (.lookup i db) s).2 = s.goto i (.working rest) := by
            show s.lookup i db = _
            simp only [lookup, hphase, hurl]
          rw [Run.final, hlookup, deliverRows, hurl]
          exact ih (goto_passes_self ..) hrest hlater hpass
      | some url =>
          have hlookup : (exec settings (.lookup i db) s).2 = s.goto i (.posting row url rest) := by
            show s.lookup i db = _
            simp only [lookup, hphase, hurl]
          dsimp only
          rw [Run.final, hlookup, Run.final, deliverRows, hurl]
          rcases deliverOne_cases row (attempts row.id) with ⟨saved, hone, hsame, -⟩ | ⟨name, hone, -⟩
          · have hpost : (exec settings (.post i (attempts row.id)) (s.goto i (.posting row url rest))).2 =
                s.goto i (.committing row saved rest) := by
              show ((s.goto i (.posting row url rest)).post settings i _).2 = _
              simp only [post, goto_passes_self, hone, goto_goto]
            have hcommit : (exec settings (.commit i) (s.goto i (.committing row saved rest))).2 =
                { s with history := s.history.saveOutbox saved }.goto i (.working rest) := by
              show (s.goto i (.committing row saved rest)).commit i = _
              simp only [commit, goto_passes_self, goto_history, writeOutbox_changes hin hsame]
              exact goto_goto { s with history := s.history.saveOutbox saved } i _ _
            rw [hpost, Run.final, hcommit]
            simp only [hone]
            refine ih (goto_passes_self ..) hrest (fun other hmem => ?_) (by rw [hpass]; rfl)
            refine History.mem_saveOutbox_of_ne (hlater other hmem) fun hid => ?_
            obtain rfl := History.row_eq_of_id hin (hlater other hmem) (hid.trans hsame.id)
            exact hfirst hmem
          · have hpost : (exec settings (.post i (attempts row.id)) (s.goto i (.posting row url rest))).2 =
                s.goto i .ended := by
              show ((s.goto i (.posting row url rest)).post settings i _).2 = _
              simp only [post, goto_passes_self, hone, goto_goto]
            have hcommit : (exec settings (.commit i) (s.goto i .ended)).2 = s.goto i .ended := by
              show (s.goto i .ended).commit i = _
              rw [commit, goto_passes_self]
            rw [hpost, Run.final, hcommit, final_ended db attempts rest (goto_passes_self ..)]
            simp only [hone]
            exact hpass.symm

/-! ### What a pass has in hand -/

/-- Whatever has happened to its row since, a pass loaded it undelivered and with an attempt left. -/
structure Fresh (settings : WebhookSettings) (s : Deliveries) : Prop where
  undelivered : ∀ i, ∀ row ∈ (s.passes i).rows, row.deliveredAt = none
  few : ∀ i, ∀ row ∈ (s.passes i).rows, row.attempts < settings.webhookMaxAttempts

theorem Fresh.init (settings : WebhookSettings) : Fresh settings init where
  undelivered := fun _ _ hmem => absurd hmem List.not_mem_nil
  few := fun _ _ hmem => absurd hmem List.not_mem_nil

theorem Fresh.moves (h : Fresh settings s) (hmoves : Moves settings s e reply s') :
    Fresh settings s' where
  undelivered := by
    intro j row hmem
    rcases hmoves.rows hmem with hold | ⟨-, -, -, now, hdue⟩
    · exact h.undelivered j row hold
    · exact hdue.1
  few := by
    intro j row hmem
    rcases hmoves.rows hmem with hold | ⟨-, -, -, now, hdue⟩
    · exact h.few j row hold
    · exact hdue.2.2

/-! ### Delivered for good -/

/-- The row is delivered. -/
def Delivered (s : Deliveries) (id : Nat) : Prop :=
  ∃ row ∈ s.history.outbox, row.id = id ∧ row.deliveredAt ≠ none

/-- No session has loaded a time of delivery that it could take back. -/
theorem Delivered.moves (h : s.Delivered id) (hfresh : Fresh settings s)
    (hmoves : Moves settings s e reply s') : s'.Delivered id := by
  cases hmoves with
  | @commits i loaded saved todo hphase =>
      obtain ⟨row, hrow, hid, hdelivered⟩ := h
      refine ⟨_, History.mem_writeOutbox.mpr ⟨row, hrow, rfl⟩, ?_, ?_⟩
      · split <;> exact hid
      · split
        · have hopen : loaded.deliveredAt = none :=
            hfresh.undelivered i loaded (by rw [hphase]; exact List.mem_cons_self ..)
          show (changed loaded.deliveredAt (some saved.deliveredAt)).getD row.deliveredAt ≠ none
          cases hsaved : saved.deliveredAt with
          | none =>
              rw [hopen, changed, Option.filter_some]
              simpa using hdelivered
          | some t =>
              rw [hopen, changed, Option.filter_some]
              simp
        · exact hdelivered
  | @enqueues warning =>
      obtain ⟨row, hrow, hid, hdelivered⟩ := h
      obtain ⟨added, houtbox, -⟩ := History.Grows.enqueue s.history warning
      exact ⟨row, by rw [houtbox]; exact List.mem_append_left _ hrow, hid, hdelivered⟩
  | _ => exact h

/-! ### The requests of a run -/

/-- A request that a pass has made, and how it went. -/
structure Posting where
  pass : Nat
  post : Post
  attempt : Attempt

def posting (step : PassStep) : Option Posting :=
  match step.event, step.reply with
  | .post i attempt, some post => some ⟨i, post, attempt⟩
  | _, _ => none

def postings (steps : List PassStep) : List Posting := steps.filterMap posting

/-- The requests for the row that no receiver has accepted. -/
def failures (id : Nat) (sent : List Posting) : Nat :=
  sent.countP fun p => p.post.rowId = id ∧ p.attempt.accepted = false

theorem postings_append (past future : List PassStep) :
    postings (past ++ future) = postings past ++ postings future :=
  List.filterMap_append

theorem postings_snoc (past : List PassStep) (step : PassStep) :
    postings (past ++ [step]) = postings past ++ (posting step).toList := by
  rw [postings_append]
  cases hposting : posting step <;> simp [postings, hposting]

theorem failures_le (id : Nat) (past future : List PassStep) :
    failures id (postings past) ≤ failures id (postings (past ++ future)) := by
  rw [failures, failures, postings_append, List.countP_append]
  exact Nat.le_add_right _ _

/-- A request that fails is counted. -/
theorem failures_snoc (past : List PassStep) {step : PassStep} {p : Posting} (hposting : posting step = some p)
    (hfailed : p.attempt.accepted = false) :
    failures p.post.rowId (postings (past ++ [step])) = failures p.post.rowId (postings past) + 1 := by
  rw [postings_snoc, hposting, failures, failures, List.countP_append]
  simp [hfailed]

/-- The request of a step is for a row that its pass has in hand. -/
theorem Moves.posting {step : PassStep} {p : Posting}
    (h : Moves settings step.before step.event step.reply step.after)
    (hposting : Deliveries.posting step = some p) :
    step.event = .post p.pass p.attempt ∧ step.reply = some p.post ∧
      ∃ row ∈ (step.before.passes p.pass).rows, ∃ url, p.post = postFor settings row url ∧
        ∀ saved, deliverOne row p.attempt = .ok saved →
          ∃ todo, step.after.passes p.pass = .committing row saved todo := by
  unfold Deliveries.posting at hposting
  split at hposting
  · rename_i i attempt post hevent hreply
    cases hposting
    obtain ⟨j, attempt', row, url, hevent', hrow, hpost, hsaved⟩ := h.request hreply
    rw [hevent] at hevent'
    cases hevent'
    exact ⟨hevent, hreply, row, hrow, url, hpost, hsaved⟩
  · cases hposting

/-! ### What the requests account for -/

/-- The pass began while the row was in the table, undelivered. -/
def Selected (steps : List PassStep) (i id : Nat) : Prop :=
  ∃ step ∈ steps, step.before.passes i = .idle ∧ step.after.passes i ≠ .idle ∧
    ∃ row ∈ step.before.history.outbox, row.id = id ∧ row.deliveredAt = none

/-- What the requests so far say of the rows that a pass has in hand. -/
structure Held (steps : List PassStep) (s : Deliveries) (i : Nat) (row : WebhookOutbox) : Prop where
  stored : ∃ stored ∈ s.history.outbox, row.SameWarning stored
  counted : row.attempts ≤ failures row.id (postings steps)
  selected : Selected steps i row.id

/-- What they say of a row that is about to be committed. -/
structure Answered (steps : List PassStep) (row saved : WebhookOutbox) (p : Posting) : Prop where
  mem : p ∈ postings steps
  rowId : p.post.rowId = row.id
  one : deliverOne row p.attempt = .ok saved
  counted : saved.attempts ≤ failures row.id (postings steps)

/-- What they say of a row of the table. -/
structure Kept (settings : WebhookSettings) (steps : List PassStep) (row : WebhookOutbox) : Prop where
  accepted : ∀ t, row.deliveredAt = some t → ∃ p ∈ postings steps, p.post.rowId = row.id ∧
    p.attempt.accepted = true ∧ p.attempt.now = t
  counted : row.attempts ≤ failures row.id (postings steps)
  few : row.attempts ≤ settings.webhookMaxAttempts

/-- What is true of a request that has been made. -/
structure Sent (steps : List PassStep) (s : Deliveries) (p : Posting) : Prop where
  /-- It had the body that was enqueued. -/
  frozen : ∃ row ∈ s.history.outbox, row.id = p.post.rowId ∧ row.payload = p.post.content
  selected : Selected steps p.pass p.post.rowId
  /-- If it was accepted, the row is delivered, or is about to be, or the commit has failed. -/
  settled : p.attempt.accepted = true → s.Delivered p.post.rowId ∨
    (∃ row saved todo, s.passes p.pass = .committing row saved todo ∧ row.id = p.post.rowId ∧
      saved.deliveredAt ≠ none) ∨ ∃ step ∈ steps, step.event = .fail p.pass

structure Accounted (settings : WebhookSettings) (steps : List PassStep) (s : Deliveries) : Prop where
  fresh : Fresh settings s
  held : ∀ i, ∀ row ∈ (s.passes i).rows, Held steps s i row
  answered : ∀ i row saved todo, s.passes i = .committing row saved todo →
    ∃ p, Answered steps row saved p
  kept : ∀ row ∈ s.history.outbox, Kept settings steps row
  sent : ∀ p ∈ postings steps, Sent steps s p

theorem Selected.mono {more : List PassStep} (h : Selected steps i id) (hsub : steps ⊆ more) :
    Selected more i id := by
  obtain ⟨step, hmem, hselects⟩ := h
  exact ⟨step, hsub hmem, hselects⟩

namespace Accounted

theorem init (settings : WebhookSettings) : Accounted settings [] init where
  fresh := Fresh.init settings
  held := fun _ _ hmem => absurd hmem List.not_mem_nil
  answered := fun _ _ _ _ => nofun
  kept := fun _ hmem => absurd hmem List.not_mem_nil
  sent := fun _ hmem => absurd hmem List.not_mem_nil

variable {step : PassStep}

theorem step_held (h : Accounted settings past step.before)
    (hmoves : Moves settings step.before step.event step.reply step.after)
    (hrow : row ∈ (step.after.passes i).rows) : Held (past ++ [step]) step.after i row := by
  have hsub : past ⊆ past ++ [step] := List.subset_append_left _ _
  rcases hmoves.rows hrow with hold | ⟨hidle, hbegun, hstored, now, hdue⟩
  · obtain ⟨⟨stored, hstored, hsame⟩, hcounted, hselected⟩ := h.held i row hold
    obtain ⟨stored', hstored', hsame'⟩ := hmoves.sameWarning hstored
    exact ⟨⟨stored', hstored', ⟨hsame'.id.trans hsame.id, hsame'.apiKeyId.trans hsame.apiKeyId,
      hsame'.month.trans hsame.month, hsame'.kind.trans hsame.kind, hsame'.payload.trans hsame.payload⟩⟩,
      hcounted.trans (failures_le _ _ _), hselected.mono hsub⟩
  · exact ⟨hmoves.sameWarning hstored, (h.kept row hstored).counted.trans (failures_le _ _ _),
      step, List.mem_append_right _ (List.mem_singleton_self _), hidle, hbegun, row, hstored, rfl, hdue.1⟩

theorem step_answered (h : Accounted settings past step.before)
    (hmoves : Moves settings step.before step.event step.reply step.after)
    {todo : List WebhookOutbox} (hphase : step.after.passes i = .committing row saved todo) :
    ∃ p, Answered (past ++ [step]) row saved p := by
  rcases hmoves.committing hphase with hold | ⟨hrow, attempt, url, hevent, hreply, hsaved⟩
  · obtain ⟨p, hmem, hid, hsaved, hcounted⟩ := h.answered i row saved todo hold
    refine ⟨p, ?_, hid, hsaved, hcounted.trans (failures_le _ _ _)⟩
    rw [postings_append]
    exact List.mem_append_left _ hmem
  · have hposting : posting step = some ⟨i, postFor settings row url, attempt⟩ := by
      rw [posting, hevent, hreply]
    refine ⟨⟨i, postFor settings row url, attempt⟩, ?_, rfl, hsaved, ?_⟩
    · rw [postings_snoc, hposting]
      exact List.mem_append_right _ (List.mem_singleton_self _)
    · have hcounted := (h.held i row hrow).counted
      obtain ⟨-, ⟨-, -, hattempts⟩ | ⟨hfailed, -, hattempts⟩⟩ := deliverOne_ok hsaved
      · rw [hattempts]
        exact hcounted.trans (failures_le _ _ _)
      · -- The request that has failed is one of those counted.
        have hmore := failures_snoc past hposting hfailed
        change failures row.id _ = failures row.id _ + 1 at hmore
        omega

theorem step_kept (h : Accounted settings past step.before)
    (hmoves : Moves settings step.before step.event step.reply step.after)
    (hrow : row ∈ step.after.history.outbox) : Kept settings (past ++ [step]) row := by
  have hmore {old : WebhookOutbox} (hold : old ∈ step.before.history.outbox) :
      Kept settings (past ++ [step]) old := by
    obtain ⟨haccepted, hcounted, hfew⟩ := h.kept old hold
    refine ⟨fun t ht => ?_, hcounted.trans (failures_le _ _ _), hfew⟩
    obtain ⟨p, hmem, hp⟩ := haccepted t ht
    exact ⟨p, by rw [postings_append]; exact List.mem_append_left _ hmem, hp⟩
  rcases hmoves.outbox hrow with hold | ⟨hattempts, hdelivered⟩ |
    ⟨i, loaded, saved, todo, hphase, old, hold, hid, rfl⟩
  · exact hmore hold
  · refine ⟨fun t ht => ?_, by omega, by omega⟩
    rw [hdelivered] at ht
    cases ht
  · -- What the session writes is what `deliver_one` made of the row that it had loaded.
    obtain ⟨haccepted, hcounted, hfew⟩ := hmore hold
    obtain ⟨p, hmem, hrowId, hone, hsaved⟩ := h.answered i loaded saved todo hphase
    have hloaded : loaded ∈ (step.before.passes i).rows := by
      rw [hphase]
      exact List.mem_cons_self ..
    have hopen := h.fresh.undelivered i loaded hloaded
    have hroom := h.fresh.few i loaded hloaded
    have hattempts := getD_changed_cases loaded.attempts saved.attempts old.attempts
    have htime := getD_changed_cases loaded.deliveredAt saved.deliveredAt old.deliveredAt
    have hmem' : p ∈ postings (past ++ [step]) := by
      rw [postings_append]
      exact List.mem_append_left _ hmem
    have hsaved' := hsaved.trans (failures_le loaded.id past [step])
    obtain ⟨-, hcases⟩ := deliverOne_ok hone
    refine ⟨fun t ht => ?_, ?_, ?_⟩
    · change (changed loaded.deliveredAt (some saved.deliveredAt)).getD old.deliveredAt = some t at ht
      rcases htime with hsame | hwritten
      · rw [hsame] at ht
        exact haccepted t ht
      · rw [hwritten] at ht
        rcases hcases with ⟨hok, hnow, -⟩ | ⟨-, hsame, -⟩
        · rw [hnow, Option.some.injEq] at ht
          exact ⟨p, hmem', hrowId.trans hid.symm, hok, ht⟩
        · rw [hsame, hopen] at ht
          cases ht
    · change (changed loaded.attempts (some saved.attempts)).getD old.attempts ≤ failures old.id _
      rcases hattempts with hsame | hwritten
      · rw [hsame]
        exact hcounted
      · rw [hwritten, hid]
        exact hsaved'
    · change (changed loaded.attempts (some saved.attempts)).getD old.attempts ≤ _
      rcases hattempts with hsame | hwritten
      · rw [hsame]
        exact hfew
      · rw [hwritten]
        omega

/-- A commit of what an accepted request has made of the row delivers it. -/
theorem delivered_of_write (h : Accounted settings past s) {todo : List WebhookOutbox}
    (hphase : s.passes i = .committing row saved todo) (hdelivered : saved.deliveredAt ≠ none)
    (hwritten : s'.history = s.history.writeOutbox row.id (row.changes saved)) :
    s'.Delivered row.id := by
  have hrow : row ∈ (s.passes i).rows := by
    rw [hphase]
    exact List.mem_cons_self ..
  obtain ⟨stored, hstored, hsame⟩ := (h.held i row hrow).stored
  refine ⟨(row.changes saved).write stored, ?_, hsame.id, ?_⟩
  · rw [hwritten]
    exact History.mem_writeOutbox.mpr ⟨stored, hstored, if_pos hsame.id⟩
  · show (changed row.deliveredAt (some saved.deliveredAt)).getD stored.deliveredAt ≠ none
    rw [h.fresh.undelivered i row hrow, changed, Option.filter_some]
    simp [hdelivered]

theorem step_sent (h : Accounted settings past step.before)
    (hmoves : Moves settings step.before step.event step.reply step.after) {p : Posting}
    (hp : p ∈ postings (past ++ [step])) : Sent (past ++ [step]) step.after p := by
  have hsub : past ⊆ past ++ [step] := List.subset_append_left _ _
  rw [postings_snoc] at hp
  rcases List.mem_append.mp hp with hold | hnew
  · obtain ⟨⟨row, hrow, hid, hcontent⟩, hselected, hsettled⟩ := h.sent p hold
    obtain ⟨row', hrow', hsame⟩ := hmoves.sameWarning hrow
    refine ⟨⟨row', hrow', hsame.id.trans hid, hsame.payload.trans hcontent⟩, hselected.mono hsub,
      fun haccepted => ?_⟩
    rcases hsettled haccepted with hdelivered | ⟨row, saved, todo, hphase, hid, hdelivered⟩ |
      ⟨failed, hmem, hfails⟩
    · exact .inl (hdelivered.moves h.fresh hmoves)
    · rcases hmoves.resolves hphase with hstays | hfails | hwritten
      · exact .inr (.inl ⟨row, saved, todo, hstays, hid, hdelivered⟩)
      · exact .inr (.inr ⟨step, List.mem_append_right _ (List.mem_singleton_self _), hfails⟩)
      · exact .inl (hid ▸ h.delivered_of_write hphase hdelivered hwritten)
    · exact .inr (.inr ⟨failed, hsub hmem, hfails⟩)
  · obtain ⟨hevent, hreply, row, hrow, url, hpost, hsaved⟩ :=
      hmoves.posting (Option.mem_toList.mp hnew)
    obtain ⟨⟨stored, hstored, hsame⟩, -, hselected⟩ := h.held p.pass row hrow
    obtain ⟨stored', hstored', hsame'⟩ := hmoves.sameWarning hstored
    refine ⟨⟨stored', hstored', ?_, ?_⟩, ?_, fun haccepted => ?_⟩
    · rw [hpost]
      exact hsame'.id.trans hsame.id
    · rw [hpost]
      exact hsame'.payload.trans hsame.payload
    · rw [hpost]
      exact hselected.mono hsub
    · cases hone : deliverOne row p.attempt with
      | error name =>
          rw [accepted_of_error hone] at haccepted
          cases haccepted
      | ok saved =>
          obtain ⟨todo, hphase⟩ := hsaved saved hone
          refine .inr (.inl ⟨row, saved, todo, hphase, by rw [hpost]; rfl, ?_⟩)
          obtain ⟨-, ⟨-, hdelivered, -⟩ | ⟨hfailed, -⟩⟩ := deliverOne_ok hone
          · rw [hdelivered]
            exact Option.some_ne_none _
          · rw [hfailed] at haccepted
            cases haccepted

theorem next (step : PassStep) (h : Accounted settings past step.before)
    (hmoves : Moves settings step.before step.event step.reply step.after) :
    Accounted settings (past ++ [step]) step.after where
  fresh := h.fresh.moves hmoves
  held := fun _ _ hrow => h.step_held hmoves hrow
  answered := fun _ _ _ _ hphase => h.step_answered hmoves hphase
  kept := fun _ hrow => h.step_kept hmoves hrow
  sent := fun _ hp => h.step_sent hmoves hp

theorem of_run (hrun : Run (exec settings) Undisturbed Deliveries.init steps s) :
    Accounted settings steps s := by
  have hok : ∀ step ∈ steps, (fun _ : PassStep => True) step := fun _ _ => trivial
  refine hrun.history (P := Accounted settings) (Accounted.init settings) ?_ hok
  intro past middle e found hpast hlink _
  cases hlink
  have hmoves := exec_moves settings e middle
  exact Accounted.next (Step.of (exec settings) e middle) hpast hmoves

end Accounted

/-! ### Every run -/

/-- What is delivered stays delivered, from any state whose sessions have loaded no time of delivery. -/
theorem delivered_of_run (hrun : Run (exec settings) Undisturbed s steps s') (hfresh : Fresh settings s)
    (hdelivered : s.Delivered id) :
    s'.Delivered id ∧ ∀ step ∈ steps, step.before.Delivered id := by
  have hkept := hrun.invariant (I := fun s => Fresh settings s ∧ s.Delivered id) (p := fun _ => True)
    (fun e s found h (hlink : found = s) => hlink ▸ h)
    (fun e s _ h => ⟨h.1.moves (exec_moves settings e s), h.2.moves h.1 (exec_moves settings e s)⟩)
    ⟨hfresh, hdelivered⟩ fun _ _ => trivial
  exact ⟨hkept.1.2, fun step hmem => (hkept.2 step hmem).1.2⟩

/-- A pass that has not begun was not begun by a step so far. -/
theorem not_begun_of_idle (hrun : Run (exec settings) Undisturbed s steps s')
    (hidle : s'.passes i = .idle) {step : PassStep} (hmem : step ∈ steps) :
    step.after.passes i = .idle := by
  by_contra hbegun
  obtain ⟨rest, hrest, -⟩ := hrun.since hmem
  exact (hrest.invariant (I := fun s => s.passes i ≠ .idle) (p := fun _ => True)
    (fun e s found h (hlink : found = s) => hlink ▸ h)
    (fun e s _ h => (exec_moves settings e s).begun h) hbegun fun _ _ => trivial).1 hidle

/-- **Warnings are sent at least once, and not after they are delivered.** -/
structure AtLeastOnce (settings : WebhookSettings) (past future : List PassStep) (s s' : Deliveries) :
    Prop where
  kept : ∀ row ∈ s'.history.outbox, Kept settings (past ++ future) row
  sent : ∀ p ∈ postings (past ++ future), Sent (past ++ future) s' p
  stays : ∀ id, s.Delivered id → s'.Delivered id
  quiet : ∀ id, s.Delivered id → ∀ p ∈ postings future, s.passes p.pass = .idle → p.post.rowId ≠ id

/-- **Overlapping passes deliver at least once.** However the steps of any number of passes and of the
inserts are ordered, whatever the requests end in and whichever commits fail: a row is delivered, for good
and with the time of a request that was accepted; its attempts are within the bound and no more than the
requests that failed; every request has the body that was enqueued, and if it was accepted its row is
delivered unless the commit fails. No pass that begins after a row is delivered sends it. -/
theorem passes_at_least_once (hpast : Run (exec settings) Undisturbed Deliveries.init past s)
    (hfuture : Run (exec settings) Undisturbed s future s') :
    AtLeastOnce settings past future s s' := by
  have hrun := Run.append_iff.mpr ⟨s, hpast, hfuture⟩
  have hmiddle := Accounted.of_run hpast
  have hend := Accounted.of_run hrun
  refine ⟨hend.kept, hend.sent, fun id hdelivered => ?_, fun id hdelivered p hp hidle hsame => ?_⟩
  · exact (delivered_of_run hfuture hmiddle.fresh hdelivered).1
  · have hmem : p ∈ postings (past ++ future) := by
      rw [postings_append]
      exact List.mem_append_right _ hp
    obtain ⟨step, hstep, hbefore, hbegun, row, hrow, hid, hopen⟩ := (hend.sent p hmem).selected
    rcases List.mem_append.mp hstep with hearly | hlate
    · exact hbegun (not_begun_of_idle hpast hidle hearly)
    · -- The pass has found the row undelivered, but it was delivered already.
      obtain ⟨other, hother, hotherId, hdone⟩ :=
        (delivered_of_run hfuture hmiddle.fresh hdelivered).2 step hlate
      obtain rfl := History.row_eq_of_id hrow hother (hotherId.trans (hsame.symm.trans hid.symm))
      exact hdone hopen

def sampleEntry : Warning := ⟨1, "1970-01", (sampleWarning 1).payload, 0⟩

/-- Two passes load a row. The request of the first is accepted, that of the second is not, and the second
commits last. -/
def sampleOverlap : List PassEvent :=
  [.enqueue sampleEntry, .select 0 60 [sampleEntry.row 1], .select 1 60 [sampleEntry.row 1],
    .lookup 0 sampleHooksDatabase, .post 0 (sampleAttempts (.response 200) 1),
    .lookup 1 sampleHooksDatabase, .post 1 (sampleAttempts (.response 500) 1), .commit 0, .commit 1]

/-- The row stays delivered, with the attempt of the other pass. -/
theorem passes_at_least_once_sample :
    let past := Run.trace (exec sampleWebhookSettings) Deliveries.init sampleOverlap
    let s := Run.final (exec sampleWebhookSettings) Deliveries.init sampleOverlap
    let late : List PassEvent := [.select 2 9999 [], .lookup 2 sampleHooksDatabase]
    (postings past).length = 2 ∧
      s.history.outbox.map (fun row => (row.deliveredAt, row.attempts)) = [(some 60, 1)] ∧
      AtLeastOnce sampleWebhookSettings past (Run.trace (exec sampleWebhookSettings) s late) s
        (Run.final (exec sampleWebhookSettings) s late) := by
  intro past s late
  exact ⟨by decide +kernel, by decide +kernel,
    passes_at_least_once (Run.of_events _ Deliveries.init sampleOverlap) (Run.of_events _ s late)⟩

end Deliveries

end QuotaGuard
