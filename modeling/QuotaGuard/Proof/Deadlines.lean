import QuotaGuard.Proof.Expiry
import QuotaGuard.Proof.Months
import QuotaGuard.Proof.Names
import QuotaGuard.Proof.Quota

/-!
# No admission key without an expiry

Two scripts write admission keys. A counter has its deadline from the first check that raises it or from
a restore, which drops the one it had and sets that of its month again; a flag has it from the check that
sets it; a bucket and a window have it from their last admission. No order of the two scripts leaves a key
without one.
-/

namespace QuotaGuard

/-- `restore_from_rollup` calls the script so. -/
def RestoreCall.FromRollup (r : RestoreCall) : Prop := monthEndOfText r.month = some r.monthEnd

theorem restoreFromRollup_exec {registry : Registry} {scripts : List String} {r : RestoreCall}
    (hscripts : registry.scripts = some scripts) (hrestore : "restore" ∈ scripts)
    (hr : r.FromRollup) (db : Keyspace) :
    (restoreFromRollup registry r.now r.key.val r.month r.floor db).2 = (r.exec db).2 := by
  rw [restoreFromRollup_eq hscripts hrestore hr]
  rfl

namespace QuotaEvent

def now : QuotaEvent → Time
  | check c => c.now
  | restore r => r.now

end QuotaEvent

/-- The call, when the step is an admitted check of this key and resource. -/
def QuotaStep.spends (key : KeyId) (resource : String) (step : QuotaStep) : Option Call :=
  match step.event, step.reply with
  | .check c, .check reply =>
    if allows reply = true ∧ c.key = key ∧ c.resource.val = resource then some c else none
  | _, _ => none

def lastAdmitted (key : KeyId) (resource : String) (steps : List QuotaStep) : Option Call :=
  (steps.filterMap (QuotaStep.spends key resource)).getLast?

/-- The end of a month, as the script computes it or as Python reads it from the text of one that a step
restores. -/
def MonthEnds (steps : List QuotaStep) (key : KeyId) (month : String) (monthEnd : Int) : Prop :=
  (∃ t : Time, t.monthStr = month ∧ t.monthEnd = monthEnd) ∨
    monthEndOfText month = some monthEnd ∧ ∃ step ∈ steps, step.Restores key month

/-- What the steps say of the deadline of a key that is there. -/
def Entry.Due (steps : List QuotaStep) (key : KeyId) (rest : String) (entry : Entry) : Family → Prop
  | .bucket => entry.expireAt ≠ none
  | .window => ∃ c deadline, lastAdmitted key rest steps = some c ∧ entry.expireAt = some deadline ∧
      c.now.us + c.argv.windowUs < deadline * 1000 ∧
      ∀ members, entry.value = .zset members → ∀ p ∈ members.entries, p.2 ≤ c.now.us
  | .quota => ∃ monthEnd, MonthEnds steps key rest monthEnd ∧
      entry.expireAt = some ((monthEnd + monthGraceS) * 1000)
  | .flag => ∃ t : Time, t.monthStr = rest ∧ entry.expireAt = some t.monthDeadline

/-- Every admission key is due. -/
def AllDue (steps : List QuotaStep) (db : Keyspace) : Prop :=
  ∀ (f : Family) key rest entry, db (f.name key rest) = some entry → entry.Due steps key rest f

variable {steps past : List QuotaStep} {step : QuotaStep} {db found : Keyspace} {key : KeyId}
  {month rest : String} {f : Family} {entry before : Entry} {monthEnd : Int}

theorem AllDue.empty : AllDue [] Keyspace.empty := by
  intro f key rest entry hentry
  cases hentry

theorem AllDue.lose (h : AllDue steps db) (hloss : db.Loses found) :
    AllDue steps found := by
  intro f key rest entry hentry
  rcases hloss (f.name key rest) with hsame | hgone
  · exact h f key rest entry (hsame ▸ hentry)
  · rw [hgone] at hentry
    cases hentry

/-! ### What one more step says -/

theorem MonthEnds.concat (h : MonthEnds past key month monthEnd) (step : QuotaStep) :
    MonthEnds (past ++ [step]) key month monthEnd := by
  rcases h with hformed | ⟨htext, restore, hmem, hrestores⟩
  · exact .inl hformed
  · exact .inr ⟨htext, restore, List.mem_append_left _ hmem, hrestores⟩

theorem lastAdmitted_concat (key : KeyId) (rest : String) (past : List QuotaStep) (step : QuotaStep) :
    lastAdmitted key rest (past ++ [step]) =
      (step.spends key rest).or (lastAdmitted key rest past) := by
  unfold lastAdmitted
  rw [List.filterMap_append, List.getLast?_append]
  congr 1
  cases hspends : step.spends key rest <;> simp [hspends]

theorem lastAdmitted_mem {c : Call} (h : lastAdmitted key rest past = some c) :
    ∃ step ∈ past, step.event = .check c := by
  obtain ⟨step, hmem, hspends⟩ := List.mem_filterMap.mp (List.mem_of_getLast? h)
  refine ⟨step, hmem, ?_⟩
  unfold QuotaStep.spends at hspends
  split at hspends
  · rename_i hevent _
    split at hspends
    · cases hspends
      exact hevent
    · cases hspends
  · cases hspends

/-- A step that admits nothing for the window leaves what is said of a key. -/
theorem Entry.Due.concat (h : before.Due past key rest f) (hexpire : entry.expireAt = before.expireAt)
    (hwindow : f = .window → step.spends key rest = none ∧ ∀ members, entry.value = .zset members →
      ∀ p ∈ members.entries, ∃ old, before.value = .zset old ∧ p ∈ old.entries) :
    entry.Due (past ++ [step]) key rest f := by
  cases f with
  | bucket =>
      show entry.expireAt ≠ none
      rw [hexpire]
      exact h
  | window =>
      obtain ⟨hspends, hmembers⟩ := hwindow rfl
      obtain ⟨c, deadline, hlast, hdeadline, hlong, hscores⟩ := h
      refine ⟨c, deadline, ?_, hexpire.trans hdeadline, hlong, fun members hvalue p hp => ?_⟩
      · rw [lastAdmitted_concat, hspends, hlast]
        rfl
      · obtain ⟨old, hold, hmem⟩ := hmembers members hvalue p hp
        exact hscores old hold p hmem
  | quota =>
      obtain ⟨monthEnd, hends, hdeadline⟩ := h
      exact ⟨monthEnd, hends.concat step, hexpire.trans hdeadline⟩
  | flag =>
      obtain ⟨t, hmonth, hdeadline⟩ := h
      exact ⟨t, hmonth, hexpire.trans hdeadline⟩

theorem Entry.Due.expires (h : entry.Due steps key rest f) : entry.expireAt ≠ none := by
  cases f with
  | bucket => exact h
  | window =>
      obtain ⟨c, deadline, -, hset, -⟩ := h
      rw [hset]
      exact Option.some_ne_none _
  | quota =>
      obtain ⟨monthEnd, -, hset⟩ := h
      rw [hset]
      exact Option.some_ne_none _
  | flag =>
      obtain ⟨t, -, hset⟩ := h
      rw [hset]
      exact Option.some_ne_none _

/-- A month has one end, whoever reads it. -/
theorem MonthEnds.eq_of_time {t : Time} (h : MonthEnds steps key month monthEnd)
    (hmonth : t.monthStr = month)
    (hread : t.civil.1 ≤ 9999 ∨ ∀ step ∈ steps, ¬ step.Restores key month) :
    monthEnd = t.monthEnd := by
  rcases h with ⟨t', hmonth', rfl⟩ | ⟨htext, restore, hmem, hrestores⟩
  · exact Time.monthEnd_eq (hmonth'.trans hmonth.symm)
  · rcases hread with hyear | hnone
    · rw [← hmonth] at htext
      exact Time.monthEnd_of_text hyear htext
    · exact absurd hrestores (hnone restore hmem)

/-! ### A check -/

variable {c : Call}

theorem QuotaStep.spends_check (htyped : db.Typed) :
    spends key rest (Step.of QuotaEvent.exec (.check c) db) =
      if c.admits db = true ∧ c.key = key ∧ c.resource.val = rest then some c else none := by
  rw [Step.of, QuotaEvent.exec_check htyped]
  simp only [spends, allows_reply]

/-- The members of a window that is there. -/
theorem Keyspace.mem_window {name : String} {p : String × Int} :
    p ∈ (db.window name).entries ↔
      ∃ entry members, db name = some entry ∧ entry.value = .zset members ∧ p ∈ members.entries := by
  unfold window
  constructor
  · intro hp
    split at hp
    · rename_i members expireAt hentry
      exact ⟨_, members, hentry, rfl, hp⟩
    · exact absurd hp (Finset.notMem_empty p)
  · rintro ⟨⟨value, expireAt⟩, members, hentry, rfl, hp⟩
    rw [hentry]
    exact hp

/-- The window of an admission is due by it. -/
theorem AllDue.admitted_window (h : AllDue past db) (htyped : db.Typed)
    (htimes : ∀ step ∈ past, step.event.now.us ≤ c.now.us) (hadmits : c.admits db = true)
    (hentry : c.after db c.skey = some entry)
    (hset : entry.expireAt = some (c.now.ms + windowTtl c.argv)) :
    entry.Due (past ++ [Step.of QuotaEvent.exec (.check c) db]) c.key c.resource.val .window := by
  refine ⟨c, _, ?_, hset, c.window_lt_deadline, fun members hvalue p hp => ?_⟩
  · rw [lastAdmitted_concat, QuotaStep.spends_check htyped, if_pos ⟨hadmits, rfl, rfl⟩]
    rfl
  · rcases Call.mem_window_after (Keyspace.mem_window.mpr ⟨entry, members, hentry, hvalue, hp⟩) with
      hold | ⟨-, hnew⟩
    · obtain ⟨before, old, hbefore, holdValue, hmem⟩ := Keyspace.mem_window.mp hold
      obtain ⟨last, -, hlast, -, -, hscores⟩ := h .window c.key c.resource.val before hbefore
      obtain ⟨step, hstep, hevent⟩ := lastAdmitted_mem hlast
      have htime := htimes step hstep
      rw [hevent] at htime
      exact (hscores old holdValue p hmem).trans htime
    · exact hnew.le

theorem AllDue.check_own (h : AllDue past db) (htyped : db.Typed)
    (htimes : ∀ step ∈ past, step.event.now.us ≤ c.now.us)
    (hentry : c.after db (f.name c.key (c.rest f)) = some entry) :
    entry.Due (past ++ [Step.of QuotaEvent.exec (.check c) db]) c.key (c.rest f) f := by
  cases f with
  | bucket =>
      show entry.expireAt ≠ none
      change c.after db c.bkey = some entry at hentry
      by_cases hadmits : c.admits db = true
      · rw [Call.after_bkey hadmits] at hentry
        split at hentry
        · cases hentry
        · cases hentry
          exact Option.some_ne_none _
      · rw [Call.after_denied hadmits, Call.trimmed_of_ne c.bkey_ne_skey] at hentry
        exact h .bucket c.key c.resource.val entry hentry
  | window =>
      change c.after db c.skey = some entry at hentry
      rcases Call.expireAt_after_skey hentry with ⟨hadmits, hset⟩ | ⟨hdenied, before, hbefore, hkept⟩
      · exact h.admitted_window htyped htimes hadmits hentry hset
      · refine (h .window c.key c.resource.val before hbefore).concat hkept fun _ => ⟨?_, ?_⟩
        · rw [QuotaStep.spends_check htyped, if_neg fun hspends => hdenied hspends.1]
        · intro members hvalue p hp
          rcases Call.mem_window_after
            (Keyspace.mem_window.mpr ⟨entry, members, hentry, hvalue, hp⟩) with hold | ⟨hadmits, -⟩
          · obtain ⟨other, old, hother, hold, hmem⟩ := Keyspace.mem_window.mp hold
            rw [hbefore, Option.some.injEq] at hother
            exact ⟨old, hother ▸ hold, hmem⟩
          · exact absurd hadmits hdenied
  | quota =>
      change c.after db (Family.quota.name c.key c.now.monthStr) = some entry at hentry
      rw [← Call.qkey_eq] at hentry
      rcases Call.expireAt_after_qkey hentry with hset | ⟨before, hbefore, hkept⟩
      · exact ⟨c.now.monthEnd, .inl ⟨c.now, rfl, rfl⟩, hset⟩
      · rw [Call.qkey_eq] at hbefore
        exact (h .quota c.key c.now.monthStr before hbefore).concat hkept nofun
  | flag =>
      change c.after db (Family.flag.name c.key c.now.monthStr) = some entry at hentry
      rw [← Call.fkey_eq] at hentry
      rcases Call.expireAt_after_fkey hentry with hset | ⟨before, hbefore, hkept⟩
      · exact ⟨c.now, rfl, hset⟩
      · rw [Call.fkey_eq] at hbefore
        exact (h .flag c.key c.now.monthStr before hbefore).concat hkept nofun

theorem AllDue.check (h : AllDue past db) (htyped : db.Typed)
    (htimes : ∀ step ∈ past, step.event.now.us ≤ c.now.us) :
    AllDue (past ++ [Step.of QuotaEvent.exec (.check c) db]) (c.after db) := by
  intro f key rest entry hentry
  by_cases hown : key = c.key ∧ rest = c.rest f
  · obtain ⟨rfl, rfl⟩ := hown
    exact h.check_own htyped htimes hentry
  · rw [Call.after_name hown] at hentry
    refine (h f key rest entry hentry).concat rfl fun hwindow => ⟨?_, fun members hvalue p hp =>
      ⟨members, hvalue, hp⟩⟩
    subst hwindow
    rw [QuotaStep.spends_check htyped, if_neg]
    rintro ⟨-, rfl, rfl⟩
    exact hown ⟨rfl, rfl⟩

/-! ### A restore -/

/-- The entry that a restore writes has the deadline of its month. -/
theorem restored_entry {now : Time} {name : String} {floor monthEnd : Int}
    (hentry : restored now name floor monthEnd db name = some entry) :
    entry.expireAt = some ((monthEnd + monthGraceS) * 1000) ∨ db name = some entry := by
  by_cases hlow : db.IsBelow name floor
  · rw [restored_apply now monthEnd hlow] at hentry
    split at hentry
    · cases hentry
    · cases hentry
      exact .inl rfl
  · rw [restored, if_neg hlow] at hentry
    exact .inr hentry

theorem AllDue.restore {r : RestoreCall} (h : AllDue past db) (hr : r.FromRollup) :
    AllDue (past ++ [Step.of QuotaEvent.exec (.restore r) db]) (r.after db) := by
  have hkeeps (f : Family) (key : KeyId) (rest : String) (entry : Entry)
      (hentry : db (f.name key rest) = some entry) :
      entry.Due (past ++ [Step.of QuotaEvent.exec (.restore r) db]) key rest f :=
    (h f key rest entry hentry).concat rfl fun _ => ⟨rfl, fun members hvalue p hp =>
      ⟨members, hvalue, hp⟩⟩
  intro f key rest entry hentry
  by_cases hname : f.name key rest = quotaName r.key r.month
  · obtain ⟨rfl, rfl, rfl⟩ := Family.name_inj hname
    rcases restored_entry hentry with hset | hkept
    · exact ⟨r.monthEnd, .inr ⟨hr, _, List.mem_append_right _ (List.mem_singleton_self _), r, rfl,
        rfl, rfl⟩, hset⟩
    · exact hkeeps .quota r.key r.month entry hkept
  · rw [RestoreCall.after, restored_of_ne hname] at hentry
    exact hkeeps f key rest entry hentry

/-! ### Every run -/

theorem allDue_of_run
    (hrun : Run QuotaEvent.exec Losing Keyspace.empty steps db)
    (hrestores : ∀ step ∈ steps, ∀ r, step.event = .restore r → r.FromRollup)
    (htimes : steps.Pairwise fun earlier later => earlier.event.now.us ≤ later.event.now.us) :
    AllDue steps db := by
  have hhistory : db.Typed ∧ ((steps.Pairwise fun earlier later =>
      earlier.event.now.us ≤ later.event.now.us) → AllDue steps db) := by
    refine hrun.history (P := fun past db => db.Typed ∧ ((past.Pairwise fun earlier later =>
      earlier.event.now.us ≤ later.event.now.us) → AllDue past db))
      ⟨Keyspace.typed_empty, fun _ => AllDue.empty⟩ ?_ hrestores
    intro past middle e found hpast hlink hok
    have htyped : found.Typed := hpast.1.of_loss hlink
    rw [QuotaEvent.exec_after htyped]
    refine ⟨QuotaEvent.typed_after htyped, fun htimes => ?_⟩
    obtain ⟨hordered, -, hlater⟩ := List.pairwise_append.mp htimes
    have hdue := (hpast.2 hordered).lose hlink
    cases e with
    | check c =>
        apply hdue.check htyped
        intro step hmem
        have htime := hlater step hmem (Step.of QuotaEvent.exec (.check c) found)
          (List.mem_singleton_self _)
        rwa [Step.of_event] at htime
    | restore r => exact hdue.restore (hok r rfl)
  exact hhistory.2 htimes

/-- **No admission key is without an expiry.** In every state that executions of the two scripts reach from
an empty Redis, in any order and with a clock that does not go back, whatever keys Redis loses on the way:
a bucket, a window, a counter or a flag that is there has a deadline. That of a counter or a flag is the end
of its month and the grace, and both scripts mean the same end; Python misreads a month only after the year
9999. That of a window is more than the window of its last admission after every score in it. Range errors
of `INCRBY` and `PEXPIRE` are left out: rates are positive and values have 64 bits. -/
theorem every_key_expires
    (hrun : Run QuotaEvent.exec Losing Keyspace.empty steps db)
    (hrestores : ∀ step ∈ steps, ∀ r, step.event = .restore r → r.FromRollup)
    (htimes : steps.Pairwise fun earlier later => earlier.event.now.us ≤ later.event.now.us) :
    (∀ (f : Family) key rest entry, db (f.name key rest) = some entry → entry.expireAt ≠ none) ∧
    (∀ (f : Family) key month entry, f = .quota ∨ f = .flag → db (f.name key month) = some entry →
      (∃ monthEnd, MonthEnds steps key month monthEnd ∧
        entry.expireAt = some ((monthEnd + monthGraceS) * 1000)) ∧
      ∀ t : Time, t.monthStr = month →
        t.civil.1 ≤ 9999 ∨ (∀ step ∈ steps, ¬ step.Restores key month) →
        entry.expireAt = some ((t.monthEnd + monthGraceS) * 1000)) ∧
    ∀ key (resource : Resource) entry, db (Family.window.name key resource.val) = some entry →
      ∃ c deadline, lastAdmitted key resource.val steps = some c ∧
        entry.expireAt = some deadline ∧
        ∀ p ∈ (db.window (Family.window.name key resource.val)).entries,
          p.2 + c.argv.windowUs < deadline * 1000 := by
  have hdue := allDue_of_run hrun hrestores htimes
  have hmonth (f : Family) (key : KeyId) (month : String) (entry : Entry)
      (hf : f = .quota ∨ f = .flag) (hentry : db (f.name key month) = some entry) :
      ∃ monthEnd, MonthEnds steps key month monthEnd ∧
        entry.expireAt = some ((monthEnd + monthGraceS) * 1000) := by
    rcases hf with rfl | rfl
    · exact hdue .quota key month entry hentry
    · obtain ⟨t, hformed, hset⟩ := hdue .flag key month entry hentry
      rw [Time.monthDeadline] at hset
      exact ⟨t.monthEnd, .inl ⟨t, hformed, rfl⟩, hset⟩
  refine ⟨fun f key rest entry hentry => ?_, fun f key month entry hf hentry => ?_, ?_⟩
  · exact (hdue f key rest entry hentry).expires
  · obtain ⟨monthEnd, hends, hset⟩ := hmonth f key month entry hf hentry
    refine ⟨⟨monthEnd, hends, hset⟩, fun t hformed hread => ?_⟩
    rw [hset, hends.eq_of_time hformed hread]
  · intro key resource entry hentry
    obtain ⟨c, deadline, hlast, hset, hlong, hscores⟩ := hdue .window key resource.val entry hentry
    refine ⟨c, deadline, hlast, hset, fun p hp => ?_⟩
    obtain ⟨other, members, hother, hvalue, hmem⟩ := Keyspace.mem_window.mp hp
    rw [hentry, Option.some.injEq] at hother
    have hscore := hscores members (hother ▸ hvalue) p hmem
    omega

/-- A check that costs two, and a restore to three after it. -/
def sampleRestored : List QuotaEvent :=
  [.check (sampleCall 5 2 "a"), .restore ⟨sampleKey, "1970-01", 3, 2678400, sampleTime 9⟩]

theorem every_key_expires_sample :
    Run.final QuotaEvent.exec Keyspace.empty sampleRestored (quotaName sampleKey "1970-01") =
        some ⟨.int 3, some 6566400000⟩ ∧
      ∀ (f : Family) key rest entry,
        Run.final QuotaEvent.exec Keyspace.empty sampleRestored (f.name key rest) = some entry →
          entry.expireAt ≠ none := by
  have hrun : Run QuotaEvent.exec Losing Keyspace.empty
      (Run.trace QuotaEvent.exec Keyspace.empty sampleRestored)
      (Run.final QuotaEvent.exec Keyspace.empty sampleRestored) := by
    apply (Run.of_events QuotaEvent.exec Keyspace.empty sampleRestored).mono
    intro e db found hlink name
    cases hlink
    exact .inl rfl
  have hrestores : ∀ step ∈ Run.trace QuotaEvent.exec Keyspace.empty sampleRestored, ∀ r,
      step.event = .restore r → r.FromRollup := by
    simp only [sampleRestored, Run.trace, List.mem_cons, List.not_mem_nil, or_false,
      forall_eq_or_imp, forall_eq, Step.of_event, reduceCtorEq, false_implies, implies_true, true_and,
      QuotaEvent.restore.injEq, forall_eq']
    show monthEndOfText "1970-01" = some 2678400
    decide +kernel
  exact ⟨by decide +kernel, (every_key_expires hrun hrestores (by decide +kernel)).1⟩

end QuotaGuard
