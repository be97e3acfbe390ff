import QuotaGuard.Proof.Quota

/-!
# The soft threshold

The flag of a month is set by `SETNX` and never cleared, so one check of the month can report the
crossing at most. With a fixed threshold the counter is below it exactly as long as the flag is
absent, so the check that takes the counter past the threshold is the one that reports it.
-/

namespace QuotaGuard

abbrev flagName (key : KeyId) (month : String) : String := Family.flag.name key month

variable {key : KeyId} {month : String} {db db' : Keyspace}

namespace Call

variable {c : Call}

theorem fkey_eq_flagName : c.fkey = flagName c.key c.now.monthStr := c.fkey_eq

def InMonth (c : Call) (key : KeyId) (month : String) : Prop := c.key = key ∧ c.now.monthStr = month

instance : Decidable (c.InMonth key month) := inferInstanceAs (Decidable (_ ∧ _))

theorem after_flagName_of_not (hother : ¬ c.InMonth key month) :
    c.after db (flagName key month) = db (flagName key month) :=
  after_name fun h => hother ⟨h.1.symm, h.2.symm⟩

def Reports (c : Call) (db : Keyspace) (key : KeyId) (month : String) : Prop :=
  c.InMonth key month ∧ c.admits db = true ∧ c.SetsFlag db

instance : Decidable (c.Reports db key month) := inferInstanceAs (Decidable (_ ∧ _ ∧ _))

/-- The flag is set by the check that reports the crossing, and stays as it was otherwise. -/
theorem after_flagName (c : Call) (db : Keyspace) (key : KeyId) (month : String) :
    c.after db (flagName key month) =
      if c.Reports db key month then some ⟨.int 1, some c.now.monthDeadline⟩
      else db (flagName key month) := by
  by_cases hown : c.InMonth key month
  · obtain ⟨rfl, rfl⟩ := hown
    rw [← fkey_eq_flagName]
    by_cases hadmits : c.admits db = true
    · rw [after_fkey hadmits]
      simp only [Reports, InMonth, hadmits, and_self, true_and]
    · rw [after_denied hadmits, trimmed_of_ne c.skey_ne_fkey.symm, if_neg fun h => hadmits h.2.1]
  · rw [after_flagName_of_not hown, if_neg fun h => hown h.1]

theorem Reports.flag_eq_none (h : c.Reports db key month) : db (flagName key month) = none := by
  obtain ⟨⟨rfl, rfl⟩, -, -, hflag⟩ := h
  rw [← fkey_eq_flagName]
  exact hflag

end Call

namespace CheckStep

/-- A check of this key and month that reported the crossing. -/
def crossed (key : KeyId) (month : String) (step : CheckStep) : Bool :=
  decide (step.event.InMonth key month) &&
    match step.reply with
    | .ok r => decide (r.softCrossed = 1)
    | .error _ => false

/-- An admitted check of this key and month that took the counter from below `soft` to `soft` or
above. -/
def takesPast (key : KeyId) (month : String) (soft : Int) (step : CheckStep) : Bool :=
  decide (step.event.InMonth key month) && step.admitted &&
    decide (step.before.counter (quotaName key month) < soft ∧
      soft ≤ step.after.counter (quotaName key month))

variable {step : CheckStep}

theorem Answered.crossed_iff (h : step.Answered) (key : KeyId) (month : String) :
    step.crossed key month = true ↔ step.event.Reports step.before key month := by
  have hsoft : (step.event.reply step.before).softCrossed = 1 ↔
      step.event.admits step.before = true ∧ step.event.SetsFlag step.before := by
    rw [Call.reply_softCrossed]
    split
    · rename_i hsets
      exact iff_of_true rfl hsets
    · rename_i hsets
      exact iff_of_false (by decide) hsets
  rw [crossed, h.reply_eq, Bool.and_eq_true, decide_eq_true_eq, decide_eq_true_eq, hsoft,
    Call.Reports]

theorem Answered.takesPast_iff (h : step.Answered) (key : KeyId) (month : String) (soft : Int) :
    step.takesPast key month soft = true ↔
      step.event.InMonth key month ∧ step.event.admits step.before = true ∧
        step.before.counter (quotaName key month) < soft ∧
        soft ≤ step.before.counter (quotaName key month) + step.event.argv.cost := by
  rw [takesPast, h.admitted_eq, h.after_eq, step.event.counter_after_quotaName, Bool.and_eq_true,
    Bool.and_eq_true, decide_eq_true_eq, decide_eq_true_eq, and_assoc]
  refine and_congr_right fun hmonth => and_congr_right fun hadmits => ?_
  rw [if_pos ⟨hadmits, hmonth⟩]

end CheckStep

open CheckStep

/-- The state of the flag says whether the crossing was reported. -/
def ReportedOnce (key : KeyId) (month : String) (past : List CheckStep) (db : Keyspace) : Prop :=
  past.filter (crossed key month) = [] ∨
    (past.filter (crossed key month)).length = 1 ∧ db (flagName key month) ≠ none

theorem filter_concat_crossed {past : List CheckStep} {c : Call} (h : db.Typed) :
    (past ++ [Step.of Call.exec c db]).filter (crossed key month) =
      past.filter (crossed key month) ++
        if c.Reports db key month then [Step.of Call.exec c db] else [] := by
  have hcrossed := (c.answered h).crossed_iff key month
  rw [List.filter_append]
  congr 1
  by_cases hreports : c.Reports db key month
  · rw [if_pos hreports, List.filter_cons_of_pos (hcrossed.mpr hreports), List.filter_nil]
  · rw [if_neg hreports, List.filter_cons_of_neg fun h => hreports (hcrossed.mp h), List.filter_nil]

theorem ReportedOnce.check {past : List CheckStep} {c : Call} (hpast : ReportedOnce key month past db)
    (h : db.Typed) : ReportedOnce key month (past ++ [Step.of Call.exec c db]) (c.after db) := by
  unfold ReportedOnce
  rw [filter_concat_crossed h, c.after_flagName]
  by_cases hreports : c.Reports db key month
  · rw [if_pos hreports, if_pos hreports]
    rcases hpast with hnone | ⟨-, hflag⟩
    · rw [hnone]
      exact .inr ⟨rfl, Option.some_ne_none _⟩
    · exact absurd hreports.flag_eq_none hflag
  · rw [if_neg hreports, if_neg hreports, List.append_nil]
    exact hpast

/-- With a fixed threshold: the counter has reached it exactly when the flag is set, and the reports
so far are the checks that took the counter past it. -/
structure Threshold (key : KeyId) (month : String) (soft : Int) (past : List CheckStep)
    (db : Keyspace) : Prop where
  filter_eq : past.filter (crossed key month) = past.filter (takesPast key month soft)
  flag_iff : db (flagName key month) ≠ none ↔ soft ≤ db.counter (quotaName key month)
  length_eq : (past.filter (crossed key month)).length =
    if soft ≤ db.counter (quotaName key month) then 1 else 0

theorem Threshold.start {soft : Int} (hsoft : 0 < soft) (hcounter : db (quotaName key month) = none)
    (hflag : db (flagName key month) = none) : Threshold key month soft [] db := by
  have hzero := Keyspace.counter_of_none hcounter
  refine ⟨rfl, ?_, ?_⟩
  · rw [hflag, hzero]
    exact iff_of_false (fun h => h rfl) (not_le.mpr hsoft)
  · rw [hzero, if_neg (not_le.mpr hsoft)]
    rfl

/-- While the flag follows the counter, the check that reports is the one that takes it past. -/
theorem Threshold.reports_iff {soft : Int} {past : List CheckStep} {c : Call}
    (hpast : Threshold key month soft past db) (hsoft : 0 < soft)
    (hc : c.InMonth key month → c.argv.quotaSoft = soft) :
    c.Reports db key month ↔ c.InMonth key month ∧ c.admits db = true ∧
      db.counter (quotaName key month) < soft ∧
      soft ≤ db.counter (quotaName key month) + c.argv.cost := by
  refine and_congr_right fun hmonth => and_congr_right fun _ => ?_
  have hflag := hpast.flag_iff
  have hthreshold := hc hmonth
  obtain ⟨rfl, rfl⟩ := hmonth
  rw [← Call.fkey_eq_flagName] at hflag
  simp only [Call.SetsFlag, CrossesSoft, hthreshold, Call.used, Call.qkey_eq_quotaName, ge_iff_le]
  constructor
  · intro h
    exact ⟨h.1.2.1, h.1.2.2⟩
  · intro h
    refine ⟨⟨hsoft, h.1, h.2⟩, ?_⟩
    by_contra hset
    exact absurd (hflag.mp hset) (not_le.mpr h.1)

theorem Threshold.check {soft : Int} {past : List CheckStep} {c : Call}
    (hpast : Threshold key month soft past db) (h : db.Typed) (hsoft : 0 < soft)
    (hc : c.InMonth key month → c.argv.quotaSoft = soft) (hcost : 0 ≤ c.argv.cost) :
    Threshold key month soft (past ++ [Step.of Call.exec c db]) (c.after db) := by
  have hreports := hpast.reports_iff hsoft hc
  have htakes := ((c.answered h).takesPast_iff key month soft).trans hreports.symm
  have hcrossed := (c.answered h).crossed_iff key month
  have hflag := hpast.flag_iff
  have hlength := hpast.length_eq
  have hfilter : (past ++ [Step.of Call.exec c db]).filter (crossed key month) =
      (past ++ [Step.of Call.exec c db]).filter (takesPast key month soft) := by
    have hsame : crossed key month (Step.of Call.exec c db) =
        takesPast key month soft (Step.of Call.exec c db) := by
      rw [Bool.eq_iff_iff]
      exact hcrossed.trans htakes.symm
    rw [List.filter_append, List.filter_append, hpast.filter_eq, List.filter_singleton,
      List.filter_singleton, hsame]
  refine ⟨hfilter, ?_, ?_⟩
  · rw [c.after_flagName, c.counter_after_quotaName]
    by_cases hrep : c.Reports db key month
    · obtain ⟨hmonth, hadmits, -, hpasses⟩ := hreports.mp hrep
      rw [if_pos hrep, if_pos ⟨hadmits, hmonth⟩]
      exact iff_of_true (Option.some_ne_none _) hpasses
    · rw [if_neg hrep, hflag]
      split
      · rename_i hown
        constructor
        · intro hreached
          omega
        · intro hpasses
          by_contra hbelow
          exact hrep (hreports.mpr ⟨hown.2, hown.1, not_le.mp hbelow, hpasses⟩)
      · rw [add_zero]
  · have hcounter := c.counter_after_quotaName db key month
    rw [filter_concat_crossed h, List.length_append, hlength]
    by_cases hrep : c.Reports db key month
    · obtain ⟨hmonth, hadmits, hbelow, hpasses⟩ := hreports.mp hrep
      rw [if_pos ⟨hadmits, hmonth⟩] at hcounter
      rw [hcounter, if_pos hrep, if_pos hpasses, if_neg (not_le.mpr hbelow)]
      rfl
    · rw [if_neg hrep, List.length_nil, add_zero, hcounter]
      split
      · rename_i hreached
        rw [if_pos]
        split <;> omega
      · rename_i hbelow
        rw [if_neg]
        intro hpasses
        split at hpasses
        · rename_i hown
          exact hrep (hreports.mpr ⟨hown.2, hown.1, not_le.mp hbelow, hpasses⟩)
        · exact hbelow (by omega)

/-- **The soft threshold fires once.** At most one check of a month ever reports the crossing. With a
fixed threshold, and a month that starts without counter and flag, the checks that report it are the
admitted ones that took the counter past the threshold: one if the counter has reached it in the
end, and none otherwise. -/
theorem soft_fires_once {steps : List CheckStep} (hrun : Run Call.exec Undisturbed db steps db')
    (htyped : db.Typed) (key : KeyId) (month : String) :
    (steps.filter (crossed key month)).length ≤ 1 ∧
    ∀ soft, 0 < soft →
      (∀ step ∈ steps, step.event.InMonth key month → step.event.argv.quotaSoft = soft) →
      (∀ step ∈ steps, 0 ≤ step.event.argv.cost) →
      db (quotaName key month) = none → db (flagName key month) = none →
      steps.filter (crossed key month) = steps.filter (takesPast key month soft) ∧
      (steps.filter (crossed key month)).length =
        if soft ≤ db'.counter (quotaName key month) then 1 else 0 := by
  constructor
  · have hhistory : db'.Typed ∧ ReportedOnce key month steps db' := by
      refine hrun.history (P := fun past db => db.Typed ∧ ReportedOnce key month past db)
        ⟨htyped, .inl rfl⟩ ?_ fun _ _ => trivial
      intro past middle c found hpast hlink _
      obtain ⟨htyped, hpast⟩ := hpast
      obtain rfl := hlink
      rw [Call.exec_eq htyped]
      exact ⟨Call.typed_after htyped, hpast.check htyped⟩
    rcases hhistory.2 with hnone | ⟨hone, -⟩
    · rw [hnone]
      exact Nat.zero_le _
    · exact le_of_eq hone
  · intro soft hsoft hconstant hcost hcounter hflag
    have hhistory : db'.Typed ∧ Threshold key month soft steps db' := by
      refine hrun.history (P := fun past db => db.Typed ∧ Threshold key month soft past db)
        ⟨htyped, Threshold.start hsoft hcounter hflag⟩ ?_
        (fun step hmem => And.intro (hconstant step hmem) (hcost step hmem))
      intro past middle c found hpast hlink hok
      obtain ⟨htyped, hpast⟩ := hpast
      obtain rfl := hlink
      rw [Call.exec_eq htyped]
      exact ⟨Call.typed_after htyped, hpast.check htyped hsoft hok.1 hok.2⟩
    exact ⟨hhistory.2.filter_eq, hhistory.2.length_eq⟩

/-- Two checks that cost two each, against a threshold of three: one of them reports. -/
theorem soft_fires_once_sample :
    let first : CheckStep := Step.of Call.exec (sampleCall 5 2 "a") Keyspace.empty
    let second : CheckStep := Step.of Call.exec (sampleCall 8 2 "b") first.after
    Run Call.exec Undisturbed Keyspace.empty [first, second] second.after ∧
      ([first, second].filter (crossed sampleKey "1970-01")).length = 1 := by
  intro first second
  have hrun : Run Call.exec Undisturbed Keyspace.empty [first, second] second.after :=
    .cons rfl (.cons rfl (.nil _))
  have hone := ((soft_fires_once hrun Keyspace.typed_empty sampleKey "1970-01").2 3 (by decide)
    (by simp only [List.mem_cons, List.not_mem_nil, or_false, forall_eq_or_imp, forall_eq]; decide)
    (by decide) rfl rfl).2
  have hreached : 3 ≤ second.after.counter (quotaName sampleKey "1970-01") := by decide +kernel
  rw [if_pos hreached] at hone
  exact ⟨hrun, hone⟩

end QuotaGuard
