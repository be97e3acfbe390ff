import QuotaGuard.Proof.Reconcile
import QuotaGuard.Service.Usage

/-!
# Each month once

The report asks for one rollup fewer than there are months, whether or not the current month is live, and
does not ask whether the rollups have that month already. So it lists the latest months with data, each
once, exactly where the live month is later than every rollup, or where there is no live month and a row
to spare.
-/

namespace QuotaGuard

variable {db : Database} {h : History} {redis : Keyspace} {now : Time} {key : ApiKey} {plan : Plan}
  {live : MonthUsage} {rollups : List Rollup} {months n : Nat}

/-! ### The months that have data -/

/-- The current month, if the counter of the key holds a number. -/
def liveMonth (redis : Keyspace) (keyId : String) (quota : Int) (now : Time) : Option MonthUsage :=
  match redis.asInt (usageQuotaKey keyId now) with
  | some used => some {
      month := getCurrentMonth now
      used
      quota
      remaining := quota - used
      softThresholdCrossed := (redis (usageFlagKey keyId now)).isSome
      source := .live }
  | none => none

/-- A live month stands for the rollup of the same month. -/
def monthsWithData (live : Option MonthUsage) (rollups : List Rollup) : List MonthUsage :=
  live.toList ++ (rollups.filter fun rollup => live.all (·.month ≠ rollup.month)).map Rollup.usage

/-- A `GET` of the key answers: it holds a string, if it is there. -/
def Keyspace.IsString (redis : Keyspace) (name : String) : Prop :=
  ∀ entry, redis name = some entry → entry.value.kind = .int ∨ entry.value.kind = .text

theorem Redis.get_of_isString {name : String} (h : redis.IsString name) :
    (Redis.get name now redis).1 = .ok ((redis name).map Entry.value) := by
  unfold Redis.get
  cases hentry : redis name with
  | none => rfl
  | some entry =>
      have hkind := h entry hentry
      obtain ⟨value, expireAt⟩ := entry
      cases value with
      | hash t ts => simp [Value.kind] at hkind
      | zset members => simp [Value.kind] at hkind
      | int n => rfl
      | text s => rfl

theorem Redis.get_of_not_isString {name : String} (h : ¬ redis.IsString name) :
    (Redis.get name now redis).1 = .error .wrongType := by
  unfold Keyspace.IsString at h
  push Not at h
  obtain ⟨⟨value, expireAt⟩, hentry, hint, htext⟩ := h
  unfold Redis.get
  rw [hentry]
  cases value with
  | hash t ts => rfl
  | zset members => rfl
  | int n => exact absurd rfl hint
  | text s => exact absurd rfl htext

theorem getLiveUsage_of_isString {keyId : String} {quota : Int}
    (hflag : redis.IsString (usageFlagKey keyId now)) :
    getLiveUsage keyId quota now redis = liveMonth redis keyId quota now := by
  unfold getLiveUsage liveMonth Keyspace.asInt
  rw [Redis.get_of_isString hflag, Redis.get]
  cases redis (usageQuotaKey keyId now) with
  | none => rfl
  | some entry =>
      obtain ⟨value, expireAt⟩ := entry
      cases value with
      | hash t ts => rfl
      | zset members => rfl
      | int n => simp [Value.kind, Value.asInt]
      | text s =>
          simp only [Value.kind, Option.bind_some]
          cases Value.asInt (.text s) with
          | none => rfl
          | some used => simp

/-- A flag that a `GET` cannot read hides the live month. -/
theorem getLiveUsage_of_not_isString {keyId : String} {quota : Int}
    (hflag : ¬ redis.IsString (usageFlagKey keyId now)) :
    getLiveUsage keyId quota now redis = none := by
  unfold getLiveUsage
  rw [Redis.get_of_not_isString hflag]
  split
  · split
    · rename_i hflag
      cases hflag
    · rfl
  · rfl
  · rfl

/-! ### The rollups of a key -/

def historyMonths (rollups : List Rollup) (n : Nat) : List MonthUsage :=
  ((Latest.orderDesc Rollup.month rollups).take n).map Rollup.usage

theorem History.rollupsOf_months (h : History) (apiKeyId : Nat) :
    ((h.rollupsOf apiKeyId).map Rollup.month).Nodup := by
  have hslots : (h.rollupsOf apiKeyId).Nodup := (List.Nodup.of_map _ h.rollupSlots).filter _
  refine hslots.map_on fun rollup hrollup other hother hmonth => ?_
  rw [rollupsOf, List.mem_filter, decide_eq_true_eq] at hrollup hother
  exact History.rollup_eq_of_slot hother.1 hrollup.1 (Prod.ext (hrollup.2.trans hother.2.symm) hmonth)

/-- The latest rollups, as the report has them. -/
theorem latest_history (hmonths : (rollups.map Rollup.month).Nodup) (n : Nat) :
    Latest MonthUsage.month (rollups.map Rollup.usage) n (historyMonths rollups n) := by
  have hsorted : ((Latest.orderDesc Rollup.month rollups).map Rollup.usage).Pairwise
      fun a b => b.month < a.month := by
    rw [List.pairwise_map]
    exact Latest.pairwise_orderDesc hmonths
  rw [historyMonths, List.map_take]
  refine (Latest.take hsorted n).congr fun entry => ?_
  simp only [List.mem_map, Latest.mem_orderDesc]

theorem source_of_mem_history {entry : MonthUsage} (h : entry ∈ historyMonths rollups n) :
    entry.source = .rollup := by
  obtain ⟨rollup, -, rfl⟩ := List.mem_map.mp h
  rfl

/-! ### One list of both -/

theorem mem_monthsWithData {entry : MonthUsage} : entry ∈ monthsWithData (some live) rollups ↔
    entry = live ∨ ∃ rollup ∈ rollups, live.month ≠ rollup.month ∧ rollup.usage = entry := by
  simp [monthsWithData, and_assoc]

theorem monthsWithData_none : monthsWithData none rollups = rollups.map Rollup.usage := by
  simp [monthsWithData]

/-- A rollup of the live month is shown a second time, unless the report is of one month. -/
theorem months_eq_one (hrollups : (rollups.map Rollup.month).Nodup) {rows : List MonthUsage}
    (hlatest : Latest MonthUsage.month rows months (live :: historyMonths rollups (months - 1)))
    (hmonths : 1 ≤ months) (hrollup : rollup ∈ rollups) (hsame : rollup.month = live.month) :
    months = 1 := by
  by_contra hne
  have hhistory := latest_history hrollups (months - 1)
  have husage : rollup.usage ∈ rollups.map Rollup.usage := List.mem_map_of_mem hrollup
  cases hlist : historyMonths rollups (months - 1) with
  | nil =>
      rw [hlist] at hhistory
      have hfull : 0 = months - 1 := (hhistory.rest _ husage List.not_mem_nil).1
      omega
  | cons first rest =>
      rw [hlist] at hhistory hlatest
      have hbefore : first.month < live.month :=
        (List.pairwise_cons.mp hlatest.sorted).1 first List.mem_cons_self
      have hfirst : rollup.month ≤ first.month := by
        by_cases heq : rollup.usage = first
        · exact (congrArg MonthUsage.month heq).le
        · exact (hhistory.lt_head husage heq).le
      exact absurd (hsame ▸ hfirst.trans_lt hbefore) (lt_irrefl _)

/-- A live month leads the list rightly where it is later than every rollup; a report of one month does
not show the rollup that repeats it. -/
theorem latest_live_iff (hrollups : (rollups.map Rollup.month).Nodup) (hlive : live.source = .live)
    (hmonths : 1 ≤ months) :
    Latest MonthUsage.month (monthsWithData (some live) rollups) months
        (live :: historyMonths rollups (months - 1)) ↔
      ∀ rollup ∈ rollups, rollup.month < live.month ∨ months = 1 ∧ rollup.month = live.month := by
  constructor
  · intro hlatest rollup hrollup
    by_cases hsame : rollup.month = live.month
    · exact .inr ⟨months_eq_one hrollups hlatest hmonths hrollup hsame, hsame⟩
    · have hdata : rollup.usage ∈ monthsWithData (some live) rollups :=
        mem_monthsWithData.mpr (.inr ⟨rollup, hrollup, Ne.symm hsame, rfl⟩)
      have hother : rollup.usage ≠ live := by
        rintro rfl
        cases hlive
      exact .inl (hlatest.lt_head hdata hother)
  · intro hall
    have hold : ∀ entry ∈ (rollups.filter fun rollup => live.month ≠ rollup.month).map Rollup.usage,
        entry.month < live.month := by
      intro entry hentry
      obtain ⟨rollup, hrollup, rfl⟩ := List.mem_map.mp hentry
      rw [List.mem_filter, decide_eq_true_eq] at hrollup
      exact (hall rollup hrollup.1).resolve_right fun hsame => hrollup.2 hsame.2.symm
    have hrest : Latest MonthUsage.month
        ((rollups.filter fun rollup => live.month ≠ rollup.month).map Rollup.usage) (months - 1)
        (historyMonths rollups (months - 1)) := by
      by_cases hone : months = 1
      · rw [hone]
        exact Latest.nil _ _
      · have hkeep : rollups.filter (fun rollup => live.month ≠ rollup.month) = rollups := by
          rw [List.filter_eq_self]
          intro rollup hrollup
          rw [decide_eq_true_eq]
          exact ((hall rollup hrollup).resolve_right fun hsame => hone hsame.1).ne'
        rw [hkeep]
        exact latest_history hrollups (months - 1)
    have hcons := hrest.cons hold
    rw [Nat.sub_add_cancel hmonths] at hcons
    refine hcons.congr fun entry => ?_
    simp [monthsWithData]

/-- Without a live month the report has to have a row to spare. -/
theorem latest_history_iff (hrollups : (rollups.map Rollup.month).Nodup) (hmonths : 1 ≤ months) :
    Latest MonthUsage.month (monthsWithData none rollups) months
        (historyMonths rollups (months - 1)) ↔ rollups.length < months := by
  have hhistory := latest_history hrollups (months - 1)
  have hnodup : (rollups.map Rollup.usage).Nodup :=
    List.Nodup.of_map MonthUsage.month (by rwa [List.map_map])
  have hlength := hhistory.length_eq hnodup
  rw [monthsWithData_none]
  constructor
  · intro hlatest
    have hlength' := hlatest.length_eq hnodup
    rw [List.length_map] at hlength hlength'
    omega
  · intro hshort
    have hall : historyMonths rollups (months - 1) = historyMonths rollups months := by
      have htotal := Latest.length_orderDesc Rollup.month rollups
      rw [historyMonths, historyMonths, List.take_of_length_le (by omega),
        List.take_of_length_le (by omega)]
    rw [hall]
    exact latest_history hrollups months

/-- A live month that is left out is missed. -/
theorem not_latest_history (hrollups : (rollups.map Rollup.month).Nodup) (hlive : live.source = .live)
    (hmonths : 1 ≤ months) : ¬ Latest MonthUsage.month (monthsWithData (some live) rollups) months
      (historyMonths rollups (months - 1)) := by
  intro hlatest
  have hout : live ∉ historyMonths rollups (months - 1) := by
    intro hmem
    rw [source_of_mem_history hmem] at hlive
    cases hlive
  have hfull := (hlatest.rest live (mem_monthsWithData.mpr (.inl rfl)) hout).1
  have hle := (latest_history hrollups (months - 1)).length_le
  omega

/-! ### The report -/

/-- The live month is later than every rollup; a report of one month may also have a rollup of the same
month. Where there is no live month, the rollups are fewer than the months. -/
def ReportFits (h : History) (redis : Keyspace) (now : Time) (key : ApiKey) (months : Nat) : Prop :=
  match redis.asInt (usageQuotaKey key.keyId.val now) with
  | some _ => redis.IsString (usageFlagKey key.keyId.val now) ∧
      ∀ rollup ∈ h.rollupsOf key.id, rollup.month < getCurrentMonth now ∨
        months = 1 ∧ rollup.month = getCurrentMonth now
  | none => (h.rollupsOf key.id).length < months

theorem liveMonth_spec {keyId : String} {quota : Int}
    (h : liveMonth redis keyId quota now = some live) :
    live.source = .live ∧ live.month = getCurrentMonth now ∧
      ∃ used, redis.asInt (usageQuotaKey keyId now) = some used := by
  unfold liveMonth at h
  split at h
  · rename_i used hcounter
    cases h
    exact ⟨rfl, rfl, used, hcounter⟩
  · cases h

theorem reportFits_live (h : History) (hkey : redis.IsString (usageFlagKey key.keyId.val now))
    (hlive : liveMonth redis key.keyId.val (key.quotaLimit plan) now = some live) :
    ReportFits h redis now key months ↔ ∀ rollup ∈ h.rollupsOf key.id,
      rollup.month < live.month ∨ months = 1 ∧ rollup.month = live.month := by
  obtain ⟨-, hmonth, used, hcounter⟩ := liveMonth_spec hlive
  rw [ReportFits, hcounter, hmonth]
  exact and_iff_right hkey

theorem reportFits_none (h : History)
    (hlive : liveMonth redis key.keyId.val (key.quotaLimit plan) now = none) :
    ReportFits h redis now key months ↔ (h.rollupsOf key.id).length < months := by
  unfold liveMonth at hlive
  split at hlive
  · cases hlive
  · rename_i hnone
    rw [ReportFits, hnone]

/-- **The report lists the latest months with data, each once, exactly where it fits.** A rollup of the
current month does not, once the report has room for it beside the live month: every run of the rollup job
writes one. Nor do as many rollups as there are months, while the current month has no counter. -/
theorem usage_report_latest_iff (h : History) (redis : Keyspace) (now : Time) (hkey : key ∈ db.keys)
    (hmonths : 1 ≤ months) : ∃ plan report, db.planOfKey key = some plan ∧
      getUsageReport db none h redis now key.keyId.val months = some report ∧
      (Latest MonthUsage.month
          (monthsWithData (liveMonth redis key.keyId.val (key.quotaLimit plan) now) (h.rollupsOf key.id))
          months report.months ↔ ReportFits h redis now key months) := by
  obtain ⟨plan, hplan⟩ := Database.planOfKey_isSome hkey
  have hrollups := h.rollupsOf_months key.id
  refine ⟨plan, ?report, hplan, ?found, ?iff⟩
  case found =>
    rw [getUsageReport, Database.keyOf_val hkey]
    show (do let plan ← db.planOfKey key; _) = _
    rw [hplan]
    rfl
  case iff =>
    show Latest _ _ _ ((getLiveUsage key.keyId.val (key.quotaLimit plan) now redis).toList ++
      historyMonths (h.rollupsOf key.id) (months - 1)) ↔ _
    by_cases hflag : redis.IsString (usageFlagKey key.keyId.val now)
    · rw [getLiveUsage_of_isString hflag]
      cases hlive : liveMonth redis key.keyId.val (key.quotaLimit plan) now with
      | none => rw [reportFits_none h hlive, ← latest_history_iff hrollups hmonths]; rfl
      | some live =>
          rw [reportFits_live h hflag hlive,
            ← latest_live_iff hrollups (liveMonth_spec hlive).1 hmonths]
          rfl
    · rw [getLiveUsage_of_not_isString hflag]
      cases hlive : liveMonth redis key.keyId.val (key.quotaLimit plan) now with
      | none => rw [reportFits_none h hlive, ← latest_history_iff hrollups hmonths]; rfl
      | some live =>
          obtain ⟨hsource, -, used, hcounter⟩ := liveMonth_spec hlive
          rw [ReportFits, hcounter]
          refine iff_of_false (not_latest_history hrollups hsource hmonths) fun hfits => ?_
          exact hflag hfits.1

/-- The month before the sample's. -/
def sampleDecember : History :=
  { History.empty with
    rollups := [⟨1, sampleKeyRow.id, "1969-12", 3, 4⟩]
    rollupIds := List.nodup_singleton _
    rollupSlots := List.nodup_singleton _ }

/-- A check has counted in January, and December is persisted: the report of two months has both. -/
theorem usage_report_latest_iff_sample :
    let redis := (sampleChecked samplePlanRow ⟨sampleDatabase, ⟨Keyspace.empty, sampleDecember⟩⟩).world.redis
    ReportFits sampleDecember redis (sampleTime 60) sampleKeyRow 2 ∧
      ∃ plan report, sampleDatabase.planOfKey sampleKeyRow = some plan ∧
        getUsageReport sampleDatabase none sampleDecember redis (sampleTime 60) sampleKeyRow.keyId.val 2 =
          some report ∧
        Latest MonthUsage.month (monthsWithData
          (liveMonth redis sampleKeyRow.keyId.val (sampleKeyRow.quotaLimit plan) (sampleTime 60))
          (sampleDecember.rollupsOf sampleKeyRow.id)) 2 report.months := by
  intro redis
  have hcounter : redis.asInt (usageQuotaKey sampleKeyRow.keyId.val (sampleTime 60)) = some 2 := by
    decide +kernel
  have hflag : redis (usageFlagKey sampleKeyRow.keyId.val (sampleTime 60)) = none := by decide +kernel
  have hfits : ReportFits sampleDecember redis (sampleTime 60) sampleKeyRow 2 := by
    rw [ReportFits, hcounter]
    refine ⟨fun entry hentry => ?_, List.forall_mem_singleton.mpr (.inl (by decide +kernel))⟩
    rw [hflag] at hentry
    cases hentry
  have hkey : sampleKeyRow ∈ sampleDatabase.keys := List.mem_singleton_self _
  obtain ⟨plan, report, hplan, hreport, hiff⟩ :=
    usage_report_latest_iff sampleDecember redis (sampleTime 60) hkey (by decide : 1 ≤ 2)
  exact ⟨hfits, plan, report, hplan, hreport, hiff.mpr hfits⟩

/-- A check counts in January, and a run of the rollup job persists what it counted: the report of two
months has January twice. -/
theorem usage_month_twice :
    let s := ((sampleChecked samplePlanRow ⟨sampleDatabase, ⟨Keyspace.empty, History.empty⟩⟩).rollup
      (sampleRollupRun [])).2
    let report := getUsageReport s.db none s.world.history s.world.redis (sampleTime 60)
      sampleKeyRow.keyId.val 2
    report.map (fun report => report.months.map MonthUsage.month) = some ["1970-01", "1970-01"] ∧
      ¬ ∃ plan found, s.db.planOfKey sampleKeyRow = some plan ∧ report = some found ∧
        Latest MonthUsage.month (monthsWithData
          (liveMonth s.world.redis sampleKeyRow.keyId.val (sampleKeyRow.quotaLimit plan) (sampleTime 60))
          (s.world.history.rollupsOf sampleKeyRow.id)) 2 found.months := by
  intro s report
  have htwice : report.map (fun report => report.months.map MonthUsage.month) =
      some ["1970-01", "1970-01"] := by decide +kernel
  refine ⟨htwice, ?_⟩
  rintro ⟨plan, found, -, hfound, hlatest⟩
  have hsorted : (found.months.map MonthUsage.month).Pairwise fun a b => b < a :=
    List.pairwise_map.mpr hlatest.sorted
  rw [hfound, Option.map_some, Option.some.injEq] at htwice
  rw [htwice] at hsorted
  exact absurd hsorted (by decide)

end QuotaGuard
