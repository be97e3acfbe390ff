import QuotaGuard.Proof.Bucket
import QuotaGuard.Proof.Stored

/-!
# Key expiry is invisible

Every key the script writes carries a deadline, and the deadline is late enough: a bucket has had the
time of a full refill, every member of a window is older than the window, and a month key outlives
its month. `Dated` says so of the keyspace that never loses a key; a keyspace that lost some of them
after their deadlines gives a later check the same view.
-/

namespace QuotaGuard

open CheckStep

theorem Time.ms_mono {now later : Time} (hle : now.us ≤ later.us) : now.ms ≤ later.ms := by
  simp only [Time.ms]
  omega

theorem Keyspace.KeptOrLapsed.congr {full lossy full' lossy' : Keyspace} {name : String} {now : Time}
    (h : full.KeptOrLapsed lossy name now) (hfull : full' name = full name)
    (hlossy : lossy' name = lossy name) : full'.KeptOrLapsed lossy' name now := by
  rw [KeptOrLapsed, Lapsed, hfull, hlossy]
  exact h

theorem Keyspace.Lapsed.mono {db : Keyspace} {name : String} {now later : Time}
    (h : db.Lapsed name now) (hle : now.us ≤ later.us) : db.Lapsed name later := by
  obtain ⟨entry, deadline, hentry, hdeadline, hlapsed⟩ := h
  exact ⟨entry, deadline, hentry, hdeadline, hlapsed.trans (Time.ms_mono hle)⟩

/-- What was kept or lapsed before, and is kept or lapses now, is kept or has lapsed now. -/
theorem Keyspace.KeptOrLapsed.trans {full lossy found : Keyspace} {name : String} {now later : Time}
    (h : full.KeptOrLapsed lossy name now) (hle : now.us ≤ later.us)
    (hlink : lossy.KeptOrLapsed found name later) : full.KeptOrLapsed found name later := by
  rcases h with hsame | ⟨hlapsed, hgone⟩
  · rcases hlink with hkept | ⟨hlapsed, hremoved⟩
    · exact .inl (hkept.trans hsame)
    · refine .inr ⟨?_, hremoved⟩
      obtain ⟨entry, deadline, hentry, hrest⟩ := hlapsed
      exact ⟨entry, deadline, hsame ▸ hentry, hrest⟩
  · rcases hlink with hkept | ⟨⟨entry, deadline, hentry, -⟩, -⟩
    · exact .inr ⟨hlapsed.mono hle, hkept.trans hgone⟩
    · rw [hgone] at hentry
      cases hentry

/-! ### Late enough -/

/-- A lapsed bucket has had more than the time of a full refill. -/
def BucketDated (limits : ResolvedKey) (now : Time) (name : String) (db : Keyspace) : Prop :=
  ∀ entry, db name = some entry → ∃ deadline, entry.expireAt = some deadline ∧
    ∀ t ts, db.bucket name = some (t, ts) → ts ≤ now.us + 1 ∧
      limits.burstCapacity * utok < limits.burstRefillPerSec * (deadline * 1000 - ts)

/-- The members of a lapsed window are all older than the window. -/
def WindowDated (limits : ResolvedKey) (now : Time) (name : String) (db : Keyspace) : Prop :=
  ∀ entry, db name = some entry → ∃ deadline, entry.expireAt = some deadline ∧
    ∀ p ∈ (db.window name).entries, p.2 ≤ now.us ∧
      p.2 + limits.sustainedWindowSeconds * utok < deadline * 1000

/-- A lapsed month key is one of a month that is over. -/
def MonthDated (month : String) (name : String) (db : Keyspace) : Prop :=
  ∀ entry, db name = some entry →
    ∃ t : Time, t.monthStr = month ∧ entry.expireAt = some t.monthDeadline

structure Dated (plan : KeyId → ResolvedKey) (now : Time) (db : Keyspace) : Prop where
  bucket : ∀ key rest, BucketDated (plan key) now (Family.bucket.name key rest) db
  window : ∀ key rest, WindowDated (plan key) now (Family.window.name key rest) db
  quota : ∀ key month, MonthDated month (Family.quota.name key month) db
  flag : ∀ key month, MonthDated month (Family.flag.name key month) db

variable {limits : ResolvedKey} {plan : KeyId → ResolvedKey} {now later : Time} {name month : String}
  {db db' : Keyspace} {c : Call}

theorem BucketDated.keep (h : BucketDated limits now name db) (hle : now.us ≤ later.us)
    (hsame : db' name = db name) : BucketDated limits later name db' := by
  intro entry hentry
  rw [hsame] at hentry
  obtain ⟨deadline, hdeadline, hbound⟩ := h entry hentry
  refine ⟨deadline, hdeadline, fun t ts hbucket => ?_⟩
  rw [Keyspace.bucket_congr hsame] at hbucket
  obtain ⟨hts, hfull⟩ := hbound t ts hbucket
  exact ⟨hts.trans (by omega), hfull⟩

theorem WindowDated.keep (h : WindowDated limits now name db) (hle : now.us ≤ later.us)
    (hsame : db' name = db name) : WindowDated limits later name db' := by
  intro entry hentry
  rw [hsame] at hentry
  obtain ⟨deadline, hdeadline, hbound⟩ := h entry hentry
  refine ⟨deadline, hdeadline, fun p hp => ?_⟩
  rw [Keyspace.window_congr hsame] at hp
  obtain ⟨hscore, hold⟩ := hbound p hp
  exact ⟨hscore.trans hle, hold⟩

theorem MonthDated.congr (h : MonthDated month name db) (hsame : db' name = db name) :
    MonthDated month name db' := by
  intro entry hentry
  rw [hsame] at hentry
  exact h entry hentry

theorem Dated.mono (h : Dated plan now db) (hle : now.us ≤ later.us) : Dated plan later db where
  bucket := fun key rest => (h.bucket key rest).keep hle rfl
  window := fun key rest => (h.window key rest).keep hle rfl
  quota := h.quota
  flag := h.flag

theorem Dated.empty (plan : KeyId → ResolvedKey) (now : Time) : Dated plan now Keyspace.empty where
  bucket := fun _ _ => nofun
  window := fun _ _ => nofun
  quota := fun _ _ => nofun
  flag := fun _ _ => nofun

/-! ### What a lapsed key would have said -/

theorem BucketDated.refilled_eq (h : BucketDated limits c.now c.bkey db)
    (hlimits : limits.WithinBounds) (hc : c.MarshalledFor limits) (hlapsed : db.Lapsed c.bkey c.now) :
    c.refilled db = (c.argv.capUtok, c.now.us) := by
  obtain ⟨entry, deadline, hentry, hdeadline, hle⟩ := hlapsed
  obtain ⟨deadline', hdeadline', hbound⟩ := h entry hentry
  rw [hdeadline, Option.some.injEq] at hdeadline'
  subst hdeadline'
  rw [Call.refilled]
  cases hbucket : db.bucket c.bkey with
  | none => rfl
  | some stored =>
      obtain ⟨t, ts⟩ := stored
      obtain ⟨-, hfull⟩ := hbound t ts hbucket
      have hbounds := hlimits.burstBounds
      have hms := c.now.ms_mul_le
      have hrefill := hbounds.perSec.1
      have hlater : ts < deadline * 1000 := by
        have hpos := pos_of_mul_pos_right (hbounds.cap.1.trans hfull) hrefill.le
        omega
      rw [hc.rate_eq, hc.cap_eq]
      apply refill_full hbounds
      rw [elapsedUs_of_le (by omega)]
      exact hfull.trans_le (mul_le_mul_of_nonneg_left (by omega) hrefill.le)

/-- A check refills a lapsed bucket as it would have refilled it before. -/
theorem BucketDated.refilled_lost {lossy : Keyspace} (h : BucketDated limits c.now c.bkey db)
    (hlimits : limits.WithinBounds) (hc : c.MarshalledFor limits)
    (hlost : db.KeptOrLapsed lossy c.bkey c.now) : c.refilled lossy = c.refilled db := by
  rcases hlost with hsame | ⟨hlapsed, hgone⟩
  · rw [Call.refilled, Keyspace.bucket_congr hsame, ← Call.refilled]
  · rw [h.refilled_eq hlimits hc hlapsed, Call.refilled, Keyspace.bucket_of_none hgone]
    rfl

theorem WindowDated.live_eq (h : WindowDated limits c.now c.skey db) (hc : c.MarshalledFor limits)
    (hlapsed : db.Lapsed c.skey c.now) : c.live db = ∅ := by
  obtain ⟨entry, deadline, hentry, hdeadline, hle⟩ := hlapsed
  obtain ⟨deadline', hdeadline', hbound⟩ := h entry hentry
  rw [hdeadline, Option.some.injEq] at hdeadline'
  subst hdeadline'
  rw [Call.live, hc.window_eq]
  apply SortedSet.removeBelow_eq_empty
  intro p hp
  have hold := (hbound p hp).2
  have hms := c.now.ms_mul_le
  omega

theorem MonthDated.over (h : MonthDated month name db) (hlapsed : db.Lapsed name now) :
    ∃ t : Time, t.monthStr = month ∧ t.monthEnd ≤ now.sec := by
  obtain ⟨entry, deadline, hentry, hdeadline, hle⟩ := hlapsed
  obtain ⟨t, hmonth, hdeadline'⟩ := h entry hentry
  rw [hdeadline, Option.some.injEq] at hdeadline'
  subst hdeadline'
  refine ⟨t, hmonth, ?_⟩
  have hms := now.ms_mul_le
  have hsec := now.us_lt_sec_mul
  simp only [Time.monthDeadline, monthGraceS] at hle
  simp only [utok] at hsec
  omega

theorem MonthDated.not_lapsed (h : MonthDated now.monthStr name db) : ¬ db.Lapsed name now := by
  intro hlapsed
  obtain ⟨t, hmonth, hover⟩ := h.over hlapsed
  rw [Time.monthEnd_eq hmonth] at hover
  exact absurd now.sec_lt_monthEnd (not_lt.mpr hover)

/-! ### One check -/

theorem BucketDated.after (h : BucketDated limits c.now c.bkey db) (hlimits : limits.WithinBounds)
    (hc : c.MarshalledFor limits) : BucketDated limits c.now c.bkey (c.after db) := by
  by_cases hadmits : c.admits db = true
  · have hrate := hlimits.rate_pos
    have hts : (c.refilled db).2 ≤ c.now.us + 1 := by
      rw [Call.refilled, hc.rate_eq, hc.cap_eq]
      cases hbucket : db.bucket c.bkey with
      | none => exact show c.now.us ≤ c.now.us + 1 by omega
      | some stored =>
          obtain ⟨t, ts⟩ := stored
          cases hentry : db c.bkey with
          | none =>
              rw [Keyspace.bucket_of_none hentry] at hbucket
              cases hbucket
          | some entry =>
              obtain ⟨deadline, -, hbound⟩ := h entry hentry
              have hold := (hbound t ts hbucket).1
              exact (refilledNear_refill hlimits.burstBounds c.now.us t ts).stamp_le.trans
                (max_le hold le_rfl)
    intro entry hentry
    rw [Call.after_bkey hadmits] at hentry
    split at hentry
    · cases hentry
    rw [Option.some.injEq] at hentry
    refine ⟨c.now.ms + bucketTtl c.argv, by rw [← hentry], fun t ts hbucket => ?_⟩
    rw [Call.bucket_after_admitted hadmits, if_neg ‹_›, Option.some.injEq, Prod.mk.injEq] at hbucket
    obtain ⟨-, rfl⟩ := hbucket
    refine ⟨hts, ?_⟩
    obtain ⟨hceil, -⟩ := Rounding.ceil_div_bounds (a := c.argv.capUtok) hrate
    have hms := c.now.us_lt_ms_mul
    have hrefill : 0 < limits.burstRefillPerSec := hlimits.burstRefillPerSec.1
    have httl : ⌈(c.argv.capUtok : ℚ) / (limits.burstRefillPerSec * utok : Int)⌉ * utok <
        (c.now.ms + bucketTtl c.argv) * 1000 - (c.refilled db).2 := by
      rw [bucketTtl, hc.rate_eq]
      simp only [utok]
      omega
    rw [hc.cap_eq] at hceil httl
    calc limits.burstCapacity * utok
        ≤ ⌈((limits.burstCapacity * utok : Int) : ℚ) / (limits.burstRefillPerSec * utok : Int)⌉ *
            (limits.burstRefillPerSec * utok) := hceil
      _ = limits.burstRefillPerSec *
            (⌈((limits.burstCapacity * utok : Int) : ℚ) / (limits.burstRefillPerSec * utok : Int)⌉ *
              utok) := by ring
      _ < _ := mul_lt_mul_of_pos_left httl hrefill
  · exact h.keep le_rfl (by rw [Call.after_denied hadmits, Call.trimmed_of_ne c.bkey_ne_skey])

/-- A window has the deadline of its last admission. -/
theorem Call.expireAt_after_skey {entry : Entry} (hentry : c.after db c.skey = some entry) :
    (c.admits db = true ∧ entry.expireAt = some (c.now.ms + windowTtl c.argv)) ∨
      ¬ c.admits db = true ∧ ∃ before, db c.skey = some before ∧ entry.expireAt = before.expireAt := by
  by_cases hadmits : c.admits db = true
  · rw [after_skey hadmits] at hentry
    split at hentry
    · cases hentry
    · cases hentry
      exact .inl ⟨hadmits, rfl⟩
  · rw [after_denied hadmits] at hentry
    exact .inr ⟨hadmits, Redis.trim_expireAt hentry⟩

/-- A check adds no member to its window but its own. -/
theorem Call.mem_window_after {p : String × Int} (hp : p ∈ ((c.after db).window c.skey).entries) :
    p ∈ (db.window c.skey).entries ∨ c.admits db = true ∧ p.2 = c.now.us := by
  have hlive (hmem : p ∈ (c.live db).entries) : p ∈ (db.window c.skey).entries := by
    rw [live, SortedSet.mem_removeBelow] at hmem
    exact hmem.1
  by_cases hadmits : c.admits db = true
  · rw [window_after_admitted hadmits] at hp
    split at hp
    · exact absurd hp (Finset.notMem_empty p)
    · rw [SortedSet.mem_insert] at hp
      rcases hp with rfl | ⟨hold, -⟩
      · exact .inr ⟨hadmits, rfl⟩
      · exact .inl (hlive hold)
  · rw [window_after_denied hadmits] at hp
    exact .inl (hlive hp)

/-- What an admission has in its window by now is older than the window when the deadline is over. -/
theorem Call.window_lt_deadline (c : Call) :
    c.now.us + c.argv.windowUs < (c.now.ms + windowTtl c.argv) * 1000 := by
  have httl := windowTtl_bound c.argv
  have hms := c.now.us_lt_ms_mul
  omega

theorem WindowDated.after (h : WindowDated limits c.now c.skey db) (hc : c.MarshalledFor limits) :
    WindowDated limits c.now c.skey (c.after db) := by
  have hscore : ∀ p ∈ ((c.after db).window c.skey).entries, p.2 ≤ c.now.us := by
    intro p hp
    rcases Call.mem_window_after hp with hold | ⟨-, hnew⟩
    · cases hentry : db c.skey with
      | none =>
          rw [Keyspace.window_of_none hentry] at hold
          exact absurd hold (Finset.notMem_empty p)
      | some entry =>
          obtain ⟨deadline, -, hbound⟩ := h entry hentry
          exact (hbound p hold).1
    · exact hnew.le
  intro entry hentry
  rcases Call.expireAt_after_skey hentry with ⟨-, hset⟩ | ⟨hdenied, before, hbefore, hkept⟩
  · refine ⟨_, hset, fun p hp => ⟨hscore p hp, ?_⟩⟩
    have hlast := c.window_lt_deadline
    have hnow := hscore p hp
    rw [hc.window_eq] at hlast
    omega
  · obtain ⟨deadline, hdeadline, hbound⟩ := h before hbefore
    refine ⟨deadline, hkept.trans hdeadline, fun p hp => ?_⟩
    rcases Call.mem_window_after hp with hold | ⟨hadmits, -⟩
    · exact hbound p hold
    · exact absurd hadmits hdenied

/-- A counter gets its deadline from the first check that raises it. -/
theorem Call.expireAt_after_qkey {entry : Entry} (hentry : c.after db c.qkey = some entry) :
    entry.expireAt = some c.now.monthDeadline ∨
      ∃ before, db c.qkey = some before ∧ entry.expireAt = before.expireAt := by
  by_cases hadmits : c.admits db = true
  · rw [after_qkey hadmits, Option.some.injEq] at hentry
    subst hentry
    by_cases hfirst : c.used db + c.argv.cost = c.argv.cost
    · exact .inl (if_pos hfirst)
    · cases hstored : db c.qkey with
      | none =>
          -- An absent counter counts as zero, so this check would have been its first.
          rw [used, Keyspace.counter_of_none hstored, zero_add] at hfirst
          exact absurd rfl hfirst
      | some before => exact .inr ⟨before, rfl, if_neg hfirst⟩
  · rw [after_denied hadmits, trimmed_of_ne c.skey_ne_qkey.symm] at hentry
    exact .inr ⟨entry, hentry, rfl⟩

/-- A flag gets its deadline from the check that sets it. -/
theorem Call.expireAt_after_fkey {entry : Entry} (hentry : c.after db c.fkey = some entry) :
    entry.expireAt = some c.now.monthDeadline ∨
      ∃ before, db c.fkey = some before ∧ entry.expireAt = before.expireAt := by
  by_cases hadmits : c.admits db = true
  · rw [after_fkey hadmits] at hentry
    by_cases hsets : c.SetsFlag db
    · rw [if_pos hsets, Option.some.injEq] at hentry
      subst hentry
      exact .inl rfl
    · rw [if_neg hsets] at hentry
      exact .inr ⟨entry, hentry, rfl⟩
  · rw [after_denied hadmits, trimmed_of_ne c.skey_ne_fkey.symm] at hentry
    exact .inr ⟨entry, hentry, rfl⟩

theorem MonthDated.after_qkey (h : MonthDated c.now.monthStr c.qkey db) :
    MonthDated c.now.monthStr c.qkey (c.after db) := by
  intro entry hentry
  rcases Call.expireAt_after_qkey hentry with hset | ⟨before, hbefore, hkept⟩
  · exact ⟨c.now, rfl, hset⟩
  · obtain ⟨t, hmonth, hdeadline⟩ := h before hbefore
    exact ⟨t, hmonth, hkept.trans hdeadline⟩

theorem MonthDated.after_fkey (h : MonthDated c.now.monthStr c.fkey db) :
    MonthDated c.now.monthStr c.fkey (c.after db) := by
  intro entry hentry
  rcases Call.expireAt_after_fkey hentry with hset | ⟨before, hbefore, hkept⟩
  · exact ⟨c.now, rfl, hset⟩
  · obtain ⟨t, hmonth, hdeadline⟩ := h before hbefore
    exact ⟨t, hmonth, hkept.trans hdeadline⟩

theorem Dated.after (h : Dated plan now db) (hplan : ∀ key, (plan key).WithinBounds)
    (hc : c.MarshalledFor (plan c.key)) (hnow : now.us ≤ c.now.us) :
    Dated plan c.now (c.after db) where
  bucket := by
    intro key rest
    by_cases hown : key = c.key ∧ rest = c.rest .bucket
    · obtain ⟨rfl, rfl⟩ := hown
      exact ((h.mono hnow).bucket c.key (c.rest .bucket)).after (hplan _) hc
    · exact (h.bucket key rest).keep hnow (Call.after_name hown)
  window := by
    intro key rest
    by_cases hown : key = c.key ∧ rest = c.rest .window
    · obtain ⟨rfl, rfl⟩ := hown
      exact ((h.mono hnow).window c.key (c.rest .window)).after hc
    · exact (h.window key rest).keep hnow (Call.after_name hown)
  quota := by
    intro key month
    by_cases hown : key = c.key ∧ month = c.rest .quota
    · obtain ⟨rfl, rfl⟩ := hown
      have hquota : MonthDated c.now.monthStr (Family.quota.name c.key c.now.monthStr) db := h.quota _ _
      show MonthDated c.now.monthStr (Family.quota.name c.key c.now.monthStr) (c.after db)
      rw [← Call.qkey_eq] at hquota ⊢
      exact hquota.after_qkey
    · exact (h.quota key month).congr (Call.after_name hown)
  flag := by
    intro key month
    by_cases hown : key = c.key ∧ month = c.rest .flag
    · obtain ⟨rfl, rfl⟩ := hown
      have hflag : MonthDated c.now.monthStr (Family.flag.name c.key c.now.monthStr) db := h.flag _ _
      show MonthDated c.now.monthStr (Family.flag.name c.key c.now.monthStr) (c.after db)
      rw [← Call.fkey_eq] at hflag ⊢
      exact hflag.after_fkey
    · exact (h.flag key month).congr (Call.after_name hown)

/-! ### The run that loses keys -/

/-- Between two checks Redis may remove any key whose deadline is over, and nothing else happens. -/
def Expiring (c : Call) (db found : Keyspace) : Prop := ∀ name, db.KeptOrLapsed found name c.now

/-- The keys the second keyspace lacks have lapsed in the first. -/
def Lost (now : Time) (full lossy : Keyspace) : Prop := ∀ name, full.KeptOrLapsed lossy name now

variable {full lossy : Keyspace}

theorem Lost.refl (now : Time) (db : Keyspace) : Lost now db db := fun _ => .inl rfl

theorem Lost.typed (h : Lost now full lossy) (htyped : full.Typed) : lossy.Typed := by
  intro f rest
  rcases h (f.tag ++ rest) with hsame | ⟨-, hgone⟩
  · exact (htyped f rest).congr hsame
  · exact Keyspace.Holds.of_none hgone

/-- What Redis removes before a check has lapsed in the full keyspace too. -/
theorem Lost.link {found : Keyspace} (h : Lost now full lossy) (hnow : now.us ≤ c.now.us)
    (hlink : Expiring c lossy found) : Lost c.now full found :=
  fun name => (h name).trans hnow (hlink name)

theorem Lost.thisMonth (h : Lost c.now full lossy) (hdated : MonthDated c.now.monthStr name full) :
    lossy name = full name := by
  rcases h name with hsame | ⟨hlapsed, -⟩
  · exact hsame
  · exact absurd hlapsed hdated.not_lapsed

theorem Dated.ofQkey (h : Dated plan now full) (c : Call) :
    MonthDated c.now.monthStr c.qkey full := by
  rw [Call.qkey_eq]
  exact h.quota _ _

theorem Dated.ofFkey (h : Dated plan now full) (c : Call) :
    MonthDated c.now.monthStr c.fkey full := by
  rw [Call.fkey_eq]
  exact h.flag _ _

theorem Lost.sameView (h : Lost c.now full lossy) (hdated : Dated plan c.now full)
    (hplan : ∀ key, (plan key).WithinBounds) (hc : c.MarshalledFor (plan c.key)) :
    c.SameView full lossy where
  refilled := by
    have hbucket : BucketDated (plan c.key) c.now c.bkey full := hdated.bucket _ _
    exact hbucket.refilled_lost (hplan _) hc (h c.bkey)
  live := by
    rcases h c.skey with hsame | ⟨hlapsed, hgone⟩
    · rw [Call.live, Keyspace.window_congr hsame, ← Call.live]
    · have hwindow : WindowDated (plan c.key) c.now c.skey full := hdated.window _ _
      rw [hwindow.live_eq hc hlapsed, Call.live, Keyspace.window_of_none hgone,
        SortedSet.removeBelow_empty]
  counter := Keyspace.counter_congr (h.thisMonth (hdated.ofQkey c))
  flag := by rw [h.thisMonth (hdated.ofFkey c)]

/-- A check rewrites its window, or leaves it empty. -/
theorem Lost.after_skey (h : Lost c.now full lossy) (hview : c.SameView full lossy)
    (hlive : full.Lapsed c.skey c.now → c.live full = ∅) :
    c.after lossy c.skey = c.after full c.skey := by
  by_cases hadmits : c.admits full = true
  · rw [Call.after_skey hadmits, Call.after_skey (hview.admits_eq.trans hadmits), hview.live]
  · have hdenied : ¬ c.admits lossy = true := hview.admits_eq ▸ hadmits
    rw [Call.after_denied hadmits, Call.after_denied hdenied]
    rcases h c.skey with hsame | ⟨hlapsed, hgone⟩
    · exact Redis.trim_congr hsame _
    · have hempty := hlive hlapsed
      have hempty' := hview.live.trans hempty
      rw [Call.live] at hempty hempty'
      rw [Call.trimmed, Call.trimmed, Redis.trim, Redis.trim, if_pos hempty, if_pos hempty',
        Function.update_self, Function.update_self]

/-- A check keeps the loss a loss of lapsed keys. -/
theorem Lost.after (h : Lost c.now full lossy) (hdated : Dated plan c.now full)
    (hplan : ∀ key, (plan key).WithinBounds) (hc : c.MarshalledFor (plan c.key)) :
    Lost c.now (c.after full) (c.after lossy) := by
  have hview := h.sameView hdated hplan hc
  intro name
  by_cases hs : name = c.skey
  · rw [hs]
    have hwindow : WindowDated (plan c.key) c.now c.skey full := hdated.window _ _
    exact .inl (h.after_skey hview fun hlapsed => hwindow.live_eq hc hlapsed)
  by_cases hadmits : c.admits full = true
  · by_cases hb : name = c.bkey
    · left
      rw [hb, Call.after_bkey hadmits, Call.after_bkey (hview.admits_eq.trans hadmits), hview.refilled]
    by_cases hq : name = c.qkey
    · exact .inl (hview.after_eq hs (hq ▸ h.thisMonth (hdated.ofQkey c)))
    by_cases hf : name = c.fkey
    · exact .inl (hview.after_eq hs (hf ▸ h.thisMonth (hdated.ofFkey c)))
    exact (h name).congr (Call.after_of_ne hb hs hq hf) (Call.after_of_ne hb hs hq hf)
  · have hdenied : ¬ c.admits lossy = true := hview.admits_eq ▸ hadmits
    rw [Call.after_denied hadmits, Call.after_denied hdenied]
    exact (h name).congr (Call.trimmed_of_ne hs) (Call.trimmed_of_ne hs)

/-! ### Two runs -/

/-- The run that loses keys answers as the run that does not. -/
theorem replies_of_expiring {steps steps' : List CheckStep} {last last' : Keyspace}
    (hplan : ∀ key, (plan key).WithinBounds)
    (hfull : Run Call.exec Undisturbed full steps last)
    (hlossy : Run Call.exec Expiring lossy steps' last')
    (hevents : steps'.map Step.event = steps.map Step.event)
    (hcalls : ∀ step ∈ steps, step.event.MarshalledFor (plan step.event.key))
    (htimes : steps.Pairwise fun earlier later => earlier.us ≤ later.us)
    (hnow : ∀ step ∈ steps, now.us ≤ step.us) (htyped : full.Typed) (hdated : Dated plan now full)
    (h : Lost now full lossy) : steps'.map Step.reply = steps.map Step.reply := by
  induction hfull generalizing now lossy steps' with
  | nil =>
      rw [List.map_nil, List.map_eq_nil_iff] at hevents
      rw [hevents, List.map_nil]
  | @cons full _ _ c steps hlink hrest ih =>
      cases hlink
      cases hlossy with
      | nil => cases hevents
      | @cons _ found _ c' steps' hlink hrest' =>
          rw [List.map_cons, List.map_cons, List.cons.injEq, Step.of_event, Step.of_event] at hevents
          obtain ⟨rfl, hevents⟩ := hevents
          obtain ⟨hlater, htimes⟩ := List.pairwise_cons.mp htimes
          have hc : c'.MarshalledFor (plan c'.key) := hcalls _ (List.mem_cons_self ..)
          have hnow' : now.us ≤ c'.now.us := hnow (Step.of Call.exec c' _) (List.mem_cons_self ..)
          have hlost := h.link hnow' hlink
          have hfound := hlost.typed htyped
          have hdated' := hdated.mono hnow'
          rw [c'.exec_after htyped] at hrest ih
          rw [c'.exec_after hfound] at hrest'
          have hreplies := ih hrest' hevents
            (fun step hmem => hcalls step (List.mem_cons_of_mem _ hmem)) htimes hlater
            (Call.typed_after htyped) (hdated.after hplan hc hnow') (hlost.after hdated' hplan hc)
          rw [List.map_cons, List.map_cons, hreplies, (c'.answered htyped).reply_eq,
            (c'.answered hfound).reply_eq]
          simp only [Step.of_event, Step.of_before, (hlost.sameView hdated' hplan hc).reply_eq]

/-- Losing keys leaves no key without its deadline. -/
theorem Dated.of_loss {found : Keyspace} (h : Dated plan now db)
    (hloss : db.Loses found) : Dated plan now found where
  bucket := by
    intro key rest entry hentry
    rcases hloss (Family.bucket.name key rest) with hsame | hgone
    · exact (h.bucket key rest).keep le_rfl hsame entry hentry
    · rw [hgone] at hentry
      cases hentry
  window := by
    intro key rest entry hentry
    rcases hloss (Family.window.name key rest) with hsame | hgone
    · exact (h.window key rest).keep le_rfl hsame entry hentry
    · rw [hgone] at hentry
      cases hentry
  quota := by
    intro key month entry hentry
    rcases hloss (Family.quota.name key month) with hsame | hgone
    · exact (h.quota key month).congr hsame entry hentry
    · rw [hgone] at hentry
      cases hentry
  flag := by
    intro key month entry hentry
    rcases hloss (Family.flag.name key month) with hsame | hgone
    · exact (h.flag key month).congr hsame entry hentry
    · rw [hgone] at hentry
      cases hentry

/-- Whatever keys are lost on the way, a run of checks leaves none without its deadline. -/
theorem dated_of_run {link : Call → Keyspace → Keyspace → Prop} {steps : List CheckStep}
    {last : Keyspace} (hplan : ∀ key, (plan key).WithinBounds)
    (hlink : ∀ c db found, link c db found → db.Loses found)
    (hrun : Run Call.exec link full steps last)
    (hcalls : ∀ step ∈ steps, step.event.MarshalledFor (plan step.event.key))
    (htimes : steps.Pairwise fun earlier later => earlier.us ≤ later.us)
    (hnow : ∀ step ∈ steps, now.us ≤ step.us) (htyped : full.Typed) (hdated : Dated plan now full)
    (hlater : now.us ≤ later.us) (hlast : ∀ step ∈ steps, step.us ≤ later.us) :
    last.Typed ∧ Dated plan later last :=
  hrun.invariant_clock Call.now (I := fun now db => db.Typed ∧ Dated plan now db)
    (p := fun step => step.event.MarshalledFor (plan step.event.key))
    (fun _ _ _ hle h => ⟨h.1, h.2.mono hle⟩)
    (fun _ _ _ h hloss => ⟨h.1.of_loss (hlink _ _ _ hloss), h.2.of_loss (hlink _ _ _ hloss)⟩)
    (fun c db hc h => by
      rw [c.exec_after h.1]
      exact ⟨Call.typed_after h.1, h.2.after hplan hc le_rfl⟩)
    ⟨htyped, hdated⟩ htimes hnow hlast hlater hcalls

def Time.epoch : Time := ⟨0, 0, Nat.succ_pos _⟩

/-- **Key expiry is invisible.** Each key has a plan within the schema bounds. With a non-decreasing
clock, the run in which Redis removes keys whose deadline is over gives every check the reply it has
in the run in which no key is ever removed. What a check finds lapsed is a bucket it would refill to
the brim now, a window it would trim to nothing, or a month key whose month is over. -/
theorem expiry_invisible {steps steps' : List CheckStep} {full lossy : Keyspace}
    {plan : KeyId → ResolvedKey} (hplan : ∀ key, (plan key).WithinBounds)
    (hfull : Run Call.exec Undisturbed Keyspace.empty steps full)
    (hlossy : Run Call.exec Expiring Keyspace.empty steps' lossy)
    (hevents : steps'.map Step.event = steps.map Step.event)
    (hcalls : ∀ step ∈ steps, step.event.MarshalledFor (plan step.event.key))
    (htimes : steps.Pairwise fun earlier later => earlier.us ≤ later.us) :
    steps'.map Step.reply = steps.map Step.reply ∧
    ∀ c : Call, c.MarshalledFor (plan c.key) → (∀ step ∈ steps, step.us ≤ c.now.us) →
      (full.Lapsed c.bkey c.now → c.refilled full = (c.argv.capUtok, c.now.us)) ∧
      (full.Lapsed c.skey c.now → c.live full = ∅) ∧
      ∀ f key month, f = Family.quota ∨ f = Family.flag → full.Lapsed (f.name key month) c.now →
        ∃ t : Time, t.monthStr = month ∧ t.monthEnd ≤ c.now.sec := by
  have hepoch (t : Time) : Time.epoch.us ≤ t.us := t.us_nonneg
  have hstart := Dated.empty plan Time.epoch
  constructor
  · exact replies_of_expiring hplan hfull hlossy hevents hcalls htimes (fun step _ => hepoch _)
      Keyspace.typed_empty hstart (Lost.refl _ _)
  · intro c hc hlast
    have hdated : Dated plan c.now full := (dated_of_run hplan (fun _ _ _ hsame _ => .inl (by rw [hsame]))
      hfull hcalls htimes (fun step _ => hepoch _) Keyspace.typed_empty hstart (hepoch _) hlast).2
    have hbucket : BucketDated (plan c.key) c.now c.bkey full := hdated.bucket _ _
    have hwindow : WindowDated (plan c.key) c.now c.skey full := hdated.window _ _
    refine ⟨hbucket.refilled_eq (hplan _) hc, hwindow.live_eq hc, ?_⟩
    intro f key month hf hlapsed
    rcases hf with rfl | rfl
    · exact (hdated.quota key month).over hlapsed
    · exact (hdated.flag key month).over hlapsed

/-- A bucket that is emptied in second 5 has its deadline in second 67; a check in second 100 does
not notice whether Redis removed it. -/
theorem expiry_invisible_sample :
    let first : CheckStep := Step.of Call.exec (sampleCall 5 2 "a") Keyspace.empty
    let second : CheckStep := Step.of Call.exec (sampleCall 100 2 "b") first.after
    let second' : CheckStep := Step.of Call.exec (sampleCall 100 2 "b")
      (Function.update first.after (bucketName sampleKey sampleResource) none)
    second'.reply = second.reply := by
  intro first second second'
  have hfull : Run Call.exec Undisturbed Keyspace.empty [first, second] second.after :=
    .cons rfl (.cons rfl (.nil _))
  have hexpiring : Expiring (sampleCall 100 2 "b") first.after
      (Function.update first.after (bucketName sampleKey sampleResource) none) := by
    intro name
    by_cases hname : name = bucketName sampleKey sampleResource
    · rw [hname]
      have hstored : first.after (bucketName sampleKey sampleResource) =
          some ⟨.hash (some 0) (some 5000000), some 67000⟩ := by decide +kernel
      exact .inr ⟨⟨_, 67000, hstored, rfl, by decide⟩, Function.update_self ..⟩
    · exact .inl (Function.update_of_ne hname _ _)
  have hlossy : Run Call.exec Expiring Keyspace.empty [first, second'] second'.after :=
    .cons (fun _ => .inl rfl) (.cons hexpiring (.nil _))
  have hcalls : ∀ step ∈ [first, second],
      step.event.MarshalledFor ((fun _ => samplePlan) step.event.key) := by
    simp only [List.mem_cons, List.not_mem_nil, or_false, forall_eq_or_imp, forall_eq]
    exact ⟨⟨rfl, rfl, by decide⟩, ⟨rfl, rfl, by decide⟩⟩
  have hreplies := (expiry_invisible (fun _ => samplePlan_withinBounds) hfull hlossy
    (by simp only [first, second, second', List.map_cons, Step.of_event]) hcalls
    (by decide +kernel)).1
  rw [List.map_cons, List.map_cons, List.map_cons, List.map_cons] at hreplies
  exact (List.cons.inj (List.cons.inj hreplies).2).1

end QuotaGuard
