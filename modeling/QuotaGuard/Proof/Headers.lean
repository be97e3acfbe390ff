import QuotaGuard.Proof.Months
import QuotaGuard.Proof.Range
import QuotaGuard.Proof.RetryAfter

/-!
# The header speaks for the tightest layer

Rendering takes what a check reports and never raises, and what it says about one layer fits the policy
of that layer. On a denial the layer is the one that denied. Otherwise it is the one whose share is the
smallest as a double: two shares of burst and sustained are told apart by their doubles, a share of the
quota and one of these need not be. The window of the quota is the longest of the three, so where their
doubles are equal the quota is passed over.
-/

namespace QuotaGuard

/-! ### The layer with the smallest double -/

/-- The quota has less left than either other layer, and a double does not show it. -/
def Collides (share : Layer → ℚ) : Prop :=
  (∀ l, l ≠ .quota → share .quota < share l) ∧
    ∃ l, l ≠ .quota ∧ Double.round (share .quota) = Double.round (share l)

/-- The layer a caller wants to hear about: none has less left, and none with as much left has a shorter
window. -/
def Tightest (share : Layer → ℚ) (window : Layer → Int) (l : Layer) : Prop :=
  ∀ other, share l ≤ share other ∧ (share l = share other → window l ≤ window other)

section Tightest

variable {share : Layer → ℚ} {window : Layer → Int} {l : Layer}

/-- What `min` picks by the double and the window. -/
def Picked (share : Layer → ℚ) (window : Layer → Int) (l : Layer) : Prop :=
  ∀ other, Double.round (share l) < Double.round (share other) ∨
    Double.round (share l) = Double.round (share other) ∧ window l ≤ window other

/-- The longest window is passed over in a collision. -/
theorem Picked.ne_quota (hpicked : Picked share window l)
    (hlong : ∀ l, l ≠ .quota → window l < window .quota) (hcollides : Collides share) :
    l ≠ .quota := by
  rintro rfl
  obtain ⟨-, other, hother, hsame⟩ := hcollides
  rcases hpicked other with hlt | ⟨-, hwindow⟩
  · exact absurd hlt (by rw [hsame]; exact lt_irrefl _)
  · exact absurd hwindow (not_le.mpr (hlong other hother))

/-- **Doubles find the tightest layer unless they collide.** -/
theorem Picked.tightest_iff (hpicked : Picked share window l) (hnonneg : ∀ l, 0 ≤ share l)
    (hapart : ∀ l other, l ≠ .quota → other ≠ .quota → share l < share other →
      Double.round (share l) < Double.round (share other))
    (hlong : ∀ l, l ≠ .quota → window l < window .quota) :
    Tightest share window l ↔ ¬ Collides share := by
  constructor
  · intro htight hcollides
    have hl := hpicked.ne_quota hlong hcollides
    exact absurd (htight .quota).1 (not_le.mpr (hcollides.1 l hl))
  · intro hnot other
    constructor
    · by_contra hlt
      have hlt := not_le.mp hlt
      have hle := Double.round_mono (hnonneg other) hlt.le
      obtain ⟨hsame, hwindow⟩ := (hpicked other).resolve_left (not_lt.mpr hle)
      have hl : l ≠ .quota := by
        rintro rfl
        have hother : other ≠ .quota := by
          rintro rfl
          exact lt_irrefl _ hlt
        exact absurd hwindow (not_le.mpr (hlong other hother))
      obtain rfl : other = .quota := by
        by_contra hother
        exact absurd (hapart other l hother hl hlt) (by rw [hsame]; exact lt_irrefl _)
      -- The third layer has more left than the one that was picked, so more than the quota too.
      refine hnot ⟨fun third hthird => ?_, l, hl, hsame.symm⟩
      by_contra hmore
      have hless := (not_lt.mp hmore).trans_lt hlt
      rcases hpicked third with hbefore | ⟨hequal, -⟩
      · exact absurd (hapart third l hthird hl hless) (not_lt.mpr hbefore.le)
      · exact absurd (hapart third l hthird hl hless) (by rw [hequal]; exact lt_irrefl _)
    · intro hsame
      rcases hpicked other with hlt | ⟨-, hwindow⟩
      · exact absurd hlt (by rw [hsame]; exact lt_irrefl _)
      · exact hwindow

end Tightest

/-! ### Decoding -/

/-- The tuple, named. -/
def Reply.result (r : Reply) : ScriptResult where
  allowed := r.allowed != 0
  denyLayer := r.denyLayer.elim "" Layer.name
  burstLimit := r.bLimit
  burstRemaining := r.bRemaining
  burstReset := r.bReset
  sustainedLimit := r.sLimit
  sustainedRemaining := r.sRemaining
  sustainedReset := r.sReset
  quotaLimit := r.qLimit
  quotaUsed := r.qUsed
  quotaRemaining := r.qRemaining
  quotaReset := r.qReset
  softCrossed := r.softCrossed != 0
  month := r.monthStr
  retryAfter := r.retryAfter

/-- Every tuple of the script can be decoded. -/
theorem decode_raw (r : Reply) : decode (some r.raw) = .ok r.result := rfl

/-! ### The windows of the policies -/

/-- The windows of the three policies. -/
def ResolvedKey.windows (limits : ResolvedKey) (now : Time) : Layer → Int :=
  Layer.pick ⌈Double.round ((limits.burstCapacity : ℚ) / limits.burstRefillPerSec)⌉
    limits.sustainedWindowSeconds (Gregorian.monthLength now.civil.1 now.civil.2.1 * 86400)

/-- The quotas of the three policies. -/
def ResolvedKey.quotas (limits : ResolvedKey) : Layer → Int :=
  Layer.pick limits.burstCapacity limits.sustainedLimit limits.monthlyQuota

/-- The three items of `RateLimit-Policy`. -/
def ResolvedKey.items (limits : ResolvedKey) (now : Time) (l : Layer) : Int × Int :=
  (limits.quotas l, limits.windows now l)

variable {limits : ResolvedKey} {now : Time}

theorem burstWindowSeconds_eq (hlimits : limits.WithinBounds) :
    burstWindowSeconds limits =
      .ok ⌈Double.round ((limits.burstCapacity : ℚ) / limits.burstRefillPerSec)⌉ := by
  have hrefill := hlimits.burstRefillPerSec.1
  have hne : limits.burstRefillPerSec ≠ 0 := by omega
  rw [burstWindowSeconds, quotient, if_neg hne]
  rfl

theorem monthWindowSeconds_eq (now : Time) :
    monthWindowSeconds now.monthStr =
      .ok (Gregorian.monthLength now.civil.1 now.civil.2.1 * 86400) :=
  monthWindowSeconds_monthStrOf (le_trans (by decide) (civil_year_pos (by omega)))
    now.civil_month_bounds

theorem windows_quota (limits : ResolvedKey) (now : Time) :
    limits.windows now .quota = Gregorian.monthLength now.civil.1 now.civil.2.1 * 86400 :=
  Layer.pick_quota _ _ _

theorem policies_eq (hlimits : limits.WithinBounds) (now : Time) :
    policies limits now.monthStr =
      .ok (Layer.all.map fun l => (limits.quotas l, limits.windows now l)) := by
  rw [policies, burstWindowSeconds_eq hlimits, monthWindowSeconds_eq]
  simp only [Layer.all, List.map_cons, List.map_nil, ResolvedKey.quotas, ResolvedKey.windows, Layer.pick]
  rfl

/-- The window of the burst policy is not shorter than a full refill takes, and has not more seconds than
the burst has requests. -/
theorem burstWindow_bounds (hlimits : limits.WithinBounds) (now : Time) :
    ⌈(limits.burstCapacity : ℚ) / limits.burstRefillPerSec⌉ ≤ limits.windows now .burst ∧
      limits.windows now .burst ≤ limits.burstCapacity := by
  obtain ⟨hcap, hcap'⟩ := hlimits.burstCapacity
  obtain ⟨hrefill, hrefill'⟩ := hlimits.burstRefillPerSec
  have hcapQ : (0 : ℚ) ≤ limits.burstCapacity := by exact_mod_cast (by omega : 0 ≤ limits.burstCapacity)
  have hrefillQ : (1 : ℚ) ≤ limits.burstRefillPerSec := by exact_mod_cast hrefill
  have hshort : limits.burstCapacity < 2 ^ 53 := hcap'.trans_lt (by norm_num)
  constructor
  · exact (Double.ceil_round_div (by omega) hshort (by omega)
      (hrefill'.trans (by norm_num))).ge
  · refine Int.ceil_le.mpr ?_
    calc Double.round ((limits.burstCapacity : ℚ) / limits.burstRefillPerSec)
        ≤ Double.round limits.burstCapacity :=
          Double.round_mono (div_nonneg hcapQ (by linarith)) (div_le_self hcapQ hrefillQ)
      _ = limits.burstCapacity := Double.round_intCast (by omega) hshort

theorem windows_lt_quota (hlimits : limits.WithinBounds) {l : Layer} (hl : l ≠ .quota) :
    limits.windows now l < limits.windows now .quota := by
  have hmonth : 28 * 86400 ≤ limits.windows now .quota := by
    rw [windows_quota]
    have hlength := Gregorian.four_weeks_le_monthLength now.civil.1 now.civil.2.1
    omega
  cases l with
  | burst =>
      have hwindow := (burstWindow_bounds hlimits now).2
      have hcap := hlimits.burstCapacity.2
      omega
  | sustained =>
      have hwindow := hlimits.sustainedWindowSeconds.2
      rw [show limits.windows now .sustained = limits.sustainedWindowSeconds from
        Layer.pick_sustained _ _ _]
      omega
  | quota => exact absurd rfl hl

/-! ### What a check reports of a layer -/

variable {c : Call} {db found : Keyspace}

/-- What a check that is admitted leaves of each layer. -/
def Call.remainingAfter (c : Call) (db : Keyspace) : Layer → Int :=
  Layer.pick ((c.refilled db).1 / utok - c.argv.cost)
    (c.argv.sustainedLimit - ((c.live db).card + 1)) (c.argv.quotaHard - (c.used db + c.argv.cost))

/-- The share of its limit that is left of a layer. -/
def Call.share (c : Call) (limits : ResolvedKey) (db : Keyspace) (l : Layer) : ℚ :=
  c.remainingAfter db l / limits.quotas l

theorem Call.reply_remaining (hadmits : c.admits db = true) (l : Layer) :
    ((c.reply db).result.layer l).remaining = c.remainingAfter db l := by
  obtain ⟨-, hsustained, hquota⟩ := Call.admits_iff.mp hadmits
  rw [Call.reply_eq_report]
  cases l with
  | burst =>
      show ⌊(c.levelAfter db : ℚ) / utok⌋ = (c.refilled db).1 / utok - c.argv.cost
      rw [Rounding.floor_div_eq utok_pos, Call.levelAfter, if_pos hadmits]
      simp only [utok]
      omega
  | sustained =>
      show max 0 (c.argv.sustainedLimit - c.countAfter db) =
        c.argv.sustainedLimit - ((c.live db).card + 1)
      rw [Call.countAfter, if_pos hadmits]
      omega
  | quota =>
      show max 0 (c.argv.quotaHard - c.usedAfter db) =
        c.argv.quotaHard - (c.used db + c.argv.cost)
      rw [Call.usedAfter, if_pos hadmits]
      omega

theorem Call.reply_limit (hc : c.MarshalledFor limits) (db : Keyspace) (l : Layer) :
    ((c.reply db).result.layer l).limit = limits.quotas l := by
  rw [Call.reply_eq_report]
  cases l with
  | burst =>
      show ⌊(c.argv.capUtok : ℚ) / utok⌋ = limits.burstCapacity
      rw [Rounding.floor_div_eq utok_pos, hc.cap_eq, Int.mul_ediv_cancel _ utok_pos.ne']
  | sustained =>
      show c.argv.sustainedLimit = limits.sustainedLimit
      rw [hc.argv_eq]
      rfl
  | quota =>
      show c.argv.quotaHard = limits.monthlyQuota
      rw [hc.argv_eq]
      rfl

theorem quotas_pos (hlimits : limits.WithinBounds) (l : Layer) : 0 < limits.quotas l := by
  cases l with
  | burst => exact hlimits.burstCapacity.1
  | sustained => exact hlimits.sustainedLimit.1
  | quota => exact hlimits.monthlyQuota.1

/-- The bucket is full again within the window of its policy. -/
theorem Call.bReset_le (hlimits : limits.WithinBounds) (hc : c.MarshalledFor limits)
    (hlevel : 0 ≤ c.levelAfter db) : (c.reply db).bReset ≤ limits.windows c.now .burst := by
  have hrate : 0 < c.argv.rateUtok := by
    rw [hc.rate_eq]
    exact hlimits.rate_pos
  have hrefill : 0 < limits.burstRefillPerSec := hlimits.burstRefillPerSec.1
  have hfull := (Rounding.ceil_div_le_iff hrefill).mp (burstWindow_bounds hlimits c.now).1
  rw [Call.reply_eq_report]
  show ⌈((c.argv.capUtok - c.levelAfter db : Int) : ℚ) / c.argv.rateUtok⌉ ≤ _
  rw [Rounding.ceil_div_le_iff hrate]
  calc c.argv.capUtok - c.levelAfter db ≤ limits.burstCapacity * utok := by
        rw [hc.cap_eq]
        omega
    _ ≤ limits.windows c.now .burst * limits.burstRefillPerSec * utok :=
        mul_le_mul_of_nonneg_right hfull utok_pos.le
    _ = limits.windows c.now .burst * c.argv.rateUtok := by
        rw [hc.rate_eq]
        ring

/-- No score lies in the future, so the oldest member leaves within the window. -/
theorem Call.sReset_le (hlimits : limits.WithinBounds) (hc : c.MarshalledFor limits)
    (hscore : ∀ p ∈ ((c.after db).window c.skey).entries, p.2 ≤ c.now.us) :
    (c.reply db).sReset ≤ limits.windows c.now .sustained := by
  have hwindow : 0 ≤ limits.sustainedWindowSeconds := by
    have := hlimits.sustainedWindowSeconds.1
    omega
  rw [Call.reply_eq_report]
  unfold report
  dsimp only
  split
  · rename_i oldest holdest
    obtain ⟨p, hp, rfl⟩ := SortedSet.mem_of_minScore holdest
    have hpast := hscore p hp
    refine max_le hwindow ((Rounding.ceil_div_le_iff utok_pos).mpr ?_)
    rw [hc.window_eq]
    show p.2 + limits.sustainedWindowSeconds * utok - c.now.us ≤ limits.sustainedWindowSeconds * utok
    omega
  · exact hwindow

/-- The month ends within its own length. -/
theorem Call.qReset_le (c : Call) (limits : ResolvedKey) (db : Keyspace) :
    (c.reply db).qReset ≤ limits.windows c.now .quota := by
  rw [windows_quota, Call.reply_eq_report]
  exact c.now.monthEnd_sub_sec_le

/-- What a check reports of each layer fits the policy of the layer. -/
structure Call.Fits (c : Call) (limits : ResolvedKey) (db : Keyspace) : Prop where
  nonneg : ∀ l, 0 ≤ ((c.reply db).result.layer l).remaining
  remaining : ∀ l, ((c.reply db).result.layer l).remaining ≤ limits.quotas l
  reset : ∀ l, ((c.reply db).result.layer l).reset ≤ limits.windows c.now l

theorem Call.fits (hlimits : limits.WithinBounds) (hc : c.MarshalledFor limits)
    (hsame : SameLimits c.key limits c.now.us db) : c.Fits limits db := by
  have hrate : 0 < c.argv.rateUtok := by
    rw [hc.rate_eq]
    exact hlimits.rate_pos
  have hlevel := hsame.stored.refilled (hc.under hlimits _)
  have hused : 0 ≤ c.used db := by
    rw [Call.used, Call.qkey_eq_quotaName]
    exact (hsame.stored.used _).1
  have hrange := Call.reply_inRange hc hlimits hused hlevel.1 (hlevel.2.trans_eq hc.cap_eq.symm)
  have hafter : 0 ≤ c.levelAfter db := by
    unfold Call.levelAfter
    split
    · have henough := (Call.admits_iff.mp ‹_›).1
      omega
    · omega
  have hscore := (hsame.stamped.check (fun _ => hc.wholeRate hlimits) (fun _ => c.now.us_nonneg)
    fun _ => le_rfl).score c.resource.val
  refine ⟨fun l => ?_, fun l => ?_, fun l => ?_⟩
  · cases l with
    | burst => exact hrange.burst.1
    | sustained => exact hrange.sustained.1
    | quota => exact hrange.quota.1
  · rw [← Call.reply_limit hc db]
    cases l with
    | burst => exact hrange.burst.2
    | sustained => exact hrange.sustained.2
    | quota => exact hrange.quota.2
  · cases l with
    | burst => exact Call.bReset_le hlimits hc hafter
    | sustained => exact Call.sReset_le hlimits hc fun p hp => (hscore p hp).2
    | quota => exact c.qReset_le limits db

/-! ### The layer of the header -/

/-- The share of its limit that a layer reports. -/
def ScriptResult.share (result : ScriptResult) (l : Layer) : ℚ :=
  (result.layer l).remaining / (result.layer l).limit

def Verdict.ok (v : Verdict) : Layer → Bool := Layer.pick v.burstOk v.sustainedOk v.quotaOk

/-- The first layer that denies, in the order of the layers. -/
def Verdict.FirstDenying (v : Verdict) (l : Layer) : Prop :=
  Layer.all.find? (fun l => !v.ok l) = some l

theorem Verdict.exists_firstDenying {v : Verdict} (hdenied : v.allowed = false) :
    ∃ l, v.denyLayer = some l ∧ v.FirstDenying l := by
  obtain ⟨burstOk, sustainedOk, quotaOk⟩ := v
  revert hdenied
  unfold FirstDenying
  cases burstOk with
  | false => exact fun _ => ⟨.burst, rfl, rfl⟩
  | true =>
      cases sustainedOk with
      | false => exact fun _ => ⟨.sustained, rfl, rfl⟩
      | true =>
          cases quotaOk with
          | false => exact fun _ => ⟨.quota, rfl, rfl⟩
          | true => exact fun hdenied => absurd hdenied (by decide)

theorem Call.result_allowed (c : Call) (db : Keyspace) :
    (c.reply db).result.allowed = c.admits db := by
  rw [Call.reply_eq_report]
  show ((if (c.verdict db).allowed = true then (1 : Int) else 0) != 0) = (c.verdict db).allowed
  cases (c.verdict db).allowed <;> rfl

theorem Call.result_denyLayer (c : Call) (db : Keyspace) :
    (c.reply db).result.denyLayer = (c.verdict db).denyLayer.elim "" Layer.name := by
  rw [Call.reply_eq_report]
  rfl

theorem Call.result_month (c : Call) (db : Keyspace) :
    (c.reply db).result.month = c.now.monthStr := by
  rw [Call.reply_eq_report]
  rfl

/-- Each name belongs to one layer. -/
theorem find_name (l : Layer) : Layer.all.find? (fun other => other.name = l.name) = some l := by
  cases l <;> decide

theorem keyLt_eq_false {a b : ℚ × Int} :
    keyLt b a = false ↔ a.1 < b.1 ∨ a.1 = b.1 ∧ a.2 ≤ b.2 := by
  rw [keyLt, Bool.or_eq_false_iff, Bool.and_eq_false_iff, decide_eq_false_iff_not,
    decide_eq_false_iff_not, beq_eq_false_iff_ne, not_lt, not_lt, le_iff_lt_or_eq]
  constructor
  · rintro ⟨hlt | heq, hsecond⟩
    · exact .inl hlt
    · exact .inr ⟨heq, hsecond.resolve_left fun hne => hne heq.symm⟩
  · rintro (hlt | ⟨heq, hle⟩)
    · exact ⟨.inl hlt, .inl hlt.ne'⟩
    · exact ⟨.inr heq, .inr hle⟩

theorem keyLt_trans {a b c : ℚ × Int} (hab : keyLt b a = false) (hbc : keyLt c b = false) :
    keyLt c a = false := by
  rw [keyLt_eq_false] at hab hbc ⊢
  rcases hab with hab | ⟨hab, hab'⟩
  · rcases hbc with hbc | ⟨hbc, -⟩
    · exact .inl (hab.trans hbc)
    · exact .inl (hbc ▸ hab)
  · rw [hab]
    exact hbc.imp_right fun h => ⟨h.1, hab'.trans h.2⟩

theorem keyLt_asymm {a b : ℚ × Int} (hab : keyLt a b = true) : keyLt b a = false := by
  by_contra hba
  rw [Bool.not_eq_false] at hba
  rw [keyLt, Bool.or_eq_true, Bool.and_eq_true, decide_eq_true_eq, decide_eq_true_eq, beq_iff_eq]
    at hab hba
  rcases hab with hab | ⟨hsame, hab⟩
  · rcases hba with hba | ⟨hsame, -⟩
    · exact lt_asymm hab hba
    · exact hab.ne hsame.symm
  · rcases hba with hba | ⟨-, hba⟩
    · exact hba.ne hsame.symm
    · omega

/-- `min` of a list that is not empty is a member, and no member is below it. -/
theorem minBy_spec {α : Type} (key : α → ℚ × Int) {elements : List α} (hne : elements ≠ []) :
    ∃ least, minBy key elements = some least ∧ ∀ a ∈ elements, keyLt (key a) (key least) = false := by
  cases elements with
  | nil => exact absurd rfl hne
  | cons first rest =>
      refine ⟨_, rfl, ?_⟩
      -- the best so far is not above the first, nor above what has been seen
      induction rest generalizing first with
      | nil =>
          intro a ha
          rw [List.mem_singleton.mp ha, keyLt_eq_false]
          exact .inr ⟨rfl, le_rfl⟩
      | cons second rest ih =>
          rw [List.foldl_cons]
          cases hlt : keyLt (key second) (key first) with
          | true =>
              have hleast := ih second (List.cons_ne_nil _ _)
              exact List.forall_mem_cons.mpr
                ⟨keyLt_trans (hleast second (List.mem_cons_self ..)) (keyLt_asymm hlt), hleast⟩
          | false =>
              have hleast := ih first (List.cons_ne_nil _ _)
              obtain ⟨hfirst, hrest⟩ := List.forall_mem_cons.mp hleast
              exact List.forall_mem_cons.mpr
                ⟨hfirst, List.forall_mem_cons.mpr ⟨keyLt_trans hfirst hlt, hrest⟩⟩

/-- On a denial the header speaks for the first layer that denies. -/
theorem selectedPolicy_denied (hlimits : limits.WithinBounds) (hdenied : ¬ c.admits db = true) :
    ∃ l, (c.verdict db).FirstDenying l ∧
      selectedPolicy limits (c.reply db).result = .ok ((c.reply db).result.layer l) := by
  have hallowed : c.admits db = false := by simpa using hdenied
  obtain ⟨l, hlayer, hfirst⟩ := Verdict.exists_firstDenying hallowed
  refine ⟨l, hfirst, ?_⟩
  rw [selectedPolicy, burstWindowSeconds_eq hlimits, Call.result_month, monthWindowSeconds_eq,
    Call.result_allowed, hallowed, Call.result_denyLayer, hlayer]
  show ((Layer.all.find? fun other => other.name = l.name).map (c.reply db).result.layer).elim _ _ = _
  rw [find_name]
  rfl

/-- Otherwise it speaks for the layer that `min` picks. -/
theorem selectedPolicy_admitted (hlimits : limits.WithinBounds) (hc : c.MarshalledFor limits)
    (hadmits : c.admits db = true) :
    ∃ l, Picked (c.reply db).result.share (limits.windows c.now) l ∧
      selectedPolicy limits (c.reply db).result = .ok ((c.reply db).result.layer l) := by
  have hratio (l : Layer) :
      (c.reply db).result.ratio l = .ok (Double.round ((c.reply db).result.share l)) := by
    have hpos := quotas_pos hlimits l
    rw [ScriptResult.ratio, quotient, if_neg]
    · rfl
    · rw [Call.reply_limit hc]
      exact hpos.ne'
  have hwindows : Layer.pick ⌈Double.round ((limits.burstCapacity : ℚ) / limits.burstRefillPerSec)⌉
      limits.sustainedWindowSeconds (Gregorian.monthLength c.now.civil.1 c.now.civil.2.1 * 86400) =
        limits.windows c.now := rfl
  have hshares : (Layer.pick (Double.round ((c.reply db).result.share .burst))
      (Double.round ((c.reply db).result.share .sustained))
      (Double.round ((c.reply db).result.share .quota))) =
        fun l => Double.round ((c.reply db).result.share l) := by
    funext l
    cases l <;> rfl
  obtain ⟨l, hl, hleast⟩ := minBy_spec
    (fun l => (Double.round ((c.reply db).result.share l), limits.windows c.now l))
    (show Layer.all ≠ [] from List.cons_ne_nil _ _)
  refine ⟨l, fun other => ?_, ?_⟩
  · have hmem : other ∈ Layer.all := by cases other <;> decide
    exact keyLt_eq_false.mp (hleast other hmem)
  · rw [selectedPolicy, burstWindowSeconds_eq hlimits, Call.result_month, monthWindowSeconds_eq,
      Call.result_allowed, hadmits, hratio, hratio, hratio]
    simp only [bind, Except.bind, hshares, hwindows, hl]
    rfl

/-! ### The response -/

/-- The value of `RateLimit-Policy`, from the three items. -/
def policyText (items : Layer → Int × Int) : String :=
  ", ".intercalate (Layer.all.map fun l => toString (items l).1 ++ ";w=" ++ toString (items l).2)

/-- What the headers of a response say if they speak for one layer, by what the layers had to say about
the check. -/
structure SpeaksFor (limits : ResolvedKey) (v : Verdict) (items : Layer → Int × Int)
    (result : ScriptResult) (out : CheckOut) (l : Layer) : Prop where
  itemized : policies limits result.month = .ok (Layer.all.map items)
  header : ("RateLimit", rateLimitHeader (result.layer l)) ∈ out.headers
  fields : out.limit = some (result.layer l).limit ∧
    out.remaining = some (result.layer l).remaining ∧ out.reset = some (result.layer l).reset
  policy : ("RateLimit-Policy", policyText items) ∈ out.headers
  limit : (result.layer l).limit = (items l).1
  remaining : (result.layer l).remaining ≤ (items l).1
  reset : (result.layer l).reset ≤ (items l).2
  denied : v.allowed = false → v.FirstDenying l
  tightest : v.allowed = true → Tightest result.share (fun l => (items l).2) l
  retryAfter : (∃ text, ("Retry-After", text) ∈ out.headers) ↔ v.allowed = false

theorem policyHeader_eq (hlimits : limits.WithinBounds) (now : Time) :
    policyHeader limits now.monthStr = .ok (policyText (limits.items now)) := by
  rw [policyHeader, policies_eq hlimits]
  rfl

/-- Whatever layer is selected, the response shows it. -/
theorem toOut_selected (hlimits : limits.WithinBounds) {l : Layer}
    (hselected : selectedPolicy limits (c.reply db).result = .ok ((c.reply db).result.layer l)) :
    ∃ out, toOut limits (c.reply db).result = .ok out ∧
      ("RateLimit", rateLimitHeader ((c.reply db).result.layer l)) ∈ out.headers ∧
      (out.limit = some ((c.reply db).result.layer l).limit ∧
        out.remaining = some ((c.reply db).result.layer l).remaining ∧
        out.reset = some ((c.reply db).result.layer l).reset) ∧
      ("RateLimit-Policy", policyText (limits.items c.now)) ∈ out.headers ∧
      ((∃ text, ("Retry-After", text) ∈ out.headers) ↔ c.admits db = false) := by
  rw [toOut, hselected, Call.result_month, policyHeader_eq hlimits, Call.result_allowed]
  refine ⟨_, rfl, ?_, ⟨rfl, rfl, rfl⟩, ?_, ?_⟩
  · cases c.admits db <;> simp
  · cases c.admits db <;> simp
  · cases c.admits db <;> simp

theorem Call.Fits.share_nonneg (h : c.Fits limits db) (hlimits : limits.WithinBounds)
    (hc : c.MarshalledFor limits) (l : Layer) : 0 ≤ (c.reply db).result.share l := by
  have hpos := quotas_pos hlimits l
  rw [ScriptResult.share, Call.reply_limit hc]
  exact div_nonneg (by exact_mod_cast h.nonneg l) (by exact_mod_cast hpos.le)

/-- The limits of burst and sustained are small enough for their doubles to tell their shares apart. -/
theorem Call.Fits.round_share_lt (h : c.Fits limits db) (hlimits : limits.WithinBounds)
    (hc : c.MarshalledFor limits) (l other : Layer) (hl : l ≠ .quota) (hother : other ≠ .quota)
    (hlt : (c.reply db).result.share l < (c.reply db).result.share other) :
    Double.round ((c.reply db).result.share l) < Double.round ((c.reply db).result.share other) := by
  have hsmall (l : Layer) (hl : l ≠ .quota) : limits.quotas l ≤ 1000000 := by
    cases l with
    | burst => exact hlimits.burstCapacity.2
    | sustained => exact hlimits.sustainedLimit.2
    | quota => exact absurd rfl hl
  have hproduct : limits.quotas l * limits.quotas other < 2 ^ 52 :=
    calc limits.quotas l * limits.quotas other ≤ 1000000 * 1000000 :=
          mul_le_mul (hsmall l hl) (hsmall other hother) (quotas_pos hlimits other).le (by decide)
      _ < 2 ^ 52 := by norm_num
  unfold ScriptResult.share at hlt ⊢
  rw [Call.reply_limit hc, Call.reply_limit hc] at hlt ⊢
  exact Double.round_lt_round (h.nonneg l) (quotas_pos hlimits l) (h.nonneg other)
    (quotas_pos hlimits other) (h.remaining l) (h.remaining other) hproduct hlt

/-- In a collision the response speaks for no layer: the one it shows has more left than the quota. -/
theorem Picked.not_speaksFor {l : Layer} {out : CheckOut}
    (hpicked : Picked (c.reply db).result.share (limits.windows c.now) l)
    (hlimits : limits.WithinBounds) (hadmits : c.admits db = true)
    (hfields : out.limit = some ((c.reply db).result.layer l).limit ∧
      out.remaining = some ((c.reply db).result.layer l).remaining ∧
      out.reset = some ((c.reply db).result.layer l).reset)
    (hcollides : Collides (c.reply db).result.share) :
    ¬ ∃ items l, SpeaksFor limits (c.verdict db) items (c.reply db).result out l := by
  rintro ⟨items, l', hspeaks⟩
  have hl := hpicked.ne_quota (fun l => windows_lt_quota hlimits) hcollides
  have hsame : (c.reply db).result.share l' = (c.reply db).result.share l := by
    have hlimit := hspeaks.fields.1
    have hremaining := hspeaks.fields.2.1
    rw [hfields.1, Option.some.injEq] at hlimit
    rw [hfields.2.1, Option.some.injEq] at hremaining
    rw [ScriptResult.share, ScriptResult.share, hlimit, hremaining]
  have hle := (hspeaks.tightest hadmits .quota).1
  rw [hsame] at hle
  exact absurd hle (not_le.mpr (hcollides.1 l hl))

theorem Call.share_eq (hc : c.MarshalledFor limits) (hadmits : c.admits db = true) :
    c.share limits db = (c.reply db).result.share := by
  funext l
  rw [Call.share, ScriptResult.share, Call.reply_remaining hadmits, Call.reply_limit hc]

/-- **The headers of a check.** The key has had the same limits within the schema bounds all along, and
the clock has not gone back. Then decoding and rendering do not raise, and the headers speak for one of
the three policies as they should, exactly if the check is denied or the shares it leaves do not
collide. -/
theorem headers_consistent_iff {past : List CheckStep} (hlimits : limits.WithinBounds)
    (hpast : Run Call.exec Losing Keyspace.empty past db)
    (hcalls : ∀ step ∈ past, step.event.key = limits.keyId → step.event.MarshalledFor limits)
    (htimes : ∀ step ∈ past, step.us ≤ c.now.us) (hlink : Losing c db found)
    (hc : c.MarshalledFor limits) :
    ∃ r result out, (c.exec found).1 = .ok r ∧ decode (some r.raw) = .ok result ∧
      toOut limits result = .ok out ∧
      ((∃ items l, SpeaksFor limits (c.verdict found) items result out l) ↔
        ¬ (c.admits found = true ∧ Collides (c.share limits found))) := by
  have hsame := sameLimits_of_run hlimits hpast hcalls htimes hlink hc
  have hfits := Call.fits hlimits hc hsame
  have hexec : (c.exec found).1 = .ok (c.reply found) := by
    rw [Call.exec_eq hsame.typed]
  have hlimit := Call.reply_limit hc found
  have hitems : policies limits (c.reply found).result.month =
      .ok (Layer.all.map (limits.items c.now)) := by
    rw [Call.result_month, policies_eq hlimits]
    rfl
  by_cases hadmits : c.admits found = true
  · obtain ⟨l, hpicked, hselected⟩ := selectedPolicy_admitted hlimits hc hadmits
    obtain ⟨out, hout, hheader, hfields, hpolicy, hretry⟩ := toOut_selected hlimits hselected
    refine ⟨_, _, out, hexec, decode_raw _, hout, ?_⟩
    have hiff := hpicked.tightest_iff (hfits.share_nonneg hlimits hc)
      (hfits.round_share_lt hlimits hc) fun l => windows_lt_quota hlimits
    rw [Call.share_eq hc hadmits]
    constructor
    · exact fun hspeaks hcollides =>
        hpicked.not_speaksFor hlimits hadmits hfields hcollides.2 hspeaks
    · intro hnot
      refine ⟨limits.items c.now, l, hitems, hheader, hfields, hpolicy, hlimit l, hfits.remaining l,
        hfits.reset l, fun hdenied => ?_, fun _ => hiff.mpr fun h => hnot ⟨hadmits, h⟩, hretry⟩
      exact absurd hadmits (by rw [Call.admits, hdenied]; decide)
  · obtain ⟨l, hfirst, hselected⟩ := selectedPolicy_denied hlimits hadmits
    obtain ⟨out, hout, hheader, hfields, hpolicy, hretry⟩ := toOut_selected hlimits hselected
    refine ⟨_, _, out, hexec, decode_raw _, hout, iff_of_true ?_ fun h => hadmits h.1⟩
    exact ⟨limits.items c.now, l, hitems, hheader, hfields, hpolicy, hlimit l, hfits.remaining l,
      hfits.reset l, fun _ => hfirst, fun hallowed => absurd hallowed hadmits, hretry⟩

/-- Two checks of the sample are admitted, and half of the burst is left of the second. -/
theorem headers_consistent_iff_sample :
    let first : CheckStep := Step.of Call.exec (sampleCall 0 1 "a") Keyspace.empty
    let second : Call := sampleCall 5 1 "b"
    ∃ r result out, (second.exec first.after).1 = .ok r ∧ decode (some r.raw) = .ok result ∧
      toOut samplePlan result = .ok out ∧
      ∃ items l, SpeaksFor samplePlan (second.verdict first.after) items result out l := by
  intro first second
  have hpast : Run Call.exec Losing Keyspace.empty [first] first.after :=
    .cons (fun _ => .inl rfl) (.nil _)
  obtain ⟨r, result, out, hexec, hdecode, hout, hiff⟩ := headers_consistent_iff
    samplePlan_withinBounds hpast (fun step hmem _ => by
      rw [List.mem_singleton.mp hmem]
      exact ⟨rfl, rfl, by decide⟩) (fun step hmem => by
      rw [List.mem_singleton.mp hmem]
      decide) (c := second) (fun _ => .inl rfl) ⟨rfl, rfl, by decide⟩
  refine ⟨r, result, out, hexec, hdecode, hout, hiff.mpr ?_⟩
  rintro ⟨-, hless, -⟩
  exact absurd (hless .burst (by decide)) (by decide +kernel)

/-! ### A collision -/

/-- The quota is large, and a whole number of requests, ten thousand and one, is a little more of it than
one request is of the burst. -/
def crowdedPlan : ResolvedKey :=
  { samplePlan with
    burstCapacity := 999993
    burstRefillPerSec := 100000
    sustainedLimit := 1000000
    sustainedWindowSeconds := 60
    monthlyQuota := 10000929992 }

def otherResource : Resource :=
  ⟨"csv", by decide, by decide, List.all_eq_true.mp (by decide)⟩

def crowdedCall (resource : Resource) (cost : Int) (requestId : String) : Call :=
  ⟨sampleKey, resource, sampleTime 0, scriptArgv crowdedPlan cost requestId⟩

theorem crowdedPlan_withinBounds : crowdedPlan.WithinBounds := by
  constructor <;> decide

theorem RefilledNear.ge_min {capUtok perSec nowUs tokens ts : Int} {out : Int × Int}
    (h : RefilledNear capUtok perSec nowUs tokens ts out) (hperSec : 0 < perSec) :
    min tokens capUtok ≤ out.1 := by
  cases h with
  | still => exact min_le_left _ _
  | full => exact min_le_right _ _
  | credited advance hpos =>
      have hcredit := creditedUtok_pos hperSec hpos
      have := min_le_left tokens capUtok
      dsimp only
      omega

/-- After so many checks of a thousand, all of one resource. -/
structure Drained (n : Nat) (db : Keyspace) : Prop where
  typed : db.Typed
  level : ∀ t ts, db.bucket (crowdedCall sampleResource 1000 "").bkey = some (t, ts) →
    (999993 - 1000 * n) * utok ≤ t
  card : (db.window (crowdedCall sampleResource 1000 "").skey).card ≤ n
  used : db.counter (quotaName sampleKey (sampleTime 0).monthStr) = 1000 * n
  bucket : db (crowdedCall otherResource 1 "").bkey = none
  window : db (crowdedCall otherResource 1 "").skey = none

theorem Drained.empty : Drained 0 Keyspace.empty where
  typed := Keyspace.typed_empty
  level := fun _ _ => nofun
  card := le_rfl
  used := rfl
  bucket := rfl
  window := rfl

theorem Drained.refilled {n : Nat} (h : Drained n db) (requestId : String) :
    (999993 - 1000 * n) * utok ≤ ((crowdedCall sampleResource 1000 requestId).refilled db).1 := by
  have hcap : (999993 - 1000 * (n : Int)) * utok ≤ crowdedPlan.burstCapacity * utok :=
    mul_le_mul_of_nonneg_right (show 999993 - 1000 * (n : Int) ≤ 999993 by omega) utok_pos.le
  unfold Call.refilled
  cases hbucket : db.bucket (crowdedCall sampleResource 1000 requestId).bkey with
  | none => exact hcap
  | some stored =>
      obtain ⟨t, ts⟩ := stored
      have hbounds := crowdedPlan_withinBounds.burstBounds
      have hrefilled := refilledNear_refill hbounds (sampleTime 0).us t ts
      exact le_trans (le_min (h.level t ts hbucket) hcap) (hrefilled.ge_min hbounds.perSec.1)

theorem Drained.admits {n : Nat} (h : Drained n db) (hn : n < 10) (requestId : String) :
    (crowdedCall sampleResource 1000 requestId).admits db = true := by
  have hlevel := h.refilled requestId
  have hcard : ((crowdedCall sampleResource 1000 requestId).live db).card ≤ n :=
    (SortedSet.card_removeBelow_le _ _).trans h.card
  have hused : (crowdedCall sampleResource 1000 requestId).used db = 1000 * n := by
    rw [← h.used, Call.used, Call.qkey_eq_quotaName]
    rfl
  rw [Call.admits_iff, hused]
  refine ⟨le_trans ?_ hlevel, ?_, ?_⟩
  · exact mul_le_mul_of_nonneg_right (show (1000 : Int) ≤ 999993 - 1000 * n by omega) utok_pos.le
  · show _ ≤ (1000000 : Int)
    omega
  · show 1000 * (n : Int) + 1000 ≤ 10000929992
    omega

theorem Drained.check {n : Nat} (h : Drained n db) (hn : n < 10) (requestId : String) :
    Drained (n + 1) ((crowdedCall sampleResource 1000 requestId).after db) := by
  have hadmits := h.admits hn requestId
  have hother : otherResource.val ≠ sampleResource.val := by decide
  refine ⟨Call.typed_after h.typed, fun t ts hbucket => ?_, ?_, ?_, ?_, ?_⟩
  · have hlevel := h.refilled requestId
    have hafter := Call.bucket_after_admitted hadmits
    split at hafter
    · cases hbucket.symm.trans hafter
    · cases hbucket.symm.trans hafter
      show _ ≤ _ - 1000 * utok
      simp only [utok] at hlevel ⊢
      omega
  · have hcard : ((crowdedCall sampleResource 1000 requestId).live db).card ≤ n :=
      (SortedSet.card_removeBelow_le _ _).trans h.card
    have hafter := Call.window_after_admitted hadmits
    refine (congrArg SortedSet.card hafter).trans_le ?_
    split
    · rw [SortedSet.card_empty]
      omega
    · exact (SortedSet.card_insert_le _ _ _).trans (by omega)
  · rw [Call.counter_after_quotaName, h.used, if_pos ⟨hadmits, rfl, rfl⟩]
    show 1000 * (n : Int) + 1000 = _
    push_cast
    ring
  · exact (Call.after_name (f := .bucket) fun hown => hother hown.2).trans h.bucket
  · exact (Call.after_name (f := .window) fun hown => hother hown.2).trans h.window

theorem Drained.run {n : Nat} (h : Drained n db) (requestIds : List String)
    (hn : n + requestIds.length ≤ 10) :
    Drained (n + requestIds.length) (Run.final Call.exec db
      (requestIds.map fun requestId => crowdedCall sampleResource 1000 requestId)) := by
  induction requestIds generalizing n db with
  | nil => exact h
  | cons requestId rest ih =>
      rw [List.length_cons] at hn ⊢
      rw [List.map_cons, Run.final, Call.exec_after _ h.typed, ← Nat.add_assoc, Nat.add_right_comm]
      exact ih (h.check (by omega) requestId) (by omega)

def crowdedCalls : List Call :=
  ["a", "b", "c", "d", "e", "f", "g", "h", "i", "j"].map fun requestId =>
    crowdedCall sampleResource 1000 requestId

/-- What the last check finds. -/
theorem Drained.last_finds (h : Drained 10 db) :
    ((crowdedCall otherResource 1 "k").refilled db).1 = 999993 * utok ∧
      ((crowdedCall otherResource 1 "k").live db).card = 0 ∧
      (crowdedCall otherResource 1 "k").used db = 10000 := by
  have hbucket : db.bucket (crowdedCall otherResource 1 "k").bkey = none :=
    Keyspace.bucket_of_none h.bucket
  have hwindow : db.window (crowdedCall otherResource 1 "k").skey = ∅ :=
    Keyspace.window_of_none h.window
  refine ⟨?_, ?_, ?_⟩
  · rw [Call.refilled, hbucket]
    rfl
  · rw [Call.live, hwindow]
    rfl
  · rw [Call.used, Call.qkey_eq_quotaName]
    exact h.used

/-- Ten checks of a thousand on one resource, one of a single request on another: burst has 999992 of
999993 left, the quota 10000919991 of 10000929992, which is less, and the doubles are equal. -/
theorem quota_passed_over :
    let past := Run.trace Call.exec Keyspace.empty crowdedCalls
    let found := Run.final Call.exec Keyspace.empty crowdedCalls
    let last := crowdedCall otherResource 1 "k"
    Run Call.exec Losing Keyspace.empty past found ∧ crowdedPlan.WithinBounds ∧
      (∀ c ∈ crowdedCalls, c.MarshalledFor crowdedPlan ∧ c.now.us = 0) ∧
      last.MarshalledFor crowdedPlan ∧ last.now.us = 0 ∧ last.admits found = true ∧
      last.share crowdedPlan found .burst = 999992 / 999993 ∧
      last.share crowdedPlan found .quota = 10000919991 / 10000929992 ∧
      ∃ r result out, (last.exec found).1 = .ok r ∧ decode (some r.raw) = .ok result ∧
        toOut crowdedPlan result = .ok out ∧
        ¬ ∃ items l, SpeaksFor crowdedPlan (last.verdict found) items result out l := by
  intro past found last
  have hrun : Run Call.exec Losing Keyspace.empty past found :=
    (Run.of_events _ _ _).mono fun _ _ _ hsame name => .inl (congrFun hsame name)
  have hdrained : Drained 10 found :=
    Drained.empty.run ["a", "b", "c", "d", "e", "f", "g", "h", "i", "j"] (by decide)
  obtain ⟨hlevel, hcard, hused⟩ := hdrained.last_finds
  have htime : (sampleTime 0).us = 0 := by decide
  have hlast : last.MarshalledFor crowdedPlan := ⟨rfl, rfl, by decide⟩
  have hburst : last.share crowdedPlan found .burst = 999992 / 999993 := by
    rw [Call.share, Call.remainingAfter, hlevel, hcard, hused]
    decide +kernel
  have hsustained : last.share crowdedPlan found .sustained = 999999 / 1000000 := by
    rw [Call.share, Call.remainingAfter, hlevel, hcard, hused]
    decide +kernel
  have hquota : last.share crowdedPlan found .quota = 10000919991 / 10000929992 := by
    rw [Call.share, Call.remainingAfter, hlevel, hcard, hused]
    decide +kernel
  have hadmits : last.admits found = true := by
    rw [Call.admits_iff, hlevel, hcard, hused]
    decide
  have hcollides : Collides (last.share crowdedPlan found) := by
    refine ⟨fun l hl => ?_, .burst, by decide, ?_⟩
    · cases l with
      | burst =>
          rw [hburst, hquota]
          norm_num
      | sustained =>
          rw [hsustained, hquota]
          norm_num
      | quota => exact absurd rfl hl
    · rw [hburst, hquota]
      decide +kernel
  rw [Call.share_eq hlast hadmits] at hcollides
  obtain ⟨l, hpicked, hselected⟩ := selectedPolicy_admitted crowdedPlan_withinBounds hlast hadmits
  obtain ⟨out, hout, -, hfields, -⟩ := toOut_selected crowdedPlan_withinBounds hselected
  refine ⟨hrun, crowdedPlan_withinBounds, fun c hc => ?_, hlast, htime, hadmits, hburst, hquota, _, _, out,
    ?_, decode_raw _, hout, hpicked.not_speaksFor crowdedPlan_withinBounds hadmits hfields hcollides⟩
  · obtain ⟨requestId, -, rfl⟩ := List.mem_map.mp hc
    exact ⟨⟨rfl, rfl, show (0 : Int) ≤ 1000 by decide⟩, htime⟩
  · rw [Call.exec_eq hdrained.typed]

end QuotaGuard
