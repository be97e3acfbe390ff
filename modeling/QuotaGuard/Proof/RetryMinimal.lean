import QuotaGuard.Proof.Expiry
import QuotaGuard.Proof.Months
import QuotaGuard.Proof.RetryAfter

/-!
# Not a second too long

The layer whose wait is the longest still denies a second before the reported wait is over: the level
has not reached the cost, the oldest member is in the window, the month has not ended. Until then the
key admits nothing, so what Redis keeps of it only ages, and what Redis removes had nothing left to
say. The exception is a level that is a microtoken short when the check is denied, and would reach the
cost in a whole number of seconds: the wait is a second longer for the microtoken, and the microtoken
may be there a second earlier.
-/

namespace QuotaGuard

open CheckStep

variable {plan : KeyId → ResolvedKey} {c c' : Call} {base db db' found : Keyspace} {now later : Time}

/-! ### A key that admits nothing -/

/-- Since `base` the key of the check has admitted nothing: its bucket and its counter are there or
have lapsed, and its window has lost no member that is still in it. -/
structure Idle (c : Call) (base : Keyspace) (now : Time) (db : Keyspace) : Prop where
  bucket : base.KeptOrLapsed db c.bkey now
  counter : base.KeptOrLapsed db c.qkey now
  window : ∀ p ∈ (base.window c.skey).entries, now.us ≤ p.2 + c.argv.windowUs →
    p ∈ (db.window c.skey).entries

namespace Idle

theorem refl (c : Call) (base : Keyspace) (now : Time) : Idle c base now base :=
  ⟨.inl rfl, .inl rfl, fun _ hp _ => hp⟩

theorem mono (h : Idle c base now db) (hle : now.us ≤ later.us) : Idle c base later db where
  bucket := h.bucket.trans hle (.inl rfl)
  counter := h.counter.trans hle (.inl rfl)
  window := fun p hp hlive => h.window p hp (hle.trans hlive)

/-- A window that lapses has no member left in it. -/
theorem link (h : Idle c base c'.now db) (hlink : Expiring c' db found)
    (hdated : WindowDated (plan c.key) c'.now c.skey db) (hc : c.MarshalledFor (plan c.key)) :
    Idle c base c'.now found where
  bucket := h.bucket.trans le_rfl (hlink _)
  counter := h.counter.trans le_rfl (hlink _)
  window := by
    intro p hp hlive
    have hkept := h.window p hp hlive
    rcases hlink c.skey with hsame | ⟨⟨entry, deadline, hentry, hdeadline, hlapsed⟩, -⟩
    · rwa [Keyspace.window_congr hsame]
    · obtain ⟨deadline', hdeadline', hbound⟩ := hdated entry hentry
      rw [hdeadline, Option.some.injEq] at hdeadline'
      subst hdeadline'
      have hold := (hbound p hkept).2
      have hms := c'.now.ms_mul_le
      rw [hc.window_eq] at hlive
      omega

theorem check (h : Idle c base c'.now db) (hwindow : c'.key = c.key → c'.argv.windowUs = c.argv.windowUs)
    (hdenied : c'.key = c.key → ¬ c'.admits db = true) : Idle c base c'.now (c'.after db) := by
  have hframe {f : Family} {rest : String} (hf : f ≠ .window) :
      c'.after db (f.name c.key rest) = db (f.name c.key rest) := by
    by_cases hkey : c.key = c'.key
    · rw [Call.after_denied (hdenied hkey.symm), Call.trimmed_of_ne]
      rw [Call.skey_eq, Ne, Family.name_eq_name]
      exact fun hsame => hf hsame.1
    · exact Call.after_name fun hown => hkey hown.1
  refine ⟨h.bucket.congr rfl (hframe (f := .bucket) (by decide)), h.counter.congr rfl ?_, fun p hp hlive => ?_⟩
  · rw [Call.qkey_eq]
    exact hframe (by decide)
  · have hkept := h.window p hp hlive
    by_cases hown : c.key = c'.key ∧ c.resource.val = c'.rest .window
    · have hname : c.skey = c'.skey := by
        rw [Call.skey_eq, Call.skey_eq, hown.1, hown.2]
        rfl
      rw [hname] at hkept ⊢
      rw [Call.window_after_denied (hdenied hown.1.symm), Call.live, SortedSet.mem_removeBelow,
        hwindow hown.1.symm]
      exact ⟨hkept, by omega⟩
    · rwa [Call.skey_eq, Keyspace.window_congr (Call.after_name hown), ← Call.skey_eq]

end Idle

/-- What the key keeps while it admits nothing, checks of any key going on. -/
theorem idle_of_run {between : List CheckStep} (hplan : ∀ key, (plan key).WithinBounds)
    (hc : c.MarshalledFor (plan c.key)) (htyped : base.Typed) (hdated : Dated plan c.now base)
    (hrun : Run Call.exec Expiring base between db)
    (hcalls : ∀ step ∈ between, step.event.MarshalledFor (plan step.event.key))
    (hsilent : ∀ step ∈ between, step.event.key = c.key → ¬ step.admitted = true)
    (htimes : between.Pairwise fun earlier later => earlier.us ≤ later.us)
    (hfirst : ∀ step ∈ between, c.now.us ≤ step.us) (hlast : ∀ step ∈ between, step.us ≤ later.us)
    (hle : c.now.us ≤ later.us) : db.Typed ∧ Dated plan later db ∧ Idle c base later db := by
  refine hrun.invariant_clock Call.now
    (I := fun now db => db.Typed ∧ Dated plan now db ∧ Idle c base now db)
    (p := fun step : CheckStep => step.event.MarshalledFor (plan step.event.key) ∧
      (step.event.key = c.key → ¬ step.admitted = true))
    (fun _ _ _ hle h => ⟨h.1, h.2.1.mono hle, h.2.2.mono hle⟩) ?_ ?_ ⟨htyped, hdated, Idle.refl _ _ _⟩
    htimes hfirst hlast hle fun step hmem => ⟨hcalls step hmem, hsilent step hmem⟩
  · rintro c' db found ⟨htyped, hdated, hidle⟩ hlink
    have hloss : db.Loses found := fun name => (hlink name).imp_right And.right
    exact ⟨htyped.of_loss hloss, hdated.of_loss hloss, hidle.link hlink (hdated.window _ _) hc⟩
  · rintro c' db ⟨hcall, hdenied⟩ ⟨htyped, hdated, hidle⟩
    have hc' : c'.MarshalledFor (plan c'.key) := hcall
    rw [c'.admitted_step htyped] at hdenied
    rw [c'.exec_after htyped]
    refine ⟨Call.typed_after htyped, hdated.after hplan hc' le_rfl, hidle.check (fun hkey => ?_) hdenied⟩
    rw [hc.window_eq, hc'.window_eq, hkey]

/-! ### A second earlier -/

/-- A microtoken is lost now, and without it the bucket would reach the cost at a later reading, where
none is lost. -/
structure Recovers (capUtok perSec costUtok elapsed later tokens : Int) : Prop where
  short : LosesMicrotoken capUtok perSec elapsed tokens
  exact : tokens + perSec * later = costUtok
  fits : costUtok ≤ capUtok
  whole : ¬ LosesMicrotoken capUtok perSec later tokens

section

variable {capUtok perSec costUtok elapsed later nowUs tokens ts : Int}

theorem Recovers.elapsed_pos (h : Recovers capUtok perSec costUtok (elapsedUs nowUs ts) later tokens) :
    0 < elapsedUs nowUs ts := by
  refine (elapsedUs_nonneg _ _).lt_of_ne fun hstill => ?_
  exact not_fallsShort_zero perSec (hstill ▸ h.short.1)

/-- The level now is what the time is worth, less the microtoken. -/
theorem Recovers.level_now (h : Recovers capUtok perSec costUtok (elapsedUs nowUs ts) later tokens)
    (hbounds : BurstBounds capUtok perSec) (htokens : 0 ≤ tokens) :
    (refill capUtok (perSec * utok) nowUs (some (tokens, ts))).1 =
      tokens + perSec * elapsedUs nowUs ts - 1 := by
  rw [refill_level hbounds _ _ htokens, if_pos h.short,
    refill_later hbounds.perSec.1 h.elapsed_pos htokens, min_eq_right h.short.2.2]

/-- The level at the later reading is the cost. -/
theorem Recovers.level_later (h : Recovers capUtok perSec costUtok elapsed (elapsedUs nowUs ts) tokens)
    (hbounds : BurstBounds capUtok perSec) (htokens : 0 ≤ tokens) (hpos : 0 < elapsedUs nowUs ts) :
    (refill capUtok (perSec * utok) nowUs (some (tokens, ts))).1 = costUtok := by
  rw [refill_level hbounds _ _ htokens, if_neg h.whole, refill_later hbounds.perSec.1 hpos htokens,
    h.exact, min_eq_right h.fits, sub_zero]

end

/-- Without rounding the level is what the time is worth, or the capacity. -/
theorem refill_exact_level {capUtok perSec tokens : Int} (h : BurstBounds capUtok perSec)
    (htokens : 0 ≤ tokens) (htokens' : tokens ≤ capUtok) (nowUs ts : Int) :
    (@refill .exact capUtok (perSec * utok) nowUs (some (tokens, ts))).1 =
      min capUtok (tokens + perSec * elapsedUs nowUs ts) := by
  rcases (elapsedUs_nonneg nowUs ts).eq_or_lt with hstill | hpos
  · rw [refill_still h.perSec.1 h.cap.1 hstill.symm, ← hstill, mul_zero, add_zero]
    exact (min_eq_right htokens').symm
  · rw [refill_later h.perSec.1 hpos htokens]

theorem elapsedUs_within {nowUs laterUs ts : Int} (hnow : nowUs ≤ laterUs) :
    elapsedUs laterUs ts ≤ elapsedUs nowUs ts + (laterUs - nowUs) := by
  unfold elapsedUs
  split <;> split <;> omega

/-- A bucket that is short of the cost reaches it in the last second of its wait, or recovers right
before that. -/
theorem late_or_recovers {capUtok perSec costUtok nowUs laterUs tokens ts : Int}
    (h : BurstBounds capUtok perSec) (htokens : 0 ≤ tokens) (htokens' : tokens ≤ capUtok)
    (hnow : nowUs ≤ laterUs)
    (hshort : (refill capUtok (perSec * utok) nowUs (some (tokens, ts))).1 < costUtok)
    (hpass : costUtok ≤ (refill capUtok (perSec * utok) laterUs (some (tokens, ts))).1) {wait : Int}
    (hwait : (wait - 1) * (perSec * utok) <
      costUtok - (refill capUtok (perSec * utok) nowUs (some (tokens, ts))).1) :
    nowUs + (wait - 1) * utok < laterUs ∨
      laterUs = nowUs + (wait - 1) * utok ∧
        Recovers capUtok perSec costUtok (elapsedUs nowUs ts) (elapsedUs laterUs ts) tokens := by
  have hperSec := h.perSec.1
  have hgain : perSec * elapsedUs laterUs ts ≤
      perSec * elapsedUs nowUs ts + perSec * (laterUs - nowUs) := by
    rw [← mul_add]
    exact mul_le_mul_of_nonneg_left (elapsedUs_within hnow) hperSec.le
  have hscale : (wait - 1) * (perSec * utok) = perSec * ((wait - 1) * utok) := by ring
  rw [refill_level h nowUs ts htokens, refill_exact_level h htokens htokens'] at hwait hshort
  rw [refill_level h laterUs ts htokens, refill_exact_level h htokens htokens'] at hpass
  rw [hscale] at hwait
  by_cases hloses : LosesMicrotoken capUtok perSec (elapsedUs nowUs ts) tokens
  · rw [if_pos hloses] at hwait hshort
    have hroom := hloses.2.2
    rw [min_eq_right hroom] at hwait hshort
    rcases (show laterUs - nowUs ≥ (wait - 1) * utok by
        refine le_of_mul_le_mul_left ?_ hperSec
        omega).eq_or_lt with hlast | hlate
    · right
      have hsame : perSec * (laterUs - nowUs) = perSec * ((wait - 1) * utok) := by rw [hlast]
      by_cases hagain : LosesMicrotoken capUtok perSec (elapsedUs laterUs ts) tokens
      · rw [if_pos hagain] at hpass
        omega
      · rw [if_neg hagain] at hpass
        exact ⟨by omega, hloses, by omega, by omega, hagain⟩
    · left
      omega
  · left
    rw [if_neg hloses] at hwait hshort
    have hlate : (wait - 1) * utok < laterUs - nowUs := by
      refine lt_of_mul_lt_mul_left ?_ hperSec.le
      omega
    omega

/-- Within the wait of the sustained layer no member leaves the window. -/
theorem window_denies (hrepeats : c.Repeats c') (hfull : ¬ ((c.live db).card : Int) + 1 ≤ c.argv.sustainedLimit)
    (hkept : ∀ p ∈ (c.live db).entries, c'.now.us ≤ p.2 + c.argv.windowUs →
      p ∈ (found.window c.skey).entries)
    (hwait : 1 ≤ c.windowWait db) (hsoon : c'.now.us ≤ c.now.us + (c.windowWait db - 1) * utok) :
    ¬ ((c'.live found).card : Int) + 1 ≤ c'.argv.sustainedLimit := by
  have hold : ∀ p ∈ (c.live db).entries, c'.now.us ≤ p.2 + c.argv.windowUs := by
    intro p hp
    unfold Call.windowWait at hsoon hwait
    split at hsoon
    · rename_i oldest holdest
      rw [holdest] at hwait
      have hfirst := SortedSet.minScore_le holdest hp
      have hceil : ⌈((oldest + c.argv.windowUs - c.now.us : Int) : ℚ) / utok⌉ - 1 <
          ⌈((oldest + c.argv.windowUs - c.now.us : Int) : ℚ) / utok⌉ := sub_one_lt _
      rw [Rounding.lt_ceil_div_iff utok_pos] at hceil
      simp only at hwait
      rw [max_eq_right (by omega)] at hsoon
      omega
    · rename_i hnone
      rw [SortedSet.minScore_eq_none.mp hnone] at hp
      exact absurd hp (Finset.notMem_empty p)
  have hsub : (c.live db).entries ⊆ (c'.live found).entries := by
    intro p hp
    have hlive := hold p hp
    rw [Call.live, SortedSet.mem_removeBelow, hrepeats.skey_eq, hrepeats.window_eq]
    exact ⟨hkept p hp hlive, by omega⟩
  have hcard := SortedSet.card_le_card hsub
  rw [hrepeats.sustained_eq]
  omega

/-- Within the wait of the quota layer the month goes on. -/
theorem month_goes_on (hnow : c.now.us ≤ c'.now.us)
    (hsoon : c'.now.us ≤ c.now.us + (c.monthWait - 1) * utok) : c'.now.monthStr = c.now.monthStr := by
  have husec := c.now.usec_lt
  have husec' := c'.now.usec_lt
  simp only [Time.us, utok, Call.monthWait] at hnow hsoon
  exact Time.monthStr_until (by omega) (by omega)

/-! ### Coming back too early -/

theorem Call.Repeats.marshalledFor {limits : ResolvedKey} (h : c.Repeats c')
    (hc : c.MarshalledFor limits) : c'.MarshalledFor limits where
  key_eq := h.key_eq.trans hc.key_eq
  argv_eq := by
    rw [h.argv_eq, hc.argv_eq]
    rfl
  cost_nonneg := by
    rw [h.cost_eq]
    exact hc.cost_nonneg

/-- The bucket does not let the repeated check pass a second or more before its own wait is over, unless
it recovers a microtoken. -/
theorem burst_late (hplan : (plan c.key).WithinBounds) (hc : c.MarshalledFor (plan c.key))
    (hstored : Stored c.key (plan c.key).ceilings db)
    (hdated : Dated plan c.now (c.after db)) (hdenied : ¬ c.admits db = true)
    (hidle : Idle c (c.after db) c'.now found) (hrepeats : c.Repeats c') (hnow : c.now.us ≤ c'.now.us)
    (hshort : (c.refilled db).1 < c.argv.cost * utok)
    (hpass : c'.argv.cost * utok ≤ (c'.refilled found).1) :
    c.now.us + (c.burstWait db - 1) * utok < c'.now.us ∨
      c'.now.us = c.now.us + (c.burstWait db - 1) * utok ∧
        ∃ tokens ts, db.bucket c.bkey = some (tokens, ts) ∧
          Recovers c.argv.capUtok (plan c.key).burstRefillPerSec (c.argv.cost * utok)
            (elapsedUs c.now.us ts) (elapsedUs c'.now.us ts) tokens := by
  have hbucket : BucketDated (plan c.key) c'.now c'.bkey (c.after db) := by
    rw [hrepeats.bkey_eq]
    exact (hdated.mono hnow).bucket c.key c.resource.val
  have hsame := hbucket.refilled_lost hplan (hrepeats.marshalledFor hc)
    (hrepeats.bkey_eq ▸ hidle.bucket)
  rw [hsame, Call.refilled, hrepeats.bkey_eq, Call.bucket_after_denied hdenied, hrepeats.cap_eq,
    hrepeats.rate_eq, hrepeats.cost_eq, hc.rate_eq] at hpass
  have hrate : 0 < c.argv.rateUtok := by
    rw [hc.rate_eq]
    exact hplan.rate_pos
  have hceil : (c.burstWait db - 1) * c.argv.rateUtok < c.argv.cost * utok - (c.refilled db).1 := by
    rw [← Rounding.lt_ceil_div_iff hrate, ← Call.burstWait]
    exact sub_one_lt _
  rw [hc.rate_eq, Call.refilled, hc.rate_eq] at hceil
  rw [Call.refilled, hc.rate_eq] at hshort
  cases hstate : db.bucket c.bkey with
  | none =>
      rw [hstate] at hshort hpass
      have hfull : c.argv.cost * utok ≤ c.argv.capUtok := hpass
      exact absurd hfull (not_le.mpr hshort)
  | some stored =>
      obtain ⟨t, ts⟩ := stored
      rw [hstate] at hshort hpass hceil
      obtain ⟨hlow, hhigh⟩ := hstored.level _ t ts hstate
      have hcap : t ≤ c.argv.capUtok := by
        rw [hc.cap_eq]
        exact hhigh
      have hbounds : BurstBounds c.argv.capUtok (plan c.key).burstRefillPerSec := by
        rw [hc.cap_eq]
        exact hplan.burstBounds
      rcases late_or_recovers hbounds hlow hcap hnow hshort hpass hceil with hlate | ⟨hlast, hrecovers⟩
      · exact .inl hlate
      · exact .inr ⟨hlast, t, ts, rfl, hrecovers⟩

theorem window_late (hdenied : ¬ c.admits db = true) (hidle : Idle c (c.after db) c'.now found)
    (hrepeats : c.Repeats c') (hfull : ¬ ((c.live db).card : Int) + 1 ≤ c.argv.sustainedLimit)
    (hwait : 1 ≤ c.windowWait db)
    (hpass : ((c'.live found).card : Int) + 1 ≤ c'.argv.sustainedLimit) :
    c.now.us + (c.windowWait db - 1) * utok < c'.now.us := by
  by_contra hearly
  refine window_denies hrepeats hfull ?_ hwait (not_lt.mp hearly) hpass
  rw [← Call.window_after_denied hdenied]
  exact hidle.window

/-- The counter of the month is there as long as the month goes on. -/
theorem month_kept (hdated : Dated plan c.now (c.after db)) (hdenied : ¬ c.admits db = true)
    (hidle : Idle c (c.after db) c'.now found) (hrepeats : c.Repeats c')
    (hsame : c'.now.monthStr = c.now.monthStr) : c'.used found = c.used db := by
  have hquota : MonthDated c'.now.monthStr c.qkey (c.after db) := by
    rw [hsame]
    exact hdated.ofQkey c
  have hcounter : found c.qkey = db c.qkey := by
    rcases hidle.counter with hkeep | ⟨hlapsed, -⟩
    · rw [hkeep, Call.after_denied hdenied, Call.trimmed_of_ne c.skey_ne_qkey.symm]
    · exact absurd hlapsed hquota.not_lapsed
  rw [Call.used, Call.qkey_eq, hrepeats.key_eq, hsame, ← Call.qkey_eq, Keyspace.counter_congr hcounter,
    ← Call.used]

theorem month_late (hdated : Dated plan c.now (c.after db)) (hdenied : ¬ c.admits db = true)
    (hidle : Idle c (c.after db) c'.now found) (hrepeats : c.Repeats c') (hnow : c.now.us ≤ c'.now.us)
    (hover : ¬ c.used db + c.argv.cost ≤ c.argv.quotaHard)
    (hpass : c'.used found + c'.argv.cost ≤ c'.argv.quotaHard) :
    c.now.us + (c.monthWait - 1) * utok < c'.now.us := by
  by_contra hearly
  have hkept := month_kept hdated hdenied hidle hrepeats (month_goes_on hnow (not_lt.mp hearly))
  rw [hrepeats.cost_eq, hrepeats.quota_eq, hkept] at hpass
  exact hover hpass

/-- The reported wait is the wait of a layer that denied, or none. -/
theorem reply_late (hdenied : ¬ c.admits db = true) (hrate : 0 < c.argv.rateUtok)
    (hnow : c.now.us ≤ later.us)
    (hburst : (c.refilled db).1 < c.argv.cost * utok →
      c.now.us + (c.burstWait db - 1) * utok < later.us)
    (hwindow : ¬ ((c.live db).card : Int) + 1 ≤ c.argv.sustainedLimit → 1 ≤ c.windowWait db →
      c.now.us + (c.windowWait db - 1) * utok < later.us)
    (hmonth : ¬ c.used db + c.argv.cost ≤ c.argv.quotaHard →
      c.now.us + (c.monthWait - 1) * utok < later.us) :
    c.now.us + ((c.reply db).retryAfter - 1) * utok < later.us := by
  rw [← not_le, ← verdict_burstOk] at hburst
  rw [← verdict_sustainedOk] at hwindow
  rw [← verdict_quotaOk] at hmonth
  rw [c.reply_retryAfter hdenied hrate]
  generalize c.burstWait db = burstWait at *
  generalize c.windowWait db = windowWait at *
  generalize c.monthWait = monthWait at *
  have hnone : c.now.us + (0 - 1) * utok < later.us := by
    have := utok_pos
    omega
  refine max_rec' (fun wait => c.now.us + (wait - 1) * utok < later.us)
    (max_rec' (fun wait => c.now.us + (wait - 1) * utok < later.us) ?_ ?_) ?_
  · split
    · exact hnone
    · exact hburst ‹_›
  · split
    · exact hnone
    · by_cases hwait : 1 ≤ windowWait
      · exact hwindow ‹_› hwait
      · simp only [utok]
        omega
  · split
    · exact hnone
    · exact hmonth ‹_›

/-- While the key admits nothing, coming back a second or more before the reported wait is over is in
vain, whatever the checks of other keys do and whatever Redis removes in between. -/
def Call.RetryIsMinimal (plan : KeyId → ResolvedKey) (c : Call) (db : Keyspace) : Prop :=
  ∀ (between : List CheckStep) db' found c', Run Call.exec Expiring (c.after db) between db' →
    (∀ step ∈ between, step.event.MarshalledFor (plan step.event.key)) →
    (∀ step ∈ between, step.event.key = c.key → ¬ step.admitted = true) →
    between.Pairwise (fun earlier later => earlier.us ≤ later.us) →
    (∀ step ∈ between, c.now.us ≤ step.us) → (∀ step ∈ between, step.us ≤ c'.now.us) →
    Expiring c' db' found → c.Repeats c' → c.now.us ≤ c'.now.us →
    c'.now.us ≤ c.now.us + ((c.reply db).retryAfter - 1) * utok →
    ¬ CheckStep.admitted (Step.of Call.exec c' found) = true

/-- A microtoken is lost now and would not be in a whole number of seconds, when the bucket reaches the cost
and the other layers agree. -/
def Call.WaitsForMicrotoken (c : Call) (db : Keyspace) : Prop :=
  ∃ perSec tokens ts seconds, c.argv.rateUtok = perSec * utok ∧
    db.bucket c.bkey = some (tokens, ts) ∧ 1 ≤ seconds ∧
    Recovers c.argv.capUtok perSec (c.argv.cost * utok) (elapsedUs c.now.us ts)
      (elapsedUs (c.now.us + seconds * utok) ts) tokens ∧
    let again : Call := { c with now := c.now.later seconds }
    ((again.live db).card : Int) + 1 ≤ c.argv.sustainedLimit ∧
      again.used db + c.argv.cost ≤ c.argv.quotaHard

/-- What a denied check leaves of the window is what a later check would have found. -/
theorem Call.live_after_denied (hdenied : ¬ c.admits db = true) (hle : c.now.us ≤ later.us) :
    ({ c with now := later } : Call).live (c.after db) = ({ c with now := later } : Call).live db := by
  show ((c.after db).window c.skey).removeBelow (later.us - c.argv.windowUs) = _
  rw [Call.window_after_denied hdenied, Call.live, SortedSet.removeBelow_removeBelow (by omega)]
  rfl

theorem Call.used_after_denied (hdenied : ¬ c.admits db = true) (later : Time) :
    ({ c with now := later } : Call).used (c.after db) = ({ c with now := later } : Call).used db := by
  rw [Call.used, Call.used, Call.qkey_eq_quotaName]
  show (c.after db).counter (quotaName c.key _) = _
  rw [Call.counter_after_quotaName, if_neg fun h => hdenied h.1, add_zero]

/-- A bucket that recovers after some seconds is told to wait for longer: a microtoken is missing, and no
second is worth less. -/
theorem Recovers.lt_burstWait {perSec tokens ts seconds : Int}
    (hrecovers : Recovers c.argv.capUtok perSec (c.argv.cost * utok) (elapsedUs c.now.us ts)
      (elapsedUs (c.now.us + seconds * utok) ts) tokens)
    (hbounds : BurstBounds c.argv.capUtok perSec) (hrate : c.argv.rateUtok = perSec * utok)
    (hbucket : db.bucket c.bkey = some (tokens, ts)) (htokens : 0 ≤ tokens) (hone : 1 ≤ seconds) :
    seconds < c.burstWait db ∧ (c.refilled db).1 < c.argv.cost * utok := by
  have hratePos : 0 < c.argv.rateUtok := by
    rw [hrate]
    exact mul_pos hbounds.perSec.1 utok_pos
  have hwait : 0 < seconds * utok := mul_pos (by omega) utok_pos
  have hpos := hrecovers.elapsed_pos
  have helapsed : elapsedUs (c.now.us + seconds * utok) ts =
      elapsedUs c.now.us ts + seconds * utok := by
    have hsplit := elapsedUs_of_pos hpos
    rw [elapsedUs_of_le (by omega)]
    omega
  have hgain : perSec * elapsedUs (c.now.us + seconds * utok) ts =
      perSec * elapsedUs c.now.us ts + seconds * c.argv.rateUtok := by
    rw [helapsed, hrate]
    ring
  have hyield : 0 < seconds * c.argv.rateUtok := mul_pos (by omega) hratePos
  have hexact := hrecovers.exact
  have hlevel : (c.refilled db).1 = tokens + perSec * elapsedUs c.now.us ts - 1 := by
    rw [Call.refilled, hbucket, hrate]
    exact hrecovers.level_now hbounds htokens
  constructor
  · rw [Call.burstWait, Rounding.lt_ceil_div_iff hratePos, hlevel]
    omega
  · omega

/-- The wait for a microtoken is a second too long: the check would be admitted right before its last
second. -/
theorem Call.WaitsForMicrotoken.not_minimal (hwaits : c.WaitsForMicrotoken db) (htyped : db.Typed)
    (hdenied : ¬ c.admits db = true) (hwhole : c.argv.WholeRate)
    (hlevels : ∀ t ts, db.bucket c.bkey = some (t, ts) → 0 ≤ t) : ¬ c.RetryIsMinimal plan db := by
  obtain ⟨perSec, t, ts, seconds, hrate, hbucket, hone, hrecovers, hroom, hleft⟩ := hwaits
  obtain ⟨perSec', hrate', hbounds⟩ := hwhole
  obtain rfl : perSec' = perSec := mul_right_cancel₀ utok_pos.ne' (hrate'.symm.trans hrate)
  have hnonneg := hlevels t ts hbucket
  have hpos := hrecovers.elapsed_pos
  obtain ⟨hlong, hshort⟩ := hrecovers.lt_burstWait hbounds hrate hbucket hnonneg hone
  have hretry : seconds < (c.reply db).retryAfter := by
    have hburst : ¬ (c.verdict db).burstOk = true := by
      rw [verdict_burstOk]
      exact not_le.mpr hshort
    refine hlong.trans_le ?_
    rw [c.reply_retryAfter hdenied (by rw [hrate]; exact mul_pos hbounds.perSec.1 utok_pos),
      if_neg hburst]
    exact le_max_of_le_left (le_max_left _ _)
  have hus := c.now.us_later (show 0 ≤ seconds by omega)
  have hwait : 0 < seconds * utok := mul_pos (by omega) utok_pos
  intro hminimal
  refine hminimal [] (c.after db) (c.after db) { c with now := c.now.later seconds } (.nil _)
    (fun _ hmem => absurd hmem List.not_mem_nil) (fun _ hmem => absurd hmem List.not_mem_nil)
    .nil (fun _ hmem => absurd hmem List.not_mem_nil) (fun _ hmem => absurd hmem List.not_mem_nil)
    (fun _ => .inl rfl) ⟨rfl, rfl, rfl⟩ ?_ ?_ ?_
  · show c.now.us ≤ (c.now.later seconds).us
    omega
  · show (c.now.later seconds).us ≤ _
    have := mul_le_mul_of_nonneg_right (show seconds ≤ (c.reply db).retryAfter - 1 by omega)
      utok_pos.le
    omega
  rw [Call.admitted_step _ (Call.typed_after htyped), Call.admits_iff,
    Call.live_after_denied hdenied (by omega), Call.used_after_denied hdenied]
  refine ⟨?_, hroom, hleft⟩
  show c.argv.cost * utok ≤ (refill c.argv.capUtok c.argv.rateUtok (c.now.later seconds).us
    ((c.after db).bucket c.bkey)).1
  rw [Call.bucket_after_denied hdenied, hbucket, hrate, hus]
  have hlater : 0 < elapsedUs (c.now.us + seconds * utok) ts := by
    have hsplit := elapsedUs_of_pos hpos
    rw [elapsedUs_of_le (by omega)]
    omega
  exact (hrecovers.level_later hbounds hnonneg hlater).ge

/-- What a denied check and its repetition read of the month is the same: the counter of this month has been
kept, and there is none of a later one. -/
theorem used_of_idle (hcounted : Counted c.key c.now.us db) (hdated : Dated plan c.now (c.after db))
    (hdenied : ¬ c.admits db = true) (hidle : Idle c (c.after db) c'.now found)
    (hwaned : Waned c.key (c.after db) found) (hrepeats : c.Repeats c') (hnow : c.now.us ≤ c'.now.us) :
    ({ c with now := c'.now } : Call).used db = c'.used found := by
  by_cases hmonth : c'.now.monthStr = c.now.monthStr
  · rw [month_kept hdated hdenied hidle hrepeats hmonth, Call.used, Call.used, Call.qkey_eq_quotaName,
      Call.qkey_eq_quotaName, ← hmonth]
  · have hsec : c.now.sec ≤ c'.now.sec := by
      have := c.now.usec_lt
      have := c'.now.usec_lt
      simp only [Time.us, utok] at hnow
      omega
    have hzero := hcounted.zero_of_later hsec hmonth
    rw [Call.used, Call.used, Call.qkey_eq_quotaName, Call.qkey_eq_quotaName, hrepeats.key_eq]
    show db.counter (quotaName c.key c'.now.monthStr) = _
    rcases hwaned.used c'.now.monthStr with hkept | hgone
    · rw [hkept, Call.counter_after_quotaName, if_neg fun h => hdenied h.1, add_zero]
    · rw [hgone, hzero]

/-- The repetition finds every member that the denied check would find by then. -/
theorem live_subset_of_idle (hdenied : ¬ c.admits db = true) (hidle : Idle c (c.after db) c'.now found)
    (hrepeats : c.Repeats c') (hnow : c.now.us ≤ c'.now.us) :
    (({ c with now := c'.now } : Call).live db).entries ⊆ (c'.live found).entries := by
  intro p hp
  rw [Call.live, SortedSet.mem_removeBelow] at hp
  rw [Call.live, SortedSet.mem_removeBelow, hrepeats.skey_eq, hrepeats.window_eq]
  have hlive : c'.now.us - c.argv.windowUs ≤ p.2 := hp.2
  refine ⟨hidle.window p ?_ (by omega), hlive⟩
  rw [Call.window_after_denied hdenied, Call.live, SortedSet.mem_removeBelow]
  exact ⟨hp.1, by omega⟩

/-- What a check that passes right before the last second says about the state it was denied in. -/
theorem waitsForMicrotoken_of_pass (hc : c.MarshalledFor (plan c.key))
    (hcounted : Counted c.key c.now.us db)
    (hdated : Dated plan c.now (c.after db)) (hdenied : ¬ c.admits db = true)
    (hidle : Idle c (c.after db) c'.now found) (hwaned : Waned c.key (c.after db) found)
    (hrepeats : c.Repeats c') (hnow : c.now.us ≤ c'.now.us)
    (hroom : ((c'.live found).card : Int) + 1 ≤ c'.argv.sustainedLimit)
    (hquota : c'.used found + c'.argv.cost ≤ c'.argv.quotaHard) {tokens ts wait : Int}
    (hbucket : db.bucket c.bkey = some (tokens, ts)) (hlast : c'.now.us = c.now.us + wait * utok)
    (hrecovers : Recovers c.argv.capUtok (plan c.key).burstRefillPerSec (c.argv.cost * utok)
      (elapsedUs c.now.us ts) (elapsedUs c'.now.us ts) tokens) : c.WaitsForMicrotoken db := by
  have hutok := utok_pos
  have hone : 1 ≤ wait := by
    by_contra hnone
    have hle := mul_le_mul_of_nonneg_right (show wait ≤ 0 by omega) hutok.le
    have hsame : c'.now.us = c.now.us := by omega
    rw [hsame] at hrecovers
    exact hrecovers.whole hrecovers.short
  have hagain : c.now.later wait = c'.now := by
    apply Time.us_inj
    rw [Time.us_later _ (by omega), hlast]
  refine ⟨(plan c.key).burstRefillPerSec, tokens, ts, wait, hc.rate_eq, hbucket, hone, ?_, ?_, ?_⟩
  · rw [← hlast]
    exact hrecovers
  · rw [hagain]
    have hcard := SortedSet.card_le_card (live_subset_of_idle hdenied hidle hrepeats hnow)
    rw [hrepeats.sustained_eq] at hroom
    omega
  · rw [hagain, used_of_idle hcounted hdated hdenied hidle hwaned hrepeats hnow]
    rw [hrepeats.cost_eq, hrepeats.quota_eq] at hquota
    exact hquota

/-- **Retry-After is never a full second too long, but for a microtoken.** Every key has had the same
limits within the schema bounds all along, and keys may have been lost. A check that is denied is
denied again whenever it is repeated a second or more before the reported wait is over, as long as its
key admits nothing in between, exactly when it does not wait for a microtoken. A wait of no second at
all leaves no such time. -/
theorem retry_after_minimal {past : List CheckStep} (hplan : ∀ key, (plan key).WithinBounds)
    (hpast : Run Call.exec Losing Keyspace.empty past db)
    (hcalls : ∀ step ∈ past, step.event.MarshalledFor (plan step.event.key))
    (htimes : past.Pairwise fun earlier later => earlier.us ≤ later.us)
    (hlast : ∀ step ∈ past, step.us ≤ c.now.us) (hlink : Losing c db found)
    (hc : c.MarshalledFor (plan c.key))
    (hdenied : ¬ CheckStep.admitted (Step.of Call.exec c found) = true) :
    c.RetryIsMinimal plan found ↔ ¬ c.WaitsForMicrotoken found := by
  have hown : ∀ step ∈ past, step.event.key = (plan c.key).keyId →
      step.event.MarshalledFor (plan c.key) := by
    intro step hmem hkey
    rw [← hc.key_eq] at hkey
    rw [← hkey]
    exact hcalls step hmem
  obtain ⟨htyped, hstored, -, hcounted⟩ :=
    sameLimits_of_run (hplan c.key) hpast hown hlast hlink hc
  have hwhole := hc.wholeRate (hplan c.key)
  have hrate : 0 < c.argv.rateUtok := by
    rw [hc.rate_eq]
    exact (hplan c.key).rate_pos
  have hstart (t : Time) : Time.epoch.us ≤ t.us := t.us_nonneg
  have hdated : Dated plan c.now found := ((dated_of_run hplan (fun _ _ _ hloss => hloss) hpast hcalls
    htimes (fun _ _ => hstart _) Keyspace.typed_empty (Dated.empty plan Time.epoch) (hstart _)
    hlast).2).of_loss hlink
  rw [c.admitted_step htyped] at hdenied
  constructor
  · intro hminimal hwaits
    exact hwaits.not_minimal htyped hdenied hwhole (fun t ts hbucket => (hstored.level _ t ts hbucket).1)
      hminimal
  intro hnot between db' found' c' hbetween hcalls' hsilent htimes' hfirst' hlast' hlink' hrepeats
    hnow hsoon
  have hafter : Dated plan c.now (c.after found) := hdated.after hplan hc le_rfl
  obtain ⟨htyped', hdated', hkept⟩ := idle_of_run hplan hc (Call.typed_after htyped) hafter hbetween
    hcalls' hsilent htimes' hfirst' hlast' hnow
  have hidle := hkept.link hlink' (hdated'.window c.key c.resource.val) hc
  have hlosing {c₀ : Call} {db₀ found₀ : Keyspace} (h : Expiring c₀ db₀ found₀) :
      Losing c₀ db₀ found₀ := fun name => (h name).imp_right And.right
  have hwaned : Waned c.key (c.after found) found' :=
    (Waned.of_run (hbetween.mono fun _ _ _ => hlosing) (Call.typed_after htyped) hsilent).trans
      (Waned.of_losing (hlosing hlink'))
  rw [c'.admitted_step (htyped'.of_loss (hlosing hlink')), Call.admits_iff]
  rintro ⟨hburst, hroom, hquota⟩
  refine absurd hsoon (not_le.mpr (reply_late hdenied hrate hnow (fun hshort => ?_) ?_ ?_))
  · rcases burst_late (hplan c.key) hc hstored hafter hdenied hidle hrepeats hnow hshort hburst with
      hlate | ⟨hexact, tokens, ts, hbucket, hrecovers⟩
    · exact hlate
    · exact absurd (waitsForMicrotoken_of_pass hc hcounted hafter hdenied hidle hwaned
        hrepeats hnow hroom hquota hbucket hexact hrecovers) hnot
  · exact fun hfull hwait => window_late hdenied hidle hrepeats hfull hwait hroom
  · exact fun hover => month_late hafter hdenied hidle hrepeats hnow hover hquota

/-- The burst is spent and comes back at one a second: told at second 1 to come back in a second, the
caller is denied again at second 1, whatever another request of second 1 is told. -/
theorem retry_after_minimal_sample :
    let first : CheckStep := Step.of Call.exec (sampleCall 0 2 "a") Keyspace.empty
    let denied : Call := sampleCall 1 2 "b"
    denied.RetryIsMinimal (fun _ => samplePlan) first.after ∧
      (denied.reply first.after).retryAfter = 1 := by
  intro first denied
  have hpast : Run Call.exec Losing Keyspace.empty [first] first.after :=
    .cons (fun _ => .inl rfl) (.nil _)
  refine ⟨(retry_after_minimal (fun _ => samplePlan_withinBounds) hpast ?_
    (List.pairwise_singleton _ _) ?_ (fun _ => .inl rfl) ⟨rfl, rfl, by decide⟩
    (by decide +kernel)).mpr ?_, by decide +kernel⟩
  · intro step hmem
    rw [List.mem_singleton.mp hmem]
    exact ⟨rfl, rfl, by decide⟩
  · intro step hmem
    rw [List.mem_singleton.mp hmem]
    decide
  · rintro ⟨perSec, tokens, ts, seconds, hrate, hbucket, -, hrecovers, -⟩
    have hstored : first.after.bucket denied.bkey = some (0, 0) := by decide +kernel
    rw [hstored, Option.some.injEq, Prod.mk.injEq] at hbucket
    obtain ⟨rfl, rfl⟩ := hbucket
    obtain rfl : 1 = perSec := mul_right_cancel₀ utok_pos.ne' (Eq.trans (by decide) hrate)
    have hkept : ¬ FallsShort 1 (elapsedUs denied.now.us 0) := by decide +kernel
    exact hkept hrecovers.short.1

/-- A bucket of 58 at 25 a second was emptied 1.16 seconds ago. A check of 54 is denied, and a
microtoken is missing: it is told to come back in two seconds, and is allowed after one. -/
theorem retry_after_not_minimal :
    let limits : ResolvedKey :=
      { samplePlan with
        burstCapacity := 58, burstRefillPerSec := 25, sustainedLimit := 1000
        monthlyQuota := 1000 }
    let call (now : Time) (cost : Int) (requestId : String) : Call :=
      ⟨sampleKey, sampleResource, now, scriptArgv limits cost requestId⟩
    let first : CheckStep := Step.of Call.exec (call ⟨100, 0, by decide⟩ 58 "a") Keyspace.empty
    let denied := call ⟨101, 160000, by decide⟩ 54 "b"
    let second : CheckStep := Step.of Call.exec denied first.after
    let third : CheckStep := Step.of Call.exec (call ⟨102, 160000, by decide⟩ 54 "c") second.after
    limits.WithinBounds ∧
      Run Call.exec Losing Keyspace.empty [first, second, third] third.after ∧
      first.admitted = true ∧ ¬ second.admitted = true ∧
      (denied.reply first.after).retryAfter = 2 ∧ third.admitted = true := by
  intro limits call first denied second third
  refine ⟨?_, ?_, by decide +kernel, by decide +kernel, by decide +kernel, by decide +kernel⟩
  · constructor <;> decide
  · exact .cons (fun _ => .inl rfl) (.cons (fun _ => .inl rfl) (.cons (fun _ => .inl rfl) (.nil _)))

end QuotaGuard
