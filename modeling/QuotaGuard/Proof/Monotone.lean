import QuotaGuard.Proof.Stored

/-!
# Raising a limit

A check that is admitted under some limits is admitted under looser ones, on the same keyspace and at
the same reading of the clock, with one exception. The bucket is the part with an argument in it: a
larger capacity or a faster rate can send the refill down another branch. Without rounding the level
does not fall. In doubles the time that fills a capacity exactly may be credited as a microtoken less;
so a bucket that was called full under the smaller capacity may be a microtoken short of it under the
larger one.
-/

namespace QuotaGuard

open Script Redis

/-- No limit is tighter than it was, and the check costs no more. -/
structure Argv.LooserThan (argv' argv : Argv) : Prop where
  cap : argv.capUtok ≤ argv'.capUtok
  rate : argv.rateUtok ≤ argv'.rateUtok
  sustained : argv.sustainedLimit ≤ argv'.sustainedLimit
  window : argv'.windowUs ≤ argv.windowUs
  quota : argv.quotaHard ≤ argv'.quotaHard
  cost : argv'.cost ≤ argv.cost

/-- No limit of the resolved key is tighter than it was. -/
structure ResolvedKey.LooserThan (raised key : ResolvedKey) : Prop where
  burstCapacity : key.burstCapacity ≤ raised.burstCapacity
  burstRefillPerSec : key.burstRefillPerSec ≤ raised.burstRefillPerSec
  sustainedLimit : key.sustainedLimit ≤ raised.sustainedLimit
  sustainedWindowSeconds : raised.sustainedWindowSeconds ≤ key.sustainedWindowSeconds
  monthlyQuota : key.monthlyQuota ≤ raised.monthlyQuota

theorem scriptArgv_looser {raised key : ResolvedKey} (h : raised.LooserThan key) (cost : Int)
    (requestId : String) :
    (scriptArgv raised cost requestId).LooserThan (scriptArgv key cost requestId) where
  cap := mul_le_mul_of_nonneg_right h.burstCapacity utok_pos.le
  rate := mul_le_mul_of_nonneg_right h.burstRefillPerSec utok_pos.le
  sustained := h.sustainedLimit
  window := mul_le_mul_of_nonneg_right h.sustainedWindowSeconds utok_pos.le
  quota := h.monthlyQuota
  cost := le_rfl

/-! ### The level of the bucket -/

section

variable {capUtok capUtok' perSec perSec' : Int}

/-- Without rounding the level does not fall: a larger capacity or a faster rate can send the refill down
another branch, but what the time is worth grows with the rate. -/
theorem refill_exact_mono (h : BurstBounds capUtok perSec) (h' : BurstBounds capUtok' perSec')
    (hcap : capUtok ≤ capUtok') (hrate : perSec ≤ perSec') (nowUs ts : Int) {tokens : Int}
    (hlevel : 0 ≤ tokens) :
    (@refill .exact capUtok (perSec * utok) nowUs (some (tokens, ts))).1 ≤
      (@refill .exact capUtok' (perSec' * utok) nowUs (some (tokens, ts))).1 := by
  rcases (elapsedUs_nonneg nowUs ts).eq_or_lt with hstill | hpos
  · rw [refill_still h.perSec.1 h.cap.1 hstill.symm, refill_still h'.perSec.1 h'.cap.1 hstill.symm]
  · have hworth : perSec * elapsedUs nowUs ts ≤ perSec' * elapsedUs nowUs ts :=
      mul_le_mul_of_nonneg_right hrate hpos.le
    rw [refill_later h.perSec.1 hpos hlevel, refill_later h'.perSec.1 hpos hlevel]
    exact min_le_min hcap (by omega)

/-- An empty bucket, refilled in exactly this time, is a microtoken short of the capacity unless it is
called full. -/
structure BarelyFills (capUtok perSec elapsed tokens : Int) : Prop where
  empty : tokens = 0
  worth : perSec * elapsed = capUtok
  short : FallsShort perSec elapsed

/-- In doubles the level falls in one case only, and there by one microtoken: the smaller capacity is
called full, and the larger one is credited what the product has left. -/
theorem refill_level_cases (h : BurstBounds capUtok perSec) (h' : BurstBounds capUtok' perSec')
    (hcap : capUtok ≤ capUtok') (hrate : perSec ≤ perSec') (nowUs ts : Int) {tokens : Int}
    (hlevel : 0 ≤ tokens) :
    (refill capUtok (perSec * utok) nowUs (some (tokens, ts))).1 ≤
        (refill capUtok' (perSec' * utok) nowUs (some (tokens, ts))).1 ∨
      BarelyFills capUtok perSec (elapsedUs nowUs ts) tokens ∧ perSec' = perSec ∧
        capUtok < capUtok' ∧
        (refill capUtok (perSec * utok) nowUs (some (tokens, ts))).1 = capUtok ∧
        (refill capUtok' (perSec' * utok) nowUs (some (tokens, ts))).1 = capUtok - 1 := by
  have hexact := refill_exact_mono h h' hcap hrate nowUs ts hlevel
  rw [refill_level h nowUs ts hlevel, refill_level h' nowUs ts hlevel]
  by_cases hloses' : LosesMicrotoken capUtok' perSec' (elapsedUs nowUs ts) tokens
  swap
  · left
    rw [if_neg hloses']
    split <;> omega
  by_cases hloses : LosesMicrotoken capUtok perSec (elapsedUs nowUs ts) tokens
  · left
    rw [if_pos hloses', if_pos hloses]
    omega
  rw [if_pos hloses', if_neg hloses, sub_zero]
  obtain ⟨hshort, hpartly, hroom⟩ := hloses'
  have hpos : 0 < elapsedUs nowUs ts := by
    refine (elapsedUs_nonneg nowUs ts).lt_of_ne fun hstill => ?_
    exact not_fallsShort_zero perSec' (hstill ▸ hshort)
  rw [refill_later h.perSec.1 hpos hlevel, refill_later h'.perSec.1 hpos hlevel] at hexact ⊢
  by_cases hsame : perSec' = perSec ∧ tokens + perSec * elapsedUs nowUs ts ≤ capUtok
  · obtain ⟨rfl, hunder⟩ := hsame
    -- The smaller capacity does not lose the microtoken, so the time alone fills it.
    have hfills : Fills capUtok (perSec' * utok) (elapsedUs nowUs ts) := by
      by_contra hpartly
      exact hloses ⟨hshort, hpartly, hunder⟩
    have hworth := h.le_worth hfills
    have hlarger : capUtok < capUtok' := by
      refine hcap.lt_of_ne ?_
      rintro rfl
      exact hpartly hfills
    exact .inr ⟨⟨by omega, by omega, hshort⟩, rfl, hlarger, min_eq_left (by omega), by omega⟩
  · left
    rcases hrate.eq_or_lt with rfl | hfaster
    · have hover : ¬ tokens + perSec * elapsedUs nowUs ts ≤ capUtok := fun hle => hsame ⟨rfl, hle⟩
      omega
    · have hmore : (perSec + 1) * elapsedUs nowUs ts ≤ perSec' * elapsedUs nowUs ts :=
        mul_le_mul_of_nonneg_right (by omega) hpos.le
      rw [add_mul, one_mul] at hmore
      omega

end

/-! ### The decision -/

namespace Call

variable {c : Call} {db : Keyspace} {argv' : Argv}

/-- The check costs the whole capacity, the bucket was empty and is barely filled, and the looser limits
raise the capacity and neither the rate nor the cost. -/
structure Outgrown (c : Call) (argv' : Argv) (db : Keyspace) : Prop where
  barely : ∃ perSec tokens ts, c.argv.rateUtok = perSec * utok ∧
    db.bucket c.bkey = some (tokens, ts) ∧
    BarelyFills c.argv.capUtok perSec (elapsedUs c.now.us ts) tokens
  whole : c.argv.cost * utok = c.argv.capUtok
  cap : c.argv.capUtok < argv'.capUtok
  rate : argv'.rateUtok = c.argv.rateUtok
  cost : argv'.cost = c.argv.cost

/-- A capacity that has outgrown its refill is not filled: the microtoken is missing. -/
theorem Outgrown.denies (h : c.Outgrown argv' db) (hwhole : argv'.WholeRate) :
    (({ c with argv := argv' } : Call).refilled db).1 < argv'.cost * utok := by
  obtain ⟨⟨perSec, tokens, ts, hrate, hbucket, hempty, hworth, hshort⟩, hcost, hmore, hsame, hprice⟩ := h
  obtain ⟨perSec', hrate', hbounds⟩ := hwhole
  obtain rfl : perSec' = perSec :=
    mul_right_cancel₀ utok_pos.ne' (hrate'.symm.trans (hsame.trans hrate))
  have hnonneg : 0 ≤ tokens := hempty.ge
  have hpos : 0 < elapsedUs c.now.us ts := by
    refine (elapsedUs_nonneg _ _).lt_of_ne fun hstill => ?_
    exact not_fallsShort_zero perSec' (hstill ▸ hshort)
  have hpartly : ¬ Fills argv'.capUtok (perSec' * utok) (elapsedUs c.now.us ts) :=
    not_fills_of_lt hbounds.perSec hbounds.cap.1 (by have := hbounds.cap.2; omega) (by omega)
  show (refill argv'.capUtok argv'.rateUtok c.now.us (db.bucket c.bkey)).1 < _
  rw [hrate', hbucket, refill_level hbounds c.now.us ts hnonneg, if_pos ⟨hshort, hpartly, by omega⟩,
    refill_later hbounds.perSec.1 hpos hnonneg, hprice]
  omega

/-- The burst layer that agrees under the limits agrees under looser ones, or the capacity has outgrown
its refill. -/
theorem burst_iff_of_looser (hlooser : argv'.LooserThan c.argv) (hwhole : c.argv.WholeRate)
    (hwhole' : argv'.WholeRate)
    (hlevel : ∀ tokens ts, db.bucket c.bkey = some (tokens, ts) → 0 ≤ tokens)
    (hburst : c.argv.cost * utok ≤ (c.refilled db).1) :
    argv'.cost * utok ≤ (({ c with argv := argv' } : Call).refilled db).1 ↔
      ¬ c.Outgrown argv' db := by
  obtain ⟨perSec, hperSec, hbounds⟩ := hwhole
  obtain ⟨perSec', hperSec', hbounds'⟩ := hwhole'
  have hrate : perSec ≤ perSec' := by
    have := hlooser.rate
    rw [hperSec, hperSec'] at this
    exact le_of_mul_le_mul_right this utok_pos
  have hprice : argv'.cost * utok ≤ c.argv.cost * utok :=
    mul_le_mul_of_nonneg_right hlooser.cost utok_pos.le
  have hcap := hlooser.cap
  refine ⟨fun hagrees h => absurd (h.denies ⟨perSec', hperSec', hbounds'⟩) (not_lt.mpr hagrees),
    fun hnot => ?_⟩
  unfold refilled at hburst ⊢
  show _ ≤ (refill argv'.capUtok argv'.rateUtok c.now.us (db.bucket c.bkey)).1
  rw [hperSec] at hburst
  rw [hperSec']
  cases hbucket : db.bucket c.bkey with
  | none =>
      rw [hbucket] at hburst
      exact hprice.trans (le_trans hburst hcap)
  | some stored =>
      obtain ⟨tokens, ts⟩ := stored
      rw [hbucket] at hburst
      rcases refill_level_cases hbounds hbounds' hcap hrate c.now.us ts (hlevel tokens ts hbucket) with
        hle | ⟨hbarely, hsame, hmore, hfull, hless⟩
      · exact (hprice.trans hburst).trans hle
      · rw [hless]
        rw [hfull] at hburst
        by_contra hover
        have hequal : argv'.cost * utok = c.argv.cost * utok := by omega
        refine hnot ⟨⟨perSec, tokens, ts, hperSec, hbucket, hbarely⟩, by omega, hmore, ?_, ?_⟩
        · rw [hperSec', hsame, hperSec]
        · exact mul_right_cancel₀ utok_pos.ne' hequal

theorem admits_iff_of_looser (hlooser : argv'.LooserThan c.argv) (hwhole : c.argv.WholeRate)
    (hwhole' : argv'.WholeRate)
    (hlevel : ∀ tokens ts, db.bucket c.bkey = some (tokens, ts) → 0 ≤ tokens)
    (hadmits : c.admits db = true) :
    ({ c with argv := argv' } : Call).admits db = true ↔ ¬ c.Outgrown argv' db := by
  rw [admits_iff] at hadmits ⊢
  obtain ⟨hburst, hsustained, hquota⟩ := hadmits
  have hlive : (({ c with argv := argv' } : Call).live db).card ≤ (c.live db).card :=
    SortedSet.card_removeBelow_anti (sub_le_sub_left hlooser.window _) _
  have hroom : ((({ c with argv := argv' } : Call).live db).card : Int) + 1 ≤
      argv'.sustainedLimit := by
    have hlimit := hlooser.sustained
    omega
  have hleft : c.used db + argv'.cost ≤ argv'.quotaHard := by
    have hlimit := hlooser.quota
    have hcost := hlooser.cost
    omega
  rw [← burst_iff_of_looser hlooser hwhole hwhole' hlevel hburst]
  exact ⟨And.left, fun hagrees => ⟨hagrees, hroom, hleft⟩⟩

/-- A check that was admitted has read every name it reads. -/
theorem readable_of_allows (hallows : allows (c.exec db).1 = true) : c.Readable db := by
  rcases hreply : (c.exec db).1 with e | reply
  · rw [hreply] at hallows
    cases hallows
  rw [hreply, allows, decide_eq_true_eq] at hallows
  rw [exec, check, bind_run (time_run c.now)] at hreply
  obtain ⟨state, db₁, hstate, -⟩ := bind_ok hreply
  have hbucket : db.Holds c.bkey .hash := holds_of_hmget (congrArg Prod.fst hstate)
  obtain ⟨state, hstate, hstored⟩ := hmget_run c.now hbucket
  rw [bind_run hstate, hstored] at hreply
  dsimp only at hreply
  obtain ⟨_, db₁, htrim, -⟩ := bind_ok hreply
  have hwindow : db.Holds c.skey .zset := holds_of_zremrangebyscore (congrArg Prod.fst htrim)
  rw [bind_run (zremrangebyscore_run c.now hwindow _), ← trimmed,
    bind_run (zcard_run c.now holds_trimmed)] at hreply
  obtain ⟨stored, db₁, hget, hrest⟩ := bind_ok hreply
  have hkept : db₁ = c.trimmed db := by
    have hkeyspace : (Redis.get c.qkey c.now (c.trimmed db)).2 = c.trimmed db := get_keyspace
    rw [← hkeyspace]
    exact (congrArg Prod.snd hget).symm
  rw [hkept] at hrest
  refine ⟨hbucket, hwindow, ?_⟩
  split at hrest
  · rw [show refill c.argv.capUtok c.argv.rateUtok c.now.us (db.bucket c.bkey) = c.refilled db from rfl,
      bind_run (spend_run hbucket)] at hrest
    obtain ⟨newUsed, db₂, hraise, -⟩ := bind_ok hrest
    rw [raiseCounter] at hraise
    obtain ⟨n, db₃, hincrby, -⟩ := bind_ok (congrArg Prod.fst hraise)
    exact (holds_of_incrby (congrArg Prod.fst hincrby)).congr
      (spent_of_ne c.bkey_ne_qkey.symm c.skey_ne_qkey.symm).symm
  · obtain ⟨oldest, db₂, -, hanswer⟩ := bind_ok hrest
    rename_i hdenied
    rw [← Except.ok.inj hanswer] at hallows
    have hzero : (0 : Int) = 1 := (if_neg hdenied).symm.trans hallows
    cases hzero

/-- What was allowed under some limits is allowed under looser ones, or the capacity has outgrown its
refill. -/
theorem allows_iff_of_looser (hlooser : argv'.LooserThan c.argv) (hwhole : c.argv.WholeRate)
    (hwhole' : argv'.WholeRate)
    (hlevel : ∀ tokens ts, db.bucket c.bkey = some (tokens, ts) → 0 ≤ tokens)
    (hallows : allows (c.exec db).1 = true) :
    allows (({ c with argv := argv' } : Call).exec db).1 = true ↔ ¬ c.Outgrown argv' db := by
  have hreadable : c.Readable db := readable_of_allows hallows
  have hreadable' : ({ c with argv := argv' } : Call).Readable db :=
    ⟨hreadable.bucket, hreadable.window, hreadable.counter⟩
  rw [hreadable.exec_eq, allows_reply] at hallows
  rw [hreadable'.exec_eq, allows_reply]
  exact admits_iff_of_looser hlooser hwhole hwhole' hlevel hallows

end Call

theorem scriptArgv_wholeRate {limits : ResolvedKey} (hlimits : limits.WithinBounds) (cost : Int)
    (requestId : String) : (scriptArgv limits cost requestId).WholeRate :=
  ⟨limits.burstRefillPerSec, rfl, hlimits.burstBounds⟩

/-- **Admission is monotone in the limits where no capacity outgrows its refill**, for limits within
the schema bounds and in any keyspace whose bucket has a level that is not negative, whatever wrote
it. So raising an override turns an admission into a denial in that one case only. -/
theorem admission_monotone (db : Keyspace) :
    (∀ (c : Call) (argv' : Argv), argv'.LooserThan c.argv →
      c.argv.WholeRate → argv'.WholeRate →
      (∀ tokens ts, db.bucket c.bkey = some (tokens, ts) → 0 ≤ tokens) →
      allows (c.exec db).1 = true →
      (allows (({ c with argv := argv' } : Call).exec db).1 = true ↔ ¬ c.Outgrown argv' db)) ∧
    ∀ (plan : Plan) (key raised : ApiKey), (raised.resolve plan).LooserThan (key.resolve plan) →
      (key.resolve plan).WithinBounds → (raised.resolve plan).WithinBounds →
      ∀ (keyId : KeyId) (resource : Resource) (now : Time) (cost : Int) (requestId : String),
        (∀ tokens ts, db.bucket (scriptKeys keyId resource).bucket = some (tokens, ts) →
          0 ≤ tokens) →
        allows (check (scriptKeys keyId resource)
          (scriptArgv (key.resolve plan) cost requestId) now db).1 = true →
        (allows (check (scriptKeys keyId resource)
          (scriptArgv (raised.resolve plan) cost requestId) now db).1 = true ↔
          ¬ (⟨keyId, resource, now, scriptArgv (key.resolve plan) cost requestId⟩ : Call).Outgrown
            (scriptArgv (raised.resolve plan) cost requestId) db) := by
  refine ⟨fun c argv' hlooser hwhole hwhole' hlevel hallows =>
    Call.allows_iff_of_looser hlooser hwhole hwhole' hlevel hallows, ?_⟩
  intro plan key raised hraised hkey hraised' keyId resource now cost requestId hlevel hallows
  exact Call.allows_iff_of_looser
    (c := ⟨keyId, resource, now, scriptArgv (key.resolve plan) cost requestId⟩)
    (scriptArgv_looser hraised cost requestId) (scriptArgv_wholeRate hkey cost requestId)
    (scriptArgv_wholeRate hraised' cost requestId) hlevel hallows

/-- Two seconds fill a bucket of two, and pay as much into a bucket of three. -/
theorem admission_monotone_sample :
    let found : Keyspace := ((sampleCall 0 2 "a").exec Keyspace.empty).2
    let raised : Argv := { scriptArgv samplePlan 1 "b" with capUtok := 3000000, windowUs := 1000000 }
    allows ((sampleCall 2 2 "b").exec found).1 = true ∧
      allows (({ sampleCall 2 2 "b" with argv := raised } : Call).exec found).1 = true := by
  intro found raised
  have hallows : allows ((sampleCall 2 2 "b").exec found).1 = true := by decide +kernel
  have hstored : found.bucket (sampleCall 2 2 "b").bkey = some (0, 0) := by decide +kernel
  have hlevel : ∀ tokens ts, found.bucket (sampleCall 2 2 "b").bkey = some (tokens, ts) →
      0 ≤ tokens := by
    intro tokens ts hbucket
    rw [hstored] at hbucket
    cases hbucket
    exact le_rfl
  have hlooser : raised.LooserThan (sampleCall 2 2 "b").argv := by
    constructor <;> decide
  refine ⟨hallows, ((admission_monotone found).1 _ raised hlooser
    (scriptArgv_wholeRate samplePlan_withinBounds 2 "b") ⟨1, rfl, ?_⟩ hlevel hallows).mpr fun h => ?_⟩
  · constructor <;> decide
  · exact absurd h.cost (by decide)

/-- A bucket of 29 at 25 a second was emptied 1.16 seconds ago. A check of 29 is allowed, and denied
when the capacity is 58: 1.16 times 25000000 is a little less than 29000000 in doubles. -/
theorem admission_not_monotone :
    let limits (capacity : Int) : ResolvedKey :=
      { samplePlan with
        burstCapacity := capacity, burstRefillPerSec := 25, sustainedLimit := 1000
        monthlyQuota := 1000 }
    let call (now : Time) (capacity : Int) (requestId : String) : Call :=
      ⟨sampleKey, sampleResource, now, scriptArgv (limits capacity) 29 requestId⟩
    let found : Keyspace := ((call ⟨100, 0, by decide⟩ 29 "a").exec Keyspace.empty).2
    let now : Time := ⟨101, 160000, by decide⟩
    (limits 29).WithinBounds ∧ (limits 58).WithinBounds ∧
      (call now 58 "b").argv.LooserThan (call now 29 "b").argv ∧
      found.bucket (call now 29 "b").bkey = some (0, 100000000) ∧
      allows ((call now 29 "b").exec found).1 = true ∧
      allows ((call now 58 "b").exec found).1 = false := by
  intro limits call found now
  refine ⟨?_, ?_, ?_, by decide +kernel, by decide +kernel, by decide +kernel⟩
  · constructor <;> decide
  · constructor <;> decide
  · constructor <;> decide

end QuotaGuard
