import QuotaGuard.Lib.Budget
import QuotaGuard.Proof.Bucket
import QuotaGuard.Proof.Stored
import Mathlib.Algebra.BigOperators.Ring.Finset

/-!
# Exact admission

Many checks of one key at one reading of the clock: each resource has what its bucket and its window
leave, and the month counter is shared. One admission takes one from each budget, whichever check it
is; so the order decides who is admitted and not how many. A bucket that pays for a whole number of
checks when nothing is rounded may be a microtoken short of it in doubles, and then one check less is
admitted.
-/

namespace QuotaGuard

open CheckStep

/-- One of the checks of a key that come at one reading with the same arguments. -/
structure Call.InBurst (key : KeyId) (now : Time) (argv : Argv) (c : Call) : Prop where
  key_eq : c.key = key
  now_eq : c.now = now
  argv_eq : c.argv = { argv with requestId := c.argv.requestId }

section Budgets

variable (key : KeyId) (now : Time) (argv : Argv)

/-- What the script makes of the bucket. -/
def refilledAt (db : Keyspace) (resource : Resource) : Int × Int :=
  refill argv.capUtok argv.rateUtok now.us (db.bucket (bucketName key resource))

/-- The level of the bucket when nothing is rounded. -/
def levelAt (db : Keyspace) (resource : Resource) : Int :=
  (@refill .exact argv.capUtok argv.rateUtok now.us (db.bucket (bucketName key resource))).1

def liveAt (db : Keyspace) (resource : Resource) : SortedSet String Int :=
  (db.window (windowName key resource)).removeBelow (now.us - argv.windowUs)

def usedAt (db : Keyspace) : Int := db.counter (Family.quota.name key now.monthStr)

def resourceBudget (db : Keyspace) (resource : Resource) : Int :=
  min ⌊(levelAt key now argv db resource : ℚ) / (argv.cost * utok : Int)⌋
    (max 0 (argv.sustainedLimit - (liveAt key now argv db resource).card))

def quotaBudget (db : Keyspace) : Int :=
  max 0 ⌊((argv.quotaHard - usedAt key now db : Int) : ℚ) / argv.cost⌋

/-- The level of the bucket once the time that the script has left over is credited as well. -/
def settledAt (db : Keyspace) (resource : Resource) : Int :=
  (refilledAt key now argv db resource).1 + elapsedUs now.us (refilledAt key now argv db resource).2

/-- How many checks the script admits of a resource: the first must be paid for before any time that is
left over is credited. -/
def admittedBudget (db : Keyspace) (resource : Resource) : Int :=
  min (if argv.cost * utok ≤ (refilledAt key now argv db resource).1 then
      ⌊(settledAt key now argv db resource : ℚ) / (argv.cost * utok : Int)⌋ else 0)
    (max 0 (argv.sustainedLimit - (liveAt key now argv db resource).card))

/-- All budgets of the key. -/
def budgetAt (db : Keyspace) : Budget Resource where
  own := fun resource => (admittedBudget key now argv db resource).toNat
  shared := (quotaBudget key now argv db).toNat

/-- The script loses a microtoken of a bucket, and the budget of its resource takes the whole level. At a
token a second the microtoken is back for the second check. -/
def MissesOne (db : Keyspace) (resource : Resource) : Prop :=
  ∃ stored ∈ db.bucket (bucketName key resource),
    LosesMicrotoken argv.capUtok (argv.rateUtok / utok) (elapsedUs now.us stored.2) stored.1 ∧
      resourceBudget key now argv db resource * (argv.cost * utok) = levelAt key now argv db resource ∧
      (argv.rateUtok = utok → resourceBudget key now argv db resource = 1)

instance (db : Keyspace) (resource : Resource) : Decidable (MissesOne key now argv db resource) :=
  inferInstanceAs (Decidable (∃ _ ∈ _, _))

end Budgets

variable {key : KeyId} {now : Time} {argv : Argv} {db : Keyspace} {c : Call}

namespace Call.InBurst

theorem refilled_eq (hc : c.InBurst key now argv) (db : Keyspace) :
    c.refilled db = refilledAt key now argv db c.resource := by
  rw [Call.refilled, Call.bkey_eq, hc.key_eq, hc.now_eq, hc.argv_eq, refilledAt]

theorem live_eq (hc : c.InBurst key now argv) (db : Keyspace) :
    c.live db = liveAt key now argv db c.resource := by
  rw [Call.live, Call.skey_eq, hc.key_eq, hc.now_eq, hc.argv_eq, liveAt]

theorem used_eq (hc : c.InBurst key now argv) (db : Keyspace) : c.used db = usedAt key now db := by
  rw [Call.used, Call.qkey_eq, hc.key_eq, hc.now_eq, usedAt]

theorem cost_eq (hc : c.InBurst key now argv) : c.argv.cost = argv.cost := by rw [hc.argv_eq]

theorem limit_eq (hc : c.InBurst key now argv) : c.argv.sustainedLimit = argv.sustainedLimit := by
  rw [hc.argv_eq]

theorem hard_eq (hc : c.InBurst key now argv) : c.argv.quotaHard = argv.quotaHard := by
  rw [hc.argv_eq]

end Call.InBurst

/-! ### The bucket at one reading -/

/-- The levels of the key are not negative. -/
def LevelsNonneg (key : KeyId) (db : Keyspace) : Prop :=
  ∀ rest t ts, db.bucket (Family.bucket.name key rest) = some (t, ts) → 0 ≤ t

theorem Argv.WholeRate.cap_pos (h : argv.WholeRate) : 0 < argv.capUtok := by
  obtain ⟨perSec, -, hbounds⟩ := h
  exact hbounds.cap.1

theorem Argv.WholeRate.rate_pos (h : argv.WholeRate) : 0 < argv.rateUtok := by
  obtain ⟨perSec, hrate, hbounds⟩ := h
  rw [hrate]
  exact mul_pos hbounds.perSec.1 utok_pos

/-- A bucket that is taken down is credited with the time that was left over, once. -/
theorem refill_taken (hwhole : argv.WholeRate) (hlevels : LevelsNonneg key db) (resource : Resource)
    {level : Int} (hlevel : level ≤ (refilledAt key now argv db resource).1) :
    (refill argv.capUtok argv.rateUtok now.us
        (some (level, (refilledAt key now argv db resource).2))).1 =
      level + elapsedUs now.us (refilledAt key now argv db resource).2 ∧
    elapsedUs now.us (refill argv.capUtok argv.rateUtok now.us
        (some (level, (refilledAt key now argv db resource).2))).2 = 0 := by
  obtain ⟨perSec, hrate, hbounds⟩ := hwhole
  unfold refilledAt at hlevel ⊢
  rw [hrate] at hlevel ⊢
  cases hbucket : db.bucket (bucketName key resource) with
  | none =>
      rw [hbucket] at hlevel
      have hfull : RefilledNear argv.capUtok perSec now.us argv.capUtok now.us
          (argv.capUtok, now.us) := .still (elapsedUs_of_ge le_rfl)
      exact refill_again hbounds hfull hbounds.cap.1.le hlevel
  | some stored =>
      obtain ⟨t, ts⟩ := stored
      rw [hbucket] at hlevel
      exact refill_again hbounds (refilledNear_refill hbounds now.us t ts)
        (hlevels resource.val t ts hbucket) hlevel

theorem le_settledAt (db : Keyspace) (resource : Resource) :
    (refilledAt key now argv db resource).1 ≤ settledAt key now argv db resource :=
  le_add_of_nonneg_right (elapsedUs_nonneg _ _)

/-! ### One check takes one from its budgets -/

theorem admits_iff_grants (hc : c.InBurst key now argv) (hcost : 1 ≤ argv.cost) :
    c.admits db = true ↔ (budgetAt key now argv db).grants c.resource := by
  have hprice : 0 < argv.cost * utok := mul_pos (by omega) utok_pos
  have hburst : 1 ≤ (if argv.cost * utok ≤ (refilledAt key now argv db c.resource).1 then
      ⌊(settledAt key now argv db c.resource : ℚ) / (argv.cost * utok : Int)⌋ else 0) ↔
      argv.cost * utok ≤ (refilledAt key now argv db c.resource).1 := by
    split
    · rename_i hpaid
      refine iff_of_true ?_ hpaid
      rw [Rounding.le_floor_div_iff hprice, one_mul]
      exact hpaid.trans (le_settledAt db c.resource)
    · rename_i hshort
      exact iff_of_false (by decide) hshort
  have hquota : 1 ≤ ⌊((argv.quotaHard - usedAt key now db : Int) : ℚ) / argv.cost⌋ ↔
      usedAt key now db + argv.cost ≤ argv.quotaHard := by
    rw [Rounding.le_floor_div_iff (by omega), one_mul]
    omega
  rw [Call.admits_iff, hc.refilled_eq, hc.live_eq, hc.used_eq, hc.cost_eq, hc.limit_eq,
    hc.hard_eq, ← hburst, ← hquota]
  simp only [Budget.grants, budgetAt, admittedBudget, quotaBudget]
  omega

/-- What an admitted check leaves is credited with the time that was left over, and with no more at the
same reading. -/
theorem refilledAt_after_admitted (hc : c.InBurst key now argv) (hwhole : argv.WholeRate)
    (hlevels : LevelsNonneg key db) (hcost : 1 ≤ argv.cost) (hadmits : c.admits db = true) :
    (refilledAt key now argv (c.after db) c.resource).1 =
        settledAt key now argv db c.resource - argv.cost * utok ∧
      elapsedUs now.us (refilledAt key now argv (c.after db) c.resource).2 = 0 := by
  have hafter := Call.bucket_after_admitted hadmits
  have httl : 0 < bucketTtl c.argv := by
    rw [hc.argv_eq]
    exact bucketTtl_pos hwhole.cap_pos.le hwhole.rate_pos
  rw [if_neg (not_le.mpr httl), Call.bkey_eq, hc.key_eq, hc.refilled_eq, hc.cost_eq] at hafter
  have hlevel : (refilledAt key now argv db c.resource).1 - argv.cost * utok ≤
      (refilledAt key now argv db c.resource).1 := sub_le_self _ (mul_pos (by omega) utok_pos).le
  have htaken := refill_taken hwhole hlevels c.resource hlevel
  have hstored : refilledAt key now argv (c.after db) c.resource =
      refill argv.capUtok argv.rateUtok now.us
        (some ((refilledAt key now argv db c.resource).1 - argv.cost * utok,
          (refilledAt key now argv db c.resource).2)) := by
    rw [refilledAt]
    exact congrArg _ hafter
  rw [hstored, settledAt]
  exact ⟨htaken.1.trans (by ring), htaken.2⟩

theorem liveAt_after_admitted (hc : c.InBurst key now argv) (hwindow : 0 ≤ argv.windowUs)
    (hadmits : c.admits db = true) :
    liveAt key now argv (c.after db) c.resource =
      (liveAt key now argv db c.resource).insert (windowMember now.us c.argv.requestId) now.us := by
  have hafter := Call.window_after_admitted hadmits
  have httl := windowTtl_bound c.argv
  have hlength : c.argv.windowUs = argv.windowUs := by rw [hc.argv_eq]
  rw [hlength] at httl
  rw [if_neg (by omega), Call.skey_eq, hc.key_eq, hc.live_eq, hc.now_eq] at hafter
  rw [liveAt, hafter, SortedSet.removeBelow_insert (by omega), liveAt,
    SortedSet.removeBelow_removeBelow le_rfl]

theorem usedAt_after (hc : c.InBurst key now argv) (db : Keyspace) :
    usedAt key now (c.after db) =
      usedAt key now db + if c.admits db then argv.cost else 0 := by
  have hafter : (c.after db).counter c.qkey =
      db.counter c.qkey + if c.admits db then c.argv.cost else 0 := Call.counter_after_qkey
  rw [Call.qkey_eq, hc.key_eq, hc.now_eq, hc.cost_eq] at hafter
  exact hafter

theorem budgetAt_after_denied (hc : c.InBurst key now argv) (hdenied : ¬ c.admits db = true) :
    budgetAt key now argv (c.after db) = budgetAt key now argv db := by
  have hrefilled (resource : Resource) : refilledAt key now argv (c.after db) resource =
      refilledAt key now argv db resource := by
    have hbucket : c.after db (bucketName key resource) = db (bucketName key resource) := by
      rw [Call.after_denied hdenied, Call.trimmed_of_ne]
      simp [Call.skey_eq]
    rw [refilledAt, Keyspace.bucket_congr hbucket, ← refilledAt]
  have hlive (resource : Resource) : liveAt key now argv (c.after db) resource =
      liveAt key now argv db resource := by
    by_cases hown : resource = c.resource
    · have hafter := Call.window_after_denied hdenied
      rw [Call.skey_eq, hc.key_eq, hc.live_eq] at hafter
      rw [hown, liveAt, hafter, liveAt, SortedSet.removeBelow_removeBelow le_rfl]
    · have hwindow : c.after db (windowName key resource) = db (windowName key resource) := by
        apply Call.after_name
        intro h
        exact hown (Resource.ext h.2)
      rw [liveAt, Keyspace.window_congr hwindow, ← liveAt]
  have hused := usedAt_after hc db
  rw [if_neg hdenied, add_zero] at hused
  apply Budget.ext
  · funext resource
    simp only [budgetAt, admittedBudget, settledAt, hrefilled, hlive]
  · simp only [budgetAt, quotaBudget, hused]

/-- An admitted check takes one from the budget of its resource and one from the shared budget. -/
theorem budgetAt_after_admitted (hc : c.InBurst key now argv) (hwhole : argv.WholeRate)
    (hlevels : LevelsNonneg key db) (hwindow : 0 ≤ argv.windowUs) (hcost : 1 ≤ argv.cost)
    (hfresh : ∀ p ∈ (liveAt key now argv db c.resource).entries,
      p.1 ≠ windowMember now.us c.argv.requestId)
    (hadmits : c.admits db = true) :
    budgetAt key now argv (c.after db) = (budgetAt key now argv db).request c.resource := by
  have hgrants := (admits_iff_grants hc hcost).mp hadmits
  have hother {resource : Resource} (hne : resource ≠ c.resource) (f : Family)
      (hrest : c.rest f = c.resource.val) :
      c.after db (f.name key resource.val) = db (f.name key resource.val) := by
    apply Call.after_name
    rw [hrest]
    intro h
    exact hne (Resource.ext h.2)
  apply Budget.ext
  · rw [Budget.request_own hgrants]
    funext resource
    by_cases hown : resource = c.resource
    · have hpos := hgrants.1
      have hprice : 0 < argv.cost * utok := mul_pos (by omega) utok_pos
      obtain ⟨hlevel, hleft⟩ := refilledAt_after_admitted hc hwhole hlevels hcost hadmits
      have hpaid : argv.cost * utok ≤ (refilledAt key now argv db c.resource).1 := by
        rw [← hc.refilled_eq, ← hc.cost_eq]
        exact (Call.admits_iff.mp hadmits).1
      have hone := Rounding.floor_sub_self_div (a := settledAt key now argv db c.resource) hprice
      have hfloor : (if argv.cost * utok ≤ settledAt key now argv db c.resource - argv.cost * utok then
          ⌊((settledAt key now argv db c.resource - argv.cost * utok : Int) : ℚ) /
            (argv.cost * utok : Int)⌋ else 0) =
          ⌊(settledAt key now argv db c.resource : ℚ) / (argv.cost * utok : Int)⌋ - 1 := by
        have hsettled : (refilledAt key now argv db c.resource).1 ≤
            settledAt key now argv db c.resource := le_settledAt db c.resource
        rw [← hone]
        split
        · rfl
        · exact (Rounding.floor_div_eq_zero hprice (by omega) (by omega)).symm
      rw [hown, Function.update_self]
      simp only [budgetAt, admittedBudget] at hpos ⊢
      rw [settledAt, hleft, hlevel, add_zero, hfloor, if_pos hpaid,
        liveAt_after_admitted hc hwindow hadmits, SortedSet.card_insert_of_fresh hfresh]
      rw [if_pos hpaid] at hpos
      push_cast
      omega
    · rw [Function.update_of_ne hown]
      have hbucket : refilledAt key now argv (c.after db) resource =
          refilledAt key now argv db resource := by
        rw [refilledAt, Keyspace.bucket_congr (hother hown .bucket rfl), ← refilledAt]
      have hlive : liveAt key now argv (c.after db) resource = liveAt key now argv db resource := by
        rw [liveAt, Keyspace.window_congr (hother hown .window rfl), ← liveAt]
      simp only [budgetAt, admittedBudget, settledAt, hbucket, hlive]
  · rw [Budget.request_shared hgrants]
    have hpos := hgrants.2
    simp only [budgetAt, quotaBudget] at hpos ⊢
    rw [usedAt_after hc, if_pos hadmits, ← sub_sub, Rounding.floor_sub_self_div (by omega)]
    omega

/-! ### All checks of the burst -/

/-- No window of the key has a member of these ids at this reading. -/
def FreshIds (key : KeyId) (now : Time) (ids : List String) (db : Keyspace) : Prop :=
  ∀ resource, ∀ p ∈ (db.window (windowName key resource)).entries, ∀ id ∈ ids,
    p.1 ≠ windowMember now.us id

theorem FreshIds.after {id : String} {ids : List String} (hc : c.InBurst key now argv)
    (hid : c.argv.requestId = id) (hnodup : id ∉ ids) (h : FreshIds key now (id :: ids) db) :
    FreshIds key now ids (c.after db) := by
  intro resource p hp later hlater
  by_cases hown : resource = c.resource
  · have hlive : ∀ p ∈ (c.live db).entries, p.1 ≠ windowMember now.us later := by
      intro p hp
      rw [Call.live, SortedSet.mem_removeBelow, Call.skey_eq, hc.key_eq] at hp
      exact h _ p hp.1 later (List.mem_cons_of_mem _ hlater)
    have hskey : windowName key resource = c.skey := by rw [Call.skey_eq, hc.key_eq, hown]
    rw [hskey] at hp
    by_cases hadmits : c.admits db = true
    · rw [Call.window_after_admitted hadmits] at hp
      split at hp
      · exact absurd hp (Finset.notMem_empty p)
      rw [SortedSet.mem_insert] at hp
      rcases hp with rfl | ⟨hold, -⟩
      · rw [hc.now_eq]
        intro heq
        have hsame := windowMember_inj heq
        exact hnodup (hid ▸ hsame ▸ hlater)
      · exact hlive p hold
    · rw [Call.window_after_denied hadmits] at hp
      exact hlive p hp
  · have hother : c.after db (windowName key resource) = db (windowName key resource) := by
      apply Call.after_name
      intro heq
      exact hown (Resource.ext heq.2)
    rw [Keyspace.window_congr hother] at hp
    exact h resource p hp later (List.mem_cons_of_mem _ hlater)

/-- One check of the burst is one request. -/
theorem budgetAt_after {id : String} {ids : List String} (hc : c.InBurst key now argv)
    (hwhole : argv.WholeRate) (hlevels : LevelsNonneg key db) (hwindow : 0 ≤ argv.windowUs)
    (hcost : 1 ≤ argv.cost) (hid : c.argv.requestId = id) (hfresh : FreshIds key now (id :: ids) db) :
    budgetAt key now argv (c.after db) = (budgetAt key now argv db).request c.resource := by
  by_cases hadmits : c.admits db = true
  · apply budgetAt_after_admitted hc hwhole hlevels hwindow hcost _ hadmits
    intro p hp
    rw [liveAt, SortedSet.mem_removeBelow] at hp
    rw [hid]
    exact hfresh _ p hp.1 id (List.mem_cons_self ..)
  · rw [budgetAt_after_denied hc hadmits, Budget.request_of_not_grants]
    rw [← admits_iff_grants hc hcost]
    exact hadmits

theorem LevelsNonneg.after (h : LevelsNonneg key db) : LevelsNonneg key (c.after db) := by
  intro rest t ts hbucket
  rcases Call.bucket_after_name hbucket with hold | ⟨-, hadmits, ht, -⟩
  · exact h rest t ts hold
  · have henough := (Call.admits_iff.mp hadmits).1
    omega

theorem length_admitted {burst : List CheckStep} {last : Keyspace} (hwhole : argv.WholeRate)
    (hwindow : 0 ≤ argv.windowUs) (hcost : 1 ≤ argv.cost)
    (hburst : Run Call.exec Undisturbed db burst last) (htyped : db.Typed)
    (hlevels : LevelsNonneg key db)
    (hcalls : ∀ step ∈ burst, step.event.InBurst key now argv)
    (hids : (burst.map fun step => step.event.argv.requestId).Nodup)
    (hfresh : FreshIds key now (burst.map fun step => step.event.argv.requestId) db) :
    (burst.filter admitted).length =
      (budgetAt key now argv db).granted (burst.map fun step => step.event.resource) := by
  induction hburst with
  | nil => rfl
  | @cons db _ _ c burst hlink hrest ih =>
      cases hlink
      have hc : c.InBurst key now argv := hcalls _ (List.mem_cons_self ..)
      rw [List.map_cons, List.nodup_cons] at hids
      rw [List.map_cons] at hfresh
      rw [c.exec_after htyped] at ih
      have hrestLength := ih (Call.typed_after htyped) hlevels.after
        (fun step hmem => hcalls step (List.mem_cons_of_mem _ hmem)) hids.2
        (hfresh.after hc rfl hids.1)
      rw [budgetAt_after hc hwhole hlevels hwindow hcost rfl hfresh] at hrestLength
      rw [List.map_cons, Step.of_event, Budget.granted, List.filter_cons, c.admitted_step htyped]
      by_cases hadmits : c.admits db = true
      · rw [if_pos hadmits, if_pos ((admits_iff_grants hc hcost).mp hadmits), List.length_cons,
          hrestLength, Nat.add_comm]
      · have hdenied : ¬ (budgetAt key now argv db).grants c.resource := by
          rw [← admits_iff_grants hc hcost]
          exact hadmits
        rw [if_neg hadmits, if_neg hdenied, hrestLength, Nat.zero_add]

/-! ### The states checks can lead to -/

/-- No bucket is overdrawn, and every member of a window was added by a check. -/
structure Reached (past : List CheckStep) (db : Keyspace) : Prop where
  typed : db.Typed
  level_nonneg : ∀ key, LevelsNonneg key db
  member : ∀ key rest, ∀ p ∈ (db.window (Family.window.name key rest)).entries,
    ∃ step ∈ past, p.1 = windowMember step.us step.event.argv.requestId

namespace Reached

variable {past : List CheckStep}

theorem start : Reached [] Keyspace.empty where
  typed := Keyspace.typed_empty
  level_nonneg := fun _ _ _ _ => nofun
  member := fun _ _ _ hp => absurd hp (Finset.notMem_empty _)

theorem link {found : Keyspace} (h : Reached past db) (hlink : Losing c db found) :
    Reached past found where
  typed := hlink.typed h.typed
  level_nonneg := by
    intro key rest t ts hbucket
    rcases hlink (Family.bucket.name key rest) with hsame | hgone
    · rw [Keyspace.bucket_congr hsame] at hbucket
      exact h.level_nonneg key rest t ts hbucket
    · rw [Keyspace.bucket_of_none hgone] at hbucket
      cases hbucket
  member := by
    intro key rest p hp
    rcases hlink (Family.window.name key rest) with hsame | hgone
    · rw [Keyspace.window_congr hsame] at hp
      exact h.member key rest p hp
    · rw [Keyspace.window_of_none hgone] at hp
      exact absurd hp (Finset.notMem_empty p)

theorem check (h : Reached past db) : Reached (past ++ [Step.of Call.exec c db]) (c.after db) where
  typed := Call.typed_after h.typed
  level_nonneg := fun key => (h.level_nonneg key).after
  member := by
    intro key rest p hp
    rcases Call.mem_window_after_name hp with hold | ⟨-, -, rfl⟩
    · obtain ⟨step, hstep, hmember⟩ := h.member key rest p hold
      exact ⟨step, List.mem_append_left _ hstep, hmember⟩
    · exact ⟨_, List.mem_append_right _ (List.mem_singleton_self _), rfl⟩

end Reached

theorem reached_of_run {past : List CheckStep}
    (hpast : Run Call.exec Losing Keyspace.empty past db) : Reached past db := by
  have hall : ∀ step ∈ past, True := fun _ _ => trivial
  refine hpast.history (P := Reached) Reached.start ?_ hall
  intro past middle c found hreached hlink _
  have hfound := hreached.link hlink
  rw [c.exec_after hfound.typed]
  exact hfound.check

theorem Reached.freshIds {past : List CheckStep} {ids : List String} (h : Reached past db)
    (hids : ∀ step ∈ past, step.us = now.us → step.event.argv.requestId ∉ ids) :
    FreshIds key now ids db := by
  intro resource p hp id hid heq
  obtain ⟨step, hstep, hmember⟩ := h.member key resource.val p hp
  rw [hmember] at heq
  have hus : step.us = now.us := windowMember_us_inj heq
  rw [← windowMember_inj heq] at hid
  exact hids step hstep hus hid

/-! ### What the script loses -/

/-- What the script admits of a level it has lost a microtoken of, which comes back for the second check
or not at all. -/
theorem floor_of_short {price level : Int} (hprice : 0 < price) (hlevel : 0 < level) (back : Prop)
    [Decidable back] :
    (if price ≤ level - 1 then
        ⌊((level - 1 + if back then 1 else 0 : Int) : ℚ) / price⌋ else 0) =
      ⌊(level : ℚ) / price⌋ -
        if ⌊(level : ℚ) / price⌋ * price = level ∧ (back → ⌊(level : ℚ) / price⌋ = 1)
        then 1 else 0 := by
  by_cases hback : back
  · simp only [hback, if_true, sub_add_cancel, forall_const]
    obtain ⟨hlow, hhigh⟩ := Rounding.floor_div_bounds (a := level) hprice
    split
    · rw [if_neg, sub_zero]
      rintro ⟨hwhole, hone⟩
      rw [hone] at hwhole
      omega
    · rcases (show level ≤ price by omega).eq_or_lt with hequal | hless
      · have hone : ⌊(level : ℚ) / price⌋ = 1 := by
          apply le_antisymm
          · rw [← Int.lt_add_one_iff, Rounding.floor_div_lt_iff hprice]
            omega
          · rw [Rounding.le_floor_div_iff hprice]
            omega
        rw [hone, if_pos ⟨by omega, rfl⟩, sub_self]
      · rw [Rounding.floor_div_eq_zero hprice hlevel.le hless, if_neg (by omega), sub_zero]
  · simp only [hback, if_false, add_zero, false_imp_iff, and_true]
    rw [← Rounding.floor_pred_div hprice]
    split
    · rfl
    · rw [Rounding.floor_div_eq_zero hprice (by omega) (by omega)]

/-- A budget of its window does not take the whole level of a bucket that is worth more. -/
theorem min_floor_sub {price level room : Int} (hprice : 0 < price) (back : Prop) [Decidable back] :
    min (⌊(level : ℚ) / price⌋ -
        if ⌊(level : ℚ) / price⌋ * price = level ∧ (back → ⌊(level : ℚ) / price⌋ = 1)
        then 1 else 0) room =
      min ⌊(level : ℚ) / price⌋ room -
        if min ⌊(level : ℚ) / price⌋ room * price = level ∧
          (back → min ⌊(level : ℚ) / price⌋ room = 1) then 1 else 0 := by
  obtain ⟨hlow, -⟩ := Rounding.floor_div_bounds (a := level) hprice
  generalize ⌊(level : ℚ) / price⌋ = checks at hlow
  rcases le_or_gt checks room with hpaid | hroom
  · rw [min_eq_left hpaid, min_eq_left]
    split <;> omega
  · have hless : room * price < checks * price := mul_lt_mul_of_pos_right hroom hprice
    have hpart : ¬ (room * price = level ∧ (back → room = 1)) := fun hwhole => by omega
    rw [min_eq_right hroom.le, if_neg hpart, sub_zero, min_eq_right]
    split <;> omega

theorem admittedBudget_of_kept {resource : Resource} (hcost : 1 ≤ argv.cost)
    (hlevel : (refilledAt key now argv db resource).1 = levelAt key now argv db resource)
    (hleft : elapsedUs now.us (refilledAt key now argv db resource).2 = 0)
    (hnonneg : 0 ≤ levelAt key now argv db resource) :
    admittedBudget key now argv db resource = resourceBudget key now argv db resource := by
  have hprice : 0 < argv.cost * utok := mul_pos (by omega) utok_pos
  rw [admittedBudget, settledAt, hleft, hlevel, add_zero, resourceBudget]
  split
  · rfl
  · rw [Rounding.floor_div_eq_zero hprice hnonneg (by omega)]

/-- A bucket that is not there is full, and misses nothing. -/
theorem admittedBudget_of_absent {resource : Resource} (hwhole : argv.WholeRate) (hcost : 1 ≤ argv.cost)
    (habsent : db.bucket (bucketName key resource) = none) :
    ¬ MissesOne key now argv db resource ∧
      admittedBudget key now argv db resource = resourceBudget key now argv db resource := by
  have hfull : refilledAt key now argv db resource = (argv.capUtok, now.us) := by
    rw [refilledAt, habsent]
    rfl
  have hlevel : levelAt key now argv db resource = argv.capUtok := by
    rw [levelAt, habsent]
    rfl
  constructor
  · rintro ⟨stored, hstored, -⟩
    rw [habsent] at hstored
    cases hstored
  · refine admittedBudget_of_kept hcost ?_ ?_ ?_
    · rw [hfull, hlevel]
    · rw [hfull]
      exact elapsedUs_of_ge le_rfl
    · rw [hlevel]
      exact hwhole.cap_pos.le

/-- When a bucket that is there misses a check. -/
theorem missesOne_iff {resource : Resource} {perSec t ts : Int} (hrate : argv.rateUtok = perSec * utok)
    (hbucket : db.bucket (bucketName key resource) = some (t, ts)) :
    MissesOne key now argv db resource ↔
      LosesMicrotoken argv.capUtok perSec (elapsedUs now.us ts) t ∧
        resourceBudget key now argv db resource * (argv.cost * utok) =
          levelAt key now argv db resource ∧
        (perSec = 1 → resourceBudget key now argv db resource = 1) := by
  have hback : argv.rateUtok = utok ↔ perSec = 1 := by
    rw [hrate]
    simp only [utok]
    omega
  simp only [MissesOne, hbucket, Option.mem_some_iff, exists_eq_left', hback]
  rw [hrate, Int.mul_ediv_cancel _ utok_pos.ne']

/-- The script admits one check less than the level and the window have room for, or as many. -/
theorem admittedBudget_eq (hwhole : argv.WholeRate) (hcost : 1 ≤ argv.cost)
    (hlevels : LevelsNonneg key db) (resource : Resource) :
    admittedBudget key now argv db resource = resourceBudget key now argv db resource -
      if MissesOne key now argv db resource then 1 else 0 := by
  have hprice : 0 < argv.cost * utok := mul_pos (by omega) utok_pos
  cases hbucket : db.bucket (bucketName key resource) with
  | none =>
      obtain ⟨hkept, hsame⟩ := admittedBudget_of_absent hwhole hcost hbucket
      rw [if_neg hkept, sub_zero, hsame]
  | some stored =>
      obtain ⟨perSec, hrate, hbounds⟩ := hwhole
      obtain ⟨t, ts⟩ := stored
      have hnonneg := hlevels resource.val t ts hbucket
      have hlevel := refill_level hbounds now.us ts hnonneg
      have hleft := (refilledNear_refill hbounds now.us t ts).left_eq hbounds.perSec.1
      have hlow : 0 ≤ (refill argv.capUtok (perSec * utok) now.us (some (t, ts))).1 :=
        refill_nonneg hbounds.cap.1.le hnonneg
      have hat : refilledAt key now argv db resource =
          refill argv.capUtok (perSec * utok) now.us (some (t, ts)) := by
        rw [refilledAt, hbucket, hrate]
      have hexact : levelAt key now argv db resource =
          (@refill .exact argv.capUtok (perSec * utok) now.us (some (t, ts))).1 := by
        rw [levelAt, hbucket, hrate]
      rw [← hat] at hlevel hleft hlow
      rw [← hexact] at hlevel
      have hmisses := @missesOne_iff key now argv db resource perSec t ts hrate hbucket
      by_cases hloses : LosesMicrotoken argv.capUtok perSec (elapsedUs now.us ts) t
      · simp only [hloses, if_true, and_true] at hlevel hleft
        simp only [hmisses, hloses, true_and]
        rw [resourceBudget, ← min_floor_sub hprice, ← floor_of_short hprice (by omega),
          admittedBudget, settledAt, hleft, hlevel]
      · simp only [hloses, if_false, sub_zero, and_false] at hlevel hleft
        rw [if_neg fun h => hloses (hmisses.mp h).1, sub_zero]
        exact admittedBudget_of_kept hcost hlevel hleft (hlevel ▸ hlow)

theorem admittedBudget_nonneg (hcost : 1 ≤ argv.cost) (resource : Resource) :
    0 ≤ admittedBudget key now argv db resource := by
  have hprice : 0 < argv.cost * utok := mul_pos (by omega) utok_pos
  refine le_min ?_ (le_max_left _ _)
  split
  · rename_i hpaid
    rw [Rounding.le_floor_div_iff hprice, zero_mul]
    exact hprice.le.trans (hpaid.trans (le_settledAt db resource))
  · exact le_rfl

theorem granted_budgetAt {resources : Finset Resource} {requests : List Resource}
    (hwhole : argv.WholeRate) (hlevels : LevelsNonneg key db) (hcost : 1 ≤ argv.cost)
    (hmem : ∀ r ∈ requests, r ∈ resources) :
    ((budgetAt key now argv db).granted requests : Int) =
      min (∑ r ∈ resources, min (requests.count r : Int) (resourceBudget key now argv db r) -
          (resources.filter fun r =>
            MissesOne key now argv db r ∧ resourceBudget key now argv db r ≤ requests.count r).card)
        (quotaBudget key now argv db) := by
  have hown (r : Resource) : (((budgetAt key now argv db).own r : Nat) : Int) =
      resourceBudget key now argv db r - if MissesOne key now argv db r then 1 else 0 := by
    rw [← admittedBudget_eq hwhole hcost hlevels]
    exact Int.toNat_of_nonneg (admittedBudget_nonneg hcost r)
  have hshared : (((budgetAt key now argv db).shared : Nat) : Int) = quotaBudget key now argv db :=
    Int.toNat_of_nonneg (le_max_left _ _)
  have hless (r : Resource) : min (requests.count r : Int)
      (resourceBudget key now argv db r - if MissesOne key now argv db r then 1 else 0) =
        min (requests.count r : Int) (resourceBudget key now argv db r) -
          if MissesOne key now argv db r ∧ resourceBudget key now argv db r ≤ requests.count r
          then 1 else 0 := by
    by_cases hmisses : MissesOne key now argv db r
    · simp only [hmisses, if_true, true_and]
      split <;> omega
    · simp only [hmisses, if_false, false_and, sub_zero]
  rw [Budget.granted_eq _ hmem, Budget.demand, Nat.cast_min, Nat.cast_sum, hshared]
  simp only [Nat.cast_min, hown, hless]
  rw [Finset.sum_sub_distrib, Finset.card_filter]
  push_cast
  rfl

/-- **Exact admission, but for a microtoken.** In a state checks have led to, whatever their limits and
whatever keys were lost in between, any number of checks of one key comes at one reading, with the same
limits within the schema bounds, the same cost and distinct request ids. In every order the same number
is admitted: each resource gets what its bucket and its window have room for, one check less where the
script misses the microtoken, and all together no more than the month. So nothing is missing exactly
when no resource misses a check, or the month leaves no room for it. -/
theorem exact_admission {past burst : List CheckStep} {last : Keyspace} {resources : Finset Resource}
    (hpast : Run Call.exec Losing Keyspace.empty past db)
    (hburst : Run Call.exec Undisturbed db burst last)
    (hcalls : ∀ step ∈ burst, step.event.InBurst key now argv)
    (hresources : ∀ step ∈ burst, step.event.resource ∈ resources)
    (hids : (burst.map fun step => step.event.argv.requestId).Nodup)
    (hfresh : ∀ step ∈ past, step.us = now.us →
      step.event.argv.requestId ∉ burst.map fun step => step.event.argv.requestId)
    (hwhole : argv.WholeRate) (hwindow : 0 ≤ argv.windowUs) (hcost : 1 ≤ argv.cost) :
    let requests := burst.map fun step => step.event.resource
    let wanted := ∑ r ∈ resources, min (requests.count r : Int) (resourceBudget key now argv db r)
    let missing := resources.filter fun r =>
      MissesOne key now argv db r ∧ resourceBudget key now argv db r ≤ requests.count r
    (((burst.filter admitted).length : Int) = min wanted (quotaBudget key now argv db) ↔
      missing = ∅ ∨ quotaBudget key now argv db ≤ wanted - missing.card) ∧
    ((burst.filter admitted).length : Int) =
      min (wanted - missing.card) (quotaBudget key now argv db) ∧
    ∀ r, (∀ step ∈ burst, step.event.resource = r) →
      (((burst.filter admitted).length : Int) = min (burst.length : Int)
          (min (resourceBudget key now argv db r) (quotaBudget key now argv db)) ↔
        ¬ (MissesOne key now argv db r ∧ resourceBudget key now argv db r ≤ burst.length ∧
          resourceBudget key now argv db r ≤ quotaBudget key now argv db)) := by
  intro requests wanted missing
  have hreached := reached_of_run hpast
  have hlevels := hreached.level_nonneg key
  have hlength := length_admitted hwhole hwindow hcost hburst hreached.typed hlevels hcalls hids
    (hreached.freshIds hfresh)
  have htotal : ((burst.filter admitted).length : Int) =
      min (wanted - missing.card) (quotaBudget key now argv db) := by
    rw [hlength]
    apply granted_budgetAt hwhole hlevels hcost
    intro r hr
    obtain ⟨step, hstep, rfl⟩ := List.mem_map.mp hr
    exact hresources step hstep
  refine ⟨?_, htotal, ?_⟩
  · rw [htotal, ← Finset.card_eq_zero]
    omega
  · intro r hall
    have hmap : requests = List.replicate burst.length r := by
      rw [List.eq_replicate_iff, List.length_map]
      refine ⟨rfl, fun r' hr' => ?_⟩
      obtain ⟨step, hstep, rfl⟩ := List.mem_map.mp hr'
      exact hall step hstep
    have honly : ∀ r' ∈ List.replicate burst.length r, r' ∈ ({r} : Finset Resource) := by
      intro r' hr'
      exact Finset.mem_singleton.mpr (List.eq_of_mem_replicate hr')
    rw [hlength, show (burst.map fun step => step.event.resource) = requests from rfl, hmap,
      granted_budgetAt hwhole hlevels hcost honly]
    rw [Finset.sum_singleton, Finset.filter_singleton, List.count_replicate_self]
    by_cases hmisses : MissesOne key now argv db r ∧ resourceBudget key now argv db r ≤ burst.length
    · rw [if_pos hmisses, Finset.card_singleton]
      have hbudget := hmisses.2
      simp only [hmisses, true_and]
      push_cast
      omega
    · rw [if_neg hmisses, Finset.card_empty]
      refine iff_of_true (by push_cast; omega) fun h => hmisses ⟨h.1, h.2.1⟩

/-- Three checks of one resource at once, on a bucket of two. -/
theorem exact_admission_sample :
    let first : CheckStep := Step.of Call.exec (sampleCall 5 1 "a") Keyspace.empty
    let second : CheckStep := Step.of Call.exec (sampleCall 5 1 "b") first.after
    let third : CheckStep := Step.of Call.exec (sampleCall 5 1 "c") second.after
    (([first, second, third].filter admitted).length : Int) = min 3 (min 2 4) := by
  intro first second third
  have hburst : Run Call.exec Undisturbed Keyspace.empty [first, second, third] third.after :=
    .cons rfl (.cons rfl (.cons rfl (.nil _)))
  have hcalls : ∀ step ∈ [first, second, third],
      step.event.InBurst sampleKey (sampleTime 5) (scriptArgv samplePlan 1 "") := by
    simp only [List.mem_cons, List.not_mem_nil, or_false, forall_eq_or_imp, forall_eq]
    exact ⟨⟨rfl, rfl, rfl⟩, ⟨rfl, rfl, rfl⟩, ⟨rfl, rfl, rfl⟩⟩
  have hresource : ∀ step ∈ [first, second, third], step.event.resource = sampleResource := by
    simp only [List.mem_cons, List.not_mem_nil, or_false, forall_eq_or_imp, forall_eq]
    exact ⟨rfl, rfl, rfl⟩
  have hbudget : resourceBudget sampleKey (sampleTime 5) (scriptArgv samplePlan 1 "")
      Keyspace.empty sampleResource = 2 := by decide +kernel
  have hquota : quotaBudget sampleKey (sampleTime 5) (scriptArgv samplePlan 1 "")
      Keyspace.empty = 4 := by decide +kernel
  have hpast : Run Call.exec Losing Keyspace.empty [] Keyspace.empty := .nil _
  have hids : ([first, second, third].map fun step => step.event.argv.requestId).Nodup := by
    decide +kernel
  have hkept : ¬ MissesOne sampleKey (sampleTime 5) (scriptArgv samplePlan 1 "") Keyspace.empty
      sampleResource := by
    rintro ⟨stored, hstored, -⟩
    cases hstored
  have hcount := ((exact_admission hpast hburst hcalls
    (fun step hmem => Finset.mem_singleton.mpr (hresource step hmem)) hids
    (fun step hmem => absurd hmem List.not_mem_nil) ⟨1, rfl, samplePlan_withinBounds.burstBounds⟩
    (by decide) (by decide)).2.2 sampleResource hresource).mpr fun h => hkept h.1
  rw [hbudget, hquota] at hcount
  exact hcount

/-- A bucket of 58 at 25 a second was emptied 1.16 seconds ago. That pays for 29 tokens, so for one check
of 29; in doubles it is a microtoken less, and the check is denied. -/
theorem admission_inexact :
    let limits : ResolvedKey :=
      { samplePlan with
        burstCapacity := 58, burstRefillPerSec := 25, sustainedLimit := 1000
        monthlyQuota := 1000 }
    let call (now : Time) (cost : Int) (requestId : String) : Call :=
      ⟨sampleKey, sampleResource, now, scriptArgv limits cost requestId⟩
    let now : Time := ⟨101, 160000, by decide⟩
    let first : CheckStep := Step.of Call.exec (call ⟨100, 0, by decide⟩ 58 "a") Keyspace.empty
    let only : CheckStep := Step.of Call.exec (call now 29 "b") first.after
    limits.WithinBounds ∧ Run Call.exec Losing Keyspace.empty [first] first.after ∧
      Run Call.exec Undisturbed first.after [only] only.after ∧
      resourceBudget sampleKey now (scriptArgv limits 29 "") first.after sampleResource = 1 ∧
      quotaBudget sampleKey now (scriptArgv limits 29 "") first.after = 32 ∧
      ([only].filter admitted).length = 0 := by
  intro limits call now first only
  have hlinked : Run Call.exec Losing Keyspace.empty [first] first.after :=
    .cons (fun _ => .inl rfl) (.nil _)
  refine ⟨?_, hlinked, .cons rfl (.nil _), by decide +kernel, by decide +kernel, by decide +kernel⟩
  constructor <;> decide

end QuotaGuard
