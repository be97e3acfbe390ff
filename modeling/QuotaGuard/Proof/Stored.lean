import QuotaGuard.Proof.Doubles
import QuotaGuard.Proof.Quota
import QuotaGuard.Proof.Window

/-!
# What checks leave in the store

Every stored value was written by an admitted check, which had the limits and the clock to do so. So
the levels, the cardinalities and the counters of a key stay within the highest limits its checks
ever had, and no score lies outside the time the clock has read; a stamp may be a microsecond late.
Keys may be lost at any time.
-/

namespace QuotaGuard

open CheckStep

variable {key : KeyId} {rest : String} {c : Call} {db db' found : Keyspace}

theorem Losing.typed (h : Losing c db found) (htyped : db.Typed) : found.Typed := htyped.of_loss h

/-! ### Where a stored value comes from -/

namespace Call

theorem bucket_after_name {t ts : Int}
    (h : (c.after db).bucket (Family.bucket.name key rest) = some (t, ts)) :
    db.bucket (Family.bucket.name key rest) = some (t, ts) ∨
      (key = c.key ∧ rest = c.resource.val) ∧ c.admits db = true ∧
        t = (c.refilled db).1 - c.argv.cost * utok ∧ ts = (c.refilled db).2 := by
  by_cases hown : key = c.key ∧ rest = c.resource.val
  · obtain ⟨rfl, rfl⟩ := hown
    rw [← bkey_eq] at h ⊢
    by_cases hadmits : c.admits db = true
    · rw [bucket_after_admitted hadmits] at h
      split at h
      · cases h
      · rw [Option.some.injEq, Prod.mk.injEq] at h
        exact .inr ⟨⟨rfl, rfl⟩, hadmits, h.1.symm, h.2.symm⟩
    · rw [bucket_after_denied hadmits] at h
      exact .inl h
  · rw [Keyspace.bucket_congr (after_name hown)] at h
    exact .inl h

theorem mem_window_after_name {p : String × Int}
    (hp : p ∈ ((c.after db).window (Family.window.name key rest)).entries) :
    p ∈ (db.window (Family.window.name key rest)).entries ∨
      (key = c.key ∧ rest = c.resource.val) ∧ c.admits db = true ∧
        p = (windowMember c.now.us c.argv.requestId, c.now.us) := by
  by_cases hown : key = c.key ∧ rest = c.resource.val
  · obtain ⟨rfl, rfl⟩ := hown
    rw [← skey_eq] at hp ⊢
    by_cases hadmits : c.admits db = true
    · rw [window_after_admitted hadmits] at hp
      split at hp
      · exact absurd hp (Finset.notMem_empty p)
      rw [SortedSet.mem_insert, live, SortedSet.mem_removeBelow] at hp
      rcases hp with hnew | ⟨⟨hold, -⟩, -⟩
      · exact .inr ⟨⟨rfl, rfl⟩, hadmits, hnew⟩
      · exact .inl hold
    · rw [window_after_denied hadmits, live, SortedSet.mem_removeBelow] at hp
      exact .inl hp.1
  · rw [Keyspace.window_congr (after_name hown)] at hp
    exact .inl hp

theorem card_window_after_name (c : Call) (db : Keyspace) (key : KeyId) (rest : String) :
    ((c.after db).window (Family.window.name key rest)).card ≤
        (db.window (Family.window.name key rest)).card ∨
      key = c.key ∧
        (((c.after db).window (Family.window.name key rest)).card : Int) ≤ c.argv.sustainedLimit := by
  by_cases hown : key = c.key ∧ rest = c.resource.val
  · obtain ⟨rfl, rfl⟩ := hown
    rw [← skey_eq]
    by_cases hadmits : c.admits db = true
    · exact .inr ⟨rfl, card_after_admitted hadmits⟩
    · exact .inl (card_after_denied hadmits)
  · rw [Keyspace.window_congr (after_name hown)]
    exact .inl le_rfl

end Call

/-! ### Within the highest limits -/

/-- The highest limits the checks of a key ever have. -/
structure Ceilings where
  capUtok : Int
  sustainedLimit : Int
  quotaHard : Int

/-- If it is a check of this key, its limits are sensible and not above the ceilings. -/
structure Call.Under (key : KeyId) (top : Ceilings) (c : Call) : Prop where
  cap : c.key = key → 0 ≤ c.argv.capUtok ∧ c.argv.capUtok ≤ top.capUtok
  sustained : c.key = key → c.argv.sustainedLimit ≤ top.sustainedLimit
  quota : c.key = key → c.argv.quotaHard ≤ top.quotaHard
  cost : c.key = key → 0 ≤ c.argv.cost

/-- The ceilings of the schemas. -/
def Ceilings.schema : Ceilings := ⟨1000000 * utok, 1000000, 1000000000000⟩

/-- The ceilings of limits that never change. -/
def ResolvedKey.ceilings (limits : ResolvedKey) : Ceilings :=
  ⟨limits.burstCapacity * utok, limits.sustainedLimit, limits.monthlyQuota⟩

theorem ResolvedKey.WithinBounds.burstBounds {limits : ResolvedKey} (h : limits.WithinBounds) :
    BurstBounds (limits.burstCapacity * utok) limits.burstRefillPerSec where
  cap := by
    have hcap := h.burstCapacity
    simp only [utok]
    omega
  perSec := h.burstRefillPerSec

namespace Call.MarshalledFor

variable {limits : ResolvedKey}

theorem wholeRate (hc : c.MarshalledFor limits) (hlimits : limits.WithinBounds) :
    c.argv.WholeRate := by
  refine ⟨limits.burstRefillPerSec, hc.rate_eq, ?_⟩
  rw [hc.cap_eq]
  exact hlimits.burstBounds

theorem under (hc : c.MarshalledFor limits) (hlimits : limits.WithinBounds) (key : KeyId) :
    c.Under key limits.ceilings where
  cap := by
    intro _
    rw [hc.cap_eq]
    exact ⟨mul_nonneg (by have := hlimits.burstCapacity.1; omega) utok_pos.le, le_rfl⟩
  sustained := by
    intro _
    rw [hc.argv_eq]
    exact le_rfl
  quota := by
    intro _
    rw [hc.argv_eq]
    exact le_rfl
  cost := fun _ => hc.cost_nonneg

theorem under_schema (hc : c.MarshalledFor limits) (hlimits : limits.WithinBounds) (key : KeyId) :
    c.Under key Ceilings.schema where
  cap := by
    intro hkey
    obtain ⟨hlow, hhigh⟩ := (hc.under hlimits key).cap hkey
    exact ⟨hlow, hhigh.trans (mul_le_mul_of_nonneg_right hlimits.burstCapacity.2 utok_pos.le)⟩
  sustained := fun hkey => ((hc.under hlimits key).sustained hkey).trans hlimits.sustainedLimit.2
  quota := fun hkey => ((hc.under hlimits key).quota hkey).trans hlimits.monthlyQuota.2
  cost := fun _ => hc.cost_nonneg

end Call.MarshalledFor

/-- What is stored for the key is within the ceilings. -/
structure Stored (key : KeyId) (top : Ceilings) (db : Keyspace) : Prop where
  level : ∀ rest t ts, db.bucket (Family.bucket.name key rest) = some (t, ts) →
    0 ≤ t ∧ t ≤ top.capUtok
  card : ∀ rest, ((db.window (Family.window.name key rest)).card : Int) ≤ top.sustainedLimit
  used : ∀ month, 0 ≤ db.counter (quotaName key month) ∧
    db.counter (quotaName key month) ≤ top.quotaHard

namespace Stored

variable {top : Ceilings}

theorem empty (hsustained : 0 ≤ top.sustainedLimit) (hquota : 0 ≤ top.quotaHard) :
    Stored key top Keyspace.empty where
  level := fun _ _ _ => nofun
  card := fun _ => hsustained
  used := fun _ => ⟨le_rfl, hquota⟩

theorem link (h : Stored key top db) (hlink : Losing c db found) (hsustained : 0 ≤ top.sustainedLimit)
    (hquota : 0 ≤ top.quotaHard) : Stored key top found where
  level := by
    intro rest t ts hbucket
    rcases hlink (Family.bucket.name key rest) with hsame | hgone
    · rw [Keyspace.bucket_congr hsame] at hbucket
      exact h.level rest t ts hbucket
    · rw [Keyspace.bucket_of_none hgone] at hbucket
      cases hbucket
  card := by
    intro rest
    rcases hlink (Family.window.name key rest) with hsame | hgone
    · rw [Keyspace.window_congr hsame]
      exact h.card rest
    · rw [Keyspace.window_of_none hgone]
      exact hsustained
  used := by
    intro month
    rcases hlink (quotaName key month) with hsame | hgone
    · rw [Keyspace.counter_congr hsame]
      exact h.used month
    · rw [Keyspace.counter_of_none hgone]
      exact ⟨le_rfl, hquota⟩

/-- The level a check of the key decides on is within the ceilings too. -/
theorem refilled (h : Stored c.key top db) (hc : c.Under c.key top) :
    0 ≤ (c.refilled db).1 ∧ (c.refilled db).1 ≤ top.capUtok := by
  obtain ⟨hcap, hcap'⟩ := hc.cap rfl
  unfold Call.refilled
  cases hbucket : db.bucket c.bkey with
  | none => exact ⟨hcap, hcap'⟩
  | some stored =>
      obtain ⟨t, ts⟩ := stored
      obtain ⟨hlow, hhigh⟩ := h.level c.resource.val t ts hbucket
      exact ⟨refill_nonneg hcap hlow, (refill_le_max ..).trans (max_le hhigh hcap')⟩

theorem check (h : Stored key top db) (hc : c.Under key top) : Stored key top (c.after db) where
  level := by
    intro rest t ts hbucket
    rcases Call.bucket_after_name hbucket with hold | ⟨⟨rfl, rfl⟩, hadmits, rfl, rfl⟩
    · exact h.level rest t ts hold
    · have henough := (Call.admits_iff.mp hadmits).1
      have hcost : 0 ≤ c.argv.cost * utok := mul_nonneg (hc.cost rfl) utok_pos.le
      have hlevel := (h.refilled hc).2
      constructor <;> omega
  card := by
    intro rest
    rcases c.card_window_after_name db key rest with hold | ⟨rfl, hnew⟩
    · have hcard := h.card rest
      omega
    · exact hnew.trans (hc.sustained rfl)
  used := by
    intro month
    have hused := h.used month
    rw [c.counter_after_quotaName]
    split
    · rename_i hown
      obtain ⟨hadmits, rfl, rfl⟩ := hown
      have hroom := (Call.admits_iff.mp hadmits).2.2
      have hquota := hc.quota rfl
      have hcost := hc.cost rfl
      rw [Call.used, Call.qkey_eq_quotaName] at hroom
      constructor <;> omega
    · rwa [add_zero]

end Stored

/-! ### Within the time the clock has read -/

/-- What is stored for the key was written between the two readings. -/
structure Stamped (key : KeyId) (firstUs lastUs : Int) (db : Keyspace) : Prop where
  bucket : ∀ rest t ts, db.bucket (Family.bucket.name key rest) = some (t, ts) →
    firstUs ≤ ts ∧ ts ≤ lastUs + 1
  score : ∀ rest, ∀ p ∈ (db.window (Family.window.name key rest)).entries,
    firstUs ≤ p.2 ∧ p.2 ≤ lastUs

namespace Stamped

variable {firstUs lastUs laterUs : Int}

theorem empty : Stamped key firstUs lastUs Keyspace.empty where
  bucket := fun _ _ _ => nofun
  score := fun _ _ hp => absurd hp (Finset.notMem_empty _)

theorem mono (h : Stamped key firstUs lastUs db) (hle : lastUs ≤ laterUs) :
    Stamped key firstUs laterUs db where
  bucket := fun rest t ts hbucket =>
    ⟨(h.bucket rest t ts hbucket).1, (h.bucket rest t ts hbucket).2.trans (by omega)⟩
  score := fun rest p hp => ⟨(h.score rest p hp).1, (h.score rest p hp).2.trans hle⟩

theorem link (h : Stamped key firstUs lastUs db) (hlink : Losing c db found) :
    Stamped key firstUs lastUs found where
  bucket := by
    intro rest t ts hbucket
    rcases hlink (Family.bucket.name key rest) with hsame | hgone
    · rw [Keyspace.bucket_congr hsame] at hbucket
      exact h.bucket rest t ts hbucket
    · rw [Keyspace.bucket_of_none hgone] at hbucket
      cases hbucket
  score := by
    intro rest p hp
    rcases hlink (Family.window.name key rest) with hsame | hgone
    · rw [Keyspace.window_congr hsame] at hp
      exact h.score rest p hp
    · rw [Keyspace.window_of_none hgone] at hp
      exact absurd hp (Finset.notMem_empty p)

theorem refilled (h : Stamped c.key firstUs lastUs db) (hrate : c.argv.WholeRate)
    (hfirst : firstUs ≤ c.now.us) (hlast : c.now.us ≤ lastUs) :
    firstUs ≤ (c.refilled db).2 ∧ (c.refilled db).2 ≤ lastUs + 1 := by
  unfold Call.refilled
  cases hbucket : db.bucket c.bkey with
  | none => exact ⟨hfirst, show c.now.us ≤ lastUs + 1 by omega⟩
  | some stored =>
      obtain ⟨t, ts⟩ := stored
      obtain ⟨perSec, hperSec, hbounds⟩ := hrate
      obtain ⟨hlow, hhigh⟩ := h.bucket c.resource.val t ts hbucket
      have hcases := refilledNear_refill hbounds c.now.us t ts
      rw [← hperSec] at hcases
      exact ⟨(le_min hlow hfirst).trans hcases.stamp_ge,
        hcases.stamp_le.trans (max_le hhigh (by omega))⟩

theorem check (h : Stamped key firstUs lastUs db) (hrate : c.key = key → c.argv.WholeRate)
    (hfirst : c.key = key → firstUs ≤ c.now.us) (hlast : c.key = key → c.now.us ≤ lastUs) :
    Stamped key firstUs lastUs (c.after db) where
  bucket := by
    intro rest t ts hbucket
    rcases Call.bucket_after_name hbucket with hold | ⟨⟨rfl, rfl⟩, -, -, rfl⟩
    · exact h.bucket rest t ts hold
    · exact h.refilled (hrate rfl) (hfirst rfl) (hlast rfl)
  score := by
    intro rest p hp
    rcases Call.mem_window_after_name hp with hold | ⟨⟨rfl, rfl⟩, -, rfl⟩
    · exact h.score rest p hold
    · exact ⟨hfirst rfl, hlast rfl⟩

end Stamped

/-! ### Along a run -/

theorem typed_of_losing {steps : List CheckStep} (hrun : Run Call.exec Losing db steps db')
    (htyped : db.Typed) : db'.Typed ∧ ∀ step ∈ steps, step.Answered :=
  answered_of_run (fun _ _ _ htyped hlink => hlink.typed htyped) hrun htyped

theorem stored_of_run {top : Ceilings} {steps : List CheckStep}
    (hrun : Run Call.exec Losing db steps db') (htyped : db.Typed) (hstart : Stored key top db)
    (hsustained : 0 ≤ top.sustainedLimit) (hquota : 0 ≤ top.quotaHard)
    (hcalls : ∀ step ∈ steps, step.event.Under key top) :
    Stored key top db' ∧ ∀ step ∈ steps, Stored key top step.before := by
  have hinv := hrun.invariant (I := fun db => db.Typed ∧ Stored key top db)
    (p := fun c => c.Under key top) (fun c db found h hlink =>
      ⟨hlink.typed h.1, h.2.link hlink hsustained hquota⟩) (fun c db hc h => by
      rw [c.exec_after h.1]
      exact ⟨Call.typed_after h.1, h.2.check hc⟩) ⟨htyped, hstart⟩ hcalls
  exact ⟨hinv.1.2, fun step hmem => (hinv.2 step hmem).1.2⟩

theorem stamped_of_run {firstUs lastUs : Int} {steps : List CheckStep}
    (hrun : Run Call.exec Losing db steps db') (htyped : db.Typed)
    (hstart : Stamped key firstUs lastUs db)
    (hcalls : ∀ step ∈ steps, step.event.key = key → step.event.argv.WholeRate ∧
      firstUs ≤ step.us ∧ step.us ≤ lastUs) :
    Stamped key firstUs lastUs db' ∧ ∀ step ∈ steps, Stamped key firstUs lastUs step.before := by
  have hinv := hrun.invariant (I := fun db => db.Typed ∧ Stamped key firstUs lastUs db)
    (p := fun c => c.key = key → c.argv.WholeRate ∧ firstUs ≤ c.now.us ∧ c.now.us ≤ lastUs)
    (fun c db found h hlink => ⟨hlink.typed h.1, h.2.link hlink⟩) (fun c db hc h => by
      rw [c.exec_after h.1]
      exact ⟨Call.typed_after h.1, h.2.check (fun hkey => (hc hkey).1) (fun hkey => (hc hkey).2.1)
        fun hkey => (hc hkey).2.2⟩) ⟨htyped, hstart⟩ hcalls
  exact ⟨hinv.1.2, fun step hmem => (hinv.2 step hmem).1.2⟩

end QuotaGuard
