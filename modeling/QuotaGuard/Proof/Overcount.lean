import QuotaGuard.Service.Overlap
import QuotaGuard.Proof.Admin
import QuotaGuard.Proof.Rollup

/-!
# Usage is never counted twice

Values go from the counters to the rollups and back, with any delay, and keys are lost on the way. What is
in Redis, in the database or in the hands of a run was a value of the counter once, or is the largest of
such values, so it never exceeds what has been admitted by now. A restore rounds the value to a double: that
of a counter, which is within the quota of a check, is one already.
-/

namespace QuotaGuard

open Arithmetic

variable {db db' : Database} {redis redis' : Keyspace} {h h' : History} {s s' : Overlap}
  {total total' : KeyId → String → Int} {key : KeyId} {month : String} {value : Int}

/-! ### What has been admitted -/

/-- What a step adds to the admitted cost of a key and a month. -/
def OverlapStep.charge (key : KeyId) (month : String) (step : OverlapStep) : Int :=
  match step.event, step.reply with
  | .check c _, some reply =>
    if allows reply = true ∧ c.key = key ∧ c.now.monthStr = month then c.argv.cost else 0
  | _, _ => 0

/-- The total cost admitted for a key and a month. -/
def admittedTotal (steps : List OverlapStep) (key : KeyId) (month : String) : Int :=
  (steps.map (OverlapStep.charge key month)).sum

theorem admittedTotal_concat (past : List OverlapStep) (step : OverlapStep) (key : KeyId)
    (month : String) :
    admittedTotal (past ++ [step]) key month =
      admittedTotal past key month + step.charge key month := by
  rw [admittedTotal, List.map_append, List.sum_append, List.map_singleton, List.sum_singleton,
    ← admittedTotal]

/-- What a counter can have come to: what was admitted, and no more than the largest quota. -/
def heldTotal (limit : Int) (steps : List OverlapStep) (key : KeyId) (month : String) : Int :=
  min (admittedTotal steps key month) limit

theorem OverlapStep.charge_nonneg (key : KeyId) (month : String) (step : OverlapStep) :
    0 ≤ step.charge key month := by
  unfold OverlapStep.charge
  split
  · rename_i c hcost reply _ _
    split
    · omega
    · exact le_rfl
  · exact le_rfl

/-! ### What is in hand -/

/-- The value of a scanned counter is within what was admitted for its key and month. -/
def ReadWithin (total : KeyId → String → Int) (pair : String × Int) : Prop :=
  ∀ key month, pair.1 = quotaName key month → pair.2 ≤ total key month

/-- A value for a row id is that of a known key, and within what was admitted for it in the month. -/
def Accounted (db : Database) (total : KeyId → String → Int) (apiKeyId : Nat) (month : String)
    (value : Int) : Prop :=
  ∃ key ∈ db.keys, key.id = apiKeyId ∧ value ≤ total key.keyId month

/-- Everything a run has in hand is within what was admitted. -/
def PhaseWithin (db : Database) (h : History) (total : KeyId → String → Int) : RunPhase → Prop
  | .idle | .ended => True
  | .scanning pairs | .upserting pairs => ∀ pair ∈ pairs, ReadWithin total pair
  | .committing upsert write todo =>
    Accounted db total upsert.apiKeyId upsert.month upsert.used ∧ upsert.Pending write h ∧
      ∀ pair ∈ todo, ReadWithin total pair
  | .restoring rollups =>
    ∀ rollup ∈ rollups, Accounted db total rollup.apiKeyId rollup.month rollup.used

/-- What holds in every state: everything that is stored or in hand is within what was admitted. -/
structure WithinAdmitted (total : KeyId → String → Int) (s : Overlap) : Prop where
  nonneg : ∀ key month, 0 ≤ total key month
  typed : s.redis.Typed
  counters : ∀ key month, s.redis.counter (quotaName key month) ≤ total key month
  rollups : ∀ rollup ∈ s.history.rollups,
    Accounted s.db total rollup.apiKeyId rollup.month rollup.used
  runs : ∀ i, PhaseWithin s.db s.history total (s.runs i)

theorem ReadWithin.mono (hle : ∀ key month, total key month ≤ total' key month) {pair : String × Int}
    (hread : ReadWithin total pair) : ReadWithin total' pair :=
  fun key month hname => (hread key month hname).trans (hle key month)

/-- Every key stays, under its id and its key id. -/
def Database.KeepsKeys (db db' : Database) : Prop :=
  ∀ key ∈ db.keys, ∃ key' ∈ db'.keys, key'.id = key.id ∧ key'.keyId = key.keyId

theorem Database.KeepsKeys.refl (db : Database) : db.KeepsKeys db :=
  fun key hkey => ⟨key, hkey, rfl, rfl⟩

theorem Accounted.mono {apiKeyId : Nat} (hkeys : db.KeepsKeys db')
    (hle : ∀ key month, total key month ≤ total' key month)
    (hvalue : Accounted db total apiKeyId month value) : Accounted db' total' apiKeyId month value := by
  obtain ⟨key, hkey, hid, hvalue⟩ := hvalue
  obtain ⟨key', hkey', hid', hkeyId⟩ := hkeys key hkey
  exact ⟨key', hkey', hid'.trans hid, hkeyId ▸ hvalue.trans (hle _ _)⟩

theorem PhaseWithin.mono {phase : RunPhase} (hkeys : db.KeepsKeys db')
    (hrows : ∀ id slot, h.HasRow id slot → h'.HasRow id slot)
    (hle : ∀ key month, total key month ≤ total' key month) (hphase : PhaseWithin db h total phase) :
    PhaseWithin db' h' total' phase := by
  cases phase with
  | idle => trivial
  | ended => trivial
  | scanning found => exact fun pair hmem => (hphase pair hmem).mono hle
  | upserting todo => exact fun pair hmem => (hphase pair hmem).mono hle
  | committing upsert write todo =>
      exact ⟨hphase.1.mono hkeys hle, hphase.2.1.mono hrows,
        fun pair hmem => (hphase.2.2 pair hmem).mono hle⟩
  | restoring todo => exact fun rollup hmem => (hphase rollup hmem).mono hkeys hle

namespace WithinAdmitted

theorem init {limit : Int} (hlimit : 0 ≤ limit) (db : Database) :
    WithinAdmitted (heldTotal limit []) (Overlap.init db) where
  nonneg := fun _ _ => le_min le_rfl hlimit
  typed := Keyspace.typed_empty
  counters := fun _ _ => le_min le_rfl hlimit
  rollups := fun _ hmem => absurd hmem List.not_mem_nil
  runs := fun _ => trivial

/-- More may be admitted at any time. -/
theorem mono (hle : ∀ key month, total key month ≤ total' key month) (hs : WithinAdmitted total s) :
    WithinAdmitted total' s where
  nonneg := fun key month => (hs.nonneg key month).trans (hle key month)
  typed := hs.typed
  counters := fun key month => (hs.counters key month).trans (hle key month)
  rollups := fun rollup hmem => (hs.rollups rollup hmem).mono (.refl _) hle
  runs := fun i => (hs.runs i).mono (.refl _) (fun _ _ hrow => hrow) hle

/-- Redis may change as long as no counter exceeds what was admitted. -/
theorem of_redis (hs : WithinAdmitted total s) (htyped : redis.Typed)
    (hcounters : ∀ key month, redis.counter (quotaName key month) ≤ total key month) :
    WithinAdmitted total { s with redis } where
  nonneg := hs.nonneg
  typed := htyped
  counters := hcounters
  rollups := hs.rollups
  runs := hs.runs

theorem of_db (hs : WithinAdmitted total s) (hkeys : s.db.KeepsKeys db) :
    WithinAdmitted total { s with db } where
  nonneg := hs.nonneg
  typed := hs.typed
  counters := hs.counters
  rollups := fun rollup hmem => (hs.rollups rollup hmem).mono hkeys fun _ _ => le_rfl
  runs := fun i => (hs.runs i).mono hkeys (fun _ _ hrow => hrow) fun _ _ => le_rfl

theorem of_history (hs : WithinAdmitted total s)
    (hrows : ∀ id slot, s.history.HasRow id slot → h.HasRow id slot)
    (hrollups : ∀ rollup ∈ h.rollups, Accounted s.db total rollup.apiKeyId rollup.month rollup.used) :
    WithinAdmitted total { s with history := h } where
  nonneg := hs.nonneg
  typed := hs.typed
  counters := hs.counters
  rollups := hrollups
  runs := fun i => (hs.runs i).mono (.refl _) hrows fun _ _ => le_rfl

/-- A run moves on with what it has in hand. -/
theorem goto (hs : WithinAdmitted total s) (i : Nat) {phase : RunPhase}
    (hphase : PhaseWithin s.db s.history total phase) : WithinAdmitted total (s.goto i phase) where
  nonneg := hs.nonneg
  typed := hs.typed
  counters := hs.counters
  rollups := hs.rollups
  runs := by
    intro j
    by_cases hij : j = i
    · rw [hij, Overlap.runs_goto_self]
      exact hphase
    · rw [Overlap.runs_goto_of_ne hij]
      exact hs.runs j

end WithinAdmitted

/-! ### One step -/

theorem AdminWrite.commit_keepsKeys {write : AdminWrite} (hcommit : write.commit db = .ok db') :
    db.KeepsKeys db' := by
  intro key hkey
  rcases AdminWrite.commit_cases hkey hcommit with hkept | ⟨columns, -, hwritten⟩
  · exact ⟨key, hkept, rfl, rfl⟩
  · exact ⟨_, hwritten, rfl, rfl⟩

/-- What has been read from a counter is within what was admitted. -/
theorem WithinAdmitted.read (hs : WithinAdmitted total s) {name : String} {entry : Entry}
    (hname : s.redis name = some entry) (hvalue : entry.value.asInt = some value) :
    ReadWithin total (name, value) := by
  intro key month hquota
  change name = quotaName key month at hquota
  have hkind : entry.value.kind = .int :=
    hs.typed .quota (key.val ++ ":" ++ month) entry (hname.symm.trans (congrArg s.redis hquota)).symm
  have hcounter : s.redis.counter (quotaName key month) = value := by
    obtain ⟨stored, deadline⟩ := entry
    cases stored <;> simp only [Value.kind, reduceCtorEq] at hkind
    rw [← hquota, Keyspace.counter, hname]
    exact Option.some.inj hvalue
  exact hcounter ▸ hs.counters key month

theorem accounted_of_upsertOf {name : String} {upsert : Upsert} (hread : ReadWithin total (name, value))
    (hupsert : upsertOf db name value = some upsert) :
    Accounted db total upsert.apiKeyId upsert.month upsert.used := by
  obtain ⟨key, hkey, hid, rfl, rfl⟩ := upsertOf_eq_some hupsert
  exact ⟨key, hkey, hid, hread _ _ rfl⟩

/-- A commit leaves only values that were there, and its own. -/
theorem Upsert.Pending.accounted {upsert : Upsert} {write : RollupWrite}
    (hpending : upsert.Pending write h) (hcommit : write.commit h = .ok h')
    (hown : Accounted db total upsert.apiKeyId upsert.month upsert.used)
    (hrollups : ∀ rollup ∈ h.rollups, Accounted db total rollup.apiKeyId rollup.month rollup.used) :
    ∀ rollup ∈ h'.rollups, Accounted db total rollup.apiKeyId rollup.month rollup.used := by
  intro rollup hmem
  have hafter : h'.used rollup.slot = some rollup.used :=
    History.used_eq_some.mpr ⟨rollup, hmem, rfl, rfl⟩
  have hold (hbefore : h.used rollup.slot = some rollup.used) :
      Accounted db total rollup.apiKeyId rollup.month rollup.used := by
    obtain ⟨old, hold, hslot, hused⟩ := History.used_eq_some.mp hbefore
    obtain ⟨hid, hmonth⟩ := Prod.mk.injEq .. ▸ hslot
    rw [← hid, ← hmonth, ← hused]
    exact hrollups old hold
  have hcommits := hpending.commits
  rw [hcommit] at hcommits
  cases hcommits with
  | kept => exact hold hafter
  | written _ _ hused =>
      by_cases hslot : rollup.slot = upsert.slot
      · rw [hused, hslot, Function.update_self] at hafter
        obtain ⟨hid, hmonth⟩ := Prod.mk.injEq .. ▸ hslot
        rw [hid, hmonth, ← Option.some.inj hafter]
        exact hown
      · rw [hused, Function.update_of_ne hslot] at hafter
        exact hold hafter

section

variable [Arithmetic]

/-- A restore leaves a counter at most at its floor, if not as it was. -/
theorem counter_restored_le (now : Time) (name : String) (floor monthEnd : Int) {bound : Int}
    (hexact : integer bound = bound) (hnonneg : 0 ≤ bound) (hcounter : redis.counter name ≤ bound)
    (hfloor : floor ≤ bound) : (restored now name floor monthEnd redis).counter name ≤ bound := by
  by_cases hlow : redis.IsBelow name floor
  · have hleft := restored_apply now monthEnd hlow
    split at hleft
    · rw [Keyspace.counter_of_none hleft]
      exact hnonneg
    · rw [Keyspace.counter, hleft]
      exact (integer_mono hfloor).trans_eq hexact
  · rw [restored, if_neg hlow]
    exact hcounter

/-- What `restore_from_rollup` may do to Redis. -/
theorem restoreFromRollup_redis (registry : Registry) (now : Time) (key : KeyId) (month : String)
    (rollupValue : Int) (htyped : redis.Typed) :
    (restoreFromRollup registry now key.val month rollupValue redis).2 = redis ∨
      ∃ monthEnd, (restoreFromRollup registry now key.val month rollupValue redis).2 =
        restored now (quotaName key month) rollupValue monthEnd redis := by
  unfold restoreFromRollup
  cases monthEndOfText month with
  | none => exact .inl rfl
  | some monthEnd =>
      simp only
      cases registry.scripts with
      | none => exact .inl rfl
      | some scripts =>
          simp only
          split
          · have hnumber := Keyspace.number_of_holds (htyped .quota (key.val ++ ":" ++ month))
            have hrun : restore ("qg:q:" ++ (key.val ++ ":" ++ month)) rollupValue monthEnd now redis = _ :=
              restore_run now hnumber rollupValue monthEnd
            refine .inr ⟨monthEnd, ?_⟩
            rw [hrun]
            rfl
          · exact .inl rfl

namespace WithinAdmitted

omit [Arithmetic] in
theorem lose {e : OverlapEvent} (hs : WithinAdmitted total s) (hloss : Overlap.Loses e s s') :
    WithinAdmitted total s' := by
  obtain ⟨redis, db, history, runs⟩ := s'
  obtain ⟨rfl, rfl, rfl, hredis⟩ := hloss
  refine hs.of_redis (hs.typed.of_loss hredis) fun key month => ?_
  rcases hredis (quotaName key month) with hsame | hgone
  · rw [Keyspace.counter_congr hsame]
    exact hs.counters key month
  · rw [Keyspace.counter_of_none hgone]
    exact hs.nonneg key month

/-- More is held as more is admitted. -/
theorem held_mono (registry : Registry) (limit : Int) (past : List OverlapStep) (e : OverlapEvent)
    (s : Overlap) (key : KeyId) (month : String) : heldTotal limit past key month ≤
      heldTotal limit (past ++ [Step.of (Overlap.exec registry) e s]) key month := by
  apply min_le_min_right
  rw [admittedTotal_concat]
  exact Int.le_add_of_nonneg_right (OverlapStep.charge_nonneg ..)

/-- An admitted check raises the counter by what it adds to the account, within its quota. -/
theorem check {registry : Registry} {limit : Int} {past : List OverlapStep} {c : Call}
    (hcost : 1 ≤ c.argv.cost) (hquota : c.argv.quotaHard ≤ limit)
    (hs : WithinAdmitted (heldTotal limit past) s) :
    WithinAdmitted (heldTotal limit (past ++ [Step.of (Overlap.exec registry) (.check c hcost) s]))
      { s with redis := (c.exec s.redis).2 } := by
  have hcharge (key : KeyId) (month : String) :
      OverlapStep.charge key month (Step.of (Overlap.exec registry) (.check c hcost) s) =
        if c.admits s.redis = true ∧ c.key = key ∧ c.now.monthStr = month then c.argv.cost else 0 := by
    have hreply : (Step.of (Overlap.exec registry) (.check c hcost) s).reply =
        some (.ok (c.reply s.redis)) := by
      rw [Step.of_reply, Overlap.exec, Call.exec_eq hs.typed]
    rw [OverlapStep.charge, hreply, Step.of_event]
    simp only [allows_reply]
  rw [c.exec_after hs.typed]
  refine (hs.mono (held_mono registry limit past (.check c hcost) s)).of_redis
    (Call.typed_after hs.typed) fun key month => ?_
  have hheld := hs.counters key month
  have hcounter := c.counter_after_quotaName s.redis key month
  rw [heldTotal, admittedTotal_concat, hcharge]
  by_cases hown : c.admits s.redis = true ∧ c.key = key ∧ c.now.monthStr = month
  · have hwithin : (c.after s.redis).counter (quotaName key month) ≤ c.argv.quotaHard := by
      obtain ⟨hadmits, rfl, rfl⟩ := hown
      exact Call.counter_after_le hadmits
    rw [if_pos hown] at hcounter ⊢
    rw [heldTotal] at hheld
    omega
  · rw [if_neg hown] at hcounter ⊢
    rw [hcounter, add_zero, add_zero]
    exact hheld

omit [Arithmetic] in
theorem get (hs : WithinAdmitted total s) (i : Nat) (name : String) :
    WithinAdmitted total (s.get i name) := by
  have hphase := hs.runs i
  unfold Overlap.get
  split
  · rename_i found hfound
    rw [hfound] at hphase
    split
    · exact hs
    · rename_i entry hname
      split
      · rename_i value hvalue
        refine hs.goto i fun pair hmem => ?_
        rcases List.mem_append.mp hmem with hmem | hmem
        · exact hphase pair hmem
        · rw [List.mem_singleton.mp hmem]
          exact hs.read hname hvalue
      · exact hs.goto i trivial
  · exact hs

omit [Arithmetic] in
theorem select (hs : WithinAdmitted total s) (i : Nat) : WithinAdmitted total (s.select i) := by
  have hphase := hs.runs i
  unfold Overlap.select
  split
  · rename_i name value todo htodo
    rw [htodo] at hphase
    obtain ⟨hread, hrest⟩ := List.forall_mem_cons.mp hphase
    split
    · exact hs.goto i hrest
    · rename_i upsert hupsert
      exact hs.goto i ⟨accounted_of_upsertOf hread hupsert, upsertRollup_pending upsert s.history, hrest⟩
  · exact hs

omit [Arithmetic] in
theorem commit (hs : WithinAdmitted total s) (i : Nat) : WithinAdmitted total (s.commit i) := by
  have hphase := hs.runs i
  unfold Overlap.commit
  split
  · rename_i upsert write todo hpending
    rw [hpending] at hphase
    obtain ⟨hown, hmemo, hrest⟩ := hphase
    split
    · rename_i history hcommit
      refine (hs.of_history (fun id slot hrow => RollupWrite.commit_hasRow hrow hcommit) ?_).goto i hrest
      exact hmemo.accounted hcommit hown hs.rollups
    · exact hs.goto i trivial
  · exact hs

theorem restore (hs : WithinAdmitted total s)
    (hexact : ∀ key month, integer (total key month) = total key month) (registry : Registry) (i : Nat)
    (now : Time) : WithinAdmitted total (s.restore registry i now) := by
  have hphase := hs.runs i
  unfold Overlap.restore
  split
  · exact hs.goto i trivial
  · rename_i rollup todo htodo
    rw [htodo] at hphase
    obtain ⟨⟨owner, howner, hid, hfloor⟩, hrest⟩ := List.forall_mem_cons.mp hphase
    split
    · exact hs.goto i hrest
    · rename_i key hfind
      obtain ⟨hkey, hkeyId⟩ := (Table.find?_eq_some_iff s.db.ids).mp hfind
      obtain rfl := Database.key_eq_of_id hkey howner (hid.trans hkeyId.symm)
      refine WithinAdmitted.goto ?_ i hrest
      rcases restoreFromRollup_redis registry now owner.keyId rollup.month rollup.used hs.typed with
        hsame | ⟨monthEnd, hrestored⟩
      · rw [hsame]
        exact hs
      · rw [hrestored]
        refine hs.of_redis (QuotaEvent.typed_restored
          (r := ⟨owner.keyId, rollup.month, rollup.used, monthEnd, now⟩) hs.typed) fun key month => ?_
        by_cases hname : quotaName key month = quotaName owner.keyId rollup.month
        · obtain ⟨rfl, rfl⟩ := quotaName_inj hname
          exact counter_restored_le _ _ _ _ (hexact _ _) (hs.nonneg _ _) (hs.counters _ _) hfloor
        · rw [Keyspace.counter_congr (restored_of_ne hname _ _)]
          exact hs.counters key month
  · exact hs

/-- Every step keeps the invariant, with what the step admits added to the account. -/
theorem step {limit : Int} {past : List OverlapStep} (hlimit : ExactUpTo limit)
    (hs : WithinAdmitted (heldTotal limit past) s) (registry : Registry) (e : OverlapEvent)
    (hquota : ∀ c hcost, e = .check c hcost → c.argv.quotaHard ≤ limit) :
    WithinAdmitted (heldTotal limit (past ++ [Step.of (Overlap.exec registry) e s]))
      (Overlap.exec registry e s).2 := by
  have hle := held_mono registry limit past e s
  cases e with
  | check c hcost => exact hs.check hcost (hquota c hcost rfl)
  | admin write =>
      refine WithinAdmitted.mono hle ?_
      unfold Overlap.exec
      simp only
      split
      · rename_i db hcommit
        exact hs.of_db (AdminWrite.commit_keepsKeys hcommit)
      · exact hs
  | start i =>
      refine WithinAdmitted.mono hle ?_
      unfold Overlap.exec Overlap.step
      simp only
      split
      · exact hs.goto i fun _ hmem => absurd hmem List.not_mem_nil
      · exact hs.goto i fun _ hmem => absurd hmem List.not_mem_nil
      · exact hs
  | get i name => exact (hs.get i name).mono hle
  | scanned i =>
      refine WithinAdmitted.mono hle ?_
      have hphase := hs.runs i
      unfold Overlap.exec Overlap.step
      simp only
      split
      · rename_i found hfound
        rw [hfound] at hphase
        exact hs.goto i hphase
      · exact hs
  | select i => exact (hs.select i).mono hle
  | commit i => exact (hs.commit i).mono hle
  | load i =>
      refine WithinAdmitted.mono hle ?_
      unfold Overlap.exec Overlap.step
      simp only
      split
      · exact hs.goto i hs.rollups
      · exact hs
  | restore i now =>
      refine (hs.restore (fun key month => ?_) registry i now).mono hle
      exact hlimit.integer_eq _ (hs.nonneg key month) (min_le_right _ _)

end WithinAdmitted

/-! ### Every run -/

theorem withinAdmitted_of_run {registry : Registry} {limit : Int} {steps : List OverlapStep}
    (hlimit : ExactUpTo limit)
    (hquota : ∀ step ∈ steps, ∀ c hcost, step.event = .check c hcost → c.argv.quotaHard ≤ limit)
    (hrun : Run (Overlap.exec registry) Overlap.Loses (Overlap.init db) steps s) :
    WithinAdmitted (heldTotal limit steps) s := by
  refine hrun.history (P := fun past s => WithinAdmitted (heldTotal limit past) s)
    (.init hlimit.nonneg db) ?_ hquota
  intro past middle e found hs hloss hquota
  exact (hs.lose hloss).step hlimit registry e hquota

/-- The values a run has in hand that stand for the usage of a key in a month: what it has read from the
counter and not selected a row for yet, what it is about to commit, and the floors it has loaded. -/
inductive RunPhase.Carries (db : Database) (key : KeyId) (month : String) : RunPhase → Int → Prop
  | read {found : List (String × Int)} {value : Int} (hmem : (quotaName key month, value) ∈ found) :
      Carries db key month (.scanning found) value
  | waiting {todo : List (String × Int)} {value : Int} (hmem : (quotaName key month, value) ∈ todo) :
      Carries db key month (.upserting todo) value
  | behind {upsert : Upsert} {write : RollupWrite} {todo : List (String × Int)} {value : Int}
      (hmem : (quotaName key month, value) ∈ todo) :
      Carries db key month (.committing upsert write todo) value
  | upsert {row : ApiKey} {upsert : Upsert} {write : RollupWrite} {todo : List (String × Int)}
      (hrow : row ∈ db.keys) (hkey : row.keyId = key) (hid : row.id = upsert.apiKeyId)
      (hmonth : upsert.month = month) : Carries db key month (.committing upsert write todo) upsert.used
  | floor {row : ApiKey} {rollup : Rollup} {todo : List Rollup} (hmem : rollup ∈ todo)
      (hrow : row ∈ db.keys) (hkey : row.keyId = key) (hid : row.id = rollup.apiKeyId)
      (hmonth : rollup.month = month) : Carries db key month (.restoring todo) rollup.used

omit [Arithmetic] in
theorem Accounted.le {apiKeyId : Nat} {row : ApiKey} (hvalue : Accounted db total apiKeyId month value)
    (hrow : row ∈ db.keys) (hid : row.id = apiKeyId) : value ≤ total row.keyId month := by
  obtain ⟨owner, howner, hownerId, hle⟩ := hvalue
  rwa [Database.key_eq_of_id hrow howner (hownerId.trans hid.symm)] at hle

omit [Arithmetic] in
theorem PhaseWithin.le {phase : RunPhase} (hphase : PhaseWithin db h total phase)
    (hcarries : phase.Carries db key month value) : value ≤ total key month := by
  cases hcarries with
  | read hmem => exact hphase _ hmem key month rfl
  | waiting hmem => exact hphase _ hmem key month rfl
  | behind hmem => exact hphase.2.2 _ hmem key month rfl
  | upsert hrow hkey hid hmonth => exact hkey ▸ hmonth ▸ hphase.1.le hrow hid
  | floor hmem hrow hkey hid hmonth => exact hkey ▸ hmonth ▸ (hphase _ hmem).le hrow hid

/-- **Usage is never over-counted.** From an empty Redis and an empty history, checks, admin commits and
the steps of any number of runs of the job follow each other in any order, with any loss of Redis keys in
between, and with a registry that executes restore.lua or not. The quotas of the checks are integers that Lua
reads as they are: with doubles all below 2^53, of which the request models allow 10^12, and without
rounding any. At any time the counter of a key and a month, every value a run has in hand for it, and the
persisted value are at most the total cost admitted for that key and month so far. -/
theorem usage_never_overcounted {registry : Registry} {limit : Int} {steps : List OverlapStep}
    (hlimit : ExactUpTo limit)
    (hquota : ∀ step ∈ steps, ∀ c hcost, step.event = .check c hcost → c.argv.quotaHard ≤ limit)
    (hrun : Run (Overlap.exec registry) Overlap.Loses (Overlap.init db) steps s) :
    (∀ key month, s.redis.counter (quotaName key month) ≤ admittedTotal steps key month) ∧
      (∀ i key month value, (s.runs i).Carries s.db key month value →
        value ≤ admittedTotal steps key month) ∧
      ∀ rollup ∈ s.history.rollups, ∀ key ∈ s.db.keys, key.id = rollup.apiKeyId →
        rollup.used ≤ admittedTotal steps key.keyId rollup.month := by
  have hs := withinAdmitted_of_run hlimit hquota hrun
  refine ⟨fun key month => ?_, fun i key month value hcarries => ?_, ?_⟩
  · exact (hs.counters key month).trans (min_le_left _ _)
  · exact ((hs.runs i).le hcarries).trans (min_le_left _ _)
  · intro rollup hrollup key hkey hid
    exact ((hs.rollups rollup hrollup).le hkey hid).trans (min_le_left _ _)

end

theorem Overlap.Loses.refl (e : OverlapEvent) (s : Overlap) : Overlap.Loses e s s :=
  ⟨rfl, rfl, rfl, .refl s.redis⟩

/-- A check of cost two is admitted, and a run persists its counter and loads the row. -/
def sampleOverlapEvents : List OverlapEvent :=
  [.check (sampleCall 0 2 "a") (by decide), .start 0, .get 0 (quotaName sampleKey "1970-01"),
    .scanned 0, .select 0, .commit 0, .load 0]

/-- Then the counter is lost and restored, to what was admitted. -/
theorem usage_never_overcounted_sample :
    let exec := Overlap.exec ⟨some ["restore"]⟩
    let loaded := Run.final exec (Overlap.init sampleDatabase) sampleOverlapEvents
    let lost : Overlap :=
      { loaded with redis := Function.update loaded.redis (quotaName sampleKey "1970-01") none }
    let restored := Step.of exec (.restore 0 (sampleTime 60)) lost
    let steps := Run.trace exec (Overlap.init sampleDatabase) sampleOverlapEvents ++ [restored]
    restored.after.redis.counter (quotaName sampleKey "1970-01") = 2 ∧
      restored.after.redis.counter (quotaName sampleKey "1970-01") ≤
        admittedTotal steps sampleKey "1970-01" ∧
      admittedTotal steps sampleKey "1970-01" = 2 := by
  intro exec loaded lost restored steps
  have hloss : Overlap.Loses (.restore 0 (sampleTime 60)) loaded lost := ⟨rfl, rfl, rfl, .single _ _⟩
  have hrun : Run exec Overlap.Loses (Overlap.init sampleDatabase) steps restored.after := by
    refine Run.append_iff.mpr ⟨loaded, (Run.of_events _ _ _).mono fun e s found hlink => ?_,
      .cons hloss (.nil _)⟩
    cases hlink
    exact .refl e s
  have hquota : ∀ step ∈ steps, ∀ c hcost, step.event = .check c hcost →
      c.argv.quotaHard ≤ 2 ^ 53 - 1 := by
    intro step hmem c hcost hevent
    rcases List.mem_append.mp hmem with hfirst | hlast
    · have hlisted := List.mem_map_of_mem (f := Step.event) hfirst
      rw [Run.map_event_trace, hevent] at hlisted
      simp only [sampleOverlapEvents, List.mem_cons, List.not_mem_nil, or_false, reduceCtorEq,
        OverlapEvent.check.injEq] at hlisted
      rw [hlisted]
      decide
    · rw [List.mem_singleton.mp hlast, Step.of_event] at hevent
      cases hevent
  exact ⟨by decide +kernel, (usage_never_overcounted exactUpTo_doubles hquota hrun).1 sampleKey "1970-01",
    by decide +kernel⟩

end QuotaGuard
