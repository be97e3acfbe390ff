import QuotaGuard.Service.Upsert
import QuotaGuard.Proof.Trace
import Mathlib.Order.Bounds.Basic

/-!
# Overlapping upserts

The comparison that is to keep a rollup from being lowered is made on the row that was selected, not on
the row that is written. A persisted value is lowered exactly by an `UPDATE` that finds a larger one; and
the value of an `INSERT` that finds a row already there is lost with its `IntegrityError`. Where neither
happens the upserts of any runs converge to the largest value.
-/

namespace QuotaGuard

open Transaction

variable {calls : Nat → Upsert} {upsert : Upsert} {write : RollupWrite} {h h' : History}
  {slot : Nat × String} {s : UpsertState}

/-! ### The persisted values -/

namespace History

theorem used_eq_some {v : Int} :
    h.used slot = some v ↔ ∃ rollup ∈ h.rollups, rollup.slot = slot ∧ rollup.used = v := by
  rw [used, Option.map_eq_some_iff]
  constructor
  · rintro ⟨rollup, hfind, rfl⟩
    obtain ⟨hmem, hslot⟩ := (Table.find?_eq_some_iff h.rollupSlots).mp hfind
    exact ⟨rollup, hmem, hslot, rfl⟩
  · rintro ⟨rollup, hmem, hslot, rfl⟩
    exact ⟨rollup, (Table.find?_eq_some_iff h.rollupSlots).mpr ⟨hmem, hslot⟩, rfl⟩

theorem used_eq_none : h.used slot = none ↔ slot ∉ h.rollups.map Rollup.slot := by
  simp only [used, Option.map_eq_none_iff, List.find?_eq_none, decide_eq_true_eq, List.mem_map,
    not_exists, not_and]

theorem mem_writeRollup {id : Nat} {used : Int} {quotaLimit : Option Int} {row : Rollup} :
    row ∈ (h.writeRollup id used quotaLimit).rollups ↔ ∃ rollup ∈ h.rollups,
      (if rollup.id = id then { rollup with used, quotaLimit := quotaLimit.getD rollup.quotaLimit }
        else rollup) = row :=
  List.mem_map

theorem mem_writeRollup_iff {rollup row : Rollup} {used : Int} {quotaLimit : Option Int}
    (hrollup : rollup ∈ h.rollups) : row ∈ (h.writeRollup rollup.id used quotaLimit).rollups ↔
      row = { rollup with used, quotaLimit := quotaLimit.getD rollup.quotaLimit } ∨
        row ∈ h.rollups ∧ row ≠ rollup :=
  Table.mem_update_iff h.rollupIds hrollup

/-- An `UPDATE` sets the value of one key and month. -/
theorem used_writeRollup {rollup : Rollup} (hrollup : rollup ∈ h.rollups) (used : Int)
    (quotaLimit : Option Int) :
    (h.writeRollup rollup.id used quotaLimit).used =
      Function.update h.used rollup.slot (some used) := by
  funext slot
  by_cases hslot : slot = rollup.slot
  · rw [hslot, Function.update_self, used_eq_some]
    exact ⟨_, (mem_writeRollup_iff hrollup).mpr (.inl rfl), rfl, rfl⟩
  · rw [Function.update_of_ne hslot]
    ext v
    rw [used_eq_some, used_eq_some]
    constructor
    · rintro ⟨row, hrow, hrowSlot, rfl⟩
      rcases (mem_writeRollup_iff hrollup).mp hrow with rfl | ⟨hold, -⟩
      · exact absurd hrowSlot.symm hslot
      · exact ⟨row, hold, hrowSlot, rfl⟩
    · rintro ⟨other, hother, rfl, rfl⟩
      refine ⟨other, (mem_writeRollup_iff hrollup).mpr (.inr ⟨hother, ?_⟩), rfl, rfl⟩
      rintro rfl
      exact hslot rfl

/-- An `INSERT` sets the value of a key and a month that had none, and raises otherwise. -/
theorem insertRollup_cases (h : History) (upsert : Upsert) :
    (∃ h', h.insertRollup upsert = .ok h' ∧ h.used upsert.slot = none ∧
        h'.rollups = h.rollups ++ [upsert.row (nextId (h.rollups.map Rollup.id))] ∧
        h'.outbox = h.outbox) ∨
      h.insertRollup upsert = .error integrityError ∧ ∃ v, h.used upsert.slot = some v := by
  by_cases hslot : upsert.slot ∈ h.rollups.map Rollup.slot
  · refine .inr ⟨dif_pos hslot, ?_⟩
    obtain ⟨rollup, hmem, hrollup⟩ := List.mem_map.mp hslot
    exact ⟨rollup.used, used_eq_some.mpr ⟨rollup, hmem, hrollup, rfl⟩⟩
  · exact .inl ⟨_, dif_neg hslot, used_eq_none.mpr hslot, rfl, rfl⟩

theorem used_of_append {row : Rollup} (hrows : h'.rollups = h.rollups ++ [row]) :
    h'.used = Function.update h.used row.slot (some row.used) := by
  funext slot
  by_cases hslot : slot = row.slot
  · rw [hslot, Function.update_self, used_eq_some, hrows]
    exact ⟨row, List.mem_append_right _ (List.mem_singleton_self _), rfl, rfl⟩
  · rw [Function.update_of_ne hslot]
    simp only [used, hrows, List.find?_append]
    rw [List.find?_singleton, decide_eq_false (Ne.symm hslot)]
    simp

/-- No persisted value is smaller in the second state. -/
def UsedLE (h h' : History) : Prop :=
  ∀ slot v, h.used slot = some v → ∃ w, h'.used slot = some w ∧ v ≤ w

theorem UsedLE.refl (h : History) : h.UsedLE h := fun _ v hv => ⟨v, hv, le_rfl⟩

/-- One value was set: whether that lowers one depends on what it replaces. -/
theorem usedLE_update_iff {v : Int} (hused : h'.used = Function.update h.used slot (some v)) :
    h.UsedLE h' ↔ ∀ w, h.used slot = some w → w ≤ v := by
  constructor
  · intro hle w hw
    obtain ⟨v', hv', hwv⟩ := hle slot w hw
    rw [hused, Function.update_self] at hv'
    cases hv'
    exact hwv
  · intro hlow slot' w hw
    by_cases hslot : slot' = slot
    · rw [hused, hslot, Function.update_self]
      exact ⟨v, rfl, hlow w (hslot ▸ hw)⟩
    · rw [hused, Function.update_of_ne hslot]
      exact ⟨w, hw, le_rfl⟩

theorem UsedLE.reaches {v : Int} (hle : h.UsedLE h') (hv : ∃ w, h.used slot = some w ∧ v ≤ w) :
    ∃ w, h'.used slot = some w ∧ v ≤ w := by
  obtain ⟨w, hw, hvw⟩ := hv
  obtain ⟨w', hw', hww'⟩ := hle slot w hw
  exact ⟨w', hw', hvw.trans hww'⟩

end History

/-! ### One commit -/

namespace RollupWrite

/-- An `UPDATE` finds no value larger than its own. -/
def FindsNoLarger (write : RollupWrite) (h : History) : Prop :=
  ∀ id used quotaLimit, write = .update id used quotaLimit →
    ∀ rollup ∈ h.rollups, rollup.id = id → rollup.used ≤ used

/-- An `INSERT` finds no row of its key and month, or one whose value is as large as its own. -/
def FindsNoSmaller (write : RollupWrite) (h : History) : Prop :=
  ∀ upsert, write = .insert upsert →
    ∀ rollup ∈ h.rollups, rollup.slot = upsert.slot → upsert.used ≤ rollup.used

end RollupWrite

/-- A row of the given id and of the given key and month is in the table. -/
def History.HasRow (h : History) (id : Nat) (slot : Nat × String) : Prop :=
  ∃ rollup ∈ h.rollups, rollup.id = id ∧ rollup.slot = slot

/-- What a call has pending is its own upsert, and the row it is to update is in the table. -/
def Upsert.Pending (upsert : Upsert) (write : RollupWrite) (h : History) : Prop :=
  match write with
  | .keep => True
  | .update id used _ => used = upsert.used ∧ h.HasRow id upsert.slot
  | .insert other => other = upsert

/-- What a commit does to the persisted values. -/
inductive Commits (upsert : Upsert) (write : RollupWrite) (h : History) :
    Except SqlError History → Prop
  | kept (hwrite : write = .keep) : Commits upsert write h (.ok h)
  | written (h' : History) (hwrite : write ≠ .keep)
      (hused : h'.used = Function.update h.used upsert.slot (some upsert.used)) :
      Commits upsert write h (.ok h')
  | raised (hwrite : write = .insert upsert) (e : SqlError) (hfound : ∃ v, h.used upsert.slot = some v) :
      Commits upsert write h (.error e)

theorem Upsert.Pending.commits (hpending : upsert.Pending write h) :
    Commits upsert write h (write.commit h) := by
  cases write with
  | keep => exact .kept rfl
  | update id used quotaLimit =>
      obtain ⟨rfl, rollup, hrollup, rfl, hslot⟩ := hpending
      refine .written _ (by simp) ?_
      rw [h.used_writeRollup hrollup, hslot]
  | insert other =>
      obtain rfl : other = upsert := hpending
      show Commits other _ h (h.insertRollup other)
      rcases h.insertRollup_cases other with ⟨h', hok, -, hrows, -⟩ | ⟨herror, hfound⟩
      · rw [hok]
        exact .written h' (by simp) (h.used_of_append hrows)
      · rw [herror]
        exact .raised rfl _ hfound

/-- A committed value lowers none exactly when an `UPDATE` finds no larger one: an `INSERT` that goes
through has found none at all. -/
theorem Upsert.Pending.usedLE_iff (hpending : upsert.Pending write h) (hcommit : write.commit h = .ok h') :
    h.UsedLE h' ↔ write.FindsNoLarger h := by
  cases write with
  | keep =>
      cases hcommit
      exact ⟨fun _ _ _ _ hwrite => (by cases hwrite), fun _ => .refl h⟩
  | update id used quotaLimit =>
      obtain ⟨rfl, rollup, hrollup, rfl, hslot⟩ := hpending
      cases hcommit
      rw [History.usedLE_update_iff (h.used_writeRollup hrollup upsert.used quotaLimit)]
      constructor
      · intro hlow id used quotaLimit' hwrite other hother hid
        cases hwrite
        rw [h.rollup_eq_of_id hrollup hother hid]
        exact hlow _ (History.used_eq_some.mpr ⟨rollup, hrollup, rfl, rfl⟩)
      · intro hfinds w hw
        obtain ⟨other, hother, hsame, rfl⟩ := History.used_eq_some.mp hw
        rw [h.rollup_eq_of_slot hrollup hother hsame]
        exact hfinds _ _ _ rfl rollup hrollup rfl
  | insert other =>
      obtain rfl : other = upsert := hpending
      rcases h.insertRollup_cases other with ⟨h'', hok, hfree, hrows, -⟩ | ⟨herror, -⟩
      · rw [RollupWrite.commit, hok] at hcommit
        cases hcommit
        refine ⟨fun _ _ _ _ hwrite => (by cases hwrite), fun _ => ?_⟩
        rw [History.usedLE_update_iff (h.used_of_append hrows)]
        intro w hw
        change h.used other.slot = some w at hw
        rw [hfree] at hw
        cases hw
      · rw [RollupWrite.commit, herror] at hcommit
        cases hcommit

theorem upsertRollup_pending (upsert : Upsert) (h : History) :
    upsert.Pending (upsertRollup upsert h) h := by
  unfold upsertRollup
  cases hfind : h.rollups.find? fun rollup => rollup.slot = upsert.slot with
  | none => exact rfl
  | some existing =>
      obtain ⟨hmem, hslot⟩ := (Table.find?_eq_some_iff h.rollupSlots).mp hfind
      simp only
      split
      · exact ⟨rfl, existing, hmem, rfl, hslot⟩
      · trivial

/-- A row that is selected and not written is as large already. -/
theorem used_of_upsertRollup_keep (hkeep : upsertRollup upsert h = .keep) :
    ∃ v, h.used upsert.slot = some v ∧ upsert.used ≤ v := by
  unfold upsertRollup at hkeep
  cases hfind : h.rollups.find? fun rollup => rollup.slot = upsert.slot with
  | none =>
      rw [hfind] at hkeep
      cases hkeep
  | some existing =>
      obtain ⟨hmem, hslot⟩ := (Table.find?_eq_some_iff h.rollupSlots).mp hfind
      rw [hfind] at hkeep
      simp only at hkeep
      split at hkeep
      · cases hkeep
      · rename_i hle
        exact ⟨_, History.used_eq_some.mpr ⟨existing, hmem, hslot, rfl⟩, not_lt.mp hle⟩

/-- Rows stay, under their ids. -/
theorem RollupWrite.commit_hasRow {id : Nat} (hrow : h.HasRow id slot) (hcommit : write.commit h = .ok h') :
    h'.HasRow id slot := by
  obtain ⟨rollup, hmem, rfl, rfl⟩ := hrow
  cases write with
  | keep =>
      cases hcommit
      exact ⟨rollup, hmem, rfl, rfl⟩
  | update id used quotaLimit =>
      cases hcommit
      refine ⟨_, History.mem_writeRollup.mpr ⟨rollup, hmem, rfl⟩, ?_, ?_⟩ <;> split <;> rfl
  | insert upsert =>
      rcases h.insertRollup_cases upsert with ⟨h'', hok, -, hrows, -⟩ | ⟨herror, -⟩
      · rw [RollupWrite.commit, hok] at hcommit
        cases hcommit
        exact ⟨rollup, hrows ▸ List.mem_append_left _ hmem, rfl, rfl⟩
      · rw [RollupWrite.commit, herror] at hcommit
        cases hcommit

theorem Upsert.Pending.mono (hpending : upsert.Pending write h)
    (hrows : ∀ id slot, h.HasRow id slot → h'.HasRow id slot) : upsert.Pending write h' := by
  cases write with
  | keep => trivial
  | update id used quotaLimit => exact ⟨hpending.1, hrows _ _ hpending.2⟩
  | insert other => exact hpending

/-! ### A run -/

/-- In every state, every call has its own upsert pending. -/
def UpsertsPending (calls : Nat → Upsert) (s : UpsertState) : Prop :=
  Remembered (fun i write => (calls i).Pending write s.store) s

theorem upsertsPending_step (a : Action Nat) (hpending : UpsertsPending calls s) :
    UpsertsPending calls (upsertExec calls a s).2 := by
  have heffect := step_effect (fun i => (calls i).request) a s
  show UpsertsPending calls (Transaction.step (fun i => (calls i).request) a s)
  generalize Transaction.step (fun i => (calls i).request) a s = s' at heffect ⊢
  cases heffect with
  | idle => exact hpending
  | refused hphase hread => cases hread
  | @read i write hphase hread =>
      cases hread
      refine Remembered.goto hpending fun write hwrite => ?_
      cases hwrite
      exact upsertRollup_pending (calls i) s.store
  | @failed i write e hphase hcommit =>
      exact Remembered.goto hpending fun write hwrite => by cases hwrite
  | @committed i write store hphase hcommit =>
      have hkept : Remembered (fun i write => (calls i).Pending write store) s :=
        fun j write' hwrite' => (hpending j write' hwrite').mono fun _ _ hrow =>
          RollupWrite.commit_hasRow hrow hcommit
      exact Remembered.goto hkept fun write hwrite => by cases hwrite

/-- A step lowers no value exactly when its commit is clean. -/
theorem usedLE_step_iff (a : Action Nat) (hpending : UpsertsPending calls s) :
    s.store.UsedLE (upsertExec calls a s).2.store ↔
      Clean (fun _ => RollupWrite.FindsNoLarger) a s := by
  show s.store.UsedLE (Transaction.step (fun i => (calls i).request) a s).store ↔ _
  cases a with
  | read i =>
      rw [store_read]
      exact ⟨fun _ => clean_read i s, fun _ => .refl _⟩
  | commit i =>
      by_cases hphase : ∃ write, s.phase i = .pending write
      · obtain ⟨write, hphase⟩ := hphase
        rw [clean_commit_iff hphase]
        cases hcommit : write.commit s.store with
        | ok store =>
            have hstep : Transaction.step (fun i => (calls i).request) (.commit i) s =
                State.goto i .returned { s with store } := step_commit_of_ok hphase hcommit
            rw [hstep]
            exact (hpending i write hphase).usedLE_iff hcommit
        | error e =>
            have hstep : Transaction.step (fun i => (calls i).request) (.commit i) s =
                s.goto i (.raised e) := step_commit_of_error hphase hcommit
            rw [hstep]
            refine ⟨fun _ _ _ _ hwrite => ?_, fun _ => .refl _⟩
            rw [hwrite] at hcommit
            cases hcommit
      · have hidle : ∀ write, s.phase i ≠ .pending write := fun write h => hphase ⟨write, h⟩
        rw [step_commit_of_not_pending hidle]
        exact ⟨fun _ j write hcommit => by cases hcommit; exact fun h => absurd h (hidle write),
          fun _ => .refl _⟩

/-- What has become of the upserts of a key and a month: the persisted value is at least the one at the
start and those of the upserts that have completed or have nothing to write, and it is one of these. -/
structure Converging (calls : Nat → Upsert) (h : History) (slot : Nat × String) (s : UpsertState) :
    Prop where
  start : ∀ v, h.used slot = some v → ∃ w, s.store.used slot = some w ∧ v ≤ w
  reached : ∀ i, (calls i).slot = slot → s.phase i ≠ .called →
    (∀ write, s.phase i = .pending write → write = .keep) →
    ∃ w, s.store.used slot = some w ∧ (calls i).used ≤ w
  source : ∀ v, s.store.used slot = some v →
    h.used slot = some v ∨ ∃ i, (calls i).slot = slot ∧ s.phase i ≠ .called ∧ (calls i).used = v

namespace Converging

theorem init (calls : Nat → Upsert) (h : History) (slot : Nat × String) :
    Converging calls h slot (State.start h) where
  start := fun v hv => ⟨v, hv, le_rfl⟩
  reached := fun _ _ hcalled => absurd rfl hcalled
  source := fun _ hv => .inl hv

/-- A call moves on, to a store whose values are no smaller: its own upsert is reached where it has to
be, and accounts for what is new. -/
theorem goto (hconv : Converging calls h slot s) {i : Nat} {phase : Phase RollupWrite SqlError}
    {store : History} (hcalled : phase ≠ .called) (hle : s.store.UsedLE store)
    (hreached : (calls i).slot = slot → (∀ write, phase = .pending write → write = .keep) →
      ∃ w, store.used slot = some w ∧ (calls i).used ≤ w)
    (hsource : ∀ v, store.used slot = some v →
      s.store.used slot = some v ∨ (calls i).slot = slot ∧ (calls i).used = v) :
    Converging calls h slot (State.goto i phase { s with store }) where
  start := fun v hv => hle.reaches (hconv.start v hv)
  reached := by
    intro j hslot hj hkeep
    by_cases hij : j = i
    · rw [hij, State.phase_goto_self] at hkeep
      exact hij ▸ hreached (hij ▸ hslot) hkeep
    · rw [State.phase_goto_of_ne hij] at hj hkeep
      exact hle.reaches (hconv.reached j hslot hj hkeep)
  source := by
    intro v hv
    rcases hsource v hv with hold | ⟨hslot, hused⟩
    · rcases hconv.source v hold with hstart | ⟨j, hslot, hj, hused⟩
      · exact .inl hstart
      · refine .inr ⟨j, hslot, ?_, hused⟩
        by_cases hij : j = i
        · rw [hij, State.phase_goto_self]
          exact hcalled
        · rw [State.phase_goto_of_ne hij]
          exact hj
    · refine .inr ⟨i, hslot, ?_, hused⟩
      rw [State.phase_goto_self]
      exact hcalled

theorem step {a : Action Nat} (hconv : Converging calls h slot s) (hpending : UpsertsPending calls s)
    (hclean : Clean (fun _ write h => write.FindsNoLarger h ∧ write.FindsNoSmaller h) a s) :
    Converging calls h slot (upsertExec calls a s).2 := by
  have heffect := step_effect (fun i => (calls i).request) a s
  show Converging calls h slot (Transaction.step (fun i => (calls i).request) a s)
  generalize Transaction.step (fun i => (calls i).request) a s = s' at heffect ⊢
  cases heffect with
  | idle => exact hconv
  | refused hphase hread => cases hread
  | @read i write hphase hread =>
      cases hread
      refine hconv.goto (by simp) (.refl _) (fun hslot hkeep => ?_) fun v hv => .inl hv
      exact hslot ▸ used_of_upsertRollup_keep (hkeep _ rfl)
  | @failed i write e hphase hcommit =>
      refine hconv.goto (by simp) (.refl _) (fun hslot _ => ?_) fun v hv => .inl hv
      have hcommits := (hpending i write hphase).commits
      change write.commit s.store = .error e at hcommit
      rw [hcommit] at hcommits
      cases hcommits with
      | raised hwrite _ hfound =>
          obtain ⟨v, hv⟩ := hfound
          obtain ⟨rollup, hrollup, hsame, rfl⟩ := History.used_eq_some.mp hv
          exact ⟨_, hslot ▸ hv, (hclean i write rfl hphase).2 _ hwrite rollup hrollup hsame⟩
  | @committed i write store hphase hcommit =>
      change write.commit s.store = .ok store at hcommit
      have hle : s.store.UsedLE store :=
        ((hpending i write hphase).usedLE_iff hcommit).mpr (hclean i write rfl hphase).1
      have hcommits := (hpending i write hphase).commits
      rw [hcommit] at hcommits
      cases hcommits with
      | kept hwrite =>
          refine hconv.goto (by simp) hle (fun hslot _ => ?_) fun v hv => .inl hv
          refine hconv.reached i hslot (by simp [hphase]) fun other hother => ?_
          rw [hphase] at hother
          cases hother
          exact hwrite
      | written _ _ hused =>
          refine hconv.goto (by simp) hle (fun hslot _ => ?_) fun v hv => ?_
          · rw [hused, hslot, Function.update_self]
            exact ⟨_, rfl, le_rfl⟩
          · by_cases hslot : slot = (calls i).slot
            · rw [hused, hslot, Function.update_self] at hv
              exact .inr ⟨hslot.symm, Option.some.inj hv⟩
            · rw [hused, Function.update_of_ne hslot] at hv
              exact .inl hv

end Converging

/-- The values that a key and a month has had to reach. -/
def Tried (calls : Nat → Upsert) (h : History) (slot : Nat × String) (s : UpsertState) : Set Int :=
  { v | h.used slot = some v ∨
    ∃ i, (calls i).slot = slot ∧ s.phase i ≠ .called ∧ (calls i).used = v }

theorem Converging.used_iff (hconv : Converging calls h slot s)
    (hcompleted : ∀ i, (calls i).slot = slot → ∀ write, s.phase i ≠ .pending write) (v : Int) :
    s.store.used slot = some v ↔ IsGreatest (Tried calls h slot s) v := by
  have hreached : ∀ w ∈ Tried calls h slot s, ∃ u, s.store.used slot = some u ∧ w ≤ u := by
    rintro w (hstart | ⟨i, hslot, hi, rfl⟩)
    · exact hconv.start w hstart
    · exact hconv.reached i hslot hi fun write hwrite => absurd hwrite (hcompleted i hslot write)
  constructor
  · intro hv
    refine ⟨hconv.source v hv, fun w hw => ?_⟩
    obtain ⟨u, hu, hwu⟩ := hreached w hw
    rw [hv] at hu
    cases hu
    exact hwu
  · rintro ⟨hmem, hgreatest⟩
    obtain ⟨u, hu, hvu⟩ := hreached v hmem
    rw [hu, le_antisymm hvu (hgreatest (hconv.source u hu))]

/-- **Overlapping upserts converge in a clean run.** The steps of any upserts interleave in any order.
No commit lowers a persisted value exactly when no `UPDATE` finds a value larger than its own. If, in
addition, no `INSERT` finds a row with a smaller value: once no upsert of a key and a month waits for its
commit, what is persisted is the largest of the value at the start and all the values tried. -/
theorem upserts_converge {steps : List UpsertStep}
    (hrun : Run (upsertExec calls) Undisturbed (State.start h) steps s) :
    ((∀ step ∈ steps, step.before.store.UsedLE step.after.store) ↔
        ∀ step ∈ steps, Clean (fun _ => RollupWrite.FindsNoLarger) step.event step.before) ∧
      ((∀ step ∈ steps, Clean (fun _ write h => write.FindsNoLarger h ∧ write.FindsNoSmaller h)
          step.event step.before) →
        ∀ slot, (∀ i, (calls i).slot = slot → ∀ write, s.phase i ≠ .pending write) →
          ∀ v, s.store.used slot = some v ↔
            IsGreatest { w | h.used slot = some w ∨
              ∃ i, (calls i).slot = slot ∧ s.phase i ≠ .called ∧ (calls i).used = w } v) := by
  have hpending := (hrun.invariant (I := UpsertsPending calls) (p := fun _ => True)
    (fun _ s found hinv hlink => (show found = s from hlink) ▸ hinv)
    (fun a s _ hinv => upsertsPending_step a hinv) (Remembered.start _ _) fun _ _ => trivial).2
  constructor
  · refine forall₂_congr fun step hmem => ?_
    rw [hrun.eq_of hmem]
    exact usedLE_step_iff _ (hpending step hmem).1
  · intro hclean slot hcompleted v
    refine Converging.used_iff ?_ hcompleted v
    refine (hrun.history (P := fun _ s => Converging calls h slot s ∧ UpsertsPending calls s)
      ⟨.init calls h slot, Remembered.start _ _⟩ ?_ hclean).1
    intro _ middle a found hinv hlink hok
    cases hlink
    exact ⟨hinv.1.step hinv.2 hok, upsertsPending_step a hinv.2⟩

/-- Two runs have read 10 and 20 for one month of a key; the other upserts are of another month. -/
def sampleUpserts : Nat → Upsert
  | 0 => ⟨1, "1970-01", 10, 4⟩
  | 1 => ⟨1, "1970-01", 20, 4⟩
  | _ => ⟨1, "1970-02", 7, 4⟩

def sampleRollups : History :=
  { History.empty with
    rollups := [⟨1, 1, "1970-01", 5, 4⟩]
    rollupIds := List.nodup_singleton _
    rollupSlots := List.nodup_singleton _ }

/-- Both runs select the row before either commits, and commit in the order of their values. -/
theorem upserts_converge_sample :
    let s := Run.final (upsertExec sampleUpserts) (State.start sampleRollups)
      [.read 0, .read 1, .commit 0, .commit 1]
    s.store.used (1, "1970-01") = some 20 ∧
      IsGreatest { w | sampleRollups.used (1, "1970-01") = some w ∨ ∃ i,
        (sampleUpserts i).slot = (1, "1970-01") ∧ s.phase i ≠ .called ∧ (sampleUpserts i).used = w } 20 := by
  intro s
  have hclean : ∀ step ∈ Run.trace (upsertExec sampleUpserts) (State.start sampleRollups)
      [.read 0, .read 1, .commit 0, .commit 1],
      Clean (fun _ write h => write.FindsNoLarger h ∧ write.FindsNoSmaller h)
        step.event step.before := by
    simp only [Run.trace, List.mem_cons, List.not_mem_nil, or_false, forall_eq_or_imp, forall_eq,
      Step.of_event, Step.of_before]
    refine ⟨clean_read 0 _, clean_read 1 _, clean_commit (.update 1 10 none) (by decide +kernel) ?_,
      clean_commit (.update 1 20 none) (by decide +kernel) ?_⟩
    all_goals
      refine ⟨fun id used quotaLimit hwrite => ?_, fun upsert hwrite => by cases hwrite⟩
      cases hwrite
      decide +kernel
  have hcompleted : ∀ i, (sampleUpserts i).slot = (1, "1970-01") → ∀ write,
      s.phase i ≠ .pending write := by
    intro i hslot write
    rcases i with _ | _ | i
    · have hreturned : s.phase 0 = .returned := by decide +kernel
      simp [hreturned]
    · have hreturned : s.phase 1 = .returned := by decide +kernel
      simp [hreturned]
    · exact absurd hslot (by simp [sampleUpserts, Upsert.slot])
  have hused : s.store.used (1, "1970-01") = some 20 := by decide +kernel
  exact ⟨hused,
    ((upserts_converge (Run.of_events _ _ _)).2 hclean (1, "1970-01") hcompleted 20).mp hused⟩

/-- Both runs select the row, and the smaller value is committed last: 20 is lowered to 10. Both runs
find no row, and the larger value is inserted last: it is lost with an `IntegrityError`. -/
theorem upserts_lost :
    (let s := Run.final (upsertExec sampleUpserts) (State.start sampleRollups)
      [.read 0, .read 1, .commit 1]
     let s' := Run.final (upsertExec sampleUpserts) s [.commit 0]
     (∃ steps, Run (upsertExec sampleUpserts) Undisturbed (State.start sampleRollups) steps s) ∧
       (∃ steps, Run (upsertExec sampleUpserts) Undisturbed s steps s') ∧
       s.store.used (1, "1970-01") = some 20 ∧ s'.store.used (1, "1970-01") = some 10 ∧
       s'.phase 0 = .returned ∧ s'.phase 1 = .returned) ∧
    (let s := Run.final (upsertExec sampleUpserts) (State.start History.empty)
      [.read 0, .read 1, .commit 0, .commit 1]
     (∃ steps, Run (upsertExec sampleUpserts) Undisturbed (State.start History.empty) steps s) ∧
       s.phase 0 = .returned ∧ s.phase 1 = .raised integrityError ∧
       s.store.used (1, "1970-01") = some 10) := by
  constructor
  · exact ⟨⟨_, Run.of_events _ _ _⟩, ⟨_, Run.of_events _ _ _⟩, by decide +kernel, by decide +kernel,
      by decide +kernel, by decide +kernel⟩
  · exact ⟨⟨_, Run.of_events _ _ _⟩, by decide +kernel, by decide +kernel, by decide +kernel⟩

end QuotaGuard
