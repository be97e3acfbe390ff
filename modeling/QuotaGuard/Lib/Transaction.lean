import QuotaGuard.Lib.Run
import Mathlib.Logic.Function.Basic

/-!
# Requests that read first and commit later

A request reads a store, decides on what it has read, and commits its decision later, to whatever the
store has become in between. Nothing ties the two steps: any number of other requests may read and
commit between them. All that a commit can rely on is what it remembers and what it finds, so an
invariant of the store survives the commits that find what they rely on, and these are called clean.
-/

namespace Transaction

/-- A request: what it decides from the store it reads, and what it makes of the store it finds later.
Where a step raises, nothing is written. -/
structure Request (σ μ ε : Type*) where
  read : σ → Except ε μ
  commit : μ → σ → Except ε σ

/-- Where a request stands. -/
inductive Phase (μ ε : Type*) where
  | called
  | pending (memo : μ)
  | raised (error : ε)
  | returned
  deriving DecidableEq

structure State (ι σ μ ε : Type*) where
  store : σ
  phase : ι → Phase μ ε

/-- Whose step it is. -/
inductive Action (ι : Type*) where
  | read (i : ι)
  | commit (i : ι)

variable {ι σ μ ε : Type*}

def State.start (store : σ) : State ι σ μ ε := ⟨store, fun _ => .called⟩

/-- Every memo that waits for its commit satisfies `M`. -/
def Remembered (M : ι → μ → Prop) (s : State ι σ μ ε) : Prop :=
  ∀ i memo, s.phase i = .pending memo → M i memo

theorem Remembered.start (M : ι → μ → Prop) (store : σ) :
    Remembered M (State.start store : State ι σ μ ε) := by
  intro i memo hphase
  cases hphase

/-- The commits of a step find what the condition asks for. -/
def Clean (C : ι → μ → σ → Prop) (a : Action ι) (s : State ι σ μ ε) : Prop :=
  ∀ i memo, a = .commit i → s.phase i = .pending memo → C i memo s.store

theorem clean_read {C : ι → μ → σ → Prop} (i : ι) (s : State ι σ μ ε) : Clean C (.read i) s := by
  intro j memo hcommit
  cases hcommit

theorem clean_commit {C : ι → μ → σ → Prop} {i : ι} {s : State ι σ μ ε} (memo : μ)
    (hphase : s.phase i = .pending memo) (hfound : C i memo s.store) : Clean C (.commit i) s := by
  intro j memo' hcommit hpending
  cases hcommit
  rw [hphase] at hpending
  cases hpending
  exact hfound

theorem clean_commit_iff {C : ι → μ → σ → Prop} {i : ι} {s : State ι σ μ ε} {memo : μ}
    (hphase : s.phase i = .pending memo) : Clean C (.commit i) s ↔ C i memo s.store :=
  ⟨fun hclean => hclean i memo rfl hphase, clean_commit memo hphase⟩

variable [DecidableEq ι]

namespace State

def goto (i : ι) (phase : Phase μ ε) (s : State ι σ μ ε) : State ι σ μ ε :=
  { s with phase := Function.update s.phase i phase }

@[simp] theorem store_goto (i : ι) (phase : Phase μ ε) (s : State ι σ μ ε) :
    (s.goto i phase).store = s.store := rfl

@[simp] theorem phase_goto_self (i : ι) (phase : Phase μ ε) (s : State ι σ μ ε) :
    (s.goto i phase).phase i = phase :=
  Function.update_self ..

theorem phase_goto_of_ne {i j : ι} (hne : j ≠ i) (phase : Phase μ ε) (s : State ι σ μ ε) :
    (s.goto i phase).phase j = s.phase j :=
  Function.update_of_ne hne ..

end State

/-- A step that cannot happen does nothing. -/
def step (requests : ι → Request σ μ ε) (a : Action ι) (s : State ι σ μ ε) : State ι σ μ ε :=
  match a with
  | .read i =>
    match s.phase i with
    | .called =>
      match (requests i).read s.store with
      | .ok memo => s.goto i (.pending memo)
      | .error e => s.goto i (.raised e)
    | _ => s
  | .commit i =>
    match s.phase i with
    | .pending memo =>
      match (requests i).commit memo s.store with
      | .ok store => State.goto i .returned { s with store }
      | .error e => s.goto i (.raised e)
    | _ => s

def exec (requests : ι → Request σ μ ε) (a : Action ι) (s : State ι σ μ ε) :
    Unit × State ι σ μ ε :=
  ((), step requests a s)

variable {requests : ι → Request σ μ ε} {s s' : State ι σ μ ε} {a : Action ι}

/-- What a step can do. -/
inductive Effect (requests : ι → Request σ μ ε) (s : State ι σ μ ε) :
    Action ι → State ι σ μ ε → Prop
  | idle (a : Action ι) : Effect requests s a s
  | refused {i : ι} {e : ε} (hphase : s.phase i = .called)
      (hread : (requests i).read s.store = .error e) :
      Effect requests s (.read i) (s.goto i (.raised e))
  | read {i : ι} {memo : μ} (hphase : s.phase i = .called)
      (hread : (requests i).read s.store = .ok memo) :
      Effect requests s (.read i) (s.goto i (.pending memo))
  | failed {i : ι} {memo : μ} {e : ε} (hphase : s.phase i = .pending memo)
      (hcommit : (requests i).commit memo s.store = .error e) :
      Effect requests s (.commit i) (s.goto i (.raised e))
  | committed {i : ι} {memo : μ} {store : σ} (hphase : s.phase i = .pending memo)
      (hcommit : (requests i).commit memo s.store = .ok store) :
      Effect requests s (.commit i) (State.goto i .returned { s with store })

theorem step_effect (requests : ι → Request σ μ ε) (a : Action ι) (s : State ι σ μ ε) :
    Effect requests s a (step requests a s) := by
  cases a with
  | read i =>
      simp only [step]
      cases hphase : s.phase i with
      | called =>
          cases hread : (requests i).read s.store with
          | ok memo => exact .read hphase hread
          | error e => exact .refused hphase hread
      | pending memo => exact .idle _
      | raised e => exact .idle _
      | returned => exact .idle _
  | commit i =>
      simp only [step]
      cases hphase : s.phase i with
      | called => exact .idle _
      | pending memo =>
          simp only
          cases hcommit : (requests i).commit memo s.store with
          | ok store => exact .committed hphase hcommit
          | error e => exact .failed hphase hcommit
      | raised e => exact .idle _
      | returned => exact .idle _

/-! ### What a step does to the store -/

theorem store_read (i : ι) : (step requests (.read i) s).store = s.store := by
  have heffect := step_effect requests (.read i) s
  generalize step requests (.read i) s = s' at heffect ⊢
  cases heffect <;> rfl

/-- A commit without a memo does nothing. -/
theorem step_commit_of_not_pending {i : ι} (hphase : ∀ memo, s.phase i ≠ .pending memo) :
    step requests (.commit i) s = s := by
  simp only [step]

theorem step_commit_of_ok {i : ι} {memo : μ} {store : σ} (hphase : s.phase i = .pending memo)
    (hcommit : (requests i).commit memo s.store = .ok store) :
    step requests (.commit i) s = State.goto i .returned { s with store } := by
  simp only [step, hphase, hcommit]

theorem step_commit_of_error {i : ι} {memo : μ} {e : ε} (hphase : s.phase i = .pending memo)
    (hcommit : (requests i).commit memo s.store = .error e) :
    step requests (.commit i) s = s.goto i (.raised e) := by
  simp only [step, hphase, hcommit]

/-- **A request that raises has not written.** -/
theorem store_eq_of_raised {i : ι} {e : ε} (hbefore : s.phase i ≠ .raised e)
    (hafter : (step requests a s).phase i = .raised e) : (step requests a s).store = s.store := by
  have heffect := step_effect requests a s
  revert hafter
  generalize step requests a s = s' at heffect ⊢
  intro hafter
  cases heffect with
  | idle => rfl
  | refused => rfl
  | read => rfl
  | failed => rfl
  | @committed j memo store hphase hcommit =>
      by_cases hij : i = j
      · rw [hij, State.phase_goto_self] at hafter
        cases hafter
      · rw [State.phase_goto_of_ne hij] at hafter
        exact absurd hafter hbefore

theorem Remembered.goto {M : ι → μ → Prop} (h : Remembered M s) {i : ι} {phase : Phase μ ε}
    (hphase : ∀ memo, phase = .pending memo → M i memo) : Remembered M (s.goto i phase) := by
  intro j memo hj
  by_cases hij : j = i
  · rw [hij, State.phase_goto_self] at hj
    rw [hij]
    exact hphase memo hj
  · rw [State.phase_goto_of_ne hij] at hj
    exact h j memo hj

section Invariant

variable {I : σ → Prop} {M : ι → μ → Prop} {C : ι → μ → σ → Prop}

theorem step_invariant
    (hread : ∀ i store memo, I store → (requests i).read store = .ok memo → M i memo)
    (hcommit : ∀ i memo store store', I store → M i memo → C i memo store →
      (requests i).commit memo store = .ok store' → I store')
    (hstore : I s.store) (hmemo : Remembered M s) (hclean : Clean C a s) :
    I (step requests a s).store ∧ Remembered M (step requests a s) := by
  have heffect := step_effect requests a s
  generalize step requests a s = s' at heffect ⊢
  cases heffect with
  | idle => exact ⟨hstore, hmemo⟩
  | refused =>
      refine ⟨hstore, hmemo.goto fun _ hphase => ?_⟩
      cases hphase
  | read hphase hok =>
      refine ⟨hstore, hmemo.goto fun memo hpending => ?_⟩
      cases hpending
      exact hread _ _ _ hstore hok
  | failed =>
      refine ⟨hstore, hmemo.goto fun _ hphase => ?_⟩
      cases hphase
  | committed hphase hok =>
      refine ⟨hcommit _ _ _ _ hstore (hmemo _ _ hphase) (hclean _ _ rfl hphase) hok, ?_⟩
      refine Remembered.goto hmemo fun _ hpending => ?_
      cases hpending

/-- **Invariant rule.** What every read makes sure of in its memo, and every clean commit keeps given
the memo, holds of the store throughout a clean run. -/
theorem run_invariant
    (hread : ∀ i store memo, I store → (requests i).read store = .ok memo → M i memo)
    (hcommit : ∀ i memo store store', I store → M i memo → C i memo store →
      (requests i).commit memo store = .ok store' → I store')
    {steps : List (Step (State ι σ μ ε) (Action ι) Unit)}
    (hrun : Run (exec requests) Undisturbed s steps s') (hstore : I s.store)
    (hmemo : Remembered M s) (hclean : ∀ step ∈ steps, Clean C step.event step.before) :
    I s'.store ∧ Remembered M s' := by
  refine hrun.history (P := fun _ s => I s.store ∧ Remembered M s) ⟨hstore, hmemo⟩ ?_ hclean
  intro _ middle a found hinv hlink hok
  cases hlink
  exact step_invariant hread hcommit hinv.1 hinv.2 hok

end Invariant

section Inserts

variable {α : Type*} {M : σ → ι → μ → Prop} {view : σ → α → Prop} {adds : ι → Option α}

/-- The commit of a request adds to what the store shows exactly what the request is there to add, which
the store has not shown before. What a memo relies on is not undone by any commit. -/
structure Inserts (requests : ι → Request σ μ ε) (M : σ → ι → μ → Prop) (view : σ → α → Prop)
    (adds : ι → Option α) : Prop where
  read : ∀ i store memo, (requests i).read store = .ok memo → M store i memo
  stable : ∀ i memo store store' j memo', M store i memo → (requests i).commit memo store = .ok store' →
    M store j memo' → M store' j memo'
  fresh : ∀ i memo store store' a, M store i memo → (requests i).commit memo store = .ok store' →
    adds i = some a → ¬ view store a
  shows : ∀ i memo store store' a, M store i memo → (requests i).commit memo store = .ok store' →
    (view store' a ↔ view store a ∨ adds i = some a)

/-- What has been added to a store, and by whom. -/
structure Added (store : σ) (M : σ → ι → μ → Prop) (view : σ → α → Prop) (adds : ι → Option α)
    (s : State ι σ μ ε) : Prop where
  remembered : Remembered (M s.store) s
  shows : ∀ a, view s.store a ↔ view store a ∨ ∃ i, s.phase i = .returned ∧ adds i = some a
  fresh : ∀ i a, s.phase i = .returned → adds i = some a → ¬ view store a
  once : ∀ i j a, s.phase i = .returned → s.phase j = .returned → adds i = some a → adds j = some a →
    i = j

omit [DecidableEq ι] in
theorem Added.start (store : σ) : Added store M view adds (State.start store : State ι σ μ ε) where
  remembered := Remembered.start _ store
  shows := fun a => ⟨.inl, fun h => h.elim id fun ⟨i, hi, _⟩ => by cases hi⟩
  fresh := fun i a hi => by cases hi
  once := fun i j a hi => by cases hi

/-- A step that writes nothing and lets nobody return. -/
theorem Added.quiet {store : σ} (h : Added store M view adds s) {i : ι} {phase : Phase μ ε}
    (hbefore : s.phase i ≠ .returned) (hphase : phase ≠ .returned)
    (hmemo : ∀ memo, phase = .pending memo → M s.store i memo) :
    Added store M view adds (s.goto i phase) := by
  have hreturned : ∀ j, (s.goto i phase).phase j = .returned ↔ s.phase j = .returned := by
    intro j
    by_cases hij : j = i
    · rw [hij, State.phase_goto_self]
      exact iff_of_false hphase hbefore
    · rw [State.phase_goto_of_ne hij]
  refine ⟨h.remembered.goto hmemo, fun a => ?_, fun j a hj => h.fresh j a ((hreturned j).mp hj),
    fun j k a hj hk => h.once j k a ((hreturned j).mp hj) ((hreturned k).mp hk)⟩
  simp only [hreturned]
  exact h.shows a

/-- A commit that succeeds. -/
theorem Added.commit (hinserts : Inserts requests M view adds) {store : σ}
    (h : Added store M view adds s) {i : ι} {memo : μ} {after : σ} (hphase : s.phase i = .pending memo)
    (hcommit : (requests i).commit memo s.store = .ok after) :
    Added store M view adds (State.goto i .returned { s with store := after }) := by
  have hmemo := h.remembered i memo hphase
  have hreturned : ∀ j, (State.goto i .returned { s with store := after }).phase j = .returned ↔
      j = i ∨ s.phase j = .returned := by
    intro j
    by_cases hij : j = i
    · rw [hij, State.phase_goto_self]
      exact iff_of_true rfl (.inl rfl)
    · rw [State.phase_goto_of_ne hij]
      exact (or_iff_right hij).symm
  have hfresh : ∀ a, adds i = some a → ¬ view s.store a :=
    fun a => hinserts.fresh i memo _ _ a hmemo hcommit
  refine ⟨?_, fun a => ?_, fun j a hj hadds => ?_, fun j k a hj hk hadds hadds' => ?_⟩
  · have hstored : Remembered (M after) { s with store := after } := fun j memo' hpending =>
      hinserts.stable i memo _ _ j memo' hmemo hcommit (h.remembered j memo' hpending)
    exact hstored.goto fun memo' hpending => by cases hpending
  · rw [State.store_goto, hinserts.shows i memo _ _ a hmemo hcommit, h.shows]
    simp only [hreturned]
    constructor
    · rintro ((hold | ⟨j, hj, hadds⟩) | hadds)
      · exact .inl hold
      · exact .inr ⟨j, .inr hj, hadds⟩
      · exact .inr ⟨i, .inl rfl, hadds⟩
    · rintro (hold | ⟨j, rfl | hj, hadds⟩)
      · exact .inl (.inl hold)
      · exact .inr hadds
      · exact .inl (.inr ⟨j, hj, hadds⟩)
  · rcases (hreturned j).mp hj with rfl | hold
    · exact fun hstart => hfresh a hadds ((h.shows a).mpr (.inl hstart))
    · exact h.fresh j a hold hadds
  · rcases (hreturned j).mp hj with rfl | hold
    · rcases (hreturned k).mp hk with rfl | hold'
      · rfl
      · exact absurd ((h.shows a).mpr (.inr ⟨k, hold', hadds'⟩)) (hfresh a hadds)
    · rcases (hreturned k).mp hk with rfl | hold'
      · exact absurd ((h.shows a).mpr (.inr ⟨j, hold, hadds⟩)) (hfresh a hadds')
      · exact h.once j k a hold hold' hadds hadds'

theorem Added.step (hinserts : Inserts requests M view adds) {store : σ}
    (h : Added store M view adds s) (a : Action ι) : Added store M view adds (step requests a s) := by
  have heffect := step_effect requests a s
  generalize Transaction.step requests a s = s' at heffect ⊢
  cases heffect with
  | idle => exact h
  | refused hphase hread =>
      exact h.quiet (by rw [hphase]; simp) (by simp) fun memo hpending => by cases hpending
  | read hphase hread =>
      refine h.quiet (by rw [hphase]; simp) (by simp) fun memo hpending => ?_
      cases hpending
      exact hinserts.read _ _ _ hread
  | failed hphase hcommit =>
      exact h.quiet (by rw [hphase]; simp) (by simp) fun memo hpending => by cases hpending
  | committed hphase hcommit => exact h.commit hinserts hphase hcommit

/-- **Insert rule.** What the store shows in the end is what it showed at the start and what the requests
that have returned were there to add; none of it had been there, and no two of them added the same. -/
theorem added_of_run (hinserts : Inserts requests M view adds) {store : σ}
    {steps : List (Step (State ι σ μ ε) (Action ι) Unit)}
    (hrun : Run (exec requests) Undisturbed (State.start store) steps s) :
    Added store M view adds s :=
  (hrun.invariant (I := Added store M view adds) (p := fun _ => True)
    (fun _ _ _ h hlink => by cases hlink; exact h) (fun a _ _ h => h.step hinserts a)
    (Added.start store) fun _ _ => trivial).1

end Inserts

/-! ### One request after another -/

/-- A request that no other one interrupts: how it ends, and what it leaves. -/
def Request.alone (r : Request σ μ ε) (store : σ) : Except ε Unit × σ :=
  match r.read store with
  | .error e => (.error e, store)
  | .ok memo =>
    match r.commit memo store with
    | .error e => (.error e, store)
    | .ok store' => (.ok (), store')

/-- What a request alone can do. -/
theorem Request.alone_cases (r : Request σ μ ε) (store : σ) :
    (∃ e, r.alone store = (.error e, store)) ∨
      ∃ memo store', r.read store = .ok memo ∧ r.commit memo store = .ok store' ∧
        r.alone store = (.ok (), store') := by
  unfold Request.alone
  cases hread : r.read store with
  | error e => exact .inl ⟨e, rfl⟩
  | ok memo =>
      simp only
      cases hcommit : r.commit memo store with
      | error e => exact .inl ⟨e, rfl⟩
      | ok store' => exact .inr ⟨memo, store', rfl, hcommit, rfl⟩

/-- The two steps of a request, with none of another between them, are the request alone. -/
theorem read_commit {i : ι} (hphase : s.phase i = .called) :
    step requests (.commit i) (step requests (.read i) s) =
      State.goto i (match ((requests i).alone s.store).1 with
        | .ok _ => .returned
        | .error e => .raised e) { s with store := ((requests i).alone s.store).2 } := by
  have hread : step requests (.read i) s = s.goto i (match (requests i).read s.store with
      | .ok memo => .pending memo
      | .error e => .raised e) := by
    simp only [step, hphase]
    split <;> rfl
  rw [hread, Request.alone]
  cases (requests i).read s.store with
  | error e =>
      apply step_commit_of_not_pending
      intro memo hpending
      rw [State.phase_goto_self] at hpending
      cases hpending
  | ok memo =>
      have hpending : (s.goto i (.pending memo)).phase i = .pending memo := State.phase_goto_self ..
      cases hcommit : (requests i).commit memo s.store with
      | error e =>
          simp only [hcommit]
          rw [step_commit_of_error hpending hcommit]
          exact congrArg (State.mk s.store) (Function.update_idem ..)
      | ok store' =>
          simp only [hcommit]
          rw [step_commit_of_ok hpending hcommit]
          exact congrArg (State.mk store') (Function.update_idem ..)

/-- Requests one after another are a run of the system in which they could have interleaved. -/
theorem final_alone (is : List ι) (hdistinct : is.Nodup) (hcalled : ∀ i ∈ is, s.phase i = .called) :
    (Run.final (exec requests) s (is.flatMap fun i => [.read i, .commit i])).store =
      Run.final (fun i => (requests i).alone) s.store is := by
  induction is generalizing s with
  | nil => rfl
  | cons i is ih =>
      obtain ⟨hfresh, hrest⟩ := List.nodup_cons.mp hdistinct
      show (Run.final (exec requests) (step requests (.commit i) (step requests (.read i) s))
        (is.flatMap fun i => [.read i, .commit i])).store = _
      rw [read_commit (hcalled i (List.mem_cons_self ..))]
      apply ih hrest
      intro j hj
      have hother : j ≠ i := by
        rintro rfl
        exact hfresh hj
      rw [State.phase_goto_of_ne hother]
      exact hcalled j (List.mem_cons_of_mem _ hj)

end Transaction
