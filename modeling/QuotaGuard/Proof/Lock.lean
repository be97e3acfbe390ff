import QuotaGuard.Service.Lock
import QuotaGuard.Proof.Trace

/-!
# Who may delete the lock

What one command of a run can do is `Advance`. The script compares and deletes in one command. The
fallback compares first and deletes later; in between the lock can expire, and another run can take it.
-/

namespace QuotaGuard

open Redis LockState

/-! ### The commands -/

@[simp] theorem del_keyspace (name : String) (now : Time) (db : Keyspace) :
    (del name now db).2 = Function.update db name none := by
  unfold del
  cases hentry : db name with
  | none =>
      dsimp only
      rw [← hentry, Function.update_eq_self]
  | some entry => rfl

theorem unlock_held (now : Time) {token : String} {redis : Keyspace} {deadline : Option Int}
    (hlock : redis lockKey = some ⟨.text token, deadline⟩) :
    (unlock lockKey token now redis).2 = Function.update redis lockKey none := by
  have hget : Redis.get lockKey now redis = (.ok (some (.text token)), redis) := by
    simp [Redis.get, hlock, Value.kind]
  have hdel : del lockKey now redis = (.ok 1, Function.update redis lockKey none) := by
    simp [del, hlock]
  rw [unlock, Script.bind_run hget, if_pos rfl, Script.bind_run hdel]
  rfl

theorem unlock_not_held (now : Time) {token : String} {redis : Keyspace}
    (hlock : ∀ deadline, redis lockKey ≠ some ⟨.text token, deadline⟩) :
    (unlock lockKey token now redis).2 = redis := by
  have hkeyspace : (Redis.get lockKey now redis).2 = redis := get_keyspace
  have hne : (Redis.get lockKey now redis).1 ≠ .ok (some (.text token)) := by
    unfold Redis.get
    cases hentry : redis lockKey with
    | none => simp
    | some entry =>
        obtain ⟨value, deadline⟩ := entry
        have hvalue : value ≠ .text token := by
          rintro rfl
          exact hlock deadline hentry
        cases value <;> simp_all [Value.kind]
  rcases hget : Redis.get lockKey now redis with ⟨answer, after⟩
  rw [hget] at hkeyspace hne
  cases answer with
  | error e =>
      rw [unlock, Script.bind_error hget]
      exact hkeyspace
  | ok stored =>
      rw [unlock, Script.bind_run hget, if_neg fun hstored => hne (congrArg _ hstored)]
      exact hkeyspace

theorem tokenMatches_iff {decodeResponses : Bool} {token : String} {redis : Keyspace} :
    tokenMatches decodeResponses token redis = true ↔
      decodeResponses = true ∧ ∃ deadline, redis lockKey = some ⟨.text token, deadline⟩ := by
  unfold tokenMatches
  cases hentry : redis lockKey with
  | none => simp
  | some entry =>
      obtain ⟨value, deadline⟩ := entry
      cases value <;> simp

theorem releaseLock_eq (decodeResponses : Bool) (token : String) (now : Time) (redis : Keyspace) :
    releaseLock decodeResponses token redis =
      if tokenMatches decodeResponses token redis then (del lockKey now redis).2 else redis := by
  rw [del_keyspace]
  unfold releaseLock tokenMatches
  cases redis lockKey with
  | none => rfl
  | some entry =>
      obtain ⟨value, deadline⟩ := entry
      cases value <;> simp

/-! ### One command -/

/-- A pool on which a release with the current token frees the lock. -/
def Pool.Releases (pool : Pool) : Prop :=
  pool.path = .script ∨ pool.path = .fallback ∧ pool.decodeResponses = true

variable {ι : Type} {pool : Pool} {token : ι → String} {i j : ι} {s s' found : LockState ι}
  {steps : List (LockStep ι)}

section Command

variable [DecidableEq ι]

/-- What one command of run `i` can do. -/
inductive Advance (pool : Pool) (token : ι → String) (i : ι) (s : LockState ι) : LockState ι → Prop
  | taken (hidle : s.runs i = .idle) (hfree : s.redis lockKey = none) :
      Advance pool token i s (s.goto i (.holding (s.now.ms + 120000))
        (Function.update s.redis lockKey (some ⟨.text (token i), some (s.now.ms + 120000)⟩)))
  | refused (hidle : s.runs i = .idle) : Advance pool token i s (s.goto i .ended s.redis)
  | freed (deadline : Int) (hholding : s.runs i = .holding deadline) (hpath : pool.path = .script)
      (hheld : s.HeldBy (token i)) :
      Advance pool token i s (s.goto i .ended (Function.update s.redis lockKey none))
  | kept (deadline : Int) (hholding : s.runs i = .holding deadline)
      (hnot : s.HeldBy (token i) → ¬ pool.Releases) :
      Advance pool token i s (s.goto i .ended s.redis)
  | matched (deadline : Int) (hholding : s.runs i = .holding deadline)
      (hpath : pool.path = .fallback) (htext : pool.decodeResponses = true)
      (hheld : s.HeldBy (token i)) :
      Advance pool token i s (s.goto i (.matched deadline) s.redis)
  | deleted (deadline : Int) (hmatched : s.runs i = .matched deadline) :
      Advance pool token i s (s.goto i .ended (Function.update s.redis lockKey none))
  | done (hended : s.runs i = .ended) : Advance pool token i s s

theorem advance (pool : Pool) (token : ι → String) (i : ι) (s : LockState ι) :
    Advance pool token i s (exec pool token i s).2 := by
  unfold exec
  cases hphase : s.runs i with
  | idle =>
      dsimp only
      unfold acquireLock
      cases hlock : s.redis lockKey with
      | none => exact .taken hphase hlock
      | some entry => exact .refused hphase
  | holding deadline =>
      dsimp only
      cases hpath : pool.path with
      | script =>
          dsimp only
          by_cases hheld : s.HeldBy (token i)
          · obtain ⟨until_, hlock⟩ := hheld
            rw [unlock_held _ hlock]
            exact .freed deadline hphase hpath ⟨until_, hlock⟩
          · rw [unlock_not_held _ fun until_ hlock => hheld ⟨until_, hlock⟩]
            exact .kept deadline hphase fun hyes => absurd hyes hheld
      | raises =>
          exact .kept deadline hphase fun _ hreleases => by simp [Pool.Releases, hpath] at hreleases
      | fallback =>
          dsimp only
          split
          · rename_i hmatches
            obtain ⟨htext, hheld⟩ := tokenMatches_iff.mp hmatches
            exact .matched deadline hphase hpath htext hheld
          · rename_i hmatches
            refine .kept deadline hphase fun hheld hreleases => hmatches ?_
            have htext : pool.decodeResponses = true := by
              simpa [Pool.Releases, hpath] using hreleases
            exact tokenMatches_iff.mpr ⟨htext, hheld⟩
  | matched deadline =>
      rw [del_keyspace]
      exact .deleted deadline hphase
  | ended => exact .done hphase

@[simp] theorem runs_goto_self (s : LockState ι) (phase : LockPhase) (redis : Keyspace) :
    (s.goto i phase redis).runs i = phase :=
  Function.update_self ..

theorem runs_goto_of_ne (hne : j ≠ i) (s : LockState ι) (phase : LockPhase) (redis : Keyspace) :
    (s.goto i phase redis).runs j = s.runs j :=
  Function.update_of_ne hne ..

@[simp] theorem redis_goto (s : LockState ι) (phase : LockPhase) (redis : Keyspace) :
    (s.goto i phase redis).redis = redis := rfl

@[simp] theorem now_goto (s : LockState ι) (phase : LockPhase) (redis : Keyspace) :
    (s.goto i phase redis).now = s.now := rfl

theorem deadline_goto_of_ne (hne : j ≠ i) (s : LockState ι) (phase : LockPhase) (redis : Keyspace) :
    (s.goto i phase redis).deadline j = s.deadline j := by
  simp only [deadline, runs_goto_of_ne hne]

end Command

theorem deadline_eq_some {deadline : Int} : s.deadline i = some deadline ↔
    s.runs i = .holding deadline ∨ s.runs i = .matched deadline := by
  unfold LockState.deadline
  cases s.runs i <;> simp

/-! ### The lock is what its holder thinks -/

/-- A run whose time is not over has its token in the lock, and a run that is about to delete the lock has
its token in it, if there is a lock. -/
structure Owned (token : ι → String) (s : LockState ι) : Prop where
  owned : ∀ i deadline, s.deadline i = some deadline → s.now.ms < deadline →
    s.redis lockKey = some ⟨.text (token i), some deadline⟩
  matched : ∀ i deadline, s.runs i = .matched deadline → ∀ entry, s.redis lockKey = some entry →
    entry.value = .text (token i)

theorem Owned.of_fresh (hfresh : s.Fresh) : Owned token s where
  owned i deadline hdeadline _ := by simp [LockState.deadline, hfresh i] at hdeadline
  matched i deadline hmatched := by
    rw [hfresh i] at hmatched
    cases hmatched

theorem Owned.exclusive (h : Owned token s) (htoken : Function.Injective token) : s.Exclusive := by
  rintro i j ⟨until_, hi, hnow⟩ ⟨until', hj, hnow'⟩
  have hlock := h.owned i until_ hi hnow
  rw [h.owned j until' hj hnow'] at hlock
  simp only [Option.some.injEq, Entry.mk.injEq, Value.text.injEq] at hlock
  exact (htoken hlock.1).symm

/-- Time goes by. -/
theorem Owned.waits (h : Owned token s) (hwaits : Waits i s found) : Owned token found := by
  obtain ⟨hruns, hnow, hlock⟩ := hwaits
  have hms : s.now.ms ≤ found.now.ms := by
    have : s.now.us ≤ found.now.us := hnow
    simp only [Time.ms]
    omega
  constructor
  · intro i deadline hdeadline hunexpired
    have hbefore : s.deadline i = some deadline := by
      rw [← hdeadline]
      simp only [LockState.deadline, hruns]
    have howned := h.owned i deadline hbefore (by omega)
    obtain hkept | ⟨⟨entry, expiry, hentry, hexpiry, hlapsed⟩, -⟩ := hlock
    · rw [hkept, howned]
    · rw [howned] at hentry
      cases hentry
      cases hexpiry
      omega
  · intro i deadline hmatched entry hentry
    rw [hruns] at hmatched
    obtain hkept | ⟨-, hgone⟩ := hlock
    · exact h.matched i deadline hmatched entry (hkept ▸ hentry)
    · rw [hgone] at hentry
      cases hentry

/-- Nobody takes the lock while another run is between its GET and its DEL. -/
def Regular (step : LockStep ι) : Prop :=
  step.before.runs step.event = .idle → step.before.redis lockKey = none →
    ∀ i deadline, step.before.runs i ≠ .matched deadline

/-- The lock is deleted by the run whose token it has. -/
def OwnDelete (token : ι → String) (step : LockStep ι) : Prop :=
  ∀ entry, step.before.redis lockKey = some entry → step.after.redis lockKey = none →
    entry.value = .text (token step.event)

/-- The steps from the moment run `i` calls `release_lock` to the last of its commands; its token is the
value of the lock all the time. -/
structure Release (token : ι → String) (i : ι) (during : List (LockStep ι)) (last : LockStep ι) :
    Prop where
  called : ∀ first, (during ++ [last]).head? = some first →
    ∃ deadline, first.before.runs i = .holding deadline
  current : ∀ step ∈ during ++ [last], step.before.HeldBy (token i)
  own : last.event = i
  running : last.before.runs i ≠ .ended
  ended : last.after.runs i = .ended

/-- Only a run that goes by text replies is ever between its GET and its DEL. -/
def MatchesText (pool : Pool) (s : LockState ι) : Prop :=
  ∀ i deadline, s.runs i = .matched deadline →
    pool.path = .fallback ∧ pool.decodeResponses = true

theorem MatchesText.of_fresh (hfresh : s.Fresh) : MatchesText pool s := by
  intro i deadline hmatched
  rw [hfresh i] at hmatched
  cases hmatched

variable [DecidableEq ι]

/-- A run goes on: what it thinks now is to be shown of itself, and what the others think of what it has
left in the lock. -/
theorem Owned.goto {phase : LockPhase} {redis : Keyspace}
    (howned : ∀ deadline, phase = .holding deadline ∨ phase = .matched deadline →
      s.now.ms < deadline → redis lockKey = some ⟨.text (token i), some deadline⟩)
    (hmatched : ∀ deadline, phase = .matched deadline → ∀ entry, redis lockKey = some entry →
      entry.value = .text (token i))
    (howned' : ∀ j, j ≠ i → ∀ deadline, s.deadline j = some deadline → s.now.ms < deadline →
      redis lockKey = some ⟨.text (token j), some deadline⟩)
    (hmatched' : ∀ j, j ≠ i → ∀ deadline, s.runs j = .matched deadline → ∀ entry,
      redis lockKey = some entry → entry.value = .text (token j)) :
    Owned token (s.goto i phase redis) := by
  constructor
  · intro j deadline hdeadline hunexpired
    by_cases hj : j = i
    · subst hj
      rw [deadline_eq_some, runs_goto_self] at hdeadline
      exact howned deadline hdeadline hunexpired
    · rw [deadline_goto_of_ne hj] at hdeadline
      exact howned' j hj deadline hdeadline hunexpired
  · intro j deadline hphase
    by_cases hj : j = i
    · subst hj
      rw [runs_goto_self] at hphase
      exact hmatched deadline hphase
    · rw [runs_goto_of_ne hj] at hphase
      exact hmatched' j hj deadline hphase

/-- The lock was free, and nobody is between GET and DEL. -/
theorem Owned.taken (h : Owned token s) (hfree : s.redis lockKey = none)
    (hnobody : ∀ j deadline, s.runs j ≠ .matched deadline) (deadline : Int) :
    Owned token (s.goto i (.holding deadline)
      (Function.update s.redis lockKey (some ⟨.text (token i), some deadline⟩))) := by
  apply Owned.goto
  · rintro deadline' (hphase | hphase) _
    · cases hphase
      exact Function.update_self ..
    · cases hphase
  · intro deadline' hphase
    cases hphase
  · intro j _ deadline' hdeadline hunexpired
    have howned := h.owned j deadline' hdeadline hunexpired
    rw [hfree] at howned
    cases howned
  · intro j _ deadline' hmatched
    exact absurd hmatched (hnobody j deadline')

/-- GET has replied the token. -/
theorem Owned.matches (h : Owned token s) {deadline : Int} (hholding : s.runs i = .holding deadline)
    (hheld : s.HeldBy (token i)) : Owned token (s.goto i (.matched deadline) s.redis) := by
  apply Owned.goto
  · rintro deadline' (hphase | hphase) hunexpired
    · cases hphase
    · cases hphase
      exact h.owned i deadline (deadline_eq_some.mpr (.inl hholding)) hunexpired
  · intro _ _ entry hentry
    obtain ⟨expiry, hlock⟩ := hheld
    rw [hlock] at hentry
    cases hentry
    rfl
  · exact fun j _ => h.owned j
  · exact fun j _ => h.matched j

/-- A command that leaves the lock alone, after which its run does not think that it has the lock. -/
theorem Owned.end_same (h : Owned token s) : Owned token (s.goto i .ended s.redis) := by
  apply Owned.goto
  · simp
  · simp
  · exact fun j _ => h.owned j
  · exact fun j _ => h.matched j

/-- A command that deletes a lock with the token of its own run. -/
theorem Owned.end_deleted (h : Owned token s) (htoken : Function.Injective token)
    (hown : ∀ entry, s.redis lockKey = some entry → entry.value = .text (token i)) :
    Owned token (s.goto i .ended (Function.update s.redis lockKey none)) := by
  apply Owned.goto
  · simp
  · simp
  · intro j hj deadline hdeadline hunexpired
    have hvalue := hown _ (h.owned j deadline hdeadline hunexpired)
    exact absurd (htoken (Value.text.inj hvalue)) hj
  · simp

theorem Owned.advance (h : Owned token s) (htoken : Function.Injective token)
    (hregular : Regular (Step.of (exec pool token) i s)) :
    Owned token (exec pool token i s).2 ∧ OwnDelete token (Step.of (exec pool token) i s) := by
  have hcases := QuotaGuard.advance pool token i s
  have hkept : ∀ entry, s.redis lockKey = some entry → s.redis lockKey = none →
      entry.value = .text (token i) := by
    intro entry hentry hgone
    rw [hentry] at hgone
    cases hgone
  unfold OwnDelete
  simp only [Regular, Step.of_before, Step.of_event, Step.of_after] at hregular ⊢
  generalize (exec pool token i s).2 = after at hcases ⊢
  cases hcases with
  | taken hidle hfree =>
      refine ⟨h.taken hfree (hregular hidle hfree) _, fun entry hentry => ?_⟩
      rw [hfree] at hentry
      cases hentry
  | refused => exact ⟨h.end_same, hkept⟩
  | kept => exact ⟨h.end_same, hkept⟩
  | freed deadline _ _ hheld =>
      obtain ⟨expiry, hlock⟩ := hheld
      have hown : ∀ entry, s.redis lockKey = some entry → entry.value = .text (token i) := by
        intro entry hentry
        rw [hlock] at hentry
        cases hentry
        rfl
      exact ⟨h.end_deleted htoken hown, fun entry hentry _ => hown entry hentry⟩
  | matched deadline hholding _ _ hheld => exact ⟨h.matches hholding hheld, hkept⟩
  | deleted deadline hmatched =>
      have hown := h.matched i deadline hmatched
      exact ⟨h.end_deleted htoken hown, fun entry hentry _ => hown entry hentry⟩
  | done => exact ⟨h, hkept⟩

/-! ### A release frees its lock -/

theorem MatchesText.advance (h : MatchesText pool s) (token : ι → String) (i : ι) :
    MatchesText pool (exec pool token i s).2 := by
  have hcases := QuotaGuard.advance pool token i s
  generalize (exec pool token i s).2 = after at hcases ⊢
  intro j deadline hmatched
  by_cases hj : j = i
  · subst hj
    cases hcases with
    | matched _ _ hpath htext _ => exact ⟨hpath, htext⟩
    | done hended => exact h j deadline hmatched
    | _ => simp at hmatched
  · refine h j deadline ?_
    rw [← hmatched]
    cases hcases with
    | done hended => rfl
    | _ => exact (runs_goto_of_ne hj ..).symm

theorem MatchesText.run (h : MatchesText pool s) (hrun : Run (exec pool token) Waits s steps s') :
    MatchesText pool s' ∧
      ∀ step ∈ steps, MatchesText pool step.before ∧ MatchesText pool step.after := by
  apply Run.invariant (p := fun _ => True) ?_ (fun e s _ hs => hs.advance token e) hrun h
    fun _ _ => trivial
  intro e s found hs hwaits i deadline
  rw [hwaits.1]
  exact hs i deadline

/-- Without a command of another run in between, GET and DEL are `releaseLock`. -/
theorem release_alone {deadline : Int} (hpath : pool.path = .fallback)
    (hholding : s.runs i = .holding deadline) :
    (exec pool token i (exec pool token i s).2).2.redis =
      releaseLock pool.decodeResponses (token i) s.redis := by
  rw [releaseLock_eq _ _ s.now]
  have hfirst : (exec pool token i s).2 =
      if tokenMatches pool.decodeResponses (token i) s.redis then s.goto i (.matched deadline) s.redis
      else s.goto i .ended s.redis := by
    rw [exec, hholding]
    simp only [hpath]
    split <;> rfl
  rw [hfirst]
  split
  · rw [exec, runs_goto_self]
    rfl
  · rw [exec, runs_goto_self]
    rfl

/-- A run that has tried to take the lock does not try again. -/
theorem advance_ne_idle (hphase : s.runs i ≠ .idle) (j : ι) :
    (exec pool token j s).2.runs i ≠ .idle := by
  have hcases := advance pool token j s
  generalize (exec pool token j s).2 = after at hcases ⊢
  by_cases hi : i = j
  · subst hi
    cases hcases with
    | done hended => exact hphase
    | _ => simp
  · cases hcases with
    | done hended => exact hphase
    | _ =>
        rw [runs_goto_of_ne hi]
        exact hphase

/-- A release frees the lock exactly if the pool has the script, or has no script and replies text. -/
theorem Release.frees_iff {during : List (LockStep ι)} {last : LockStep ι}
    (h : Release token i during last) (htext : MatchesText pool s)
    (hrun : Run (exec pool token) Waits s (during ++ [last]) s') :
    last.after.redis lockKey = none ↔ pool.Releases := by
  have hmember : last ∈ during ++ [last] := List.mem_append_right _ (List.mem_singleton_self _)
  -- the run has taken the lock before the first of its commands here
  have hstart : s.runs i ≠ .idle := by
    obtain ⟨first, rest, hsteps⟩ : ∃ first rest, during ++ [last] = first :: rest :=
      List.exists_cons_of_ne_nil (by simp)
    obtain ⟨deadline, hholding⟩ := h.called first (by rw [hsteps]; rfl)
    rw [hsteps] at hrun
    obtain ⟨e, found, rfl, hwaits, -⟩ := Run.cons_iff.mp hrun
    rw [Step.of_before, hwaits.1] at hholding
    rw [hholding]
    simp
  have hidle : last.before.runs i ≠ .idle :=
    ((Run.invariant (I := fun s => s.runs i ≠ .idle) (p := fun _ => True)
      (fun _ _ _ hs hwaits => hwaits.1 ▸ hs) (fun e _ _ hs => advance_ne_idle hs e) hrun hstart
      fun _ _ => trivial).2 last hmember).1
  have hmatches : MatchesText pool last.before := ((htext.run hrun).2 last hmember).1
  have hcases := advance pool token i last.before
  have hlast := Run.eq_of hrun hmember
  rw [h.own] at hlast
  obtain ⟨expiry, hlock⟩ := h.current last hmember
  have hended := h.ended
  rw [hlast, Step.of_after] at hended ⊢
  generalize (exec pool token i last.before).2 = after at hcases hended ⊢
  cases hcases with
  | taken hnot _ => exact absurd hnot hidle
  | refused hnot => exact absurd hnot hidle
  | done hnot => exact absurd hnot h.running
  | matched => simp at hended
  | freed _ _ hpath _ => exact iff_of_true (by simp) (.inl hpath)
  | kept _ _ hnot => exact iff_of_false (by simp [hlock]) (hnot ⟨expiry, hlock⟩)
  | deleted deadline hmatched => exact iff_of_true (by simp) (.inr (hmatches i deadline hmatched))

/-! ### Every run -/

/-- **The release of the lock.** A release whose token is the value of the lock throughout frees it
exactly if the pool has the script, or has no script and replies text. As long as nobody takes the lock
between the GET and the DEL of another run, every lock is deleted by the run whose token it has, and at
most one run has the lock. With the script, nobody is ever between GET and DEL. -/
theorem release_lock_iff (htoken : Function.Injective token) (hfresh : s.Fresh)
    (hrun : Run (exec pool token) Waits s steps s') :
    (∀ i past during last, steps = past ++ (during ++ [last]) → Release token i during last →
      (last.after.redis lockKey = none ↔ pool.Releases)) ∧
    ((∀ step ∈ steps, Regular step) →
      ∀ step ∈ steps, OwnDelete token step ∧ step.before.Exclusive ∧ step.after.Exclusive) ∧
    (pool.path = .script → ∀ step ∈ steps, Regular step) := by
  have htext : MatchesText pool s := .of_fresh hfresh
  refine ⟨?_, fun hregular => ?_, fun hscript step hmem _ _ i deadline hmatched => ?_⟩
  · rintro i past during last rfl hrelease
    obtain ⟨middle, hpast, hrest⟩ := Run.append_iff.mp hrun
    exact hrelease.frees_iff (htext.run hpast).1 hrest
  · have hall := Run.history
      (P := fun steps s => Owned token s ∧
        ∀ step ∈ steps, OwnDelete token step ∧ step.before.Exclusive ∧ step.after.Exclusive)
      ⟨.of_fresh hfresh, by simp⟩ ?_ hrun hregular
    · exact hall.2
    · rintro past middle e found ⟨howned, hpast⟩ hwaits hregular
      have hfound := howned.waits hwaits
      obtain ⟨hafter, hown⟩ := hfound.advance htoken hregular
      refine ⟨hafter, fun step hmem => ?_⟩
      rcases List.mem_append.mp hmem with hmem | hmem
      · exact hpast step hmem
      · rw [List.mem_singleton.mp hmem]
        exact ⟨hown, hfound.exclusive htoken, hafter.exclusive htoken⟩
  · have hfallback := (((htext.run hrun).2 step hmem).1 i deadline hmatched).1
    rw [hscript] at hfallback
    cases hfallback

def sampleToken (i : Fin 3) : String :=
  ["3f1c4c1e-6d0c-4b8e-9a35-8f4f1c0d2a11", "91b7d2f0-27ce-4f5a-8d0e-5b6c7d8e9f22",
    "c2a5e6b4-0f1d-4c3b-a2e1-7d6c5b4a3933"].getD i ""

theorem sampleToken_injective : Function.Injective sampleToken := by
  have hall : ∀ i j, sampleToken i = sampleToken j → i = j := by decide
  exact fun i j => hall i j

def scriptPool : Pool := ⟨some ⟨some ["unlock"]⟩, false⟩

def textPool : Pool := ⟨none, true⟩

def bytesPool : Pool := ⟨none, false⟩

def sampleLock : LockState (Fin 3) := ⟨Keyspace.empty, sampleTime 0, fun _ => .idle⟩

/-- A run takes the lock and releases it with the script. -/
theorem release_lock_iff_sample :
    let taken := Step.of (exec scriptPool sampleToken) 0 sampleLock
    let released := Step.of (exec scriptPool sampleToken) 0 taken.after
    released.after.redis lockKey = none ∧ ∀ step ∈ [taken, released],
      OwnDelete sampleToken step ∧ step.before.Exclusive ∧ step.after.Exclusive := by
  intro taken released
  have hwaits (e : Fin 3) (s : LockState (Fin 3)) : Waits e s s := ⟨rfl, le_rfl, .inl rfl⟩
  have hrun : Run (exec scriptPool sampleToken) Waits sampleLock [taken, released] released.after :=
    .cons (hwaits 0 _) (.cons (hwaits 0 _) (.nil _))
  have hrelease : Release sampleToken 0 [] released := by
    refine ⟨fun first hfirst => ?_, fun step hstep => ?_, rfl, by decide +kernel, by decide +kernel⟩
    · cases hfirst
      exact ⟨120000, by decide +kernel⟩
    · rw [List.mem_singleton.mp hstep]
      exact ⟨some 120000, by decide +kernel⟩
  obtain ⟨hfrees, hsafe, hscript⟩ :=
    release_lock_iff sampleToken_injective (fun _ => rfl : sampleLock.Fresh) hrun
  exact ⟨(hfrees 0 [taken] [] released rfl hrelease).mpr (.inl rfl), hsafe (hscript rfl)⟩

def bytesTaken : LockState (Fin 3) := (exec bytesPool sampleToken 0 sampleLock).2

def textTaken : LockState (Fin 3) := (exec textPool sampleToken 0 sampleLock).2

/-- The first run has sent GET shortly before its deadline. -/
def staleMatched : LockState (Fin 3) :=
  (exec textPool sampleToken 0 { textTaken with now := sampleTime 119 }).2

/-- The lock has expired, and the second run has taken it. -/
def staleTaken : LockState (Fin 3) :=
  (exec textPool sampleToken 1
    { staleMatched with
      now := sampleTime 120
      redis := Function.update staleMatched.redis lockKey none }).2

def staleDelete : LockStep (Fin 3) := Step.of (exec textPool sampleToken) 0 staleTaken

/-- The third run has taken it too. -/
def staleEnd : LockState (Fin 3) := (exec textPool sampleToken 2 staleDelete.after).2

theorem stale_run :
    ∃ steps, Run (exec textPool sampleToken) Waits sampleLock steps staleEnd ∧
      staleDelete ∈ steps := by
  have hstays (e : Fin 3) (s : LockState (Fin 3)) : Waits e s s := ⟨rfl, le_rfl, .inl rfl⟩
  have hget : Waits 0 textTaken { textTaken with now := sampleTime 119 } :=
    ⟨rfl, by decide +kernel, .inl rfl⟩
  have hexpires : Waits 1 staleMatched
      { staleMatched with
        now := sampleTime 120
        redis := Function.update staleMatched.redis lockKey none } :=
    ⟨rfl, by decide +kernel,
      .inr ⟨⟨⟨.text (sampleToken 0), some 120000⟩, 120000, by decide +kernel, rfl,
        by decide +kernel⟩, by decide +kernel⟩⟩
  exact ⟨_, .cons (hstays 0 _) (.cons hget (.cons hexpires (.cons (hstays 0 _)
    (.cons (hstays 2 _) (.nil _))))), by simp [staleDelete, staleTaken]⟩

/-- With bytes the release does not free the lock. With text, the lock expires between GET and DEL; the
DEL deletes the lock of the second run, and the third run takes it too. -/
theorem stale_release :
    (bytesTaken.runs 0 = .holding 120000 ∧ bytesTaken.HeldBy (sampleToken 0) ∧
      (exec bytesPool sampleToken 0 bytesTaken).2.runs 0 = .ended ∧
      (exec bytesPool sampleToken 0 bytesTaken).2.HeldBy (sampleToken 0)) ∧
    (∃ steps, Run (exec textPool sampleToken) Waits sampleLock steps staleEnd ∧
      staleDelete ∈ steps) ∧
    ¬ OwnDelete sampleToken staleDelete ∧ ¬ staleEnd.Exclusive := by
  refine ⟨⟨by decide +kernel, ⟨some 120000, by decide +kernel⟩, by decide +kernel,
    ⟨some 120000, by decide +kernel⟩⟩, stale_run, fun hown => ?_, fun hexclusive => ?_⟩
  · have hvalue := hown ⟨.text (sampleToken 1), some 240000⟩ (by decide +kernel) (by decide +kernel)
    exact absurd hvalue (by decide +kernel)
  · have hsecond : staleEnd.HoldsUnexpired 1 := ⟨240000, by decide +kernel, by decide +kernel⟩
    have hthird : staleEnd.HoldsUnexpired 2 := ⟨240000, by decide +kernel, by decide +kernel⟩
    exact absurd (hexclusive 1 2 hsecond hthird) (by decide)

end QuotaGuard
