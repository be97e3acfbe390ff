import QuotaGuard.Proof.KeyCache

/-!
# How stale and how large the cache can be

An entry expires a TTL after a reading of the clock that was made before its lookup. So however long a
lookup takes, and whatever other processes commit without a word to this one, what a call returns was
found in the database no longer ago than a TTL before the call began. The cache is dropped before it
outgrows its bound.
-/

namespace QuotaGuard.KeyCache

abbrev CacheStep := Step State Action Unit

variable {ttl : Int} {s s' : State} {past steps : List CacheStep} {t : Nat} {digest : String}
  {resolved : Option ResolvedKey} {since since' clock clock' : ℚ}

/-! ### The size -/

theorem maxCacheEntries_pos : 0 < maxCacheEntries := by decide

/-- The bound holds, and a call that is about to store has found room. -/
structure State.Sized (s : State) : Prop where
  cache : s.cache.keys.length ≤ maxCacheEntries
  room : ∀ t l now snapshot, s.loop = some t → s.resolves t = .storing l now snapshot →
    s.cache.keys.length < maxCacheEntries

namespace State

theorem sized_start (db : Database) : (start db).Sized where
  cache := Nat.zero_le _
  room := fun _ _ _ _ => nofun

theorem Sized.goto (h : s.Sized) {pc : ResolvePc} {loop : Option Nat}
    (hloop : loop = s.loop ∨ loop = some t ∨ loop = none)
    (hpc : ∀ l now snapshot, pc = .storing l now snapshot → s.cache.keys.length < maxCacheEntries) :
    (s.goto t pc loop).Sized where
  cache := h.cache
  room := by
    intro t' l now snapshot hrunning hstoring
    by_cases hown : t' = t
    · rw [hown] at hstoring
      change Function.update s.resolves t pc t = _ at hstoring
      rw [Function.update_self] at hstoring
      exact hpc l now snapshot hstoring
    · change Function.update s.resolves t pc t' = _ at hstoring
      rw [Function.update_of_ne hown] at hstoring
      change loop = some t' at hrunning
      rcases hloop with rfl | rfl | rfl
      · exact h.room t' l now snapshot hrunning hstoring
      · exact absurd (Option.some.inj hrunning).symm hown
      · cases hrunning

theorem sized_empty (s : State) : { s with cache := ∅ }.Sized where
  cache := Nat.zero_le _
  room := fun _ _ _ _ _ _ => maxCacheEntries_pos

/-- Storing an entry ends the call's turn. -/
theorem Sized.store (h : s.Sized) {l : Lookup} {now : ℚ} {snapshot : Snapshot} (hturn : s.loop = some t)
    (hpc : s.resolves t = .storing l now snapshot) (entry : CacheEntry) :
    ({ s with cache := s.cache.insert l.digest entry }.goto t (.returned l snapshot) none).Sized where
  cache := by
    show (s.cache.insert l.digest entry).keys.length ≤ maxCacheEntries
    have hroom := h.room t l now snapshot hturn hpc
    have herase := List.length_erase_le (a := l.digest) (l := s.cache.keys)
    rw [AList.keys_insert, List.length_cons]
    omega
  room := fun _ _ _ _ => nofun

theorem Sized.resolve (h : s.Sized) (hturn : s.hasTurn t = true) : (s.resolve ttl t).Sized := by
  unfold State.resolve
  cases hpc : s.resolves t with
  | idle => exact h
  | called l => exact h.goto (.inl rfl) (by simp)
  | looked l entry =>
      cases entry with
      | none => exact h.goto (.inl rfl) (by simp)
      | some e =>
          simp only
          split
          · exact h.goto (.inr (.inr rfl)) (by simp)
          · exact h.goto (.inl rfl) (by simp)
  | missed l now => exact h.goto (.inr (.inr rfl)) (by simp)
  | awaiting l now generation => exact h.goto (.inl rfl) (by simp)
  | loaded l now generation snapshot =>
      simp only
      split
      · exact h.goto (.inr (.inl rfl)) (by simp)
      · exact h.goto (.inr (.inr rfl)) (by simp)
  | matched l now snapshot =>
      simp only
      split
      · exact h.goto (.inl rfl) (by simp)
      · rename_i hroom
        exact h.goto (.inl rfl) fun _ _ _ _ => not_le.mp hroom
  | dropping l now snapshot =>
      apply s.sized_empty.goto (.inl rfl)
      intro _ _ _ _
      exact maxCacheEntries_pos
  | storing l now snapshot =>
      rw [hasTurn, hpc] at hturn
      exact h.store (of_decide_eq_true hturn) hpc _
  | returned l snapshot => exact h
  | raised l => exact h

end State

theorem sized_step (h : s.Sized) (ttl : Int) (a : Action) : (step ttl a s).Sized := by
  cases a with
  | tick now => exact ⟨h.cache, h.room⟩
  | call t digest =>
      simp only [step]
      split
      · exact h.goto (.inr (.inl rfl)) (by simp)
      · exact h
  | resolve t =>
      simp only [step]
      split
      · rename_i hturn
        exact h.resolve hturn
      · exact h
  | loadFails t =>
      simp only [step]
      split
      · exact h.goto (.inl rfl) (by simp)
      · exact h
  | commit m db =>
      simp only [step]
      split
      · exact ⟨h.cache, h.room⟩
      · exact h
  | mutate m =>
      show (s.mutate m).Sized
      unfold State.mutate
      cases s.mutations m with
      | idle => exact h
      | committed version => exact ⟨h.cache, h.room⟩
      | bumping version generation => exact ⟨h.cache, h.room⟩
      | clearing version => exact ⟨s.sized_empty.cache, s.sized_empty.room⟩
      | returned version => exact h
  | otherCommit db => exact ⟨h.cache, h.room⟩

/-! ### What a lookup has found -/

/-- The step is `_load` of a call, which finds `resolved` for the digest. -/
structure Loads (step : CacheStep) (digest : String) (resolved : Option ResolvedKey) : Prop where
  called : ∃ t l now generation, step.event = .resolve t ∧
    step.before.resolves t = .awaiting l now generation ∧ l.digest = digest
  found : step.before.current.load digest = resolved

/-- A lookup has found this, at `since` or later. -/
def Saw (steps : List CacheStep) (digest : String) (resolved : Option ResolvedKey) (since : ℚ) :
    Prop :=
  ∃ load ∈ steps, Loads load digest resolved ∧ since ≤ load.before.clock

theorem Saw.mono (h : Saw past digest resolved since) (hsub : past ⊆ steps) (hle : since' ≤ since) :
    Saw steps digest resolved since' := by
  obtain ⟨load, hmem, hload, hsince⟩ := h
  exact ⟨load, hsub hmem, hload, hle.trans hsince⟩

/-- The step is the begin of the call. -/
structure Begins (step : CacheStep) (t : Nat) (digest : String) : Prop where
  event : step.event = .call t digest
  idle : step.before.resolves t = .idle
  free : step.before.loop = none

/-- The step is the return of the call. -/
structure Returns (step : CacheStep) (t : Nat) (l : Lookup) (snapshot : Snapshot) : Prop where
  open_ : step.before.resolves t ≠ .returned l snapshot
  done : step.after.resolves t = .returned l snapshot

def ResolvePc.lookup : ResolvePc → Option Lookup
  | .idle => none
  | .called l => some l
  | .looked l _ => some l
  | .missed l _ => some l
  | .awaiting l _ _ => some l
  | .loaded l _ _ _ => some l
  | .matched l _ _ => some l
  | .dropping l _ _ => some l
  | .storing l _ _ => some l
  | .returned l _ => some l
  | .raised l => some l

/-- What a call that began at `since` knows of the times, wherever it stands. -/
def Timed (ttl : Int) (steps : List CacheStep) (since clock : ℚ) : ResolvePc → Prop
  | .looked l entry => ∀ e, entry = some e →
      Saw steps l.digest e.snapshot.resolved (e.expiresAt - ttl)
  | .missed _ now => since ≤ now ∧ now ≤ clock
  | .awaiting _ now _ => since ≤ now ∧ now ≤ clock
  | .loaded l now _ snapshot => since ≤ now ∧ Saw steps l.digest snapshot.resolved now
  | .matched l now snapshot => since ≤ now ∧ Saw steps l.digest snapshot.resolved now
  | .dropping l now snapshot => since ≤ now ∧ Saw steps l.digest snapshot.resolved now
  | .storing l now snapshot => since ≤ now ∧ Saw steps l.digest snapshot.resolved now
  | .returned l snapshot => Saw steps l.digest snapshot.resolved (since - ttl)
  | .idle => True
  | .called _ => True
  | .raised _ => True

theorem Timed.mono {pc : ResolvePc} (h : Timed ttl past since clock pc) (hsub : past ⊆ steps)
    (hle : clock ≤ clock') : Timed ttl steps since clock' pc := by
  cases pc with
  | idle => trivial
  | called l => trivial
  | looked l entry => exact fun e he => (h e he).mono hsub le_rfl
  | missed l now => exact ⟨h.1, h.2.trans hle⟩
  | awaiting l now generation => exact ⟨h.1, h.2.trans hle⟩
  | loaded l now generation snapshot => exact ⟨h.1, h.2.mono hsub le_rfl⟩
  | matched l now snapshot => exact ⟨h.1, h.2.mono hsub le_rfl⟩
  | dropping l now snapshot => exact ⟨h.1, h.2.mono hsub le_rfl⟩
  | storing l now snapshot => exact ⟨h.1, h.2.mono hsub le_rfl⟩
  | returned l snapshot => exact Saw.mono h hsub le_rfl
  | raised l => trivial

/-- What the steps so far say of the entries and of the calls. -/
structure Timely (ttl : Int) (steps : List CacheStep) (s : State) : Prop where
  clock : ∀ step ∈ steps, step.before.clock ≤ s.clock
  cache : ∀ digest entry, s.cache.lookup digest = some entry →
    Saw steps digest entry.snapshot.resolved (entry.expiresAt - ttl)
  call : ∀ t l, (s.resolves t).lookup = some l → ∃ begin_ ∈ steps, Begins begin_ t l.digest ∧
    Timed ttl steps begin_.before.clock s.clock (s.resolves t)

namespace Timely

theorem start (ttl : Int) (db : Database) : Timely ttl [] (State.start db) where
  clock := fun _ hmem => absurd hmem List.not_mem_nil
  cache := by
    intro digest entry hentry
    rw [show (State.start db).cache = ∅ from rfl, AList.lookup_empty] at hentry
    cases hentry
  call := fun _ _ => nofun

/-- One more step that finds this state. -/
theorem extend (h : Timely ttl past s) {step : CacheStep} (hstep : step.before.clock ≤ s.clock) :
    Timely ttl (past ++ [step]) s where
  clock := by
    intro other hmem
    rcases List.mem_append.mp hmem with hold | hnew
    · exact h.clock other hold
    · rw [List.mem_singleton.mp hnew]
      exact hstep
  cache := fun digest entry hentry =>
    (h.cache digest entry hentry).mono (List.subset_append_left _ _) le_rfl
  call := by
    intro t l hl
    obtain ⟨begin_, hmem, hbegins, htimed⟩ := h.call t l hl
    exact ⟨begin_, List.mem_append_left _ hmem, hbegins,
      htimed.mono (List.subset_append_left _ _) le_rfl⟩

theorem goto (h : Timely ttl steps s) {pc : ResolvePc} (loop : Option Nat)
    (hpc : ∀ l, pc.lookup = some l → ∃ begin_ ∈ steps, Begins begin_ t l.digest ∧
      Timed ttl steps begin_.before.clock s.clock pc) : Timely ttl steps (s.goto t pc loop) where
  clock := h.clock
  cache := h.cache
  call := by
    intro t' l hl
    change (Function.update s.resolves t pc t').lookup = some l at hl
    show ∃ begin_ ∈ steps, Begins begin_ t' l.digest ∧
      Timed ttl steps begin_.before.clock s.clock (Function.update s.resolves t pc t')
    by_cases hown : t' = t
    · rw [hown, Function.update_self] at hl ⊢
      exact hpc l hl
    · rw [Function.update_of_ne hown] at hl ⊢
      exact h.call t' l hl

/-- A call goes on: it began when it did. -/
theorem advance (h : Timely ttl steps s) {pc pc' : ResolvePc} {l : Lookup} (loop : Option Nat)
    (hpc : s.resolves t = pc) (hl : pc.lookup = some l) (hsame : pc'.lookup = some l)
    (hnext : ∀ since, since ≤ s.clock → Timed ttl steps since s.clock pc →
      Timed ttl steps since s.clock pc') : Timely ttl steps (s.goto t pc' loop) := by
  apply h.goto
  intro l' hl'
  rw [hsame, Option.some.injEq] at hl'
  subst hl'
  rw [← hpc] at hl
  obtain ⟨begin_, hmem, hbegins, htimed⟩ := h.call t l hl
  rw [hpc] at htimed
  exact ⟨begin_, hmem, hbegins, hnext _ (h.clock begin_ hmem) htimed⟩

theorem dropCache (h : Timely ttl steps s) : Timely ttl steps { s with cache := ∅ } where
  clock := h.clock
  cache := by
    intro digest entry hentry
    rw [AList.lookup_empty] at hentry
    cases hentry
  call := h.call

theorem store (h : Timely ttl steps s) (entry : CacheEntry)
    (hentry : Saw steps digest entry.snapshot.resolved (entry.expiresAt - ttl)) :
    Timely ttl steps { s with cache := s.cache.insert digest entry } where
  clock := h.clock
  cache := by
    intro other found hfound
    by_cases hown : other = digest
    · rw [hown, AList.lookup_insert, Option.some.injEq] at hfound
      rw [← hfound, hown]
      exact hentry
    · rw [AList.lookup_insert_ne hown] at hfound
      exact h.cache other found hfound
  call := h.call

/-- A step of a call, whose lookup is among the steps. -/
theorem resolve (h : Timely ttl steps s) (httl : 0 ≤ ttl)
    (hload : ∀ l now generation, s.resolves t = .awaiting l now generation →
      Saw steps l.digest (s.current.load l.digest) s.clock) : Timely ttl steps (s.resolve ttl t) := by
  have httl' : (0 : ℚ) ≤ ttl := by exact_mod_cast httl
  unfold State.resolve
  cases hpc : s.resolves t with
  | idle => exact h
  | called l => exact h.advance _ hpc rfl rfl fun since _ _ => h.cache l.digest
  | looked l entry =>
      have hmissed : Timely ttl steps (s.goto t (.missed l s.clock) s.loop) :=
        h.advance _ hpc rfl rfl fun since hsince _ => ⟨hsince, le_rfl⟩
      cases entry with
      | none => exact hmissed
      | some e =>
          simp only
          split
          · rename_i hfresh
            apply h.advance _ hpc rfl rfl
            intro since hsince htimed
            -- The entry expires after now, so its TTL began after this call minus a TTL.
            have hlate : since - ttl ≤ e.expiresAt - ttl :=
              sub_le_sub_right (hsince.trans hfresh.le) _
            exact (htimed e rfl).mono (List.Subset.refl _) hlate
          · exact hmissed
  | missed l now => exact h.advance _ hpc rfl rfl fun _ _ htimed => htimed
  | awaiting l now generation =>
      apply h.advance _ hpc rfl rfl
      intro since _ htimed
      exact ⟨htimed.1, (hload l now generation hpc).mono (List.Subset.refl _) htimed.2⟩
  | loaded l now generation snapshot =>
      simp only
      split
      · exact h.advance _ hpc rfl rfl fun _ _ htimed => htimed
      · apply h.advance _ hpc rfl rfl
        intro since _ htimed
        exact htimed.2.mono (List.Subset.refl _) ((sub_le_self _ httl').trans htimed.1)
  | matched l now snapshot =>
      simp only
      split
      · exact h.advance _ hpc rfl rfl fun _ _ htimed => htimed
      · exact h.advance _ hpc rfl rfl fun _ _ htimed => htimed
  | dropping l now snapshot => exact h.dropCache.advance _ hpc rfl rfl fun _ _ htimed => htimed
  | storing l now snapshot =>
      have hl : (s.resolves t).lookup = some l := by rw [hpc]; rfl
      obtain ⟨_, -, -, htimed⟩ := h.call t l hl
      rw [hpc] at htimed
      have hentry : Saw steps l.digest snapshot.resolved (now + ttl - ttl) := by
        rw [add_sub_cancel_right]
        exact htimed.2
      apply (h.store ⟨now + ttl, snapshot⟩ hentry).advance _ hpc rfl rfl
      intro since _ htimed
      exact htimed.2.mono (List.Subset.refl _) ((sub_le_self _ httl').trans htimed.1)
  | returned l snapshot => exact h
  | raised l => exact h

theorem tick (h : Timely ttl steps s) {now : ℚ} (hle : s.clock ≤ now) :
    Timely ttl steps { s with clock := now } where
  clock := fun step hmem => (h.clock step hmem).trans hle
  cache := h.cache
  call := by
    intro t l hl
    obtain ⟨begin_, hmem, hbegins, htimed⟩ := h.call t l hl
    exact ⟨begin_, hmem, hbegins, htimed.mono (List.Subset.refl _) hle⟩

/-- What other threads share with no call says nothing of the times. -/
theorem of_eq (h : Timely ttl steps s) (hclock : s'.clock = s.clock)
    (hcache : s'.cache = s.cache ∨ s'.cache = ∅) (hresolves : s'.resolves = s.resolves) :
    Timely ttl steps s' where
  clock := by
    rw [hclock]
    exact h.clock
  cache := by
    intro digest entry hentry
    rcases hcache with hsame | hempty
    · rw [hsame] at hentry
      exact h.cache digest entry hentry
    · rw [hempty, AList.lookup_empty] at hentry
      cases hentry
  call := by
    rw [hclock, hresolves]
    exact h.call

theorem mutate (h : Timely ttl steps s) (m : Nat) : Timely ttl steps (s.mutate m) := by
  unfold State.mutate
  cases s.mutations m with
  | idle => exact h
  | committed version => exact h.of_eq rfl (.inl rfl) rfl
  | bumping version generation => exact h.of_eq rfl (.inl rfl) rfl
  | clearing version => exact h.of_eq rfl (.inr rfl) rfl
  | returned version => exact h

theorem step (h : Timely ttl past s) (httl : 0 ≤ ttl) (a : Action) :
    Timely ttl (past ++ [Step.of (exec ttl) a s]) (KeyCache.step ttl a s) := by
  have hseen : Timely ttl (past ++ [Step.of (exec ttl) a s]) s := h.extend le_rfl
  have hmem : Step.of (exec ttl) a s ∈ past ++ [Step.of (exec ttl) a s] :=
    List.mem_append_right _ (List.mem_singleton_self _)
  cases a with
  | tick now => exact hseen.tick (le_max_left _ _)
  | call t digest =>
      simp only [KeyCache.step]
      split
      · rename_i hidle hfree
        apply hseen.goto
        intro l hl
        cases hl
        exact ⟨_, hmem, ⟨rfl, hidle, hfree⟩, trivial⟩
      · exact hseen
  | resolve t =>
      simp only [KeyCache.step]
      split
      · apply hseen.resolve httl
        intro l now generation hpc
        exact ⟨_, hmem, ⟨⟨t, l, now, generation, rfl, hpc, rfl⟩, rfl⟩, le_rfl⟩
      · exact hseen
  | loadFails t =>
      simp only [KeyCache.step]
      split
      · rename_i l now generation hpc
        exact hseen.advance _ hpc rfl rfl fun _ _ _ => trivial
      · exact hseen
  | commit m db =>
      simp only [KeyCache.step]
      split
      · exact hseen.of_eq rfl (.inl rfl) rfl
      · exact hseen
  | mutate m => exact hseen.mutate m
  | otherCommit db => exact hseen.of_eq rfl (.inl rfl) rfl

theorem of_run (httl : 0 ≤ ttl) {db : Database}
    (hrun : Run (exec ttl) Undisturbed (State.start db) steps s) : Timely ttl steps s := by
  have hok : ∀ step ∈ steps, (fun _ : CacheStep => True) step := fun _ _ => trivial
  refine hrun.history (P := Timely ttl) (Timely.start ttl db) ?_ hok
  intro past middle a found hpast hlink _
  cases hlink
  exact hpast.step httl a

end Timely

theorem sized_of_run {db : Database} (hrun : Run (exec ttl) Undisturbed (State.start db) steps s) :
    s.Sized := by
  refine (hrun.invariant (I := State.Sized) (p := fun _ => True) ?_ ?_ (State.sized_start db)
    fun _ _ => trivial).1
  · intro a middle found hsized hlink
    cases hlink
    exact hsized
  · intro a middle _ hsized
    exact sized_step hsized ttl a

/-- The step that begins a call is not the one that returns. -/
theorem Returns.not_begins {a : Action} {l : Lookup} {snapshot : Snapshot}
    (h : Returns (Step.of (exec ttl) a s) t l snapshot) :
    ¬ Begins (Step.of (exec ttl) a s) t digest := by
  rintro ⟨hevent, hidle, hfree⟩
  rw [Step.of_event] at hevent
  rw [Step.of_before] at hidle hfree
  have hdone : (step ttl a s).resolves t = .returned l snapshot := h.done
  rw [hevent, show step ttl (.call t digest) s = s.goto t (.called ⟨s.returned, digest⟩) (some t) by
    simp only [step, hidle, hfree]] at hdone
  change Function.update s.resolves t _ t = _ at hdone
  rw [Function.update_self] at hdone
  cases hdone

/-- Neither is one that looks a key up, be it of this call or of another. -/
theorem Returns.not_loads {a : Action} {l : Lookup} {snapshot : Snapshot}
    (h : Returns (Step.of (exec ttl) a s) t l snapshot) :
    ¬ Loads (Step.of (exec ttl) a s) digest resolved := by
  rintro ⟨⟨t', l', now, generation, hevent, hpc, -⟩, -⟩
  rw [Step.of_event] at hevent
  rw [Step.of_before] at hpc
  have hdone : (step ttl a s).resolves t = .returned l snapshot := h.done
  have hgoes : step ttl a s =
      s.goto t' (.loaded l' now generation ⟨s.version, s.current.load l'.digest⟩) s.loop := by
    simp only [hevent, step, State.hasTurn, hpc, State.resolve, if_true]
  rw [hgoes] at hdone
  change Function.update s.resolves t' _ t = _ at hdone
  by_cases hown : t = t'
  · rw [hown, Function.update_self] at hdone
    cases hdone
  · rw [Function.update_of_ne hown] at hdone
    exact h.open_ hdone

/-- **Staleness and size are bounded.** Whatever the order of the steps of any number of calls,
mutations and commits of other processes: the cache is never larger than its bound, every entry is
what a lookup found for its digest, and what a call returns was found by a lookup made no longer than
a TTL before the call began, and before it returned. -/
theorem staleness_bounded (httl : 0 ≤ ttl) {db : Database}
    (hrun : Run (exec ttl) Undisturbed (State.start db) steps s) :
    s.cache.keys.length ≤ maxCacheEntries ∧
      (∀ digest entry, s.cache.lookup digest = some entry →
        ∃ load ∈ steps, Loads load digest entry.snapshot.resolved) ∧
      ∀ past last future t l snapshot, steps = past ++ last :: future →
        Returns last t l snapshot →
        ∃ begin_ ∈ past, Begins begin_ t l.digest ∧
          ∃ load ∈ past, Loads load l.digest snapshot.resolved ∧
            begin_.before.clock - ttl ≤ load.before.clock ∧
            load.before.clock ≤ last.before.clock := by
  refine ⟨(sized_of_run hrun).cache, ?_, ?_⟩
  · intro digest entry hentry
    obtain ⟨load, hmem, hload, -⟩ := (Timely.of_run httl hrun).cache digest entry hentry
    exact ⟨load, hmem, hload⟩
  · rintro past last future t l snapshot rfl hreturns
    rw [List.append_cons] at hrun
    obtain ⟨after, hleft, -⟩ := Run.append_iff.mp hrun
    have htimely := Timely.of_run httl hleft
    obtain ⟨middle, a, found, hpast, hlink, rfl, rfl⟩ := Run.snoc_iff.mp hleft
    cases hlink
    have hdone : (step ttl a middle).resolves t = .returned l snapshot := hreturns.done
    obtain ⟨begin_, hbegin, hbegins, htimed⟩ := htimely.call t l (by rw [exec, hdone]; rfl)
    rw [exec, hdone] at htimed
    obtain ⟨load, hload, hloads, hsince⟩ := htimed
    -- Both are steps of the past: the step that returns is neither of them.
    have hbefore : begin_ ∈ past := by
      rcases List.mem_append.mp hbegin with hbefore | hlast
      · exact hbefore
      · rw [List.mem_singleton.mp hlast] at hbegins
        exact absurd hbegins hreturns.not_begins
    have hearlier : load ∈ past := by
      rcases List.mem_append.mp hload with hearlier | hlast
      · exact hearlier
      · rw [List.mem_singleton.mp hlast] at hloads
        exact absurd hloads hreturns.not_loads
    exact ⟨begin_, hbefore, hbegins, load, hearlier, hloads, hsince,
      (Timely.of_run httl hpast).clock load hearlier⟩

/-- A call looks the key up and stores it, and three seconds later another one returns the entry. -/
def hitAfterLoad : List Action :=
  [.call 0 "digest", .resolve 0, .resolve 0, .resolve 0, .resolve 0, .resolve 0, .resolve 0,
    .resolve 0, .tick 3, .call 1 "digest", .resolve 1, .resolve 1]

theorem staleness_bounded_sample :
    (0 : Int) ≤ 5 ∧
      (Run.final (exec 5) (State.start sampleDatabase) hitAfterLoad).resolves 1 =
        .returned ⟨0, "digest"⟩ ⟨0, sampleDatabase.load "digest"⟩ ∧
      (Run.final (exec 5) (State.start sampleDatabase) hitAfterLoad).cache.keys.length ≤
        maxCacheEntries := by
  have hrun := Run.of_events (exec 5) (State.start sampleDatabase) hitAfterLoad
  exact ⟨by decide, by decide +kernel, (staleness_bounded (by decide) hrun).1⟩

end QuotaGuard.KeyCache
