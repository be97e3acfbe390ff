import QuotaGuard.Proof.Trace
import QuotaGuard.Service.KeyCache

/-!
# What the key cache can mask

A lookup compares the generation it started with before it stores its snapshot, and a mutation bumps
the generation before it clears the cache. That is enough as long as nothing is cleared between a
comparison and its store, and no lost update of the generation gives it back a value that an
out-of-date lookup holds. Both can happen, and then a revoked key resolves as live.
-/

namespace QuotaGuard.KeyCache

/-! ### The invariant -/

/-- The snapshot this call is about to store, after its comparison. -/
def ResolvePc.stores : ResolvePc → Option Snapshot
  | .matched _ _ snapshot => some snapshot
  | .dropping _ _ snapshot => some snapshot
  | .storing _ _ snapshot => some snapshot
  | _ => none

def MutationPc.version : MutationPc → Option Nat
  | .idle => none
  | .committed version => some version
  | .bumping version _ => some version
  | .clearing version => some version
  | .returned version => some version

namespace State

/-- A later commit has bumped the generation already. -/
def Outdated (s : State) (version : Nat) : Prop :=
  version < s.returned ∨ ∃ m newer, s.mutations m = .clearing newer ∧ version < newer

/-- The snapshot is what a lookup of the digest finds in its version of the database. -/
def Seen (s : State) (digest : String) (snapshot : Snapshot) : Prop :=
  ∃ db, s.versions[snapshot.version]? = some db ∧ snapshot.resolved = db.load digest

/-- What holds of a call, wherever it stands. -/
def CallInv (s : State) : ResolvePc → Prop
  | .called l => l.since ≤ s.returned
  | .looked l entry => l.since ≤ s.returned ∧
      ∀ e, entry = some e → l.since ≤ e.snapshot.version ∧ s.Seen l.digest e.snapshot
  | .missed l _ => l.since ≤ s.returned
  | .awaiting l _ _ => l.since ≤ s.returned
  | .loaded l _ generation snapshot => l.since ≤ snapshot.version ∧ s.Seen l.digest snapshot ∧
      (s.Outdated snapshot.version → generation ≠ s.generation)
  | .matched l _ snapshot => l.since ≤ snapshot.version ∧ s.Seen l.digest snapshot ∧
      s.returned ≤ snapshot.version
  | .dropping l _ snapshot => l.since ≤ snapshot.version ∧ s.Seen l.digest snapshot ∧
      s.returned ≤ snapshot.version
  | .storing l _ snapshot => l.since ≤ snapshot.version ∧ s.Seen l.digest snapshot ∧
      s.returned ≤ snapshot.version
  | .returned l snapshot => l.since ≤ snapshot.version ∧ s.Seen l.digest snapshot
  | .idle => True
  | .raised _ => True

/-- What holds in every state of a clean run. -/
structure Inv (s : State) : Prop where
  returned_le : s.returned ≤ s.version
  version_le : ∀ m version, (s.mutations m).version = some version → version ≤ s.version
  cache : ∀ digest entry, s.cache.lookup digest = some entry →
    s.returned ≤ entry.snapshot.version ∧ s.Seen digest entry.snapshot
  call : ∀ t, s.CallInv (s.resolves t)

variable {s s' : State}

theorem inv_start (db : Database) : (start db).Inv where
  returned_le := le_rfl
  version_le := fun _ _ => nofun
  cache := by
    intro digest entry hentry
    rw [show (start db).cache = ∅ from rfl, AList.lookup_empty] at hentry
    exact absurd hentry nofun
  call := fun _ => trivial

theorem seen_current (s : State) (digest : String) :
    s.Seen digest ⟨s.version, s.current.load digest⟩ := by
  refine ⟨s.current, ?_, rfl⟩
  simp [versions, version]

theorem Inv.not_outdated (h : s.Inv) : ¬ s.Outdated s.version := by
  rintro (hreturned | ⟨m, newer, hclearing, hnewer⟩)
  · exact absurd h.returned_le (not_le.mpr hreturned)
  · have hle := h.version_le m newer (by rw [hclearing]; rfl)
    exact absurd hle (not_le.mpr hnewer)

theorem Seen.commit {digest : String} {snapshot : Snapshot} (h : s.Seen digest snapshot)
    (db : Database) : (s.commit db).Seen digest snapshot := by
  obtain ⟨seen, hseen, hresolved⟩ := h
  refine ⟨seen, ?_, hresolved⟩
  show (s.versions ++ [db])[snapshot.version]? = some seen
  rw [List.getElem?_append_left (List.getElem?_eq_some_iff.mp hseen).1]
  exact hseen

/-- What another thread does to a call that stands still. -/
theorem CallInv.advance {pc : ResolvePc} (h : s.CallInv pc) (hreturned : s.returned ≤ s'.returned)
    (hseen : ∀ digest snapshot, s.Seen digest snapshot → s'.Seen digest snapshot)
    (hloaded : ∀ l now generation snapshot, pc = .loaded l now generation snapshot →
      (s.Outdated snapshot.version → generation ≠ s.generation) →
      s'.Outdated snapshot.version → generation ≠ s'.generation)
    (hstores : ∀ snapshot, pc.stores = some snapshot → s.returned ≤ snapshot.version →
      s'.returned ≤ snapshot.version) : s'.CallInv pc := by
  cases pc with
  | idle => trivial
  | called l => exact le_trans h hreturned
  | looked l entry =>
      refine ⟨le_trans h.1 hreturned, fun e he => ?_⟩
      obtain ⟨hsince, hsnapshot⟩ := h.2 e he
      exact ⟨hsince, hseen _ _ hsnapshot⟩
  | missed l now => exact le_trans h hreturned
  | awaiting l now generation => exact le_trans h hreturned
  | loaded l now generation snapshot =>
      exact ⟨h.1, hseen _ _ h.2.1, hloaded _ _ _ _ rfl h.2.2⟩
  | matched l now snapshot => exact ⟨h.1, hseen _ _ h.2.1, hstores _ rfl h.2.2⟩
  | dropping l now snapshot => exact ⟨h.1, hseen _ _ h.2.1, hstores _ rfl h.2.2⟩
  | storing l now snapshot => exact ⟨h.1, hseen _ _ h.2.1, hstores _ rfl h.2.2⟩
  | returned l snapshot => exact ⟨h.1, hseen _ _ h.2⟩
  | raised l => trivial

/-! ### The steps of a call -/

theorem Inv.goto (h : s.Inv) {t : Nat} {pc : ResolvePc} (hpc : s.CallInv pc) (loop : Option Nat) :
    (s.goto t pc loop).Inv where
  returned_le := h.returned_le
  version_le := h.version_le
  cache := h.cache
  call := by
    intro t'
    show s.CallInv (Function.update s.resolves t pc t')
    by_cases hown : t' = t
    · rw [hown, Function.update_self]
      exact hpc
    · rw [Function.update_of_ne hown]
      exact h.call t'

theorem Inv.dropCache (h : s.Inv) : { s with cache := ∅ }.Inv where
  returned_le := h.returned_le
  version_le := h.version_le
  cache := by
    intro digest entry hentry
    rw [AList.lookup_empty] at hentry
    exact absurd hentry nofun
  call := h.call

theorem Inv.store (h : s.Inv) {digest : String} {entry : CacheEntry}
    (hreturned : s.returned ≤ entry.snapshot.version) (hseen : s.Seen digest entry.snapshot) :
    { s with cache := s.cache.insert digest entry }.Inv where
  returned_le := h.returned_le
  version_le := h.version_le
  cache := by
    intro other found hfound
    by_cases hown : other = digest
    · rw [hown, AList.lookup_insert, Option.some.injEq] at hfound
      rw [← hfound, hown]
      exact ⟨hreturned, hseen⟩
    · rw [AList.lookup_insert_ne hown] at hfound
      exact h.cache other found hfound
  call := h.call

theorem Inv.resolve (h : s.Inv) (ttl : Int) (t : Nat) : (s.resolve ttl t).Inv := by
  have hcall := h.call t
  unfold State.resolve
  cases hpc : s.resolves t with
  | idle => exact h
  | called l =>
      rw [hpc] at hcall
      apply h.goto
      refine ⟨hcall, fun e he => ?_⟩
      obtain ⟨hreturned, hseen⟩ := h.cache l.digest e he
      exact ⟨le_trans hcall hreturned, hseen⟩
  | looked l entry =>
      rw [hpc] at hcall
      cases entry with
      | none =>
          apply h.goto
          exact hcall.1
      | some e =>
          simp only
          split
          · apply h.goto
            exact hcall.2 e rfl
          · apply h.goto
            exact hcall.1
  | missed l now =>
      rw [hpc] at hcall
      apply h.goto
      exact hcall
  | awaiting l now generation =>
      rw [hpc] at hcall
      apply h.goto
      refine ⟨le_trans hcall h.returned_le, s.seen_current l.digest, fun hout => ?_⟩
      exact absurd hout h.not_outdated
  | loaded l now generation snapshot =>
      rw [hpc] at hcall
      obtain ⟨hsince, hseen, hcompare⟩ := hcall
      simp only
      split
      · rename_i hmatch
        apply h.goto
        refine ⟨hsince, hseen, ?_⟩
        by_contra hold
        exact hcompare (.inl (not_le.mp hold)) hmatch.2
      · apply h.goto
        exact ⟨hsince, hseen⟩
  | matched l now snapshot =>
      rw [hpc] at hcall
      simp only
      split
      · apply h.goto
        exact hcall
      · apply h.goto
        exact hcall
  | dropping l now snapshot =>
      rw [hpc] at hcall
      apply h.dropCache.goto
      exact hcall
  | storing l now snapshot =>
      rw [hpc] at hcall
      obtain ⟨hsince, hseen, hreturned⟩ := hcall
      have hstored : { s with cache := s.cache.insert l.digest ⟨now + ttl, snapshot⟩ }.Inv :=
        h.store hreturned hseen
      apply hstored.goto
      exact ⟨hsince, hseen⟩
  | returned l snapshot => exact h
  | raised l => exact h

/-! ### The steps of a mutation -/

theorem version_commit (db : Database) (s : State) : (s.commit db).version = s.version + 1 := by
  simp [commit, version]

/-- A new version is not bumped yet, so no lookup is out of date that was not before. -/
theorem Inv.commit (h : s.Inv) (db : Database) : (s.commit db).Inv where
  returned_le := by
    rw [version_commit]
    exact le_trans h.returned_le (Nat.le_succ _)
  version_le := by
    intro m version hversion
    rw [version_commit]
    exact le_trans (h.version_le m version hversion) (Nat.le_succ _)
  cache := by
    intro digest entry hentry
    obtain ⟨hreturned, hseen⟩ := h.cache digest entry hentry
    exact ⟨hreturned, hseen.commit db⟩
  call := fun t => (h.call t).advance le_rfl (fun _ _ hseen => hseen.commit db)
    (fun _ _ _ _ _ hcompare => hcompare) (fun _ _ hle => hle)

theorem move_mutations_self (m : Nat) (pc : MutationPc) : (s.move m pc).mutations m = pc :=
  Function.update_self ..

theorem move_mutations_of_ne {m m' : Nat} (hne : m' ≠ m) (pc : MutationPc) :
    (s.move m pc).mutations m' = s.mutations m' :=
  Function.update_of_ne hne _ _

theorem Inv.move_version_le (h : s.Inv) {m : Nat} {pc : MutationPc}
    (hpc : ∀ version, pc.version = some version → version ≤ s.version) (m' version : Nat)
    (hversion : ((s.move m pc).mutations m').version = some version) : version ≤ s.version := by
  by_cases hown : m' = m
  · rw [hown, move_mutations_self] at hversion
    exact hpc version hversion
  · rw [move_mutations_of_ne hown] at hversion
    exact h.version_le m' version hversion

theorem outdated_of_move {m : Nat} {pc : MutationPc} {version : Nat}
    (hout : (s.move m pc).Outdated version) :
    s.Outdated version ∨ ∃ newer, pc = .clearing newer ∧ version < newer := by
  rcases hout with hlt | ⟨m', newer, hm', hlt⟩
  · exact .inl (.inl hlt)
  · by_cases hown : m' = m
    · rw [hown, move_mutations_self] at hm'
      exact .inr ⟨newer, hm', hlt⟩
    · rw [move_mutations_of_ne hown] at hm'
      exact .inl (.inr ⟨m', newer, hm', hlt⟩)

theorem Inv.move (h : s.Inv) {m : Nat} {pc : MutationPc}
    (hversion : ∀ version, pc.version = some version → version ≤ s.version)
    (hpc : ∀ newer, pc ≠ .clearing newer) : (s.move m pc).Inv where
  returned_le := h.returned_le
  version_le := h.move_version_le hversion
  cache := h.cache
  call := by
    intro t
    refine (h.call t).advance le_rfl (fun _ _ hseen => hseen) ?_ (fun _ _ hle => hle)
    intro l now generation snapshot _ hcompare hout
    apply hcompare
    rcases outdated_of_move hout with hout | ⟨newer, hclearing, -⟩
    · exact hout
    · exact absurd hclearing (hpc newer)

theorem Inv.bump (h : s.Inv) {m version : Nat} {generation : Int}
    (hm : s.mutations m = .bumping version generation)
    (hclean : ∀ t l now held snapshot, s.resolves t = .loaded l now held snapshot →
      s.Outdated snapshot.version ∨ snapshot.version < version → held ≠ generation + 1) :
    { s.move m (.clearing version) with generation := generation + 1 }.Inv where
  returned_le := h.returned_le
  version_le := by
    apply h.move_version_le
    intro version' hversion
    apply h.version_le m
    rw [hm]
    exact hversion
  cache := h.cache
  call := by
    intro t
    refine (h.call t).advance le_rfl (fun _ _ hseen => hseen) ?_ (fun _ _ hle => hle)
    intro l now held snapshot hpc _ hout
    apply hclean t l now held snapshot hpc
    have hmoved : (s.move m (.clearing version)).Outdated snapshot.version := hout
    rcases outdated_of_move hmoved with hout | ⟨newer, hclearing, hlt⟩
    · exact .inl hout
    · cases hclearing
      exact .inr hlt

theorem Inv.clear (h : s.Inv) {m version : Nat} (hm : s.mutations m = .clearing version)
    (hclean : ∀ t snapshot, (s.resolves t).stores = some snapshot → version ≤ snapshot.version) :
    { s.move m (.returned version) with
      cache := ∅, returned := max s.returned version }.Inv where
  returned_le := max_le h.returned_le (h.version_le m version (by rw [hm]; rfl))
  version_le := by
    apply h.move_version_le
    intro version' hversion
    apply h.version_le m
    rw [hm]
    exact hversion
  cache := by
    intro digest entry hentry
    rw [AList.lookup_empty] at hentry
    exact absurd hentry nofun
  call := by
    intro t
    refine (h.call t).advance (le_max_left _ _) (fun _ _ hseen => hseen) ?_ ?_
    · intro l now generation snapshot _ hcompare hout
      apply hcompare
      rcases hout with hlt | ⟨m', newer, hm', hlt⟩
      · rcases lt_max_iff.mp hlt with hreturned | hversion
        · exact .inl hreturned
        · exact .inr ⟨m, version, hm, hversion⟩
      · have hmoved : (s.move m (.returned version)).Outdated snapshot.version :=
          .inr ⟨m', newer, hm', hlt⟩
        rcases outdated_of_move hmoved with hout | ⟨newer, hclearing, -⟩
        · exact hout
        · exact absurd hclearing nofun
    · intro snapshot hstores hreturned
      exact max_le hreturned (hclean t snapshot hstores)

end State

/-! ### Clean runs -/

/-- What the two defects are not: a clear does not come between the comparison and the store of an
older snapshot, and a bump does not give the generation a value that an out-of-date lookup holds. -/
def Clean (a : Action) (s : State) : Prop :=
  ∀ m, a = .mutate m →
    (∀ version, s.mutations m = .clearing version →
      ∀ t snapshot, (s.resolves t).stores = some snapshot → version ≤ snapshot.version) ∧
    ∀ version generation, s.mutations m = .bumping version generation →
      ∀ t l now held snapshot, s.resolves t = .loaded l now held snapshot →
        s.Outdated snapshot.version ∨ snapshot.version < version → held ≠ generation + 1

theorem inv_step {s : State} (h : s.Inv) (ttl : Int) (a : Action) (hclean : Clean a s) :
    (step ttl a s).Inv := by
  cases a with
  | tick now => exact ⟨h.returned_le, h.version_le, h.cache, h.call⟩
  | call t digest =>
      simp only [step]
      split
      · apply h.goto
        exact le_rfl
      · exact h
  | resolve t =>
      simp only [step]
      split
      · exact h.resolve ttl t
      · exact h
  | loadFails t =>
      simp only [step]
      split
      · apply h.goto
        exact trivial
      · exact h
  | commit m db =>
      simp only [step]
      split
      · apply (h.commit db).move
        · intro version hversion
          rw [← Option.some.inj hversion, State.version_commit]
        · exact nofun
      · exact h
  | mutate m =>
      obtain ⟨hclear, hbump⟩ := hclean m rfl
      show (s.mutate m).Inv
      unfold State.mutate
      cases hm : s.mutations m with
      | idle => exact h
      | committed version =>
          apply h.move
          · intro version' hversion
            apply h.version_le m
            rw [hm]
            exact hversion
          · exact nofun
      | bumping version generation => exact h.bump hm (hbump version generation hm)
      | clearing version => exact h.clear hm (hclear version hm)
      | returned version => exact h
  | otherCommit db => exact h.commit db

theorem clean_of_ne {a : Action} (hne : ∀ m, a ≠ .mutate m) (s : State) : Clean a s :=
  fun m hm => absurd hm (hne m)

theorem clean_of_idle {s : State} (hidle : ∀ t, s.resolves t = .idle) (a : Action) : Clean a s := by
  intro m _
  constructor
  · intro version _ t snapshot hstores
    rw [hidle t] at hstores
    exact absurd hstores nofun
  · intro version generation _ t l now held snapshot hloaded
    rw [hidle t] at hloaded
    exact absurd hloaded nofun

/-- **A mutation is not masked in a clean run.** Whatever the order of the steps of any number of
calls, mutations and commits of other processes: when every action of a run is clean, a call returns
what its digest resolves to in one version of the database, and in no version older than a mutation
that had returned before the call began. -/
theorem mutation_not_masked {ttl : Int} {db : Database} {steps : List (Step State Action Unit)}
    {s : State} (hrun : Run (exec ttl) Undisturbed (State.start db) steps s)
    (hclean : ∀ step ∈ steps, Clean step.event step.before) {t : Nat} {l : Lookup}
    {snapshot : Snapshot} (hreturned : s.resolves t = .returned l snapshot) :
    l.since ≤ snapshot.version ∧
      ∃ seen, s.versions[snapshot.version]? = some seen ∧ snapshot.resolved = seen.load l.digest := by
  have hinv : s.Inv := by
    refine hrun.history (P := fun _ s => s.Inv) (State.inv_start db) ?_ hclean
    intro _ middle a found hinv hlink hclean
    cases hlink
    exact inv_step hinv ttl a hclean
  have hcall := hinv.call t
  rw [hreturned] at hcall
  exact hcall

def revokeBeforeCall : List Action :=
  [.commit 0 (sampleDatabase.revoke sampleKey 1), .mutate 0, .mutate 0, .mutate 0, .call 0 "digest",
    .resolve 0, .resolve 0, .resolve 0, .resolve 0, .resolve 0, .resolve 0, .resolve 0]

theorem revokeBeforeCall_clean :
    ∀ step ∈ Run.trace (exec 5) (State.start sampleDatabase) revokeBeforeCall,
      Clean step.event step.before := by
  simp only [revokeBeforeCall, Run.trace, List.mem_cons, List.not_mem_nil, or_false,
    forall_eq_or_imp, forall_eq, Step.of_event, Step.of_before]
  refine ⟨?_, ?_, ?_, ?_, ?_, ?_, ?_, ?_, ?_, ?_, ?_, ?_⟩
  iterate 4 exact clean_of_idle (fun _ => rfl) _
  all_goals
    apply clean_of_ne
    intro m hm
    cases hm

theorem mutation_not_masked_sample :
    (Run.final (exec 5) (State.start sampleDatabase) revokeBeforeCall).resolves 0 =
        .returned ⟨1, "digest"⟩ ⟨1, (sampleDatabase.revoke sampleKey 1).load "digest"⟩ ∧
      (1 : Nat) ≤ 1 := by
  have hreturned : (Run.final (exec 5) (State.start sampleDatabase) revokeBeforeCall).resolves 0 =
      .returned ⟨1, "digest"⟩ ⟨1, (sampleDatabase.revoke sampleKey 1).load "digest"⟩ := by
    decide +kernel
  have hrun := Run.of_events (exec 5) (State.start sampleDatabase) revokeBeforeCall
  exact ⟨hreturned, (mutation_not_masked hrun revokeBeforeCall_clean hreturned).1⟩

/-! ### Runs that are not clean -/

/-- The first call compares, the key is revoked, and the call stores what it had read before. -/
def revokeBeforeStore : List Action :=
  [.call 0 "digest", .resolve 0, .resolve 0, .resolve 0, .resolve 0, .resolve 0,
    .commit 0 (sampleDatabase.revoke sampleKey 1), .mutate 0, .mutate 0, .mutate 0,
    .resolve 0, .resolve 0,
    .call 1 "digest", .resolve 1, .resolve 1]

/-- Two mutations read the same generation. One of them returns, a call reads the generation it left
and looks the key up, the key is revoked, and then the other mutation writes: the generation is back
at what the call compares with. -/
def revokeUnderLostUpdate : List Action :=
  [.commit 0 sampleDatabase, .mutate 0, .commit 1 sampleDatabase, .mutate 1, .mutate 1, .mutate 1,
    .call 0 "digest", .resolve 0, .resolve 0, .resolve 0, .resolve 0,
    .commit 2 (sampleDatabase.revoke sampleKey 1), .mutate 2, .mutate 2, .mutate 2,
    .mutate 0, .resolve 0, .resolve 0, .resolve 0,
    .call 1 "digest", .resolve 1, .resolve 1]

/-- In both runs the revoke has returned when the second call begins, and the call returns the key of
an older version, live. -/
theorem mutation_masked :
    (∃ steps s l snapshot key revoked,
      Run (exec 5) Undisturbed (State.start sampleDatabase) steps s ∧
      s.resolves 1 = .returned l snapshot ∧ snapshot.version < l.since ∧
      snapshot.resolved = some key ∧ key.revoked = false ∧
      s.current.load l.digest = some revoked ∧ revoked.revoked = true ∧
      s.mutations 0 = .returned l.since) ∧
    ∃ steps s l snapshot key revoked,
      Run (exec 5) Undisturbed (State.start sampleDatabase) steps s ∧
      s.resolves 1 = .returned l snapshot ∧ snapshot.version < l.since ∧
      snapshot.resolved = some key ∧ key.revoked = false ∧
      s.current.load l.digest = some revoked ∧ revoked.revoked = true ∧
      s.mutations 2 = .returned l.since := by
  constructor
  · exact ⟨_, _, ⟨1, "digest"⟩, ⟨0, sampleDatabase.load "digest"⟩,
      sampleKeyRow.resolve samplePlanRow,
      { sampleKeyRow with revokedAt := some 1 }.resolve samplePlanRow,
      Run.of_events (exec 5) (State.start sampleDatabase) revokeBeforeStore,
      by decide +kernel, by decide, by decide +kernel, rfl, by decide +kernel, rfl,
      by decide +kernel⟩
  · exact ⟨_, _, ⟨3, "digest"⟩, ⟨2, sampleDatabase.load "digest"⟩,
      sampleKeyRow.resolve samplePlanRow,
      { sampleKeyRow with revokedAt := some 1 }.resolve samplePlanRow,
      Run.of_events (exec 5) (State.start sampleDatabase) revokeUnderLostUpdate,
      by decide +kernel, by decide, by decide +kernel, rfl, by decide +kernel, rfl,
      by decide +kernel⟩

end QuotaGuard.KeyCache
