import QuotaGuard.Proof.Endpoint
import QuotaGuard.Proof.Staleness

/-!
# A revocation reaches every process

The cache of another process hears nothing of a commit, and in the process of the commit itself a lookup
under way can store what it has read before. A call that begins a TTL after the commit returns all the
same what a lookup found after it. So what a commit makes true and no later one undoes, holds of the
database that such a call answers from; that a key is revoked is of this kind.
-/

namespace QuotaGuard

/-! ### What no commit undoes -/

variable {db db' seen : Database} {call : AdminCall} {write : AdminWrite} {digest : String}

namespace Database

/-- The key of the digest is revoked. -/
def Revoked (db : Database) (digest : String) : Prop :=
  ∃ key ∈ db.keys, key.keyHash = digest ∧ key.revokedAt ≠ none

theorem Revoked.load (h : db.Revoked digest) :
    ∃ limits, db.load digest = some limits ∧ limits.revoked = true := by
  obtain ⟨key, hkey, rfl, hrevoked⟩ := h
  obtain ⟨plan, hplan⟩ := planOfKey_isSome hkey
  exact ⟨key.resolve plan, load_keyHash hkey hplan, Option.isSome_iff_ne_none.mpr hrevoked⟩

end Database

/-- No call sets `revoked_at` back to null. -/
theorem AdminCall.read_keeps_revokedAt {id : Nat} {columns : KeyColumns} {key : ApiKey}
    (h : call.read seen = .ok (.writeKey id columns)) (hrevoked : key.revokedAt ≠ none) :
    (columns.write key).revokedAt ≠ none := by
  cases call with
  | createPlan data => cases (createPlan_ok h).2
  | updatePlan slug data =>
      obtain ⟨plan, -, -, hwrite, -⟩ := updatePlan_ok h
      cases hwrite
  | issueKey slug name keyId keyHash =>
      obtain ⟨planId, hwrite⟩ := issueKey_ok h
      cases hwrite
  | updateKey keyId data =>
      obtain ⟨row, -, -, -, hwrite⟩ := updateKey_ok h
      cases hwrite
      exact hrevoked
  | revokeKey keyId now =>
      obtain ⟨row, -, -, -, hwrite⟩ := revokeKey_ok h
      cases hwrite
      exact Option.some_ne_none now

/-- A key that is revoked stays revoked, whatever the call that commits has read. -/
theorem Database.Revoked.commit (h : db.Revoked digest) (hread : call.read seen = .ok write)
    (hcommit : write.commit db = .ok db') : db'.Revoked digest := by
  obtain ⟨key, hkey, hhash, hrevoked⟩ := h
  rcases AdminWrite.commit_cases hkey hcommit with hkept | ⟨columns, rfl, hwritten⟩
  · exact ⟨key, hkept, hhash, hrevoked⟩
  · exact ⟨columns.write key, hwritten, hhash, AdminCall.read_keeps_revokedAt hread hrevoked⟩

namespace KeyCache

variable {ttl : Int} {s committed later last : State} {past between future steps : List CacheStep}
  {t : Nat} {l : Lookup} {snapshot : Snapshot} {I : Database → Prop}

/-! ### What a step leaves -/

/-- The database that an action commits. -/
def Action.commits : Action → Option Database
  | .commit _ db => some db
  | .otherCommit db => some db
  | .tick _ => none
  | .call _ _ => none
  | .resolve _ => none
  | .loadFails _ => none
  | .mutate _ => none

/-- What a step of a call or of a mutation leaves as it is. -/
structure State.Framed (s s' : State) : Prop where
  current : s'.current = s.current
  clock : s'.clock = s.clock
  begun : ∀ t, s.resolves t ≠ .idle → s'.resolves t ≠ .idle

namespace State.Framed

theorem refl (s : State) : s.Framed s := ⟨rfl, rfl, fun _ => id⟩

theorem goto (s : State) {pc : ResolvePc} (loop : Option Nat) (hpc : pc ≠ .idle) :
    s.Framed (s.goto t pc loop) where
  current := rfl
  clock := rfl
  begun := by
    intro t' hbegun
    show Function.update s.resolves t pc t' ≠ .idle
    by_cases hown : t' = t
    · rw [hown, Function.update_self]
      exact hpc
    · rw [Function.update_of_ne hown]
      exact hbegun

/-- The cache is not part of the frame. -/
theorem goto_cache (s : State) (cache : AList fun _ : String => CacheEntry) {pc : ResolvePc}
    (loop : Option Nat) (hpc : pc ≠ .idle) : s.Framed ({ s with cache }.goto t pc loop) where
  current := rfl
  clock := rfl
  begun := (goto { s with cache } loop hpc).begun

theorem resolve (ttl : Int) (t : Nat) (s : State) : s.Framed (s.resolve ttl t) := by
  unfold State.resolve
  cases s.resolves t with
  | idle => exact refl s
  | called l => exact goto s _ (by simp)
  | looked l entry =>
      cases entry with
      | none => exact goto s _ (by simp)
      | some e =>
          simp only
          split
          · exact goto s _ (by simp)
          · exact goto s _ (by simp)
  | missed l now => exact goto s _ (by simp)
  | awaiting l now generation => exact goto s _ (by simp)
  | loaded l now generation snapshot =>
      simp only
      split
      · exact goto s _ (by simp)
      · exact goto s _ (by simp)
  | matched l now snapshot =>
      simp only
      split
      · exact goto s _ (by simp)
      · exact goto s _ (by simp)
  | dropping l now snapshot => exact goto_cache s ∅ _ (by simp)
  | storing l now snapshot => exact goto_cache s _ _ (by simp)
  | returned l snapshot => exact refl s
  | raised l => exact refl s

theorem mutate (m : Nat) (s : State) : s.Framed (s.mutate m) := by
  unfold State.mutate
  cases s.mutations m with
  | idle => exact refl s
  | committed version => exact ⟨rfl, rfl, fun _ => id⟩
  | bumping version generation => exact ⟨rfl, rfl, fun _ => id⟩
  | clearing version => exact ⟨rfl, rfl, fun _ => id⟩
  | returned version => exact refl s

end State.Framed

/-- A step commits, or lets time pass, or leaves both as they are. -/
theorem step_cases (ttl : Int) (a : Action) (s : State) :
    s.Framed (step ttl a s) ∨
      (∃ db, a.commits = some db ∧ s.Framed { step ttl a s with current := s.current } ∧
        (step ttl a s).current = db) ∨
      ∃ now, s.clock ≤ now ∧ step ttl a s = { s with clock := now } := by
  cases a with
  | tick now => exact .inr (.inr ⟨max s.clock now, le_max_left _ _, rfl⟩)
  | call t digest =>
      simp only [step]
      split
      · exact .inl (.goto s _ (by simp))
      · exact .inl (.refl s)
  | resolve t =>
      simp only [step]
      split
      · exact .inl (.resolve ttl t s)
      · exact .inl (.refl s)
  | loadFails t =>
      simp only [step]
      split
      · exact .inl (.goto s _ (by simp))
      · exact .inl (.refl s)
  | commit m db =>
      simp only [step]
      split
      · exact .inr (.inl ⟨db, rfl, ⟨rfl, rfl, fun _ => id⟩, rfl⟩)
      · exact .inl (.refl s)
  | mutate m => exact .inl (.mutate m s)
  | otherCommit db => exact .inr (.inl ⟨db, rfl, ⟨rfl, rfl, fun _ => id⟩, rfl⟩)

theorem clock_le_step (ttl : Int) (a : Action) (s : State) : s.clock ≤ (step ttl a s).clock := by
  rcases step_cases ttl a s with hframed | ⟨db, -, hframed, -⟩ | ⟨now, hle, hstep⟩
  · exact hframed.clock.ge
  · exact hframed.clock.ge
  · rw [hstep]
    exact hle

theorem begun_step (ttl : Int) (a : Action) (h : s.resolves t ≠ .idle) :
    (step ttl a s).resolves t ≠ .idle := by
  rcases step_cases ttl a s with hframed | ⟨db, -, hframed, -⟩ | ⟨now, -, hstep⟩
  · exact hframed.begun t h
  · exact hframed.begun t h
  · rw [hstep]
    exact h

theorem current_step (ttl : Int) (a : Action) (s : State) :
    (step ttl a s).current = s.current ∨ a.commits = some (step ttl a s).current := by
  rcases step_cases ttl a s with hframed | ⟨db, hcommits, -, hdb⟩ | ⟨now, -, hstep⟩
  · exact .inl hframed.current
  · exact .inr (hdb ▸ hcommits)
  · exact .inl (by rw [hstep])

/-! ### Runs -/

theorem clock_le_of_run (hrun : Run (exec ttl) Undisturbed s steps later) :
    s.clock ≤ later.clock ∧ ∀ step ∈ steps, s.clock ≤ step.before.clock := by
  have hkept := hrun.invariant (I := fun found => s.clock ≤ found.clock) (p := fun _ => True)
    (fun a middle found hle hlink => hlink ▸ hle)
    (fun a middle _ hle => le_trans hle (clock_le_step ttl a middle)) le_rfl fun _ _ => trivial
  exact ⟨hkept.1, fun step hmem => (hkept.2 step hmem).1⟩

/-- A call that has not begun has no begin among the steps so far. -/
theorem not_begins_of_idle (hrun : Run (exec ttl) Undisturbed s steps later)
    (hidle : later.resolves t = .idle) {step : CacheStep} (hmem : step ∈ steps) (digest : String) :
    ¬ Begins step t digest := by
  intro hbegins
  have hstep := hrun.eq_of hmem
  obtain ⟨future, hfuture, -⟩ := hrun.since hmem
  have hcalled : step.after.resolves t ≠ .idle := by
    rw [hstep, hbegins.event]
    show (KeyCache.step ttl (.call t digest) step.before).resolves t ≠ .idle
    simp only [KeyCache.step, hbegins.idle, hbegins.free]
    show Function.update step.before.resolves t _ t ≠ .idle
    rw [Function.update_self]
    exact fun hnone => by cases hnone
  have hbegun := (hfuture.invariant (I := fun found => found.resolves t ≠ .idle) (p := fun _ => True)
    (fun a middle found h hlink => hlink ▸ h) (fun a middle _ h => begun_step ttl a h) hcalled
    fun _ _ => trivial).1
  exact hbegun hidle

/-- Every commit keeps the property. -/
def CommitsKeep (I : Database → Prop) (step : CacheStep) : Prop :=
  ∀ db, step.event.commits = some db → I step.before.current → I db

theorem kept_of_run (hrun : Run (exec ttl) Undisturbed s steps later) (hstart : I s.current)
    (hcommits : ∀ step ∈ steps, CommitsKeep I step) :
    I later.current ∧ ∀ step ∈ steps, I step.before.current := by
  induction hrun with
  | nil => exact ⟨hstart, fun _ hmem => absurd hmem List.not_mem_nil⟩
  | @cons s found later a steps hlink hrest ih =>
      cases hlink
      have hafter : I (step ttl a s).current := by
        rcases current_step ttl a s with hsame | hcommit
        · rw [hsame]
          exact hstart
        · exact hcommits _ (List.mem_cons_self ..) _ hcommit hstart
      obtain ⟨hend, hsteps⟩ := ih hafter fun step hmem => hcommits step (List.mem_cons_of_mem _ hmem)
      refine ⟨hend, fun step hmem => ?_⟩
      rcases List.mem_cons.mp hmem with rfl | hmem
      · exact hstart
      · exact hsteps step hmem

/-- **What no commit undoes is seen a TTL later.** A call that begins more than a TTL after a state whose
database has the property returns what its digest resolves to in a database that has it. -/
theorem load_of_kept (httl : 0 ≤ ttl) {db : Database}
    (hpast : Run (exec ttl) Undisturbed (State.start db) past committed)
    (hbetween : Run (exec ttl) Undisturbed committed between later)
    (hfuture : Run (exec ttl) Undisturbed later future last) (hholds : I committed.current)
    (hcommits : ∀ step ∈ between ++ future, CommitsKeep I step)
    (hlate : committed.clock + ttl < later.clock) (hidle : later.resolves t = .idle)
    (hreturned : last.resolves t = .returned l snapshot) :
    ∃ seen, I seen ∧ snapshot.resolved = seen.load l.digest := by
  have hbefore := Run.append_iff.mpr ⟨committed, hpast, hbetween⟩
  have hafter := Run.append_iff.mpr ⟨later, hbetween, hfuture⟩
  have hrun := Run.append_iff.mpr ⟨committed, hpast, hafter⟩
  obtain ⟨begin_, hbegin, hbegins, htimed⟩ := (Timely.of_run httl hrun).call t l (by rw [hreturned]; rfl)
  rw [hreturned] at htimed
  obtain ⟨load, hload, hloads, hsince⟩ := htimed
  -- The call begins after `later`, so its lookup is made after `committed`.
  have hbegin' : begin_ ∈ future := by
    rw [← List.append_assoc] at hbegin
    rcases List.mem_append.mp hbegin with hearly | hlate
    · exact absurd hbegins (not_begins_of_idle hbefore hidle hearly l.digest)
    · exact hlate
  have hstart : later.clock ≤ begin_.before.clock := (clock_le_of_run hfuture).2 begin_ hbegin'
  have hload' : load ∈ between ++ future := by
    rcases List.mem_append.mp hload with hearly | hlate'
    · have hle := (Timely.of_run httl hpast).clock load hearly
      linarith
    · exact hlate'
  exact ⟨load.before.current, (kept_of_run hafter hholds hcommits).2 load hload', hloads.found.symm⟩

end KeyCache

/-! ### Revoked keys -/

/-- What is committed is what an admin call has pending, whatever it has read before. -/
def AdminCommits (step : KeyCache.CacheStep) : Prop :=
  ∀ db, step.event.commits = some db → ∃ call seen write, AdminCall.read call seen = .ok write ∧
    write.commit step.before.current = .ok db

theorem AdminCommits.keeps_revoked {step : KeyCache.CacheStep} (h : AdminCommits step) :
    KeyCache.CommitsKeep (Database.Revoked · digest) step := by
  intro db hdb hrevoked
  obtain ⟨call, seen, write, hread, hcommit⟩ := h db hdb
  exact hrevoked.commit hread hcommit

theorem checkRoute_revoked {payload : CheckRequest} {drawn : Drawn} {limits : ResolvedKey}
    (hresolved : drawn.resolved = some limits) (hrevoked : limits.revoked = true) (s : System) :
    checkRoute payload drawn s = (.ok (refused "revoked_key"), s) := by
  unfold checkRoute
  rw [hresolved]
  exact if_pos hrevoked

open KeyCache in
/-- **A revocation takes effect everywhere.** However the steps of calls and mutations are ordered, and
whichever process revoked the key and whoever commits afterwards: a request whose call of `resolve` begins
more than a TTL after the key is revoked is refused, and neither Redis nor the outbox has changed. -/
theorem revocation_takes_effect {ttl : Int} (httl : 0 ≤ ttl) {committed later last : State}
    {past between future : List CacheStep} {t : Nat} {l : Lookup} {snapshot : Snapshot}
    (hpast : Run (exec ttl) Undisturbed (State.start db) past committed)
    (hbetween : Run (exec ttl) Undisturbed committed between later)
    (hfuture : Run (exec ttl) Undisturbed later future last)
    (hcommits : ∀ step ∈ between ++ future, AdminCommits step)
    (hrevoked : committed.current.Revoked l.digest) (hlate : committed.clock + ttl < later.clock)
    (hidle : later.resolves t = .idle) (hreturned : last.resolves t = .returned l snapshot)
    (expected header : Option String) (payload : CheckRequest) {drawn : Drawn}
    (hdrawn : drawn.resolved = snapshot.resolved) (system : System) :
    postCheck expected header payload drawn system =
      ((requireServiceToken expected header).map fun _ => refused "revoked_key", system) := by
  obtain ⟨seen, hseen, hload⟩ := load_of_kept httl hpast hbetween hfuture hrevoked
    (fun step hmem => (hcommits step hmem).keeps_revoked) hlate hidle hreturned
  obtain ⟨limits, hlimits, hdead⟩ := hseen.load
  rw [postCheck]
  cases requireServiceToken expected header with
  | error e => rfl
  | ok _ => exact checkRoute_revoked (hdrawn.trans (hload.trans hlimits)) hdead system

/-- A call has cached the key when another process revokes it. -/
def sampleRevoked : List KeyCache.Action :=
  [.call 0 "digest", .resolve 0, .resolve 0, .resolve 0, .resolve 0, .resolve 0, .resolve 0, .resolve 0,
    .otherCommit (sampleDatabase.revoke sampleKey 1)]

/-- A TTL later the key is called for again. -/
def sampleLateCall : List KeyCache.Action :=
  [.call 1 "digest", .resolve 1, .resolve 1, .resolve 1, .resolve 1, .resolve 1, .resolve 1, .resolve 1]

open KeyCache in
theorem revocation_takes_effect_sample :
    let committed := Run.final (exec 5) (State.start sampleDatabase) sampleRevoked
    let later := Run.final (exec 5) committed [.tick 6]
    let last := Run.final (exec 5) later sampleLateCall
    let found : Snapshot := ⟨1, (sampleDatabase.revoke sampleKey 1).load "digest"⟩
    last.resolves 1 = .returned ⟨0, "digest"⟩ found ∧
      postCheck none none sampleCheckRequest ⟨found.resolved, "a", sampleTime 7, 7⟩ sampleHalf =
        (.ok (refused "revoked_key"), sampleHalf) := by
  intro committed later last found
  have hreturned : last.resolves 1 = .returned ⟨0, "digest"⟩ found := by decide +kernel
  refine ⟨hreturned, revocation_takes_effect (by decide)
    (Run.of_events (exec 5) (State.start sampleDatabase) sampleRevoked)
    (Run.of_events (exec 5) committed [.tick 6]) (Run.of_events (exec 5) later sampleLateCall)
    (fun step hmem db hdb => ?_) ?_ ?_ rfl hreturned none none sampleCheckRequest rfl sampleHalf⟩
  · have hevents := List.mem_map_of_mem (f := Step.event) hmem
    rw [List.map_append, Run.map_event_trace, Run.map_event_trace] at hevents
    have hnone : ∀ a ∈ [.tick 6] ++ sampleLateCall, Action.commits a = none := by decide
    rw [hnone _ hevents] at hdb
    cases hdb
  · exact ⟨_, List.mem_singleton_self _, rfl, by decide⟩
  · show (0 : ℚ) + (5 : Int) < max 0 6
    norm_num

end QuotaGuard
