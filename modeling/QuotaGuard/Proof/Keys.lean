import QuotaGuard.Proof.Admin

/-!
# Revocation happens once and freezes the key

`revoke_key` and `update_key` look at `revoked_at` when they read the row and not when they commit. As
long as every commit that writes a column of a key finds it live, one revocation succeeds, every other
one is refused, and the row is never written again.
-/

namespace QuotaGuard

open Transaction

variable {calls : Nat → AdminCall} {db db' : Database} {key row : ApiKey} {s : AdminState}

/-- What `revoke_key` raises for a key that is there. -/
def alreadyRevoked (key : ApiKey) : AdminError :=
  .conflict ("Key '" ++ key.keyId.val ++ "' is already revoked.")

theorem revokeKey_error {now : Nat} {e : AdminError} (hkey : key ∈ db.keys)
    (h : revokeKey key.keyId.val now db = .error e) :
    key.revokedAt ≠ none ∧ e = alreadyRevoked key := by
  unfold revokeKey at h
  cases hfound : db.getKey key.keyId.val with
  | error e' =>
      unfold Database.getKey at hfound
      split at hfound
      · cases hfound
      · rename_i hnone
        exact absurd rfl (Table.find?_eq_none_iff.mp hnone key hkey)
  | ok row =>
      obtain ⟨hmem, hid⟩ := Database.mem_of_getKey hfound
      obtain rfl := Database.key_eq_of_keyId hkey hmem hid
      simp only [hfound, bind, Except.bind] at h
      split at h
      · rename_i hrevoked
        cases h
        exact ⟨by simpa [Option.isSome_iff_ne_none] using hrevoked, rfl⟩
      · cases h

/-! ### Clean commits -/

/-- A commit that writes a column of a key finds the key live. -/
def AdminWrite.FindsLive (write : AdminWrite) (db : Database) : Prop :=
  ∀ id columns, write = .writeKey id columns → columns ≠ {} →
    ∀ key ∈ db.keys, key.id = id → key.revokedAt = none

/-- A revoked key is not written by a clean commit. -/
theorem AdminWrite.FindsLive.keeps_revoked {write : AdminWrite} (hlive : write.FindsLive db)
    (hkey : key ∈ db.keys) (hrevoked : key.revokedAt ≠ none) (h : write.commit db = .ok db') :
    key ∈ db'.keys := by
  rcases AdminWrite.commit_cases hkey h with hkept | ⟨columns, rfl, hwritten⟩
  · exact hkept
  · by_cases hnothing : columns = {}
    · rwa [hnothing, KeyColumns.write_empty] at hwritten
    · exact absurd (hlive _ columns rfl hnothing key hkey rfl) hrevoked

theorem revoked_of_run {steps : List AdminStep} {s' : AdminState}
    (hrun : Run (adminExec calls) Undisturbed s steps s')
    (hclean : ∀ step ∈ steps,
      Transaction.Clean (fun _ => AdminWrite.FindsLive) step.event step.before)
    (hkey : key ∈ s.store.keys) (hrevoked : key.revokedAt ≠ none) : key ∈ s'.store.keys :=
  (run_invariant (I := fun db => key ∈ db.keys) (M := fun _ _ => True)
    (C := fun _ => AdminWrite.FindsLive) (fun _ _ _ _ _ => trivial)
    (fun _ _ _ _ hstore _ hlive h => hlive.keeps_revoked hstore hrevoked h) hrun hkey
    (fun _ _ _ => trivial) hclean).1

/-! ### Who revokes the key -/

/-- What a call has pending that concerns the key: the calls that revoke it, and only these, have its
`revoked_at` to write. -/
structure PendingOn (calls : Nat → AdminCall) (key : ApiKey) (i : Nat) (write : AdminWrite) :
    Prop where
  revoke : ∀ now, calls i = .revokeKey key.keyId.val now →
    write = .writeKey key.id { revokedAt := some (some now) }
  other : ∀ columns, write = .writeKey key.id columns → columns.revokedAt ≠ none →
    ∃ now, calls i = .revokeKey key.keyId.val now

theorem AdminCall.read_pendingOn {i : Nat} {write : AdminWrite} (hkey : key ∈ db.keys)
    (h : (calls i).read db = .ok write) : PendingOn calls key i write where
  revoke := by
    intro now hcall
    rw [hcall] at h
    obtain ⟨row, hrow, hid, -, rfl⟩ := revokeKey_ok h
    rw [Database.key_eq_of_keyId hkey hrow hid]
  other := by
    intro columns hwrite hset
    cases hcall : calls i with
    | createPlan data =>
        rw [hcall] at h
        obtain ⟨-, rfl⟩ := createPlan_ok h
        cases hwrite
    | updatePlan slug data =>
        rw [hcall] at h
        obtain ⟨plan, -, -, rfl, -⟩ := updatePlan_ok h
        cases hwrite
    | issueKey slug name keyId keyHash =>
        rw [hcall] at h
        obtain ⟨planId, rfl⟩ := issueKey_ok h
        cases hwrite
    | updateKey keyId data =>
        rw [hcall] at h
        obtain ⟨row, -, -, -, rfl⟩ := updateKey_ok h
        injection hwrite with _ hcolumns
        rw [← hcolumns] at hset
        exact absurd rfl hset
    | revokeKey keyId now =>
        rw [hcall] at h
        obtain ⟨row, hrow, rfl, -, rfl⟩ := revokeKey_ok h
        injection hwrite with hid
        rw [Database.key_eq_of_id hkey hrow hid]
        exact ⟨now, rfl⟩

/-- The row of the key is live, and no call that revokes it has completed. -/
structure Unrevoked (calls : Nat → AdminCall) (key row : ApiKey) (s : AdminState) : Prop where
  live : row.revokedAt = none
  open_ : ∀ i now, calls i = .revokeKey key.keyId.val now →
    s.phase i ≠ .returned ∧ ∀ e, s.phase i ≠ .raised e

/-- One call has revoked the key, and every other one that has completed was refused. -/
structure RevokedBy (calls : Nat → AdminCall) (key row : ApiKey) (winner : Nat) (s : AdminState) :
    Prop where
  succeeded : ∃ now, calls winner = .revokeKey key.keyId.val now ∧ row.revokedAt = some now
  returned : s.phase winner = .returned
  once : ∀ i now, calls i = .revokeKey key.keyId.val now → s.phase i = .returned → i = winner
  refused : ∀ i now e, calls i = .revokeKey key.keyId.val now → s.phase i = .raised e →
    e = alreadyRevoked key

/-- What holds of a key in every state of a clean run. -/
structure RevocationInv (calls : Nat → AdminCall) (key : ApiKey) (s : AdminState) : Prop where
  row : ∃ row ∈ s.store.keys, row.id = key.id ∧ row.keyId = key.keyId ∧
    (Unrevoked calls key row s ∨ ∃ winner, RevokedBy calls key row winner s)
  pending : Remembered (PendingOn calls key) s

section Goto

variable {i winner : Nat} {phase : Phase AdminWrite AdminError}

theorem Unrevoked.goto (h : Unrevoked calls key row s)
    (hphase : ∀ now, calls i = .revokeKey key.keyId.val now → phase ≠ .returned ∧
      ∀ e, phase ≠ .raised e) : Unrevoked calls key row (s.goto i phase) where
  live := h.live
  open_ := by
    intro j now hcall
    by_cases hij : j = i
    · rw [hij, State.phase_goto_self]
      exact hphase now (hij ▸ hcall)
    · rw [State.phase_goto_of_ne hij]
      exact h.open_ j now hcall

/-- The first call to complete is the one that revokes the key. -/
theorem Unrevoked.revokedBy {revoked : ApiKey} {now : Nat} (h : Unrevoked calls key row s)
    (hcall : calls i = .revokeKey key.keyId.val now) (hset : revoked.revokedAt = some now) :
    RevokedBy calls key revoked i (s.goto i .returned) where
  succeeded := ⟨now, hcall, hset⟩
  returned := State.phase_goto_self ..
  once := by
    intro j now' hcall' hreturned
    by_contra hij
    rw [State.phase_goto_of_ne hij] at hreturned
    exact (h.open_ j now' hcall').1 hreturned
  refused := by
    intro j now' e hcall' hraised
    by_cases hij : j = i
    · rw [hij, State.phase_goto_self] at hraised
      cases hraised
    · rw [State.phase_goto_of_ne hij] at hraised
      exact absurd hraised ((h.open_ j now' hcall').2 e)

theorem RevokedBy.goto (h : RevokedBy calls key row winner s) (hopen : s.phase i ≠ .returned)
    (hphase : ∀ now, calls i = .revokeKey key.keyId.val now → phase ≠ .returned ∧
      ∀ e, phase = .raised e → e = alreadyRevoked key) :
    RevokedBy calls key row winner (s.goto i phase) where
  succeeded := h.succeeded
  returned := by
    rw [State.phase_goto_of_ne]
    · exact h.returned
    · rintro rfl
      exact hopen h.returned
  once := by
    intro j now hcall hreturned
    by_cases hij : j = i
    · rw [hij, State.phase_goto_self] at hreturned
      exact absurd hreturned (hphase now (hij ▸ hcall)).1
    · rw [State.phase_goto_of_ne hij] at hreturned
      exact h.once j now hcall hreturned
  refused := by
    intro j now e hcall hraised
    by_cases hij : j = i
    · rw [hij, State.phase_goto_self] at hraised
      exact (hphase now (hij ▸ hcall)).2 e hraised
    · rw [State.phase_goto_of_ne hij] at hraised
      exact h.refused j now e hcall hraised

end Goto

/-- A clean commit revokes the key if it is that of a call that does, and keeps who has revoked it. -/
theorem RevocationInv.committed (h : RevocationInv calls key s) {i : Nat} {write : AdminWrite}
    (hphase : s.phase i = .pending write) (hlive : write.FindsLive s.store)
    (hcommit : write.commit s.store = .ok db') :
    RevocationInv calls key (State.goto i .returned { s with store := db' }) := by
  obtain ⟨row, hrow, hid, hkeyId, hstatus⟩ := h.row
  have hpending := h.pending i write hphase
  have hopen : s.phase i ≠ .returned := by
    rw [hphase]
    simp
  refine ⟨?_, Remembered.goto h.pending fun _ hreturned => by cases hreturned⟩
  -- Only a write of `revoked_at` to this row can change who has revoked the key.
  by_cases hrevoke : ∃ now, calls i = .revokeKey key.keyId.val now
  · obtain ⟨now, hcall⟩ := hrevoke
    obtain rfl := hpending.revoke now hcall
    have hset : ({ revokedAt := some (some now) } : KeyColumns) ≠ {} := by
      intro hnothing
      cases hnothing
    have hfound : row.revokedAt = none := hlive _ _ rfl hset row hrow hid
    cases hcommit
    refine ⟨({ revokedAt := some (some now) } : KeyColumns).write row,
      Database.mem_keys_writeKey.mpr ⟨row, hrow, if_pos hid⟩, hid, hkeyId, .inr ⟨i, ?_⟩⟩
    rcases hstatus with hstatus | ⟨winner, hstatus⟩
    · exact Unrevoked.revokedBy ⟨hstatus.live, hstatus.open_⟩ hcall rfl
    · obtain ⟨now', -, hrevoked⟩ := hstatus.succeeded
      rw [hfound] at hrevoked
      cases hrevoked
  · have hother : ∀ now, calls i = .revokeKey key.keyId.val now →
        (Phase.returned : Phase AdminWrite AdminError) ≠ .returned ∧
          ∀ e, (Phase.returned : Phase AdminWrite AdminError) ≠ .raised e :=
      fun now hcall => absurd ⟨now, hcall⟩ hrevoke
    rcases hstatus with hstatus | ⟨winner, hstatus⟩
    · rcases AdminWrite.commit_cases hrow hcommit with hkept | ⟨columns, rfl, hwritten⟩
      · exact ⟨row, hkept, hid, hkeyId, .inl (Unrevoked.goto ⟨hstatus.live, hstatus.open_⟩ hother)⟩
      · refine ⟨columns.write row, hwritten, hid, hkeyId, .inl (Unrevoked.goto
          ⟨?_, hstatus.open_⟩ hother)⟩
        have hcolumns : columns.revokedAt = none := by
          by_contra hset
          exact hrevoke (hpending.other columns (by rw [hid]) hset)
        show columns.revokedAt.getD row.revokedAt = none
        rw [hcolumns]
        exact hstatus.live
    · obtain ⟨now, -, hrevoked⟩ := hstatus.succeeded
      have hkept := hlive.keeps_revoked hrow (by rw [hrevoked]; exact Option.some_ne_none _) hcommit
      exact ⟨row, hkept, hid, hkeyId, .inr ⟨winner, RevokedBy.goto
        ⟨hstatus.succeeded, hstatus.returned, hstatus.once, hstatus.refused⟩ hopen
        fun now hcall => absurd ⟨now, hcall⟩ hrevoke⟩⟩

/-- A call that has nothing pending, or whose commit fails, leaves the row as it is. -/
theorem RevocationInv.goto (h : RevocationInv calls key s) {i : Nat}
    {phase : Phase AdminWrite AdminError} (hopen : s.phase i ≠ .returned)
    (hreturned : phase ≠ .returned)
    (hpending : ∀ write, phase = .pending write → PendingOn calls key i write)
    (hraised : ∀ now e, calls i = .revokeKey key.keyId.val now → phase = .raised e →
      e = alreadyRevoked key ∧ ∀ row ∈ s.store.keys, row.id = key.id → row.revokedAt ≠ none) :
    RevocationInv calls key (s.goto i phase) := by
  obtain ⟨row, hrow, hid, hkeyId, hstatus⟩ := h.row
  refine ⟨⟨row, hrow, hid, hkeyId, ?_⟩, h.pending.goto hpending⟩
  rcases hstatus with hstatus | ⟨winner, hstatus⟩
  · exact .inl (hstatus.goto fun now hcall => ⟨hreturned, fun e he =>
      (hraised now e hcall he).2 row hrow hid hstatus.live⟩)
  · exact .inr ⟨winner, hstatus.goto hopen fun now hcall => ⟨hreturned, fun e he =>
      (hraised now e hcall he).1⟩⟩

theorem RevocationInv.step (h : RevocationInv calls key s) {a : Action Nat}
    (hclean : Transaction.Clean (fun _ => AdminWrite.FindsLive) a s) :
    RevocationInv calls key (adminExec calls a s).2 := by
  obtain ⟨row, hrow, hid, hkeyId, -⟩ := h.row
  have heffect := step_effect (fun i => (calls i).request) a s
  show RevocationInv calls key (Transaction.step (fun i => (calls i).request) a s)
  generalize Transaction.step (fun i => (calls i).request) a s = s' at heffect ⊢
  cases heffect with
  | idle => exact h
  | @refused i e hphase hread =>
      refine h.goto (by simp [hphase]) (by simp)
        (fun write hpending => by cases hpending) fun now e' hcall hraised => ?_
      cases hraised
      change (calls i).read s.store = .error e at hread
      rw [hcall] at hread
      have hraise : revokeKey row.keyId.val now s.store = .error e := hkeyId ▸ hread
      obtain ⟨hrevoked, rfl⟩ := revokeKey_error hrow hraise
      refine ⟨by rw [alreadyRevoked, alreadyRevoked, hkeyId], fun row' hrow' hid' => ?_⟩
      rw [Database.key_eq_of_id hrow hrow' (hid'.trans hid.symm)]
      exact hrevoked
  | @read i memo hphase hread =>
      refine h.goto (by simp [hphase]) (by simp)
        (fun write hpending => ?_) fun now e hcall hraised => by cases hraised
      cases hpending
      obtain ⟨hrevoke, hother⟩ := AdminCall.read_pendingOn hrow hread
      rw [hkeyId, hid] at hrevoke
      rw [hkeyId, hid] at hother
      exact ⟨hrevoke, hother⟩
  | @failed i memo e hphase hcommit =>
      refine h.goto (by simp [hphase]) (by simp)
        (fun write hpending => by cases hpending) fun now e' hcall hraised => ?_
      rw [(h.pending i memo hphase).revoke now hcall] at hcommit
      cases hcommit
  | @committed i memo store hphase hcommit =>
      exact h.committed hphase (hclean i memo rfl hphase) hcommit

theorem RevocationInv.start (hkey : key ∈ db.keys) (hlive : key.revokedAt = none) :
    RevocationInv calls key (State.start db) where
  row := by
    refine ⟨key, hkey, rfl, rfl, .inl ⟨hlive, fun i now _ => ⟨?_, fun e => ?_⟩⟩⟩
    · simp [State.start]
    · simp [State.start]
  pending := Remembered.start _ _

theorem revocationInv_of_run {steps : List AdminStep} (hkey : key ∈ db.keys)
    (hlive : key.revokedAt = none) (hrun : Run (adminExec calls) Undisturbed (State.start db) steps s)
    (hclean : ∀ step ∈ steps,
      Transaction.Clean (fun _ => AdminWrite.FindsLive) step.event step.before) :
    RevocationInv calls key s := by
  refine hrun.history (P := fun _ s => RevocationInv calls key s) (.start hkey hlive) ?_ hclean
  intro _ middle a found hinv hlink hok
  cases hlink
  exact hinv.step hok

/-- **Revocation happens once and freezes the key in a clean run.** The key is in the database and live,
and the steps of any admin calls interleave in any order. When every commit that writes a column of a key
finds it live: as soon as the key is revoked its row is that of the end; a call that revokes it and raises
does so because it already is; and if any such call has completed, exactly one of them has succeeded. -/
theorem revoked_once {steps : List AdminStep} (hkey : key ∈ db.keys) (hlive : key.revokedAt = none)
    (hrun : Run (adminExec calls) Undisturbed (State.start db) steps s)
    (hclean : ∀ step ∈ steps,
      Transaction.Clean (fun _ => AdminWrite.FindsLive) step.event step.before) :
    (∀ step ∈ steps, ∀ row ∈ step.after.store.keys, row.keyId = key.keyId →
        row.revokedAt ≠ none → row ∈ s.store.keys) ∧
      (∀ i now e, calls i = .revokeKey key.keyId.val now → s.phase i = .raised e →
        e = .conflict ("Key '" ++ key.keyId.val ++ "' is already revoked.")) ∧
      ((∃ i now, calls i = .revokeKey key.keyId.val now ∧
          (s.phase i = .returned ∨ ∃ e, s.phase i = .raised e)) →
        ∃! i, s.phase i = .returned ∧ ∃ now, calls i = .revokeKey key.keyId.val now) := by
  refine ⟨fun step hmem row hrow _ hrevoked => ?_, ?_⟩
  · obtain ⟨future, hfuture, hlater⟩ := hrun.since hmem
    exact revoked_of_run hfuture (fun later hmem => hclean later (hlater later hmem)) hrow hrevoked
  obtain ⟨row, -, -, -, hstatus | ⟨winner, hstatus⟩⟩ :=
    (revocationInv_of_run hkey hlive hrun hclean).row
  · refine ⟨fun i now e hcall hraised => absurd hraised ((hstatus.open_ i now hcall).2 e), ?_⟩
    rintro ⟨i, now, hcall, hreturned | ⟨e, hraised⟩⟩
    · exact absurd hreturned (hstatus.open_ i now hcall).1
    · exact absurd hraised ((hstatus.open_ i now hcall).2 e)
  · refine ⟨hstatus.refused, fun _ => ⟨winner, ?_, ?_⟩⟩
    · obtain ⟨now, hcall, -⟩ := hstatus.succeeded
      exact ⟨hstatus.returned, now, hcall⟩
    · rintro i ⟨hreturned, now, hcall⟩
      exact hstatus.once i now hcall hreturned

/-- Two requests revoke the key, at 1 and at 2, and the others rename it. -/
def sampleKeyCalls : Nat → AdminCall
  | 0 => .revokeKey sampleKey.val 1
  | 1 => .revokeKey sampleKey.val 2
  | _ => .updateKey sampleKey.val { name := some (some ⟨"new", by decide +kernel, by decide +kernel⟩) }

/-- One request after the other: the key is renamed and revoked, and then revoking it again fails. -/
theorem revoked_once_sample :
    let s := Run.final (adminExec sampleKeyCalls) (State.start sampleDatabase)
      [.read 2, .commit 2, .read 0, .commit 0, .read 1]
    (∃! i, s.phase i = .returned ∧ ∃ now, sampleKeyCalls i = .revokeKey sampleKey.val now) ∧
      s.phase 1 = .raised (.conflict ("Key '" ++ sampleKey.val ++ "' is already revoked.")) := by
  intro s
  have hclean : ∀ step ∈ Run.trace (adminExec sampleKeyCalls) (State.start sampleDatabase)
      [.read 2, .commit 2, .read 0, .commit 0, .read 1],
      Transaction.Clean (fun _ => AdminWrite.FindsLive) step.event step.before := by
    simp only [Run.trace, List.mem_cons, List.not_mem_nil, or_false, forall_eq_or_imp, forall_eq,
      Step.of_event, Step.of_before]
    refine ⟨clean_read 2 _, clean_commit (.writeKey 1 { name := some "new" }) (by decide +kernel) ?_,
      clean_read 0 _, clean_commit (.writeKey 1 { revokedAt := some (some 1) }) (by decide +kernel) ?_,
      clean_read 1 _⟩
    all_goals
      intro id columns hwrite _
      cases hwrite
      decide +kernel
  have hreturned : s.phase 0 = .returned := by decide +kernel
  exact ⟨(revoked_once (List.mem_singleton_self _) rfl (Run.of_events _ _ _) hclean).2.2
    ⟨0, 1, rfl, .inl hreturned⟩, by decide +kernel⟩

/-- Two requests read the live row before either commits: both succeed, and the second one changes the
time of the first. A rename that has read the live row is committed to the revoked one. -/
theorem revoked_twice :
    (let s := Run.final (adminExec sampleKeyCalls) (State.start sampleDatabase) [.read 0, .read 1, .commit 0]
     let s' := Run.final (adminExec sampleKeyCalls) s [.commit 1]
     (∃ steps, Run (adminExec sampleKeyCalls) Undisturbed (State.start sampleDatabase) steps s) ∧
       (∃ steps, Run (adminExec sampleKeyCalls) Undisturbed s steps s') ∧
       s.store.keys.map ApiKey.revokedAt = [some 1] ∧ s'.store.keys.map ApiKey.revokedAt = [some 2] ∧
       s'.phase 0 = .returned ∧ s'.phase 1 = .returned) ∧
    (let s := Run.final (adminExec sampleKeyCalls) (State.start sampleDatabase) [.read 2, .read 0, .commit 0]
     let s' := Run.final (adminExec sampleKeyCalls) s [.commit 2]
     (∃ steps, Run (adminExec sampleKeyCalls) Undisturbed (State.start sampleDatabase) steps s) ∧
       (∃ steps, Run (adminExec sampleKeyCalls) Undisturbed s steps s') ∧
       s.store.keys.map ApiKey.revokedAt = [some 1] ∧ s.store.keys.map ApiKey.name = ["sample"] ∧
       s'.store.keys.map ApiKey.name = ["new"]) := by
  constructor
  · exact ⟨⟨_, Run.of_events _ _ _⟩, ⟨_, Run.of_events _ _ _⟩, by decide +kernel, by decide +kernel,
      by decide +kernel, by decide +kernel⟩
  · exact ⟨⟨_, Run.of_events _ _ _⟩, ⟨_, Run.of_events _ _ _⟩, by decide +kernel, by decide +kernel,
      by decide +kernel⟩

end QuotaGuard
