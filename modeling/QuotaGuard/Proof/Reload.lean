import QuotaGuard.Proof.Registry

/-!
# Losses of the script cache

A call whose first EVALSHA finds no script loads it and calls again, once. One restart of Redis can
therefore hit any number of calls and fail none of them: a call that raises `NoScriptError` has seen two
losses, and one of them after it began.
-/

namespace QuotaGuard.ScriptRegistry

open State

variable {ι π δ α ρ : Type} {S : Scripts δ α ρ} {s s' found : State ι π δ α ρ} {e : Event ι π α}
  {t u : ι} {steps past future : List (RegistryStep ι π δ α ρ)} {redis : Keyspace} {now : Time} {n k : Nat}
  {command : Command δ α}

/-! ### What a caller has seen -/

/-- Redis forgets its scripts. -/
def Event.isFlush : Event ι π α → Bool
  | .flush => true
  | .call .. | .loadAll .. | .serve _ | .receive _ | .fail _ | .drop _ => false

/-- How often Redis forgets its scripts in a run. -/
def flushes (steps : List (RegistryStep ι π δ α ρ)) : Nat :=
  (steps.filter fun step => step.event.isFlush).length

/-- The digest a caller waits for, or has sent. -/
def awaited : Phase π α ρ → Wire δ α ρ → Option δ
  | .finished _ _, _ => none
  | _, .sent (.evalsha sha _) => some sha
  | _, .answered (.loaded sha) => some sha
  | _, _ => none

/-- The losses a caller has seen, and one more if the script of its command is gone; `k` of them have
come before its digest was known. -/
def seen (k : Nat) : Phase π α ρ → Wire δ α ρ → Nat
  | .running _ .reloading, .answered (.loaded _) => k + 1
  | .running _ _, .answered (.loaded _) => k
  | .preloading .., .answered (.loaded _) => k
  | .running _ .evaluating, .sent _ => k
  | .running _ .evaluating, .answered .noScript => k
  | .running _ .reloading, .sent _ => k
  | .running _ .retrying, .sent _ => k + 1
  | .running _ .retrying, .answered .noScript => k + 1
  | .finished _ .noScript, _ => k + 1
  | _, _ => 0

/-- One if Redis has the script. -/
def kept (scripts : δ → Option String) : Option δ → Nat
  | none => 0
  | some sha => if scripts sha = none then 0 else 1

/-- The losses a caller has seen are among the `n` there have been. -/
def Paid (n k : Nat) (s : State ι π δ α ρ) (t : ι) : Prop :=
  seen k (s.phases t) (s.wires t) ≤ n + kept s.scripts (awaited (s.phases t) (s.wires t))

/-- The digests the registries know are those of scripts that Redis has, or has lost. -/
def Known (n k : Nat) (s : State ι π δ α ρ) : Prop :=
  ∀ owner name sha, s.shas owner name = some sha → k ≤ n + kept s.scripts (some sha)

theorem kept_le (scripts : δ → Option String) (sha : Option δ) : kept scripts sha ≤ 1 := by
  cases sha with
  | none => exact Nat.zero_le _
  | some sha =>
      rw [kept]
      split <;> simp

theorem kept_of_none {scripts : δ → Option String} {sha : δ} (h : scripts sha = none) :
    kept scripts (some sha) = 0 :=
  if_pos h

/-- The digest a caller is answered is that of a script that Redis has, or has lost. -/
theorem Paid.loaded (h : Paid n k s t) {name : String} {sha : δ} (hscript : (s.phases t).script = some name)
    (hwire : s.wires t = .answered (.loaded sha)) : k ≤ n + kept s.scripts (some sha) := by
  unfold Paid at h
  rw [hwire] at h
  generalize s.phases t = phase at h hscript
  cases phase with
  | idle => cases hscript
  | running c stage =>
      cases stage with
      | registering => exact h
      | evaluating => exact h
      | reloading => exact le_trans (Nat.le_succ k) h
      | retrying => exact h
  | preloading owner name rest => exact h
  | finished c outcome => cases hscript

/-- The losses after a step. -/
def lost (e : Event ι π α) : Nat := if e.isFlush then 1 else 0

theorem flushes_concat (past : List (RegistryStep ι π δ α ρ)) (step : RegistryStep ι π δ α ρ) :
    flushes (past ++ [step]) = flushes past + lost step.event := by
  rw [flushes, List.filter_append, List.length_append, ← flushes, lost]
  cases hflush : step.event.isFlush <;> simp [hflush]

theorem Paid.drifts (h : Paid n k s t) (hdrifts : Drifts e s found) : Paid n k found t := by
  rw [hdrifts.1]
  exact h

theorem Known.drifts (h : Known n k s) (hdrifts : Drifts e s found) : Known n k found := by
  rw [hdrifts.1]
  exact h

/-- Whoever is told that a script is missing has seen it lost. -/
theorem Paid.miss (h : Paid n k s t) {sha : δ} {args : α} (hwire : s.wires t = .sent (.evalsha sha args))
    (hscript : s.scripts sha = none) :
    seen k (s.phases t) (.answered .noScript : Wire δ α ρ) ≤
      n + kept s.scripts (awaited (s.phases t) (.answered .noScript : Wire δ α ρ)) := by
  have hkept := kept_of_none hscript
  unfold Paid at h
  rw [hwire] at h
  generalize s.phases t = phase at h
  cases phase with
  | idle => exact Nat.zero_le _
  | running c stage =>
      have hawaited : awaited (.running c stage : Phase π α ρ)
          (.sent (.evalsha sha args) : Wire δ α ρ) = some sha := rfl
      rw [hawaited, hkept] at h
      cases stage with
      | registering => exact Nat.zero_le _
      | evaluating => exact h
      | reloading => exact Nat.zero_le _
      | retrying => exact h
  | preloading owner name rest => exact Nat.zero_le _
  | finished c outcome => cases outcome <;> exact h

/-- A reply is no loss. -/
theorem Paid.value (h : Paid n k s t) (hwire : s.wires t = .sent command) (reply : Except RedisError ρ) :
    seen k (s.phases t) (.answered (.value reply) : Wire δ α ρ) ≤
      n + kept s.scripts (awaited (s.phases t) (.answered (.value reply) : Wire δ α ρ)) := by
  unfold Paid at h
  rw [hwire] at h
  generalize s.phases t = phase at h
  cases phase with
  | idle => exact Nat.zero_le _
  | running c stage => cases stage <;> exact Nat.zero_le _
  | preloading owner name rest => exact Nat.zero_le _
  | finished c outcome => cases outcome <;> exact h

/-- The step of a caller itself keeps the losses it has seen among those there have been. -/
theorem Paid.goes [DecidableEq π] {shas : π → String → Option δ} {phase : Phase π α ρ} {wire : Wire δ α ρ}
    (hknown : Known n k s) (h : Paid n k s t) (hgoes : Goes S e s t shas phase wire) :
    seen k phase wire ≤ n + kept s.scripts (awaited phase wire) := by
  unfold Paid at h
  cases hgoes with
  | registers c text hevent hidle htext => exact Nat.zero_le _
  | reloads c text hphase hwire htext =>
      rw [hphase, hwire] at h
      exact h
  | unreadable c hphase htext => exact Nat.zero_le _
  | known c sha hevent hidle hsha => exact hknown _ _ _ hsha
  | registered c sha hphase hwire =>
      rw [hphase, hwire] at h
      exact h
  | reloaded c sha hphase hwire =>
      rw [hphase, hwire] at h
      exact h
  | returns c stage reply hphase hwire => exact Nat.zero_le _
  | raises c hphase hwire =>
      rw [hphase, hwire] at h
      exact h
  | preloads owner name rest text shas hshas hphase htext => exact Nat.zero_le _
  | preloaded outcome shas hshas hphase houtcome =>
      rcases houtcome with rfl | rfl <;> exact Nat.zero_le _
  | fails c stage hevent hphase => exact Nat.zero_le _
  | failsPreload owner name rest hevent hphase => exact Nat.zero_le _
  | drops command hwire =>
      generalize s.phases t = phase at h
      cases phase with
      | idle => exact Nat.zero_le _
      | running c stage => cases stage <;> exact Nat.zero_le _
      | preloading owner name rest => exact Nat.zero_le _
      | finished c outcome =>
          rw [hwire] at h
          cases outcome <;> exact h

/-- Why a call has ended so, as far as the run since it began can say. -/
def Explains (S : Scripts δ α ρ) (steps : List (RegistryStep ι π δ α ρ)) (t : ι) :
    Phase π α ρ → Prop
  | .finished (some _) .redisError => ∃ step ∈ steps, step.event = .fail t
  | .finished (some c) .runtimeError => S.source c.name = none
  | .finished (some _) .loadedAll => False
  | _ => True

theorem Explains.mono {phase : Phase π α ρ} (h : Explains S steps t phase)
    (hsub : ∀ step ∈ steps, step ∈ future) : Explains S future t phase := by
  cases phase with
  | finished c outcome =>
      cases c with
      | none => trivial
      | some c =>
          cases outcome with
          | redisError =>
              obtain ⟨step, hstep, hevent⟩ := h
              exact ⟨step, hsub step hstep, hevent⟩
          | runtimeError => exact h
          | loadedAll => exact h
          | value reply => trivial
          | noScript => trivial
  | idle => trivial
  | running c stage => trivial
  | preloading owner name rest => trivial

theorem Explains.goes [DecidableEq π] {shas : π → String → Option δ} {phase : Phase π α ρ} {wire : Wire δ α ρ}
    {step : RegistryStep ι π δ α ρ} (h : Explains S steps t (s.phases t)) (hstep : step ∈ steps)
    (hevent : step.event = e) (hgoes : Goes S e s t shas phase wire) : Explains S steps t phase := by
  cases hgoes with
  | registers c text hcall hidle htext => trivial
  | reloads c text hphase hwire htext => trivial
  | unreadable c hphase htext => exact htext
  | known c sha hcall hidle hsha => trivial
  | registered c sha hphase hwire => trivial
  | reloaded c sha hphase hwire => trivial
  | returns c stage reply hphase hwire => trivial
  | raises c hphase hwire => trivial
  | preloads owner name rest text shas hshas hphase htext => trivial
  | preloaded outcome shas hshas hphase houtcome => trivial
  | fails c stage hfail hphase => exact ⟨step, hstep, hevent.trans hfail⟩
  | failsPreload owner name rest hfail hphase => trivial
  | drops command hwire => exact h

variable [DecidableEq δ]

theorem kept_update (scripts : δ → Option String) (sha : δ) (text : String) :
    kept (Function.update scripts sha (some text)) (some sha) = 1 := by
  rw [kept, Function.update_self, if_neg (Option.some_ne_none text)]

theorem kept_load (scripts : δ → Option String) (loaded : δ) (text : String) (sha : Option δ) :
    kept scripts sha ≤ kept (Function.update scripts loaded (some text)) sha := by
  cases sha with
  | none => exact le_refl 0
  | some sha =>
      by_cases hsha : sha = loaded
      · subst hsha
        rw [kept_update]
        exact kept_le _ _
      · rw [kept, kept, Function.update_of_ne hsha]

/-- A loaded script is one more that Redis has, and at most one loss comes before a digest is known. -/
theorem Paid.load (hk : k ≤ 1) (h : Paid n k s t) {text : String} (hwire : s.wires t = .sent (.load text)) :
    seen k (s.phases t) (.answered (.loaded (S.sha text)) : Wire δ α ρ) ≤
      n + kept (Function.update s.scripts (S.sha text) (some text))
        (awaited (s.phases t) (.answered (.loaded (S.sha text)) : Wire δ α ρ)) := by
  have hkept := kept_update s.scripts (S.sha text) text
  unfold Paid at h
  rw [hwire] at h
  generalize s.phases t = phase at h
  cases phase with
  | idle => exact Nat.zero_le _
  | running c stage =>
      have hawaited : awaited (.running c stage : Phase π α ρ)
          (.answered (.loaded (S.sha text)) : Wire δ α ρ) = some (S.sha text) := rfl
      rw [hawaited, hkept]
      cases stage with
      | registering => exact hk.trans (Nat.le_add_left ..)
      | evaluating => exact hk.trans (Nat.le_add_left ..)
      | reloading => exact Nat.succ_le_succ h
      | retrying => exact hk.trans (Nat.le_add_left ..)
  | preloading owner name rest =>
      have hawaited : awaited (.preloading owner name rest : Phase π α ρ)
          (.answered (.loaded (S.sha text)) : Wire δ α ρ) = some (S.sha text) := rfl
      rw [hawaited, hkept]
      exact hk.trans (Nat.le_add_left ..)
  | finished c outcome => cases outcome <;> exact h

/-! ### One step -/

variable [DecidableEq π]

variable [DecidableEq ι]

/-- Every step keeps the losses a caller has seen among those there have been. -/
theorem Paid.advance (hk : k ≤ 1) (hknown : Known n k s) (h : Paid n k s u)
    {execution : Option (Execution ι α ρ)} (hadvance : Advance S s e execution s') :
    Paid (n + lost e) k s' u := by
  have hmore (m : Nat) (hm : m ≤ n + kept s.scripts (awaited (s.phases u) (s.wires u))) :
      m ≤ n + lost e + kept s.scripts (awaited (s.phases u) (s.wires u)) := by omega
  cases hadvance with
  | nothing => exact hmore _ h
  | goes _ t shas phase wire hgoes =>
      by_cases hu : u = t
      · subst hu
        have hpaid := h.goes hknown hgoes
        unfold Paid
        rw [goto_phases_self, goto_wires_self]
        refine hpaid.trans ?_
        exact Nat.add_le_add_right (Nat.le_add_right ..) _
      · unfold Paid
        rw [goto_phases_of_ne hu, goto_wires_of_ne hu]
        exact hmore _ h
  | loads t text hwire =>
      unfold Paid
      by_cases hu : u = t
      · subst hu
        rw [answer_wires_self]
        exact h.load hk hwire
      · rw [answer_wires_of_ne hu]
        exact le_trans h (Nat.add_le_add_left (kept_load s.scripts (S.sha text) text _) n)
  | misses t sha args hwire hscript =>
      unfold Paid
      by_cases hu : u = t
      · subst hu
        rw [answer_wires_self]
        exact h.miss hwire hscript
      · rw [answer_wires_of_ne hu]
        exact h
  | executes t sha args text hwire hscript =>
      unfold Paid
      by_cases hu : u = t
      · subst hu
        rw [answer_wires_self]
        exact h.value hwire _
      · rw [answer_wires_of_ne hu]
        exact h
  | forgets =>
      have hkept := kept_le s.scripts (awaited (s.phases u) (s.wires u))
      have hpaid : seen k (s.phases u) (s.wires u) ≤ n + 1 := le_trans h (Nat.add_le_add_left hkept n)
      exact hpaid.trans (Nat.le_add_right ..)

theorem Known.advance (hk : k ≤ 1) (h : Known n k s) (hpaid : ∀ t, Paid n k s t)
    {execution : Option (Execution ι α ρ)} (hadvance : Advance S s e execution s') :
    Known (n + lost e) k s' := by
  intro owner name sha hsha
  cases hadvance with
  | nothing => exact (h owner name sha hsha).trans (by omega)
  | goes _ t shas phase wire hgoes =>
      refine le_trans ?_ (Nat.add_le_add_right (Nat.le_add_right n (lost e)) _)
      rcases hgoes.learns.of_sha hsha with hold | ⟨hscript, hwire⟩
      · exact h owner name sha hold
      · exact (hpaid t).loaded hscript hwire
  | loads t text hwire => exact le_trans (h owner name sha hsha) (Nat.add_le_add_left (kept_load s.scripts (S.sha text) text _) n)
  | misses t sha' args hwire hscript => exact h owner name sha hsha
  | executes t sha' args text hwire hscript => exact h owner name sha hsha
  | forgets => exact hk.trans ((Nat.le_add_left 1 n).trans (Nat.le_add_right ..))

/-! ### Runs -/

/-- In a run from the beginning, whoever knows a digest has seen its script loaded. -/
theorem paid_of_run (hrun : Run (exec S) Drifts (State.start redis now) steps s) (t : ι) :
    Paid (flushes steps) 1 s t := by
  have hboth : Known (flushes steps) 1 s ∧ ∀ t, Paid (flushes steps) 1 s t := by
    refine hrun.history (P := fun past s => Known (flushes past) 1 s ∧ ∀ t, Paid (flushes past) 1 s t)
      ⟨fun _ _ _ hsha => (by cases hsha), fun _ => Nat.zero_le _⟩ ?_ fun _ _ => trivial
    intro past middle e found hpast hdrifts _
    have hknown := hpast.1.drifts hdrifts
    have hpaid (t : ι) := (hpast.2 t).drifts hdrifts
    rw [flushes_concat, Step.of_event]
    exact ⟨hknown.advance (le_refl 1) hpaid (advance S e found),
      fun t => (hpaid t).advance (le_refl 1) hknown (advance S e found)⟩
  exact hboth.2 t

/-- A call has seen the losses since it began, but for the one that may have come before. -/
theorem paid_since (hidle : s.phases t = .idle) (hrun : Run (exec S) Drifts s steps s') :
    Paid (flushes steps) 0 s' t := by
  have hstart : Paid 0 0 s t := by
    unfold Paid
    rw [hidle]
    exact Nat.zero_le _
  refine hrun.history (P := fun past s => Paid (flushes past) 0 s t) hstart ?_ fun _ _ => trivial
  intro past middle e found hpast hdrifts _
  rw [flushes_concat, Step.of_event]
  exact (hpast.drifts hdrifts).advance (Nat.zero_le 1) (fun _ _ _ _ => Nat.zero_le _)
    (advance S e found)

theorem Explains.advance (h : Explains S steps t (s.phases t)) {step : RegistryStep ι π δ α ρ}
    (hstep : step ∈ steps) (hevent : step.event = e) {execution : Option (Execution ι α ρ)}
    (hadvance : Advance S s e execution s') : Explains S steps t (s'.phases t) := by
  cases hadvance with
  | nothing => exact h
  | goes _ u shas phase wire hgoes =>
      by_cases ht : t = u
      · subst ht
        rw [goto_phases_self]
        exact h.goes hstep hevent hgoes
      · rw [goto_phases_of_ne ht]
        exact h
  | loads u text hwire => exact h
  | misses u sha args hwire hscript => exact h
  | executes u sha args text hwire hscript => exact h
  | forgets => exact h

theorem explains_of_run (hidle : s.phases t = .idle) (hrun : Run (exec S) Drifts s steps s') :
    Explains S steps t (s'.phases t) := by
  have hstart : Explains S [] t (s.phases t) := by
    rw [hidle]
    trivial
  refine hrun.history (P := fun past s => Explains S past t (s.phases t)) hstart ?_
    fun _ _ => trivial
  intro past middle e found hpast hdrifts _
  have hfound : Explains S (past ++ [Step.of (exec S) e found]) t (found.phases t) := by
    rw [hdrifts.1]
    exact hpast.mono fun step hstep => List.mem_append_left _ hstep
  exact hfound.advance (List.mem_append_right _ (List.mem_singleton_self _)) rfl (advance S e found)

/-- How a call can end that the run in the past has not made yet. -/
inductive Cause (S : Scripts δ α ρ) (past future : List (RegistryStep ι π δ α ρ)) (t : ι)
    (c : Invocation π α) : Outcome ρ → Prop
  | reply (reply : Except RedisError ρ) : Cause S past future t c (.value reply)
  | losses (hsince : 1 ≤ flushes future) (htotal : 2 ≤ flushes (past ++ future)) :
      Cause S past future t c .noScript
  | command (step : RegistryStep ι π δ α ρ) (hstep : step ∈ future) (hfails : step.event = .fail t) :
      Cause S past future t c .redisError
  | file (hfile : S.source c.name = none) : Cause S past future t c .runtimeError

/-- **A restart of Redis fails no call.** A call ends with the reply of its script, unless one of its
commands raises, its file cannot be read, or Redis has lost its scripts twice, and once since the call
began. -/
theorem restart_fails_no_call {c : Invocation π α} {outcome : Outcome ρ}
    (hpast : Run (exec S) Drifts (State.start redis now) past s) (hidle : s.phases t = .idle)
    (hfuture : Run (exec S) Drifts s future s')
    (hended : s'.phases t = .finished (some c) outcome) : Cause S past future t c outcome := by
  have hexplains := explains_of_run hidle hfuture
  rw [hended] at hexplains
  cases outcome with
  | value reply => exact .reply reply
  | runtimeError => exact .file hexplains
  | loadedAll => exact absurd hexplains id
  | redisError =>
      obtain ⟨step, hstep, hfails⟩ := hexplains
      exact .command step hstep hfails
  | noScript =>
      have hsince := paid_since hidle hfuture
      have htotal := paid_of_run (Run.append_iff.mpr ⟨s, hpast, hfuture⟩) t
      unfold Paid at hsince htotal
      rw [hended] at hsince htotal
      exact .losses hsince htotal

/-- A call that finds its script lost, loads it again, and finds it lost again. -/
def sampleTwiceLost : List (Event Bool Unit Unit) :=
  [.call true ⟨(), "check", ()⟩, .serve true, .receive true, .flush, .serve true, .receive true,
    .serve true, .receive true, .flush, .serve true, .receive true]

/-- Two losses are enough. -/
theorem restart_fails_no_call_sample :
    let steps := Run.trace (exec sampleScripts) sampleStart sampleTwiceLost
    flushes steps = 2 ∧ Cause sampleScripts [] steps true ⟨(), "check", ()⟩ .noScript := by
  intro steps
  have hrun := drifts_of_events sampleStart sampleTwiceLost
  exact ⟨rfl, restart_fails_no_call (.nil sampleStart) rfl hrun rfl⟩

end QuotaGuard.ScriptRegistry
