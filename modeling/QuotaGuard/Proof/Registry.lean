import QuotaGuard.Service.Registry
import QuotaGuard.Proof.Trace

/-!
# What a call of a script may cost

However the commands of the callers are ordered, delayed, lost and repeated, Redis has executed scripts
one after the other, each of them for one call: a call that returns has been executed once, and its
reply is that of the execution. The retry after a `NOSCRIPT` cannot execute a script twice, and it takes
two losses of the script cache for a call to fail of them.
-/

namespace QuotaGuard.ScriptRegistry

open State

variable {ι π δ α ρ : Type} {S : Scripts δ α ρ} {s s' found : State ι π δ α ρ}
  {t u : ι} {steps past future : List (RegistryStep ι π δ α ρ)} {redis : Keyspace} {now : Time}

/-! ### What a run has executed -/

/-- A call that waits, or that has stopped waiting because its command raised. -/
def Phase.Waits (phase : Phase π α ρ) (c : Invocation π α) : Prop :=
  (∃ stage, phase = .running c stage) ∨ phase = .finished (some c) .redisError

/-- The script whose digest a caller waits for, or has. -/
def Phase.script : Phase π α ρ → Option String
  | .running c _ => some c.name
  | .preloading _ name _ => some name
  | .idle | .finished _ _ => none

/-- The call of `run` a caller has made. -/
def Phase.invocation : Phase π α ρ → Option (Invocation π α)
  | .running c _ => some c
  | .finished c _ => c
  | .idle | .preloading _ _ _ => none

theorem Phase.Waits.invocation {phase : Phase π α ρ} {c : Invocation π α} (h : phase.Waits c) :
    phase.invocation = some c := by
  obtain ⟨stage, rfl⟩ | rfl := h <;> rfl

/-- The execution is of the script and the arguments of the call. -/
structure Execution.Runs (e : Execution ι α ρ) (S : Scripts δ α ρ) (c : Invocation π α) : Prop where
  text : S.source c.name = some e.text
  args : e.args = c.args

/-- All executions of a run, in their order. -/
def executions (steps : List (RegistryStep ι π δ α ρ)) : List (Execution ι α ρ) :=
  steps.filterMap Step.reply

theorem executions_concat (past : List (RegistryStep ι π δ α ρ)) (step : RegistryStep ι π δ α ρ) :
    executions (past ++ [step]) = executions past ++ step.reply.toList := by
  rw [executions, List.filterMap_append, ← executions]
  cases hreply : step.reply <;> simp [hreply]

/-- The executions for one caller. -/
def ofTask [DecidableEq ι] (t : ι) (executed : List (Execution ι α ρ)) : List (Execution ι α ρ) :=
  executed.filter fun e => e.task = t

/-- The files have digests of their own. -/
def Scripts.Distinct (S : Scripts δ α ρ) : Prop :=
  ∀ name name' text text', S.source name = some text → S.source name' = some text' →
    S.sha text = S.sha text' → text = text'

/-- One execution of a script on Redis, as an event of its own. -/
structure Scripts.Event (α : Type) where
  text : String
  args : α
  now : Time

def Scripts.exec (S : Scripts δ α ρ) (e : Scripts.Event α) (redis : Keyspace) :
    Except RedisError ρ × Keyspace :=
  S.eval e.text e.args e.now redis

def Execution.event (e : Execution ι α ρ) : Scripts.Event α := ⟨e.text, e.args, e.now⟩

namespace State

variable [DecidableEq ι]

@[simp] theorem goto_phases_self (phase : Phase π α ρ) (wire : Wire δ α ρ) :
    (s.goto t phase wire).phases t = phase :=
  Function.update_self ..

@[simp] theorem goto_wires_self (phase : Phase π α ρ) (wire : Wire δ α ρ) :
    (s.goto t phase wire).wires t = wire :=
  Function.update_self ..

@[simp] theorem answer_phases (answer : Answer δ ρ) : (s.answer t answer).phases = s.phases := rfl

@[simp] theorem answer_wires_self (answer : Answer δ ρ) :
    (s.answer t answer).wires t = .answered answer :=
  Function.update_self ..

theorem answer_wires_of_ne (hne : u ≠ t) (answer : Answer δ ρ) :
    (s.answer t answer).wires u = s.wires u :=
  Function.update_of_ne hne _ _

theorem goto_phases_of_ne (hne : u ≠ t) (phase : Phase π α ρ) (wire : Wire δ α ρ) :
    (s.goto t phase wire).phases u = s.phases u :=
  Function.update_of_ne hne _ _

theorem goto_wires_of_ne (hne : u ≠ t) (phase : Phase π α ρ) (wire : Wire δ α ρ) :
    (s.goto t phase wire).wires u = s.wires u :=
  Function.update_of_ne hne _ _

end State

/-! ### Each call is executed at most once -/

/-- What has been executed for a caller, as its phase and its command on the way say. -/
inductive Account (S : Scripts δ α ρ) :
    List (Execution ι α ρ) → Phase π α ρ → Wire δ α ρ → Prop
  | unserved (phase : Phase π α ρ) (wire : Wire δ α ρ)
      (hphase : ∀ c reply, phase ≠ .finished c (.value reply))
      (hwire : ∀ reply, wire ≠ .answered (.value reply)) : Account S [] phase wire
  | served (c : Invocation π α) (e : Execution ι α ρ) (phase : Phase π α ρ) (hruns : e.Runs S c)
      (hwaits : phase.Waits c) : Account S [e] phase (.answered (.value e.reply))
  | returned (c : Invocation π α) (e : Execution ι α ρ) (hruns : e.Runs S c) :
      Account S [e] (.finished (some c) (.value e.reply)) .empty

namespace Account

variable {executed : List (Execution ι α ρ)} {phase phase' : Phase π α ρ} {wire wire' : Wire δ α ρ}
  {c : Invocation π α}

theorem length_le (h : Account S executed phase wire) : executed.length ≤ 1 := by
  cases h <;> simp

/-- Nothing has been executed for a caller whose command is on its way, or has another answer than a
reply. -/
theorem of_wire (h : Account S executed phase wire) (hempty : wire ≠ .empty)
    (hwire : ∀ reply, wire ≠ .answered (.value reply)) :
    executed = [] ∧ ∀ c reply, phase ≠ .finished c (.value reply) := by
  cases h with
  | unserved _ _ hphase _ => exact ⟨rfl, hphase⟩
  | served c e _ _ _ => exact absurd rfl (hwire e.reply)
  | returned c e _ => exact absurd rfl hempty

theorem of_idle (h : Account S executed (.idle : Phase π α ρ) wire) : executed = [] := by
  cases h with
  | unserved => rfl
  | served c e _ _ hwaits => simp [Phase.Waits] at hwaits

/-- The reply a caller waits for is that of its one execution. -/
theorem of_value {stage : Stage} {reply : Except RedisError ρ}
    (h : Account S executed (.running c stage) (.answered (.value reply) : Wire δ α ρ)) :
    ∃ e, executed = [e] ∧ e.Runs S c ∧ e.reply = reply := by
  generalize hwire : (Wire.answered (.value reply) : Wire δ α ρ) = wire at h
  cases h with
  | unserved _ _ _ hvalue => exact absurd hwire.symm (hvalue reply)
  | served c' e _ hruns hwaits =>
      cases hwire
      obtain ⟨stage', hrunning⟩ | hfinished := hwaits
      · cases hrunning
        exact ⟨e, rfl, hruns, rfl⟩
      · cases hfinished

/-- A call that has returned has been executed, and has returned what the execution replied. -/
theorem of_returned {reply : Except RedisError ρ}
    (h : Account S executed (.finished (some c) (.value reply)) wire) :
    ∃ e, executed = [e] ∧ e.Runs S c ∧ e.reply = reply := by
  generalize hphase : (Phase.finished (some c) (.value reply) : Phase π α ρ) = phase at h
  cases h with
  | unserved _ _ hvalue _ => exact absurd hphase.symm (hvalue _ reply)
  | served c' e _ hruns hwaits =>
      subst hphase
      rcases hwaits with ⟨stage, hrunning⟩ | hfinished
      · cases hrunning
      · cases hfinished
  | returned c' e hruns =>
      cases hphase
      exact ⟨e, rfl, hruns, rfl⟩

theorem of_refused (h : Account S executed (.finished (some c) .noScript) wire) : executed = [] := by
  generalize hphase : (Phase.finished (some c) .noScript : Phase π α ρ) = phase at h
  cases h with
  | unserved => rfl
  | served c' e _ hruns hwaits =>
      subst hphase
      rcases hwaits with ⟨stage, hrunning⟩ | hfinished
      · cases hrunning
      · cases hfinished
  | returned c' e hruns => cases hphase

/-- An execution is for the call its caller waits for, has waited for, or has returned from. -/
theorem own (h : Account S executed phase wire) {e : Execution ι α ρ} (he : e ∈ executed) :
    ∃ c, e.Runs S c ∧ (phase.Waits c ∨ phase = .finished (some c) (.value e.reply)) := by
  cases h with
  | unserved => cases he
  | served c' e' _ hruns hwaits =>
      rw [List.mem_singleton.mp he]
      exact ⟨c', hruns, .inl hwaits⟩
  | returned c' e' hruns =>
      rw [List.mem_singleton.mp he]
      exact ⟨c', hruns, .inr rfl⟩

/-- A caller that stops waiting keeps its account. -/
theorem stop (h : Account S executed phase wire)
    (hvalue : ∀ c reply, phase ≠ .finished c (.value reply))
    (hvalue' : ∀ c reply, phase' ≠ .finished c (.value reply))
    (hwaits : ∀ c, phase.Waits c → phase'.Waits c) : Account S executed phase' wire := by
  cases h with
  | unserved _ _ _ hwire => exact .unserved _ _ hvalue' hwire
  | served c e _ hruns hc => exact .served c e _ hruns (hwaits c hc)
  | returned c e _ => exact absurd rfl (hvalue _ e.reply)

end Account

/-! ### Serial histories -/

/-- The executions on Redis, one after the other, with any keys lost in between. -/
def Serial (S : Scripts δ α ρ) (redis : Keyspace) (executed : List (Execution ι α ρ))
    (redis' : Keyspace) : Prop :=
  ∃ steps last, Run S.exec Losing redis steps last ∧ last.Loses redis' ∧
    steps.map Step.event = executed.map Execution.event ∧
    steps.map Step.reply = executed.map Execution.reply

theorem Serial.nil (S : Scripts δ α ρ) (redis : Keyspace) :
    Serial S redis ([] : List (Execution ι α ρ)) redis :=
  ⟨[], redis, .nil redis, .refl redis, rfl, rfl⟩

theorem Serial.loses {executed : List (Execution ι α ρ)} {redis' found : Keyspace}
    (h : Serial S redis executed redis') (hloses : redis'.Loses found) :
    Serial S redis executed found := by
  obtain ⟨steps, last, hrun, hlast, hevents, hreplies⟩ := h
  exact ⟨steps, last, hrun, hlast.trans hloses, hevents, hreplies⟩

theorem Serial.execute {executed : List (Execution ι α ρ)} {redis' : Keyspace}
    (h : Serial S redis executed redis') (t : ι) (text : String) (args : α) (now : Time) :
    Serial S redis (executed ++ [⟨t, text, args, now, (S.eval text args now redis').1⟩])
      (S.eval text args now redis').2 := by
  obtain ⟨steps, last, hrun, hlast, hevents, hreplies⟩ := h
  refine ⟨steps ++ [Step.of S.exec ⟨text, args, now⟩ redis'], _,
    Run.snoc_iff.mpr ⟨last, _, redis', hrun, hlast, rfl, rfl⟩, .refl _, ?_, ?_⟩
  · rw [List.map_append, List.map_append, hevents]
    rfl
  · rw [List.map_append, List.map_append, hreplies]
    rfl

section Linearized

variable [DecidableEq ι]

/-- What has been executed is one history of Redis, and accounts for every caller. -/
structure Linearized (S : Scripts δ α ρ) (redis : Keyspace) (executed : List (Execution ι α ρ))
    (s : State ι π δ α ρ) : Prop where
  serial : Serial S redis executed s.redis
  ordered : executed.Pairwise fun e later => e.now ≤ later.now
  past : ∀ e ∈ executed, e.now ≤ s.now
  account : ∀ t, Account S (ofTask t executed) (s.phases t) (s.wires t)

theorem Linearized.start (S : Scripts δ α ρ) (redis : Keyspace) (now : Time) :
    Linearized S redis [] (State.start redis now : State ι π δ α ρ) where
  serial := .nil S redis
  ordered := .nil
  past := by simp
  account := fun _ => .unserved _ _ (by simp [State.start]) (by simp [State.start])

theorem Linearized.drifts {executed : List (Execution ι α ρ)} (h : Linearized S redis executed s) (hdrifts : Drifts e s found) :
    Linearized S redis executed found := by
  obtain ⟨hfound, hnow, hloses⟩ := hdrifts
  refine ⟨h.serial.loses hloses, h.ordered, fun e he => (h.past e he).trans hnow, ?_⟩
  rw [hfound]
  exact h.account

end Linearized

/-! ### Digests and the texts they stand for -/

/-- The digest is that of the script's file. -/
def Scripts.IsSha (S : Scripts δ α ρ) (name : String) (sha : δ) : Prop :=
  ∃ text, S.source name = some text ∧ S.sha text = sha

/-- A command, or its answer, is one the caller can have on its way. -/
def Fits (S : Scripts δ α ρ) (phase : Phase π α ρ) : Wire δ α ρ → Prop
  | .sent (.load text) =>
    (∃ name, S.source name = some text) ∧ ∀ name, phase.script = some name → S.source name = some text
  | .sent (.evalsha sha args) => ∃ c, phase.Waits c ∧ S.IsSha c.name sha ∧ args = c.args
  | .answered (.loaded sha) => ∀ name, phase.script = some name → S.IsSha name sha
  | .empty | .answered (.value _) | .answered .noScript => True

/-- A caller that stops waiting leaves its command on its way. -/
theorem Fits.stop {phase phase' : Phase π α ρ} {wire : Wire δ α ρ} (h : Fits S phase wire)
    (hscript : phase'.script = none) (hwaits : ∀ c, phase.Waits c → phase'.Waits c) :
    Fits S phase' wire := by
  cases wire with
  | empty => trivial
  | answered answer =>
      cases answer with
      | loaded sha => exact fun name hname => by simp [hscript] at hname
      | value reply => trivial
      | noScript => trivial
  | sent command =>
      cases command with
      | load text => exact ⟨h.1, fun name hname => by simp [hscript] at hname⟩
      | evalsha sha args =>
          obtain ⟨c, hc, hcommand⟩ := h
          exact ⟨c, hwaits c hc, hcommand⟩

/-- Redis and the registries know scripts by their digests only. -/
structure Sound (S : Scripts δ α ρ) (s : State ι π δ α ρ) : Prop where
  scripts : ∀ sha text, s.scripts sha = some text → S.sha text = sha ∧ ∃ name, S.source name = some text
  shas : ∀ owner name sha, s.shas owner name = some sha → S.IsSha name sha
  fits : ∀ t, Fits S (s.phases t) (s.wires t)

theorem Sound.drifts (h : Sound S s) (hdrifts : Drifts e s found) :
    Sound S found := by
  rw [hdrifts.1]
  exact ⟨h.scripts, h.shas, h.fits⟩

theorem Sound.start (S : Scripts δ α ρ) (redis : Keyspace) (now : Time) :
    Sound S (State.start redis now : State ι π δ α ρ) where
  scripts := fun _ _ h => by cases h
  shas := fun _ _ _ h => by cases h
  fits := fun _ => trivial

/-- What Redis executes for a caller is the script of its call. -/
theorem Sound.runs (hdistinct : S.Distinct) (h : Sound S s) {sha : δ} {args : α} {text : String}
    (hwire : s.wires t = .sent (.evalsha sha args)) (hscript : s.scripts sha = some text) :
    ∃ c, (s.phases t).Waits c ∧ S.source c.name = some text ∧ args = c.args := by
  have hfits := h.fits t
  rw [hwire] at hfits
  obtain ⟨c, hwaits, ⟨text', htext', hsha'⟩, hargs⟩ := hfits
  obtain ⟨hsha, name, hname⟩ := h.scripts sha text hscript
  obtain rfl := hdistinct _ _ _ _ hname htext' (hsha.trans hsha'.symm)
  exact ⟨c, hwaits, htext', hargs⟩

/-- An answer takes the place of a command. -/
theorem Sound.answer [DecidableEq ι] (h : Sound S s) {answer : Answer δ ρ}
    (hanswer : Fits S (s.phases t) (.answered answer)) : Sound S (s.answer t answer) := by
  refine ⟨h.scripts, h.shas, fun u => ?_⟩
  by_cases hu : u = t
  · subst hu
    rw [answer_wires_self]
    exact hanswer
  · rw [answer_wires_of_ne hu]
    exact h.fits u

/-- A script is loaded under its digest. -/
theorem Sound.load [DecidableEq δ] (h : Sound S s) {text : String} (htext : ∃ name, S.source name = some text) :
    Sound S { s with scripts := Function.update s.scripts (S.sha text) (some text) } := by
  refine ⟨fun sha text' hscript => ?_, h.shas, h.fits⟩
  change Function.update s.scripts (S.sha text) (some text) sha = some text' at hscript
  by_cases hsha : sha = S.sha text
  · subst hsha
    rw [Function.update_self, Option.some.injEq] at hscript
    subst hscript
    exact ⟨rfl, htext⟩
  · rw [Function.update_of_ne hsha] at hscript
    exact h.scripts sha text' hscript

/-- An answer that is no reply leaves the account as it is. -/
theorem Account.answer [DecidableEq ι] (answer : Answer δ ρ) {executed : List (Execution ι α ρ)}
    {command : Command δ α} (hanswer : ∀ reply, answer ≠ .value reply)
    (hwire : s.wires t = .sent command)
    (h : Account S executed (s.phases u) (s.wires u)) :
    Account S executed (s.phases u) ((s.answer t answer).wires u) := by
  by_cases hu : u = t
  · subst hu
    obtain ⟨hnil, hphase⟩ := h.of_wire (by simp [hwire]) (by simp [hwire])
    rw [hnil, answer_wires_self]
    exact .unserved _ _ hphase (by simp [hanswer])
  · rw [answer_wires_of_ne hu]
    exact h

variable [DecidableEq π]

/-- The digests the registries know after the caller has taken an answer. -/
inductive Learns (s : State ι π δ α ρ) (t : ι) : (π → String → Option δ) → Prop
  | nothing : Learns s t s.shas
  | digest (owner : π) (name : String) (sha : δ) (hscript : (s.phases t).script = some name)
      (hwire : s.wires t = .answered (.loaded sha)) : Learns s t (s.remember owner name sha).shas

/-- A digest a registry knows is one it knew, or one the caller has been answered. -/
theorem Learns.of_sha {shas : π → String → Option δ} (h : Learns s t shas) {owner : π} {name : String}
    {sha : δ} (hsha : shas owner name = some sha) :
    s.shas owner name = some sha ∨
      (s.phases t).script = some name ∧ s.wires t = .answered (.loaded sha) := by
  cases h with
  | nothing => exact .inl hsha
  | digest owner' name' sha' hscript hwire =>
      unfold remember at hsha
      by_cases howner : owner = owner'
      · subst howner
        simp only [Function.update_self] at hsha
        by_cases hname : name = name'
        · subst hname
          rw [Function.update_self, Option.some.injEq] at hsha
          exact .inr ⟨hscript, hsha ▸ hwire⟩
        · rw [Function.update_of_ne hname] at hsha
          exact .inl hsha
      · simp only [Function.update_of_ne howner] at hsha
        exact .inl hsha

theorem Sound.learns (h : Sound S s) {shas : π → String → Option δ} (hlearns : Learns s t shas)
    (owner : π) (name : String) (sha : δ) (hsha : shas owner name = some sha) : S.IsSha name sha := by
  rcases hlearns.of_sha hsha with hknown | ⟨hscript, hwire⟩
  · exact h.shas owner name sha hknown
  · have hfits := h.fits t
    rw [hwire] at hfits
    exact hfits name hscript

/-! ### One step -/

/-- What a caller can do by itself: the digests, its phase and its wire after its step. -/
inductive Goes (S : Scripts δ α ρ) (e : Event ι π α) (s : State ι π δ α ρ) (t : ι) :
    (π → String → Option δ) → Phase π α ρ → Wire δ α ρ → Prop
  | registers (c : Invocation π α) (text : String) (hevent : e = .call t c)
      (hidle : s.phases t = .idle) (htext : S.source c.name = some text) :
      Goes S e s t s.shas (.running c .registering) (.sent (.load text))
  | reloads (c : Invocation π α) (text : String) (hphase : s.phases t = .running c .evaluating)
      (hwire : s.wires t = .answered .noScript) (htext : S.source c.name = some text) :
      Goes S e s t s.shas (.running c .reloading) (.sent (.load text))
  | unreadable (c : Invocation π α) (hphase : e = .call t c ∧ s.phases t = .idle ∨
        s.phases t = .running c .evaluating ∧ s.wires t = .answered .noScript) (htext : S.source c.name = none) :
      Goes S e s t s.shas (.finished (some c) .runtimeError) .empty
  | known (c : Invocation π α) (sha : δ) (hevent : e = .call t c) (hidle : s.phases t = .idle)
      (hsha : s.shas c.owner c.name = some sha) :
      Goes S e s t s.shas (.running c .evaluating) (.sent (.evalsha sha c.args))
  | registered (c : Invocation π α) (sha : δ) (hphase : s.phases t = .running c .registering)
      (hwire : s.wires t = .answered (.loaded sha)) :
      Goes S e s t (s.remember c.owner c.name sha).shas (.running c .evaluating)
        (.sent (.evalsha sha c.args))
  | reloaded (c : Invocation π α) (sha : δ) (hphase : s.phases t = .running c .reloading)
      (hwire : s.wires t = .answered (.loaded sha)) :
      Goes S e s t (s.remember c.owner c.name sha).shas (.running c .retrying)
        (.sent (.evalsha sha c.args))
  | returns (c : Invocation π α) (stage : Stage) (reply : Except RedisError ρ)
      (hphase : s.phases t = .running c stage) (hwire : s.wires t = .answered (.value reply)) :
      Goes S e s t s.shas (.finished (some c) (.value reply)) .empty
  | raises (c : Invocation π α) (hphase : s.phases t = .running c .retrying)
      (hwire : s.wires t = .answered .noScript) :
      Goes S e s t s.shas (.finished (some c) .noScript) .empty
  | preloads (owner : π) (name : String) (rest : List String) (text : String)
      (shas : π → String → Option δ) (hshas : Learns s t shas)
      (hphase : s.phases t = .idle ∨ ∃ sha, s.wires t = .answered (.loaded sha))
      (htext : S.source name = some text) :
      Goes S e s t shas (.preloading owner name rest) (.sent (.load text))
  | preloaded (outcome : Outcome ρ) (shas : π → String → Option δ) (hshas : Learns s t shas)
      (hphase : s.phases t = .idle ∨ ∃ sha, s.wires t = .answered (.loaded sha))
      (houtcome : outcome = .loadedAll ∨ outcome = .runtimeError) :
      Goes S e s t shas (.finished none outcome) .empty
  | fails (c : Invocation π α) (stage : Stage) (hevent : e = .fail t)
      (hphase : s.phases t = .running c stage) :
      Goes S e s t s.shas (.finished (some c) .redisError) (s.wires t)
  | failsPreload (owner : π) (name : String) (rest : List String) (hevent : e = .fail t)
      (hphase : s.phases t = .preloading owner name rest) :
      Goes S e s t s.shas (.finished none .redisError) (s.wires t)
  | drops (command : Command δ α) (hwire : s.wires t = .sent command) :
      Goes S e s t s.shas (s.phases t) .empty

/-- The step of a caller leaves a command on its way that fits. -/
theorem Sound.fits_goes (h : Sound S s) {shas : π → String → Option δ} {phase : Phase π α ρ}
    {wire : Wire δ α ρ} (hgoes : Goes S e s t shas phase wire) : Fits S phase wire := by
  have hfits := h.fits t
  cases hgoes with
  | registers c text hevent hidle htext =>
      exact ⟨⟨c.name, htext⟩, fun _ hscript => Option.some.inj hscript ▸ htext⟩
  | reloads c text hphase hwire htext =>
      exact ⟨⟨c.name, htext⟩, fun _ hscript => Option.some.inj hscript ▸ htext⟩
  | unreadable c hphase htext => trivial
  | known c sha hevent hidle hsha => exact ⟨c, .inl ⟨_, rfl⟩, h.shas _ _ _ hsha, rfl⟩
  | registered c sha hphase hwire =>
      rw [hphase, hwire] at hfits
      exact ⟨c, .inl ⟨_, rfl⟩, hfits _ rfl, rfl⟩
  | reloaded c sha hphase hwire =>
      rw [hphase, hwire] at hfits
      exact ⟨c, .inl ⟨_, rfl⟩, hfits _ rfl, rfl⟩
  | returns c stage reply hphase hwire => trivial
  | raises c hphase hwire => trivial
  | preloads owner name rest text shas hshas hphase htext =>
      exact ⟨⟨name, htext⟩, fun _ hscript => Option.some.inj hscript ▸ htext⟩
  | preloaded outcome shas hshas hphase houtcome => trivial
  | fails c stage hevent hphase =>
      rw [hphase] at hfits
      refine hfits.stop rfl fun c' hwaits => ?_
      rcases hwaits with ⟨stage', hc'⟩ | hc'
      · cases hc'
        exact .inr rfl
      · cases hc'
  | failsPreload owner name rest hevent hphase =>
      rw [hphase] at hfits
      refine hfits.stop rfl fun c' hwaits => ?_
      rcases hwaits with ⟨stage', hc'⟩ | hc' <;> cases hc'
  | drops command hwire => trivial

theorem Goes.learns {shas : π → String → Option δ} {phase : Phase π α ρ} {wire : Wire δ α ρ}
    (h : Goes S e s t shas phase wire) : Learns s t shas := by
  cases h with
  | registers c text hevent hidle htext => exact .nothing
  | reloads c text hphase hwire htext => exact .nothing
  | unreadable c hphase htext => exact .nothing
  | known c sha hevent hidle hsha => exact .nothing
  | registered c sha hphase hwire => exact .digest _ _ _ (by rw [hphase]; rfl) hwire
  | reloaded c sha hphase hwire => exact .digest _ _ _ (by rw [hphase]; rfl) hwire
  | returns c stage reply hphase hwire => exact .nothing
  | raises c hphase hwire => exact .nothing
  | preloads owner name rest text shas hshas hphase htext => exact hshas
  | preloaded outcome shas hshas hphase houtcome => exact hshas
  | fails c stage hevent hphase => exact .nothing
  | failsPreload owner name rest hevent hphase => exact .nothing
  | drops command hwire => exact .nothing

/-- A caller runs the call it has made, or the one it ran before. -/
theorem Goes.invocation {shas : π → String → Option δ} {phase : Phase π α ρ} {wire : Wire δ α ρ}
    {c : Invocation π α} (h : Goes S e s t shas phase wire) (hc : phase.invocation = some c) :
    e = .call t c ∨ (s.phases t).invocation = some c := by
  cases h with
  | registers c' text hevent hidle htext =>
      cases hc
      exact .inl hevent
  | reloads c' text hphase hwire htext =>
      rw [hphase]
      exact .inr hc
  | unreadable c' hphase htext =>
      cases hc
      rcases hphase with ⟨hevent, -⟩ | ⟨hphase, -⟩
      · exact .inl hevent
      · rw [hphase]
        exact .inr rfl
  | known c' sha hevent hidle hsha =>
      cases hc
      exact .inl hevent
  | registered c' sha hphase hwire =>
      rw [hphase]
      exact .inr hc
  | reloaded c' sha hphase hwire =>
      rw [hphase]
      exact .inr hc
  | returns c' stage reply hphase hwire =>
      rw [hphase]
      exact .inr hc
  | raises c' hphase hwire =>
      rw [hphase]
      exact .inr hc
  | preloads owner name rest text shas hshas hphase htext => cases hc
  | preloaded outcome shas hshas hphase houtcome => cases hc
  | fails c' stage hevent hphase =>
      rw [hphase]
      exact .inr hc
  | failsPreload owner name rest hevent hphase => cases hc
  | drops command hwire => exact .inr hc

/-- A step of the caller itself keeps its account. -/
theorem Account.goes {executed : List (Execution ι α ρ)} {phase : Phase π α ρ} {wire : Wire δ α ρ}
    {shas : π → String → Option δ}
    (h : Account S executed (s.phases t) (s.wires t)) (hgoes : Goes S e s t shas phase wire) :
    Account S executed phase wire := by
  cases hgoes with
  | registers c text hevent hidle htext =>
      rw [hidle] at h
      rw [h.of_idle]
      exact .unserved _ _ (by simp) (by simp)
  | reloads c text hphase hwire htext =>
      rw [(h.of_wire (by simp [hwire]) (by simp [hwire])).1]
      exact .unserved _ _ (by simp) (by simp)
  | unreadable c hphase htext =>
      rcases hphase with ⟨-, hidle⟩ | ⟨-, hwire⟩
      · rw [hidle] at h
        rw [h.of_idle]
        exact .unserved _ _ (by simp) (by simp)
      · rw [(h.of_wire (by simp [hwire]) (by simp [hwire])).1]
        exact .unserved _ _ (by simp) (by simp)
  | known c sha hevent hidle hsha =>
      rw [hidle] at h
      rw [h.of_idle]
      exact .unserved _ _ (by simp) (by simp)
  | registered c sha hphase hwire =>
      rw [(h.of_wire (by simp [hwire]) (by simp [hwire])).1]
      exact .unserved _ _ (by simp) (by simp)
  | reloaded c sha hphase hwire =>
      rw [(h.of_wire (by simp [hwire]) (by simp [hwire])).1]
      exact .unserved _ _ (by simp) (by simp)
  | returns c stage reply hphase hwire =>
      rw [hphase, hwire] at h
      obtain ⟨e, rfl, hruns, rfl⟩ := h.of_value
      exact .returned c e hruns
  | raises c hphase hwire =>
      rw [(h.of_wire (by simp [hwire]) (by simp [hwire])).1]
      exact .unserved _ _ (by simp) (by simp)
  | preloads owner name rest text shas hshas hphase htext =>
      rcases hphase with hidle | ⟨sha, hwire⟩
      · rw [hidle] at h
        rw [h.of_idle]
        exact .unserved _ _ (by simp) (by simp)
      · rw [(h.of_wire (by simp [hwire]) (by simp [hwire])).1]
        exact .unserved _ _ (by simp) (by simp)
  | preloaded outcome shas hshas hphase houtcome =>
      have hvalue : ∀ reply, outcome ≠ .value reply := by
        rcases houtcome with rfl | rfl <;> simp
      rcases hphase with hidle | ⟨sha, hwire⟩
      · rw [hidle] at h
        rw [h.of_idle]
        exact .unserved _ _ (by simp [hvalue]) (by simp)
      · rw [(h.of_wire (by simp [hwire]) (by simp [hwire])).1]
        exact .unserved _ _ (by simp [hvalue]) (by simp)
  | fails c stage hevent hphase =>
      rw [hphase] at h
      refine h.stop (by simp) (by simp) fun c' hwaits => ?_
      rcases hwaits with ⟨stage', hc'⟩ | hc'
      · cases hc'
        exact .inr rfl
      · cases hc'
  | failsPreload owner name rest hevent hphase =>
      rw [hphase] at h
      refine h.stop (by simp) (by simp) fun c' hwaits => ?_
      rcases hwaits with ⟨stage', hc'⟩ | hc' <;> cases hc'
  | drops command hwire =>
      obtain ⟨hnil, hphase⟩ := h.of_wire (by simp [hwire]) (by simp [hwire])
      rw [hnil]
      exact .unserved _ _ hphase (by simp)

/-! ### The steps of Redis -/

section Steps

variable [DecidableEq ι] [DecidableEq δ]

/-- What one step can do. -/
inductive Advance (S : Scripts δ α ρ) (s : State ι π δ α ρ) :
    Event ι π α → Option (Execution ι α ρ) → State ι π δ α ρ → Prop
  | nothing (e : Event ι π α) : Advance S s e none s
  | goes (e : Event ι π α) (t : ι) (shas : π → String → Option δ) (phase : Phase π α ρ)
      (wire : Wire δ α ρ) (hgoes : Goes S e s t shas phase wire) :
      Advance S s e none ({ s with shas }.goto t phase wire)
  | loads (t : ι) (text : String) (hwire : s.wires t = .sent (.load text)) :
      Advance S s (.serve t) none ({ s with
        scripts := Function.update s.scripts (S.sha text) (some text) }.answer t
          (.loaded (S.sha text)))
  | misses (t : ι) (sha : δ) (args : α) (hwire : s.wires t = .sent (.evalsha sha args))
      (hscript : s.scripts sha = none) : Advance S s (.serve t) none (s.answer t .noScript)
  | executes (t : ι) (sha : δ) (args : α) (text : String)
      (hwire : s.wires t = .sent (.evalsha sha args)) (hscript : s.scripts sha = some text) :
      Advance S s (.serve t) (some ⟨t, text, args, s.now, (S.eval text args s.now s.redis).1⟩)
        ({ s with redis := (S.eval text args s.now s.redis).2 }.answer t
          (.value (S.eval text args s.now s.redis).1))
  | forgets : Advance S s .flush none { s with scripts := fun _ => none }

theorem goes_preload (e : Event ι π α) (owner : π) (shas : π → String → Option δ)
    (hshas : Learns s t shas)
    (hphase : s.phases t = .idle ∨ ∃ sha, s.wires t = .answered (.loaded sha)) (names : List String) :
    Advance S s e none ({ s with shas }.preload S t owner names) := by
  cases names with
  | nil => exact .goes e t _ _ _ (.preloaded .loadedAll shas hshas hphase (.inl rfl))
  | cons name rest =>
      unfold preload
      dsimp only
      cases htext : S.source name with
      | some text => exact .goes e t _ _ _ (.preloads owner name rest text shas hshas hphase htext)
      | none => exact .goes e t _ _ _ (.preloaded .runtimeError shas hshas hphase (.inr rfl))

theorem advance_call (hidle : s.phases t = .idle) (c : Invocation π α) :
    Advance S s (.call t c) none (s.call S t c) := by
  unfold call register
  cases hsha : s.shas c.owner c.name with
  | some sha => exact .goes _ t _ _ _ (.known c sha rfl hidle hsha)
  | none =>
      cases htext : S.source c.name with
      | some text => exact .goes _ t _ _ _ (.registers c text rfl hidle htext)
      | none => exact .goes _ t _ _ _ (.unreadable c (.inl ⟨rfl, hidle⟩) htext)

theorem advance_receive {answer : Answer δ ρ} (hwire : s.wires t = .answered answer) :
    Advance S s (.receive t) none (s.receive S t answer) := by
  unfold receive
  cases hphase : s.phases t with
  | idle => exact .nothing _
  | finished c outcome => exact .nothing _
  | preloading owner name rest =>
      cases answer with
      | loaded sha =>
          have hlearns : Learns s t (s.remember owner name sha).shas :=
            .digest owner name sha (by rw [hphase]; rfl) hwire
          exact goes_preload (s := s) _ owner _ hlearns (.inr ⟨sha, hwire⟩) rest
      | value reply => exact .nothing _
      | noScript => exact .nothing _
  | running c stage =>
      cases stage with
      | registering =>
          cases answer with
          | loaded sha => exact .goes _ t _ _ _ (.registered c sha hphase hwire)
          | value reply => exact .nothing _
          | noScript => exact .nothing _
      | evaluating =>
          cases answer with
          | loaded sha => exact .nothing _
          | value reply => exact .goes _ t _ _ _ (.returns c _ reply hphase hwire)
          | noScript =>
              dsimp only [register]
              cases htext : S.source c.name with
              | some text => exact .goes _ t _ _ _ (.reloads c text hphase hwire htext)
              | none => exact .goes _ t _ _ _ (.unreadable c (.inr ⟨hphase, hwire⟩) htext)
      | reloading =>
          cases answer with
          | loaded sha => exact .goes _ t _ _ _ (.reloaded c sha hphase hwire)
          | value reply => exact .nothing _
          | noScript => exact .nothing _
      | retrying =>
          cases answer with
          | loaded sha => exact .nothing _
          | value reply => exact .goes _ t _ _ _ (.returns c _ reply hphase hwire)
          | noScript => exact .goes _ t _ _ _ (.raises c hphase hwire)

theorem advance_serve {command : Command δ α} (hwire : s.wires t = .sent command) :
    Advance S s (.serve t) (s.serve S t command).1 (s.serve S t command).2 := by
  cases command with
  | load text => exact .loads t text hwire
  | evalsha sha args =>
      unfold serve
      dsimp only
      cases hscript : s.scripts sha with
      | none => exact .misses t sha args hwire hscript
      | some text => exact .executes t sha args text hwire hscript

/-- **What one step can do**, whatever the event. -/
theorem advance (S : Scripts δ α ρ) (e : Event ι π α) (s : State ι π δ α ρ) :
    Advance S s e (exec S e s).1 (exec S e s).2 := by
  cases e with
  | call t c =>
      dsimp only [exec]
      cases hphase : s.phases t with
      | idle => exact advance_call hphase c
      | running c' stage => exact .nothing _
      | preloading owner name rest => exact .nothing _
      | finished c' outcome => exact .nothing _
  | loadAll t owner =>
      dsimp only [exec]
      cases hphase : s.phases t with
      | idle => exact goes_preload _ owner s.shas .nothing (.inl hphase) S.stems
      | running c' stage => exact .nothing _
      | preloading owner' name rest => exact .nothing _
      | finished c' outcome => exact .nothing _
  | serve t =>
      dsimp only [exec]
      cases hwire : s.wires t with
      | empty => exact .nothing _
      | sent command => exact advance_serve hwire
      | answered answer => exact .nothing _
  | receive t =>
      dsimp only [exec]
      cases hwire : s.wires t with
      | empty => exact .nothing _
      | sent command => exact .nothing _
      | answered answer => exact advance_receive hwire
  | fail t =>
      dsimp only [exec]
      cases hphase : s.phases t with
      | idle => exact .nothing _
      | running c stage => exact .goes _ t _ _ _ (.fails c stage rfl hphase)
      | preloading owner name rest => exact .goes _ t _ _ _ (.failsPreload owner name rest rfl hphase)
      | finished c outcome => exact .nothing _
  | drop t =>
      dsimp only [exec]
      cases hwire : s.wires t with
      | empty => exact .nothing _
      | sent command =>
          have hgoes := Advance.goes (S := S) (.drop t) t s.shas (s.phases t) .empty
            (.drops command hwire)
          simpa only [goto, Function.update_eq_self] using hgoes
      | answered answer => exact .nothing _
  | flush => exact .forgets

/-! ### The invariants of a run -/

theorem Sound.advance (h : Sound S s) {e : Event ι π α} {execution : Option (Execution ι α ρ)}
    (hadvance : Advance S s e execution s') : Sound S s' := by
  cases hadvance with
  | nothing => exact h
  | goes e t shas phase wire hgoes =>
      refine ⟨h.scripts, h.learns hgoes.learns, fun u => ?_⟩
      by_cases hu : u = t
      · subst hu
        rw [goto_phases_self, goto_wires_self]
        exact h.fits_goes hgoes
      · rw [goto_phases_of_ne hu, goto_wires_of_ne hu]
        exact h.fits u
  | loads t text hwire =>
      have hfits := h.fits t
      rw [hwire] at hfits
      refine Sound.answer (h.load hfits.1) fun name hname => ⟨text, hfits.2 name hname, rfl⟩
  | misses t sha args hwire hscript => exact h.answer trivial
  | executes t sha args text hwire hscript =>
      have hsound : Sound S { s with redis := (S.eval text args s.now s.redis).2 } :=
        ⟨h.scripts, h.shas, h.fits⟩
      exact hsound.answer trivial
  | forgets => exact ⟨fun _ _ hscript => (by cases hscript), h.shas, h.fits⟩

theorem Advance.invocation {execution : Option (Execution ι α ρ)} {c : Invocation π α}
    (h : Advance S s e execution s') (hc : (s'.phases t).invocation = some c) :
    e = .call t c ∨ (s.phases t).invocation = some c := by
  cases h with
  | nothing => exact .inr hc
  | goes _ u shas phase wire hgoes =>
      by_cases ht : t = u
      · subst ht
        rw [goto_phases_self] at hc
        exact hgoes.invocation hc
      · rw [goto_phases_of_ne ht] at hc
        exact .inr hc
  | loads u text hwire => exact .inr hc
  | misses u sha args hwire hscript => exact .inr hc
  | executes u sha args text hwire hscript => exact .inr hc
  | forgets => exact .inr hc

/-- Every step keeps the account of every caller. -/
theorem Account.advance (hdistinct : S.Distinct) (hsound : Sound S s)
    {execution : Option (Execution ι α ρ)} (hadvance : Advance S s e execution s')
    {executed : List (Execution ι α ρ)} (h : Account S executed (s.phases u) (s.wires u)) :
    Account S (executed ++ ofTask u execution.toList) (s'.phases u) (s'.wires u) := by
  cases hadvance with
  | nothing => simpa [ofTask] using h
  | forgets => simpa [ofTask] using h
  | goes e t shas phase wire hgoes =>
      simp only [ofTask, Option.toList_none, List.filter_nil, List.append_nil]
      by_cases hu : u = t
      · subst hu
        rw [goto_phases_self, goto_wires_self]
        exact h.goes hgoes
      · rw [goto_phases_of_ne hu, goto_wires_of_ne hu]
        exact h
  | loads t text hwire =>
      simp only [ofTask, Option.toList_none, List.filter_nil, List.append_nil]
      exact Account.answer _ (by simp) hwire h
  | misses t sha args hwire hscript =>
      simp only [ofTask, Option.toList_none, List.filter_nil, List.append_nil]
      exact Account.answer _ (by simp) hwire h
  | executes t sha args text hwire hscript =>
      by_cases hu : u = t
      · subst hu
        obtain ⟨c, hwaits, hruns⟩ := hsound.runs hdistinct hwire hscript
        obtain ⟨hnil, -⟩ := h.of_wire (by simp [hwire]) (by simp [hwire])
        rw [hnil, answer_wires_self, ofTask, Option.toList_some, List.nil_append,
          List.filter_cons_of_pos (by simp), List.filter_nil]
        exact .served c _ _ ⟨hruns.1, hruns.2⟩ hwaits
      · rw [answer_wires_of_ne hu, ofTask, Option.toList_some,
          List.filter_cons_of_neg (by simpa using fun h => hu h.symm)]
        simpa using h

/-! ### Runs -/

namespace Linearized

variable {executed : List (Execution ι α ρ)}

theorem step (hdistinct : S.Distinct) (hsound : Sound S s) (h : Linearized S redis executed s)
    {execution : Option (Execution ι α ρ)} (hadvance : Advance S s e execution s') :
    Linearized S redis (executed ++ execution.toList) s' := by
  have haccount (t : ι) : Account S (ofTask t (executed ++ execution.toList)) (s'.phases t)
      (s'.wires t) := by
    rw [ofTask, List.filter_append]
    exact (h.account t).advance hdistinct hsound hadvance
  cases hadvance with
  | nothing => simpa using h
  | goes _ t shas phase wire hgoes =>
      rw [Option.toList_none, List.append_nil] at haccount ⊢
      exact ⟨h.serial, h.ordered, h.past, haccount⟩
  | loads t text hwire =>
      rw [Option.toList_none, List.append_nil] at haccount ⊢
      exact ⟨h.serial, h.ordered, h.past, haccount⟩
  | misses t sha args hwire hscript =>
      rw [Option.toList_none, List.append_nil] at haccount ⊢
      exact ⟨h.serial, h.ordered, h.past, haccount⟩
  | forgets =>
      rw [Option.toList_none, List.append_nil] at haccount ⊢
      exact ⟨h.serial, h.ordered, h.past, haccount⟩
  | executes t sha args text hwire hscript =>
      refine ⟨h.serial.execute t text args s.now, ?_, ?_, haccount⟩
      · rw [Option.toList_some, List.pairwise_append]
        refine ⟨h.ordered, List.pairwise_singleton .., fun e he later hlater => ?_⟩
        rw [List.mem_singleton.mp hlater]
        exact h.past e he
      · intro e he
        rcases List.mem_append.mp he with he | he
        · exact h.past e he
        · rw [Option.toList_some, List.mem_singleton] at he
          rw [he]
          exact le_refl s.now

theorem of_run (hdistinct : S.Distinct)
    (hrun : Run (exec S) Drifts (State.start redis now) steps s) :
    Linearized S redis (executions steps) s := by
  have hboth : Sound S s ∧ Linearized S redis (executions steps) s := by
    refine hrun.history (P := fun past s => Sound S s ∧ Linearized S redis (executions past) s)
      ⟨.start S redis now, .start S redis now⟩ ?_ fun _ _ => trivial
    intro past middle e found hpast hdrifts _
    have hsound := hpast.1.drifts hdrifts
    refine ⟨hsound.advance (advance S e found), ?_⟩
    rw [executions_concat]
    exact (hpast.2.drifts hdrifts).step hdistinct hsound (advance S e found)
  exact hboth.2

end Linearized

/-- What is true of every call that is made is true of every call that runs. -/
theorem calls_of_run {p : Invocation π α → Prop}
    {link : Event ι π α → State ι π δ α ρ → State ι π δ α ρ → Prop}
    (hlink : ∀ e s found, link e s found → found.phases = s.phases)
    (hrun : Run (exec S) link (State.start redis now) steps s)
    (hcalls : ∀ step ∈ steps, ∀ t c, step.event = .call t c → p c) :
    ∀ t c, (s.phases t).invocation = some c → p c := by
  refine hrun.history (P := fun _ s => ∀ t c, (s.phases t).invocation = some c → p c)
    (fun _ _ h => (by cases h)) ?_ hcalls
  intro past middle e found hpast hfound hok t c hc
  rcases (advance S e found).invocation hc with hcall | hc
  · exact hok t c hcall
  · rw [hlink _ _ _ hfound] at hc
    exact hpast t c hc

/-- The calls are executed one after the other, each at most once, and a call that returns has been
executed between its beginning and its end. -/
structure Linearizable (S : Scripts δ α ρ) (redis : Keyspace)
    (past future : List (RegistryStep ι π δ α ρ)) (s s' : State ι π δ α ρ) : Prop where
  serial : Serial S redis (executions (past ++ future)) s'.redis
  ordered : (executions (past ++ future)).Pairwise fun e later => e.now ≤ later.now
  once : ∀ t, (ofTask t (executions (past ++ future))).length ≤ 1
  own : ∀ t, ∀ e ∈ ofTask t (executions (past ++ future)), ∃ c, e.Runs S c ∧
    ((s'.phases t).Waits c ∨ s'.phases t = .finished (some c) (.value e.reply))
  returned : ∀ t c reply, s'.phases t = .finished (some c) (.value reply) →
    ∃ e, ofTask t (executions (past ++ future)) = [e] ∧ e.Runs S c ∧ e.reply = reply
  refused : ∀ t c, s'.phases t = .finished (some c) .noScript →
    ofTask t (executions (past ++ future)) = []
  /-- What has returned is not executed later, and what has not begun has not been executed. -/
  before : ∀ t c reply, s.phases t = .finished (some c) (.value reply) →
    ofTask t (executions future) = []
  after : ∀ t, s.phases t = .idle → ofTask t (executions past) = []

/-- **Calls are linearizable.** A `close` shows in the owners of the calls after it and in the commands
that fail. -/
theorem calls_linearizable (hdistinct : S.Distinct)
    (hpast : Run (exec S) Drifts (State.start redis now) past s)
    (hfuture : Run (exec S) Drifts s future s') : Linearizable S redis past future s s' := by
  have hmiddle := Linearized.of_run hdistinct hpast
  have hend := Linearized.of_run hdistinct (Run.append_iff.mpr ⟨s, hpast, hfuture⟩)
  have hsplit (t : ι) : ofTask t (executions (past ++ future)) =
      ofTask t (executions past) ++ ofTask t (executions future) := by
    rw [executions, List.filterMap_append, ofTask, List.filter_append]
    rfl
  refine ⟨hend.serial, hend.ordered, fun t => (hend.account t).length_le, fun t e he => ?_,
    fun t c reply hreply => ?_, fun t c hrefused => ?_, fun t c reply hreply => ?_,
    fun t hidle => ?_⟩
  · exact (hend.account t).own he
  · have haccount := hend.account t
    rw [hreply] at haccount
    exact haccount.of_returned
  · have haccount := hend.account t
    rw [hrefused] at haccount
    exact haccount.of_refused
  · have haccount := hmiddle.account t
    rw [hreply] at haccount
    obtain ⟨e, he, -⟩ := haccount.of_returned
    have hlength := (hend.account t).length_le
    rw [hsplit, he, List.singleton_append, List.length_cons] at hlength
    exact List.eq_nil_of_length_eq_zero (by omega)
  · have haccount := hmiddle.account t
    rw [hidle] at haccount
    exact haccount.of_idle

end Steps

/-- One file, and a script that replies without touching a key. -/
def sampleScripts : Scripts String Unit Nat where
  stems := ["check"]
  source := fun name => if name = "check" then some "return 1" else none
  sha := fun text => text
  eval := fun _ _ _ redis => (.ok 1, redis)

def sampleStart : State Bool Unit String Unit Nat := State.start Keyspace.empty (sampleTime 7)

/-- A run in which nothing changes by itself. -/
theorem drifts_of_events (s : State Bool Unit String Unit Nat) (events : List (Event Bool Unit Unit)) :
    Run (exec sampleScripts) Drifts s (Run.trace (exec sampleScripts) s events)
      (Run.final (exec sampleScripts) s events) := by
  refine (Run.of_events (exec sampleScripts) s events).mono fun e s found h => ?_
  cases h
  exact ⟨rfl, le_refl s.now, fun _ => .inl rfl⟩

/-- One caller loads the script and returns; the other finds it lost, loads it again and returns. -/
theorem calls_linearizable_sample :
    let check : Invocation Unit Unit := ⟨(), "check", ()⟩
    let early : List (Event Bool Unit Unit) :=
      [.call true check, .serve true, .receive true, .serve true, .receive true]
    let late : List (Event Bool Unit Unit) :=
      [.call false check, .flush, .serve false, .receive false, .serve false, .receive false,
        .serve false, .receive false]
    let s := Run.final (exec sampleScripts) sampleStart early
    let s' := Run.final (exec sampleScripts) s late
    s.phases true = .finished (some check) (.value (.ok 1)) ∧
      s'.phases false = .finished (some check) (.value (.ok 1)) ∧
      Linearizable sampleScripts Keyspace.empty (Run.trace (exec sampleScripts) sampleStart early)
        (Run.trace (exec sampleScripts) s late) s s' := by
  intro check early late s s'
  refine ⟨rfl, rfl, calls_linearizable (fun name name' text text' _ _ h => h)
    (drifts_of_events sampleStart early) (drifts_of_events s late)⟩

end QuotaGuard.ScriptRegistry
