import Mathlib.Data.List.Induction
import Mathlib.Order.Basic
import Mathlib.Tactic.Basic

/-!
# Runs

A system answers one event at a time: `exec e s` is what it replies to the event `e` in the state
`s`, and the state it is left in. A run is a list of such executions. Between two of them the state
may move on its own, as far as the relation `link` allows; a run of the bare system is one whose
link is equality.

What one execution preserves is proved once for the system, and the rules below carry it over every
run.
-/

/-- One execution of a run: the state it found, its event, what it answered, and what it left. -/
structure Step (σ ε ρ : Type*) where
  before : σ
  event : ε
  reply : ρ
  after : σ

namespace Step

variable {σ ε ρ : Type*}

def of (exec : ε → σ → ρ × σ) (e : ε) (s : σ) : Step σ ε ρ :=
  ⟨s, e, (exec e s).1, (exec e s).2⟩

@[simp] theorem of_before (exec : ε → σ → ρ × σ) (e : ε) (s : σ) : (of exec e s).before = s := rfl

@[simp] theorem of_event (exec : ε → σ → ρ × σ) (e : ε) (s : σ) : (of exec e s).event = e := rfl

@[simp] theorem of_reply (exec : ε → σ → ρ × σ) (e : ε) (s : σ) :
    (of exec e s).reply = (exec e s).1 := rfl

@[simp] theorem of_after (exec : ε → σ → ρ × σ) (e : ε) (s : σ) :
    (of exec e s).after = (exec e s).2 := rfl

end Step

/-- The executions `steps` lead from `s` to `s'`, with `link` between two of them. -/
inductive Run {σ ε ρ : Type*} (exec : ε → σ → ρ × σ) (link : ε → σ → σ → Prop) :
    σ → List (Step σ ε ρ) → σ → Prop
  | nil (s : σ) : Run exec link s [] s
  | cons {s found s' : σ} {e : ε} {steps : List (Step σ ε ρ)} (hlink : link e s found)
      (hrest : Run exec link (exec e found).2 steps s') :
      Run exec link s (Step.of exec e found :: steps) s'

/-- Nothing moves the state between two executions. -/
def Undisturbed {σ ε : Type*} : ε → σ → σ → Prop := fun _ s found => found = s

namespace Run

variable {σ ε ρ : Type*} {exec : ε → σ → ρ × σ} {link : ε → σ → σ → Prop}
  {s s' : σ} {steps : List (Step σ ε ρ)}

@[simp] theorem nil_iff : Run exec link s [] s' ↔ s' = s := by
  constructor
  · intro h
    cases h
    rfl
  · rintro rfl
    exact .nil _

theorem cons_iff {step : Step σ ε ρ} :
    Run exec link s (step :: steps) s' ↔
      ∃ e found, step = Step.of exec e found ∧ link e s found ∧
        Run exec link (exec e found).2 steps s' := by
  constructor
  · intro h
    cases h with
    | cons hlink hrest => exact ⟨_, _, rfl, hlink, hrest⟩
  · rintro ⟨e, found, rfl, hlink, hrest⟩
    exact .cons hlink hrest

theorem append_iff {left right : List (Step σ ε ρ)} :
    Run exec link s (left ++ right) s' ↔
      ∃ middle, Run exec link s left middle ∧ Run exec link middle right s' := by
  induction left generalizing s with
  | nil => simp
  | cons step left ih =>
      simp only [List.cons_append, cons_iff, ih]
      constructor
      · rintro ⟨e, found, hstep, hlink, middle, hleft, hright⟩
        exact ⟨middle, ⟨e, found, hstep, hlink, hleft⟩, hright⟩
      · rintro ⟨middle, ⟨e, found, hstep, hlink, hleft⟩, hright⟩
        exact ⟨e, found, hstep, hlink, middle, hleft, hright⟩

theorem snoc_iff {step : Step σ ε ρ} :
    Run exec link s (steps ++ [step]) s' ↔
      ∃ middle e found, Run exec link s steps middle ∧ link e middle found ∧
        step = Step.of exec e found ∧ s' = (exec e found).2 := by
  simp only [append_iff, cons_iff, nil_iff]
  constructor
  · rintro ⟨middle, hsteps, e, found, hstep, hlink, hafter⟩
    exact ⟨middle, e, found, hsteps, hlink, hstep, hafter⟩
  · rintro ⟨middle, e, found, hsteps, hlink, hstep, hafter⟩
    exact ⟨middle, hsteps, e, found, hstep, hlink, hafter⟩

/-- Every member of a run is an execution of its own event. -/
theorem eq_of {step : Step σ ε ρ} (hrun : Run exec link s steps s') (hmem : step ∈ steps) :
    step = Step.of exec step.event step.before := by
  induction hrun with
  | nil => simp at hmem
  | cons hlink hrest ih =>
      rcases List.mem_cons.mp hmem with rfl | hmem
      · rfl
      · exact ih hmem

/-- What is left of a run after one of its executions. -/
theorem since {step : Step σ ε ρ} (hrun : Run exec link s steps s') (hmem : step ∈ steps) :
    ∃ future, Run exec link step.after future s' ∧ ∀ later ∈ future, later ∈ steps := by
  obtain ⟨past, future, rfl⟩ := List.append_of_mem hmem
  obtain ⟨middle, -, hrest⟩ := append_iff.mp hrun
  obtain ⟨e, found, rfl, -, hfuture⟩ := cons_iff.mp hrest
  exact ⟨future, hfuture, fun later hlater => List.mem_append_right _ (List.mem_cons_of_mem _ hlater)⟩

/-- **Invariant rule.** What holds at the start and is kept by the link and by every admissible
execution holds in every state of the run. -/
theorem invariant {I : σ → Prop} {p : ε → Prop}
    (hlink : ∀ e s found, I s → link e s found → I found)
    (hexec : ∀ e s, p e → I s → I (exec e s).2)
    (hrun : Run exec link s steps s') (hstart : I s) (hok : ∀ step ∈ steps, p step.event) :
    I s' ∧ ∀ step ∈ steps, I step.before ∧ I step.after := by
  induction hrun with
  | nil => exact ⟨hstart, by simp⟩
  | @cons s found s' e steps hl hrest ih =>
      have hfound := hlink _ _ _ hstart hl
      have hafter := hexec e found (hok _ (List.mem_cons_self ..)) hfound
      obtain ⟨hend, hsteps⟩ := ih hafter fun step hmem => hok step (List.mem_cons_of_mem _ hmem)
      refine ⟨hend, fun step hmem => ?_⟩
      rcases List.mem_cons.mp hmem with rfl | hmem
      · exact ⟨hfound, hafter⟩
      · exact hsteps step hmem

/-- **Clocked invariant rule.** The invariant speaks of a time, and holds at every later one. It is
kept by the link and by every admissible execution at the time of the event, and the events come in
the order of time. -/
theorem invariant_clock {τ : Type*} [Preorder τ] (clock : ε → τ) {I : τ → σ → Prop}
    {p : Step σ ε ρ → Prop} {start last : τ} (hmono : ∀ t t' s, t ≤ t' → I t s → I t' s)
    (hlink : ∀ e s found, I (clock e) s → link e s found → I (clock e) found)
    (hexec : ∀ e s, p (Step.of exec e s) → I (clock e) s → I (clock e) (exec e s).2)
    (hrun : Run exec link s steps s') (hstart : I start s)
    (htimes : steps.Pairwise fun earlier later => clock earlier.event ≤ clock later.event)
    (hfirst : ∀ step ∈ steps, start ≤ clock step.event)
    (hlast : ∀ step ∈ steps, clock step.event ≤ last) (hle : start ≤ last)
    (hok : ∀ step ∈ steps, p step) : I last s' := by
  induction hrun generalizing start with
  | nil => exact hmono _ _ _ hle hstart
  | @cons s found s' e steps hl hrest ih =>
      obtain ⟨hfollow, hordered⟩ := List.pairwise_cons.mp htimes
      have hnow : I (clock e) s := hmono _ _ _ (hfirst _ (List.mem_cons_self ..)) hstart
      have hafter := hexec e found (hok _ (List.mem_cons_self ..)) (hlink _ _ _ hnow hl)
      exact ih hafter hordered hfollow (fun step hmem => hlast step (List.mem_cons_of_mem _ hmem))
        (hlast _ (List.mem_cons_self ..)) fun step hmem => hok step (List.mem_cons_of_mem _ hmem)

/-- **History rule.** A property of the executions so far and of the state they led to, kept by one
more admissible execution, holds of the whole run. -/
theorem history {P : List (Step σ ε ρ) → σ → Prop} {ok : Step σ ε ρ → Prop} (hstart : P [] s)
    (hstep : ∀ past middle e found, P past middle → link e middle found →
      ok (Step.of exec e found) → P (past ++ [Step.of exec e found]) (exec e found).2)
    (hrun : Run exec link s steps s') (hok : ∀ step ∈ steps, ok step) : P steps s' := by
  induction steps using List.reverseRecOn generalizing s' with
  | nil =>
      rw [nil_iff.mp hrun]
      exact hstart
  | append_singleton past step ih =>
      obtain ⟨middle, e, found, hpast, hlink, rfl, rfl⟩ := snoc_iff.mp hrun
      have hbefore := ih hpast fun step hmem => hok step (List.mem_append_left _ hmem)
      exact hstep past middle e found hbefore hlink
        (hok _ (List.mem_append_right _ (List.mem_singleton_self _)))

/-- The executions of a list of events. -/
def trace (exec : ε → σ → ρ × σ) : σ → List ε → List (Step σ ε ρ)
  | _, [] => []
  | s, e :: events => Step.of exec e s :: trace exec (exec e s).2 events

def final (exec : ε → σ → ρ × σ) : σ → List ε → σ
  | s, [] => s
  | s, e :: events => final exec (exec e s).2 events

/-- A run of the bare system exists for every list of events. -/
theorem of_events (exec : ε → σ → ρ × σ) (s : σ) (events : List ε) :
    Run exec Undisturbed s (trace exec s events) (final exec s events) := by
  induction events generalizing s with
  | nil => exact .nil s
  | cons e events ih => exact .cons rfl (ih (exec e s).2)

theorem mono {link' : ε → σ → σ → Prop} (hle : ∀ e s found, link e s found → link' e s found)
    (hrun : Run exec link s steps s') : Run exec link' s steps s' := by
  induction hrun with
  | nil => exact .nil _
  | cons hlink _ ih => exact .cons (hle _ _ _ hlink) ih

theorem map_event_trace (exec : ε → σ → ρ × σ) (s : σ) (events : List ε) :
    (trace exec s events).map Step.event = events := by
  induction events generalizing s with
  | nil => rfl
  | cons e events ih => rw [trace, List.map_cons, Step.of_event, ih]

/-- The bare system is deterministic: the events decide the run. -/
theorem deterministic {steps' : List (Step σ ε ρ)} {s'' : σ}
    (hrun : Run exec Undisturbed s steps s') (hrun' : Run exec Undisturbed s steps' s'')
    (hevents : steps.map Step.event = steps'.map Step.event) : steps = steps' ∧ s' = s'' := by
  induction hrun generalizing steps' with
  | nil =>
      obtain rfl : steps' = [] := by simpa using hevents.symm
      exact ⟨rfl, (nil_iff.mp hrun').symm⟩
  | @cons s found s' e steps hlink hrest ih =>
      cases hrun' with
      | nil => simp at hevents
      | @cons _ found' _ e' steps' hlink' hrest' =>
          cases hlink
          cases hlink'
          simp only [List.map_cons, Step.of_event, List.cons.injEq] at hevents
          obtain ⟨rfl, htail⟩ := hevents
          obtain ⟨rfl, hend⟩ := ih hrest' htail
          exact ⟨rfl, hend⟩

section Project

variable {τ ε' ρ' : Type*} (exec' : ε' → τ → ρ' × τ) {R : σ → τ → Prop}
  {own : Step σ ε ρ → Bool} {label : Step σ ε ρ → ε'} {view : Step σ ε ρ → ρ'}

/-- **Projection rule.** Related states answer an own event alike and stay related, and any other
event keeps them related: then the own executions of a run are a run of the second system. -/
theorem project
    (hown : ∀ e s t, R s t → own (Step.of exec e s) = true →
      view (Step.of exec e s) = (exec' (label (Step.of exec e s)) t).1 ∧
        R (exec e s).2 (exec' (label (Step.of exec e s)) t).2)
    (hother : ∀ e s t, R s t → own (Step.of exec e s) = false → R (exec e s).2 t)
    (hrun : Run exec Undisturbed s steps s') {t : τ} (hR : R s t) :
    ∃ steps' t', Run exec' Undisturbed t steps' t' ∧
      steps'.map Step.event = (steps.filter own).map label ∧
      steps'.map Step.reply = (steps.filter own).map view ∧ R s' t' := by
  induction hrun generalizing t with
  | nil => exact ⟨[], t, .nil t, rfl, rfl, hR⟩
  | @cons s found s' e steps hlink hrest ih =>
      cases hlink
      cases hpick : own (Step.of exec e s) with
      | true =>
          obtain ⟨hview, hafter⟩ := hown e s t hR hpick
          obtain ⟨steps', t', hrun', hevents, hreplies, hend⟩ := ih hafter
          refine ⟨Step.of exec' (label (Step.of exec e s)) t :: steps', t', .cons rfl hrun', ?_, ?_,
            hend⟩
          · rw [List.filter_cons_of_pos hpick, List.map_cons, List.map_cons, hevents]
            rfl
          · rw [List.filter_cons_of_pos hpick, List.map_cons, List.map_cons, hreplies, hview]
            rfl
      | false =>
          obtain ⟨steps', t', hrun', hevents, hreplies, hend⟩ := ih (hother e s t hR hpick)
          have hskip : ¬ own (Step.of exec e s) = true := by
            rw [hpick]
            decide
          rw [List.filter_cons_of_neg hskip]
          exact ⟨steps', t', hrun', hevents, hreplies, hend⟩

/-- **Noninterference rule.** Two runs that start related to one state and have the same own labels
have the same own views, whatever else they execute. -/
theorem noninterference
    (hown : ∀ e s t, R s t → own (Step.of exec e s) = true →
      view (Step.of exec e s) = (exec' (label (Step.of exec e s)) t).1 ∧
        R (exec e s).2 (exec' (label (Step.of exec e s)) t).2)
    (hother : ∀ e s t, R s t → own (Step.of exec e s) = false → R (exec e s).2 t)
    {u u' : σ} {steps' : List (Step σ ε ρ)} {t : τ} (hrun : Run exec Undisturbed s steps s')
    (hrun' : Run exec Undisturbed u steps' u') (hR : R s t) (hR' : R u t)
    (hlabels : (steps.filter own).map label = (steps'.filter own).map label) :
    (steps.filter own).map view = (steps'.filter own).map view := by
  obtain ⟨left, _, hleft, hevents, hreplies, -⟩ := project exec' hown hother hrun hR
  obtain ⟨right, _, hright, hevents', hreplies', -⟩ := project exec' hown hother hrun' hR'
  have hsame := (deterministic hleft hright (by rw [hevents, hevents', hlabels])).1
  rw [← hreplies, ← hreplies', hsame]

end Project

end Run
