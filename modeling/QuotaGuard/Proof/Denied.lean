import QuotaGuard.Proof.Window

/-!
# Denied checks are unobservable

A denied check writes one thing, the trim of its window, and the trim removes only what every later
check would trim as well. So the run with some denied checks and the run without them stay in
agreement: the same keys everywhere but in the windows, and windows that differ in old members only.
-/

namespace QuotaGuard

open CheckStep

/-- The keyspaces of the full run and of the run without the deleted checks, whose clock readings are
`deletedUs`. -/
structure Agrees (windowUs : Int) (deletedUs : List Int) (full thin : Keyspace) : Prop where
  other : ∀ name, (∀ rest, name ≠ Family.window.tag ++ rest) → thin name = full name
  window_sub : ∀ rest, ∀ p ∈ (full.window (Family.window.tag ++ rest)).entries,
    p ∈ (thin.window (Family.window.tag ++ rest)).entries
  window_old : ∀ rest, ∀ p ∈ (thin.window (Family.window.tag ++ rest)).entries,
    p ∈ (full.window (Family.window.tag ++ rest)).entries ∨
      ∃ us ∈ deletedUs, p.2 < us - windowUs

namespace Call

variable {c : Call}

theorem bkey_ne_window (rest : String) : c.bkey ≠ Family.window.tag ++ rest := by
  rw [bkey_eq]
  exact Family.tag_append_ne (by decide) _ _

theorem qkey_ne_window (rest : String) : c.qkey ≠ Family.window.tag ++ rest := by
  rw [qkey_eq]
  exact Family.tag_append_ne (by decide) _ _

theorem fkey_ne_window (rest : String) : c.fkey ≠ Family.window.tag ++ rest := by
  rw [fkey_eq]
  exact Family.tag_append_ne (by decide) _ _

theorem after_window_of_ne {db : Keyspace} {rest : String}
    (hne : Family.window.tag ++ rest ≠ c.skey) :
    c.after db (Family.window.tag ++ rest) = db (Family.window.tag ++ rest) :=
  after_of_ne (bkey_ne_window rest).symm hne (qkey_ne_window rest).symm (fkey_ne_window rest).symm

end Call

namespace Agrees

variable {windowUs : Int} {deletedUs : List Int} {full thin : Keyspace} {c : Call}

theorem refl (db : Keyspace) : Agrees windowUs [] db db where
  other := fun _ _ => rfl
  window_sub := fun _ _ hp => hp
  window_old := fun _ _ hp => .inl hp

theorem sameView (h : Agrees windowUs deletedUs full thin) (hc : c.argv.windowUs = windowUs)
    (hnow : ∀ us ∈ deletedUs, us ≤ c.now.us) : c.SameView full thin := by
  apply Call.SameView.of_same (h.other _ Call.bkey_ne_window) _ (h.other _ Call.qkey_ne_window)
    (h.other _ Call.fkey_ne_window)
  apply SortedSet.ext
  apply Finset.ext
  intro p
  rw [Call.live, Call.live, SortedSet.mem_removeBelow, SortedSet.mem_removeBelow]
  constructor
  · intro hp
    refine ⟨?_, hp.2⟩
    rcases h.window_old _ p hp.1 with hin | ⟨us, hus, hold⟩
    · exact hin
    · have hage := hp.2
      have hlater := hnow us hus
      omega
  · intro hp
    exact ⟨h.window_sub _ p hp.1, hp.2⟩

/-- A check made in both runs keeps them in agreement. -/
theorem check (h : Agrees windowUs deletedUs full thin) (hc : c.argv.windowUs = windowUs)
    (hnow : ∀ us ∈ deletedUs, us ≤ c.now.us) :
    Agrees windowUs deletedUs (c.after full) (c.after thin) := by
  have hview := h.sameView hc hnow
  refine ⟨fun name hname => ?_, fun rest p hp => ?_, fun rest p hp => ?_⟩
  · exact hview.after_eq (hname _) (h.other name hname)
  · by_cases hown : Family.window.tag ++ rest = c.skey
    · rw [hown] at hp ⊢
      rw [hview.window_after_eq]
      exact hp
    · rw [Keyspace.window_congr (Call.after_window_of_ne hown)] at hp ⊢
      exact h.window_sub rest p hp
  · by_cases hown : Family.window.tag ++ rest = c.skey
    · rw [hown] at hp ⊢
      rw [hview.window_after_eq] at hp
      exact .inl hp
    · rw [Keyspace.window_congr (Call.after_window_of_ne hown)] at hp ⊢
      exact h.window_old rest p hp

/-- A denied check made in the full run only keeps them in agreement as well. -/
theorem delete (h : Agrees windowUs deletedUs full thin) (hc : c.argv.windowUs = windowUs)
    (hdenied : ¬ c.admits full = true) :
    Agrees windowUs (deletedUs ++ [c.now.us]) (c.after full) thin := by
  have hwindow := Call.window_after_denied hdenied
  rw [Call.live, hc] at hwindow
  refine ⟨fun name hname => ?_, fun rest p hp => ?_, fun rest p hp => ?_⟩
  · rw [Call.after_denied hdenied, Call.trimmed_of_ne (hname _)]
    exact h.other name hname
  · by_cases hown : Family.window.tag ++ rest = c.skey
    · rw [hown, hwindow, SortedSet.mem_removeBelow] at hp
      rw [← hown] at hp
      exact h.window_sub rest p hp.1
    · rw [Keyspace.window_congr (Call.after_window_of_ne hown)] at hp
      exact h.window_sub rest p hp
  · rcases h.window_old rest p hp with hin | ⟨us, hus, hold⟩
    · by_cases hown : Family.window.tag ++ rest = c.skey
      · rw [hown] at hin ⊢
        rw [hwindow, SortedSet.mem_removeBelow]
        rcases lt_or_ge p.2 (c.now.us - windowUs) with hold | hage
        · exact .inr ⟨c.now.us, List.mem_append_right _ (List.mem_singleton_self _), hold⟩
        · exact .inl ⟨hin, hage⟩
      · rw [Keyspace.window_congr (Call.after_window_of_ne hown)]
        exact .inl hin
    · exact .inr ⟨us, List.mem_append_left _ hus, hold⟩

end Agrees

/-- A run whose checks are marked: `true` for the ones to delete. -/
abbrev MarkedRun := List (CheckStep × Bool)

namespace MarkedRun

def all (marked : MarkedRun) : List CheckStep := marked.map Prod.fst

def kept (marked : MarkedRun) : List CheckStep := (marked.filter fun p => !p.2).map Prod.fst

def deleted (marked : MarkedRun) : List CheckStep := (marked.filter Prod.snd).map Prod.fst

theorem kept_cons_true (step : CheckStep) (rest : MarkedRun) :
    kept ((step, true) :: rest) = rest.kept := rfl

theorem kept_cons_false (step : CheckStep) (rest : MarkedRun) :
    kept ((step, false) :: rest) = step :: rest.kept := rfl

theorem deleted_cons_true (step : CheckStep) (rest : MarkedRun) :
    deleted ((step, true) :: rest) = step :: rest.deleted := rfl

theorem deleted_cons_false (step : CheckStep) (rest : MarkedRun) :
    deleted ((step, false) :: rest) = rest.deleted := rfl

end MarkedRun

/-- Two runs in agreement stay in agreement, and the checks that stay get the same replies. -/
theorem agrees_of_run {windowUs : Int} {marked : MarkedRun} {kept : List CheckStep}
    {deletedUs : List Int} {full thin full' thin' : Keyspace}
    (hfull : Run Call.exec Undisturbed full marked.all full')
    (hthin : Run Call.exec Undisturbed thin kept thin')
    (hevents : kept.map Step.event = marked.kept.map Step.event)
    (hwindow : ∀ step ∈ marked.all, step.event.argv.windowUs = windowUs)
    (htimes : marked.all.Pairwise fun earlier later => earlier.us ≤ later.us)
    (hdenied : ∀ step ∈ marked.deleted, ¬ step.admitted = true)
    (hnow : ∀ us ∈ deletedUs, ∀ step ∈ marked.all, us ≤ step.us)
    (htyped : full.Typed) (htyped' : thin.Typed) (h : Agrees windowUs deletedUs full thin) :
    kept.map Step.reply = marked.kept.map Step.reply ∧
      Agrees windowUs (deletedUs ++ marked.deleted.map us) full' thin' := by
  induction marked generalizing deletedUs full thin kept with
  | nil =>
      rw [MarkedRun.kept, List.filter_nil, List.map_nil, List.map_nil, List.map_eq_nil_iff] at hevents
      rw [hevents, Run.nil_iff] at hthin
      rw [Run.nil_iff.mp hfull, hthin, hevents]
      refine ⟨rfl, ?_⟩
      rw [MarkedRun.deleted, List.filter_nil, List.map_nil, List.map_nil, List.append_nil]
      exact h
  | cons marking rest ih =>
      obtain ⟨step, mark⟩ := marking
      obtain ⟨c, found, rfl, hlink, hrest⟩ := Run.cons_iff.mp hfull
      obtain rfl := hlink
      have hc : c.argv.windowUs = windowUs := hwindow _ (List.mem_cons_self ..)
      have hbefore : ∀ us ∈ deletedUs, us ≤ c.now.us :=
        fun us hus => hnow us hus (Step.of Call.exec c _) (List.mem_cons_self ..)
      have hwindow' : ∀ step ∈ rest.map Prod.fst, step.event.argv.windowUs = windowUs :=
        fun step hmem => hwindow step (List.mem_cons_of_mem _ hmem)
      have hnow' : ∀ us ∈ deletedUs, ∀ step ∈ rest.map Prod.fst, us ≤ CheckStep.us step :=
        fun us hus step hmem => hnow us hus step (List.mem_cons_of_mem _ hmem)
      obtain ⟨hlater, htimes'⟩ := List.pairwise_cons.mp htimes
      rw [c.exec_after htyped] at hrest
      cases mark with
      | true =>
          rw [MarkedRun.kept_cons_true] at hevents ⊢
          rw [MarkedRun.deleted_cons_true] at hdenied ⊢
          obtain ⟨hfirst, hothers⟩ := List.forall_mem_cons.mp hdenied
          rw [c.admitted_step htyped] at hfirst
          have hnow'' : ∀ us ∈ deletedUs ++ [c.now.us], ∀ step ∈ rest.map Prod.fst,
              us ≤ CheckStep.us step := by
            intro us hus step hmem
            rcases List.mem_append.mp hus with hold | hnew
            · exact hnow' us hold step hmem
            · rw [List.mem_singleton.mp hnew, ← c.us_step found]
              exact hlater step hmem
          obtain ⟨hreplies, hagrees⟩ := ih hrest hthin hevents hwindow' htimes' hothers hnow''
            (Call.typed_after htyped) htyped' (h.delete hc hfirst)
          rw [List.append_assoc] at hagrees
          exact ⟨hreplies, hagrees⟩
      | false =>
          rw [MarkedRun.kept_cons_false] at hevents ⊢
          rw [MarkedRun.deleted_cons_false] at hdenied ⊢
          cases hthin with
          | nil => cases hevents
          | @cons _ found' _ c' kept hlink' hrest' =>
              obtain rfl := hlink'
              rw [List.map_cons, List.map_cons, List.cons.injEq] at hevents
              obtain ⟨hevent, hevents⟩ := hevents
              rw [Step.of_event, Step.of_event] at hevent
              obtain rfl := hevent
              rw [c'.exec_after htyped'] at hrest'
              obtain ⟨hreplies, hagrees⟩ := ih hrest hrest' hevents hwindow' htimes' hdenied hnow'
                (Call.typed_after htyped) (Call.typed_after htyped') (h.check hc hbefore)
              refine ⟨?_, hagrees⟩
              rw [List.map_cons, List.map_cons, hreplies, (c'.answered htyped).reply_eq,
                (c'.answered htyped').reply_eq]
              simp only [Step.of_event, Step.of_before, (h.sameView hc hbefore).reply_eq]

theorem exists_last_deleted {marked : MarkedRun} {step : CheckStep}
    (htimes : marked.all.Pairwise fun earlier later => earlier.us ≤ later.us)
    (hstep : step ∈ marked.deleted) :
    ∃ last, marked.deleted.getLast? = some last ∧ step.us ≤ last.us := by
  have hsub : marked.deleted.Sublist marked.all := List.filter_sublist.map Prod.fst
  have horder := htimes.sublist hsub
  cases hdeleted : marked.deleted using List.reverseRecOn with
  | nil =>
      rw [hdeleted] at hstep
      exact absurd hstep List.not_mem_nil
  | append_singleton front last =>
      rw [hdeleted] at hstep horder
      refine ⟨last, List.getLast?_concat, ?_⟩
      rcases List.mem_append.mp hstep with hfront | hlast
      · exact (List.pairwise_append.mp horder).2.2 step hfront last (List.mem_singleton_self _)
      · rw [List.mem_singleton.mp hlast]

/-- **Denied checks are unobservable.** In a run of checks of any keys and resources, with one window
length and a non-decreasing clock, delete any of the denied checks: the others get the same complete
replies, every key but the windows ends the same, and a window ends with the members it had and at
most some that are older than one window length at the last deleted check. -/
theorem denied_checks_unobservable {windowUs : Int} {marked : MarkedRun} {kept : List CheckStep}
    {db full thin : Keyspace} (hfull : Run Call.exec Undisturbed db marked.all full)
    (hthin : Run Call.exec Undisturbed db kept thin)
    (hevents : kept.map Step.event = marked.kept.map Step.event) (htyped : db.Typed)
    (hwindow : ∀ step ∈ marked.all, step.event.argv.windowUs = windowUs)
    (htimes : marked.all.Pairwise fun earlier later => earlier.us ≤ later.us)
    (hdenied : ∀ step ∈ marked.deleted, ¬ step.admitted = true) :
    kept.map Step.reply = marked.kept.map Step.reply ∧
    (∀ f key rest, f ≠ Family.window → thin (f.name key rest) = full (f.name key rest)) ∧
    ∀ key resource,
      (∀ p ∈ (full.window (windowName key resource)).entries,
        p ∈ (thin.window (windowName key resource)).entries) ∧
      ∀ p ∈ (thin.window (windowName key resource)).entries,
        p ∈ (full.window (windowName key resource)).entries ∨
          ∃ last, marked.deleted.getLast? = some last ∧ p.2 < last.us - windowUs := by
  obtain ⟨hreplies, hagrees⟩ := agrees_of_run hfull hthin hevents hwindow htimes hdenied
    (fun us hus => absurd hus List.not_mem_nil) htyped htyped (Agrees.refl db)
  refine ⟨hreplies, fun f key rest hf => ?_, fun key resource => ⟨?_, ?_⟩⟩
  · exact hagrees.other _ fun _ => Family.tag_append_ne hf _ _
  · exact hagrees.window_sub _
  · intro p hp
    rcases hagrees.window_old _ p hp with hin | ⟨us, hus, hold⟩
    · exact .inl hin
    · obtain ⟨step, hstep, rfl⟩ := List.mem_map.mp (by simpa using hus)
      obtain ⟨last, hlast, hle⟩ := exists_last_deleted htimes hstep
      exact .inr ⟨last, hlast, by omega⟩

/-- A check that takes the whole burst, one that finds nothing left, and one three seconds later:
without the second the third gets the same reply. -/
theorem denied_checks_unobservable_sample :
    let first : CheckStep := Step.of Call.exec (sampleCall 5 2 "a") Keyspace.empty
    let denied : CheckStep := Step.of Call.exec (sampleCall 5 2 "b") first.after
    let third : CheckStep := Step.of Call.exec (sampleCall 8 2 "c") denied.after
    let third' : CheckStep := Step.of Call.exec (sampleCall 8 2 "c") first.after
    ¬ denied.admitted = true ∧ third'.reply = third.reply := by
  intro first denied third third'
  have hdenied : ¬ denied.admitted = true := by decide +kernel
  have hfull : Run Call.exec Undisturbed Keyspace.empty
      (MarkedRun.all [(first, false), (denied, true), (third, false)]) third.after :=
    .cons rfl (.cons rfl (.cons rfl (.nil _)))
  have hthin : Run Call.exec Undisturbed Keyspace.empty [first, third'] third'.after :=
    .cons rfl (.cons rfl (.nil _))
  have hwindow : ∀ step ∈ MarkedRun.all [(first, false), (denied, true), (third, false)],
      step.event.argv.windowUs = 10000000 := by
    simp only [MarkedRun.all, List.map_cons, List.map_nil, List.mem_cons, List.not_mem_nil, or_false,
      forall_eq_or_imp, forall_eq]
    decide
  have hreplies := (denied_checks_unobservable hfull hthin rfl Keyspace.typed_empty hwindow
    (by decide +kernel) (List.forall_mem_singleton.mpr hdenied)).1
  rw [List.map_cons, List.map_cons] at hreplies
  exact ⟨hdenied, (List.cons.inj (List.cons.inj hreplies).2).1⟩

end QuotaGuard
