import QuotaGuard.Proof.Trace

/-!
# The sliding window over runs

Every admitted check is either still a member of the window, or so old that no later check counts it:
the trim removes members below the cutoff only, and the key outlives its last member. So an admitted
check counts all admissions of the interval that ends at it, wherever the interval starts.
-/

namespace QuotaGuard

open CheckStep

abbrev windowName (key : KeyId) (resource : Resource) : String :=
  Family.window.name key resource.val

/-- A check of this window. The limit may change from check to check. -/
structure Call.OnWindow (key : KeyId) (resource : Resource) (windowUs : Int) (c : Call) : Prop where
  key_eq : c.key = key
  resource_eq : c.resource = resource
  window_eq : c.argv.windowUs = windowUs

/-- Between two checks anything may happen but to the window, which may be removed after its
deadline. -/
def WindowLink (name : String) (c : Call) (db found : Keyspace) : Prop :=
  found.Typed ∧ db.KeptOrLapsed found name c.now

/-- The clock does not go back, and no request id is used twice. -/
def InOrder (earlier later : CheckStep) : Prop :=
  earlier.us ≤ later.us ∧ earlier.event.argv.requestId ≠ later.event.argv.requestId

/-- The member an admitted check adds, with its score. -/
def CheckStep.member (step : CheckStep) : String × Int :=
  (windowMember step.us step.event.argv.requestId, step.us)

theorem windowTtl_bound (argv : Argv) : argv.windowUs + 60000000 ≤ windowTtl argv * 1000 := by
  have hceil : argv.windowUs ≤ ⌈(argv.windowUs : ℚ) / 1000⌉ * 1000 := by
    have hle := Int.le_ceil ((argv.windowUs : ℚ) / 1000)
    rw [div_le_iff₀ (by norm_num)] at hle
    exact_mod_cast hle
  unfold windowTtl
  omega

theorem Time.n2s_us (t : Time) : n2s t.us = toString t.us.toNat := by
  obtain ⟨n, hn⟩ := Int.eq_ofNat_of_zero_le t.us_nonneg
  rw [hn]
  rfl

theorem sep_notMem_n2s (t : Time) : '-' ∉ (n2s t.us).toList := by
  rw [t.n2s_us]
  exact Text.sep_notMem_toString (by decide) _

theorem windowMember_inj {t t' : Time} {requestId requestId' : String}
    (h : windowMember t.us requestId = windowMember t'.us requestId') : requestId = requestId' :=
  (Text.append_sep_inj (sep_notMem_n2s t) (sep_notMem_n2s t') h).2

theorem windowMember_us_inj {t t' : Time} {requestId requestId' : String}
    (h : windowMember t.us requestId = windowMember t'.us requestId') : t.us = t'.us := by
  have htext := (Text.append_sep_inj (sep_notMem_n2s t) (sep_notMem_n2s t') h).1
  rw [t.n2s_us, t'.n2s_us] at htext
  have hdigits := Text.toString_injective htext
  have hpos := t.us_nonneg
  have hpos' := t'.us_nonneg
  omega

variable {key : KeyId} {resource : Resource} {windowUs : Int} {db db' : Keyspace}

namespace Call

variable {c : Call}

theorem skey_eq_windowName (hc : c.OnWindow key resource windowUs) :
    c.skey = windowName key resource := by
  rw [skey_eq, hc.key_eq, hc.resource_eq]

end Call

/-- The window remembers the admissions of `past` that a check at `nowUs` or later can count. -/
structure WindowRecord (name : String) (windowUs : Int) (past : List CheckStep) (db : Keyspace)
    (nowUs : Int) : Prop where
  dated : ∀ entry, db name = some entry → ∃ deadline, entry.expireAt = some deadline ∧
    ∀ p ∈ (db.window name).entries, p.2 + windowUs < deadline * 1000
  scores : ∀ p ∈ (db.window name).entries, p.2 ≤ nowUs
  recorded : ∀ step ∈ past, step.admitted = true →
    step.member ∈ (db.window name).entries ∨ step.us < nowUs - windowUs

namespace WindowRecord

variable {name : String} {past : List CheckStep} {nowUs : Int}

theorem start (habsent : db name = none) : WindowRecord name windowUs [] db nowUs where
  dated := by
    intro entry hentry
    rw [habsent] at hentry
    cases hentry
  scores := by
    intro p hp
    rw [Keyspace.window_of_none habsent] at hp
    exact absurd hp (Finset.notMem_empty p)
  recorded := by
    intro step hmem
    exact absurd hmem List.not_mem_nil

theorem mono {laterUs : Int} (h : WindowRecord name windowUs past db nowUs) (hle : nowUs ≤ laterUs) :
    WindowRecord name windowUs past db laterUs where
  dated := h.dated
  scores := fun p hp => (h.scores p hp).trans hle
  recorded := by
    intro step hmem hadmitted
    rcases h.recorded step hmem hadmitted with hin | hold
    · exact .inl hin
    · exact .inr (by omega)

theorem link {found : Keyspace} {now : Time} (h : WindowRecord name windowUs past db now.us)
    (hlink : db.KeptOrLapsed found name now) : WindowRecord name windowUs past found now.us := by
  rcases hlink with hsame | ⟨⟨entry, deadline, hentry, hdeadline, hlapsed⟩, hgone⟩
  · have hwindow := Keyspace.window_congr hsame
    refine ⟨?_, ?_, ?_⟩
    · intro entry hentry
      rw [hsame] at hentry
      rw [hwindow]
      exact h.dated entry hentry
    · rw [hwindow]
      exact h.scores
    · rw [hwindow]
      exact h.recorded
  · have hwindow := Keyspace.window_of_none hgone
    refine ⟨?_, ?_, ?_⟩
    · intro entry hentry
      rw [hgone] at hentry
      cases hentry
    · rw [hwindow]
      intro p hp
      exact absurd hp (Finset.notMem_empty p)
    · intro step hmem hadmitted
      right
      rcases h.recorded step hmem hadmitted with hin | hold
      · obtain ⟨deadline', hdeadline', hbound⟩ := h.dated entry hentry
        rw [hdeadline] at hdeadline'
        cases hdeadline'
        have hscore : step.us + windowUs < deadline * 1000 := hbound _ hin
        have hms := now.ms_mul_le
        omega
      · exact hold

theorem length_le_card {picked : List CheckStep} {now : Time}
    (h : WindowRecord name windowUs past db now.us) (hpicked : picked.Sublist past)
    (horder : past.Pairwise InOrder)
    (hyoung : ∀ step ∈ picked, step.admitted = true ∧ now.us - windowUs ≤ step.us) :
    picked.length ≤ ((db.window name).removeBelow (now.us - windowUs)).card := by
  have hnodup : (picked.map member).Nodup := by
    refine List.Pairwise.map member ?_ (horder.sublist hpicked)
    intro earlier later hpair heq
    exact hpair.2 (windowMember_inj (congrArg Prod.fst heq))
  calc picked.length
      = (picked.map member).toFinset.card := by
        rw [List.toFinset_card_of_nodup hnodup, List.length_map]
    _ ≤ ((db.window name).removeBelow (now.us - windowUs)).entries.card := by
        apply Finset.card_le_card
        intro p hp
        obtain ⟨step, hstep, rfl⟩ := List.mem_map.mp (List.mem_toFinset.mp hp)
        obtain ⟨hadmitted, hage⟩ := hyoung step hstep
        rw [SortedSet.mem_removeBelow]
        rcases h.recorded step (hpicked.subset hstep) hadmitted with hin | hold
        · exact ⟨hin, hage⟩
        · exact absurd hold (not_lt.mpr hage)

/-- The trim removes what no check from now on counts. -/
theorem trim {c : Call} (h : WindowRecord (windowName key resource) windowUs past db c.now.us)
    (hc : c.OnWindow key resource windowUs) :
    WindowRecord (windowName key resource) windowUs past (c.trimmed db) c.now.us := by
  rw [← Call.skey_eq_windowName hc] at h ⊢
  have hwindow : (c.trimmed db).window c.skey =
      (db.window c.skey).removeBelow (c.now.us - windowUs) := by
    rw [Call.window_trimmed, Call.live, hc.window_eq]
  refine ⟨?_, ?_, ?_⟩
  · intro entry hentry
    obtain ⟨before, hbefore, hexpire⟩ := Redis.trim_expireAt hentry
    obtain ⟨deadline, hdeadline, hbound⟩ := h.dated before hbefore
    refine ⟨deadline, hexpire.trans hdeadline, fun p hp => ?_⟩
    rw [hwindow, SortedSet.mem_removeBelow] at hp
    exact hbound p hp.1
  · intro p hp
    rw [hwindow, SortedSet.mem_removeBelow] at hp
    exact h.scores p hp.1
  · intro step hmem hadmitted
    rw [hwindow, SortedSet.mem_removeBelow]
    rcases h.recorded step hmem hadmitted with hin | hold
    · rcases lt_or_ge step.us (c.now.us - windowUs) with hold | hage
      · exact .inr hold
      · exact .inl ⟨hin, hage⟩
    · exact .inr hold

/-- An admitted check adds its member, or, with a window too negative for a deadline in the future,
leaves nothing to remember. -/
theorem admission {c : Call} (h : WindowRecord (windowName key resource) windowUs past db c.now.us)
    (hc : c.OnWindow key resource windowUs) (hadmits : c.admits db = true)
    (horder : ∀ step ∈ past, InOrder step (Step.of Call.exec c db)) :
    WindowRecord (windowName key resource) windowUs (past ++ [Step.of Call.exec c db]) (c.after db)
      c.now.us := by
  have htrim := h.trim hc
  have hentry := Call.after_skey hadmits
  have hwindow := Call.window_after_admitted hadmits
  have hlive : (c.trimmed db).window c.skey = c.live db := Call.window_trimmed
  have httl := windowTtl_bound c.argv
  rw [hc.window_eq] at httl
  rw [Call.skey_eq_windowName hc] at hentry hwindow hlive
  rw [← hlive] at hwindow
  by_cases hnone : windowTtl c.argv ≤ 0
  · rw [if_pos hnone] at hentry hwindow
    refine ⟨?_, ?_, ?_⟩
    · intro entry hsome
      rw [hentry] at hsome
      cases hsome
    · rw [hwindow]
      intro p hp
      exact absurd hp (Finset.notMem_empty p)
    · intro step hmem _
      right
      rcases List.mem_append.mp hmem with hpast | hnew
      · have hle : step.us ≤ c.now.us := (horder step hpast).1
        omega
      · rw [List.mem_singleton.mp hnew]
        show c.now.us < c.now.us - windowUs
        omega
  · rw [if_neg hnone] at hentry hwindow
    refine ⟨?_, ?_, ?_⟩
    · intro entry hsome
      rw [hentry, Option.some.injEq] at hsome
      refine ⟨c.now.ms + windowTtl c.argv, by rw [← hsome], fun p hp => ?_⟩
      have hscore : p.2 ≤ c.now.us := by
        rw [hwindow, SortedSet.mem_insert] at hp
        rcases hp with rfl | ⟨hold, -⟩
        · exact le_rfl
        · exact htrim.scores p hold
      have hms := c.now.us_lt_ms_mul
      omega
    · rw [hwindow]
      intro p hp
      rcases SortedSet.mem_insert.mp hp with rfl | ⟨hold, -⟩
      · exact le_rfl
      · exact htrim.scores p hold
    · intro step hmem hadmitted
      rw [hwindow, SortedSet.mem_insert]
      rcases List.mem_append.mp hmem with hpast | hnew
      · rcases htrim.recorded step hpast hadmitted with hin | hold
        · refine .inl (.inr ⟨hin, fun heq => ?_⟩)
          exact (horder step hpast).2 (windowMember_inj heq)
        · exact .inr hold
      · rw [List.mem_singleton.mp hnew]
        exact .inl (.inl rfl)

theorem check {c : Call} (h : WindowRecord (windowName key resource) windowUs past db c.now.us)
    (hc : c.OnWindow key resource windowUs) (htyped : db.Typed)
    (horder : ∀ step ∈ past, InOrder step (Step.of Call.exec c db)) :
    WindowRecord (windowName key resource) windowUs (past ++ [Step.of Call.exec c db]) (c.after db)
      c.now.us := by
  by_cases hadmits : c.admits db = true
  · exact h.admission hc hadmits horder
  · have htrim := h.trim hc
    rw [Call.after_denied hadmits]
    refine ⟨htrim.dated, htrim.scores, ?_⟩
    intro step hmem hadmitted
    rcases List.mem_append.mp hmem with hpast | hnew
    · exact htrim.recorded step hpast hadmitted
    · rw [List.mem_singleton.mp hnew, c.admitted_step htyped] at hadmitted
      exact absurd hadmitted hadmits

end WindowRecord

/-- Along a run the window remembers what later checks can count. -/
theorem windowRecord_of_run {steps : List CheckStep}
    (hrun : Run Call.exec (WindowLink (windowName key resource)) db steps db') (htyped : db.Typed)
    (habsent : db (windowName key resource) = none)
    (hcalls : ∀ step ∈ steps, step.event.OnWindow key resource windowUs)
    (horder : steps.Pairwise InOrder) :
    ∀ nowUs, (∀ step ∈ steps, step.us ≤ nowUs) →
      WindowRecord (windowName key resource) windowUs steps db' nowUs := by
  have hhistory : db'.Typed ∧ (steps.Pairwise InOrder → ∀ nowUs, (∀ step ∈ steps, step.us ≤ nowUs) →
      WindowRecord (windowName key resource) windowUs steps db' nowUs) := by
    refine hrun.history (P := fun (past : List CheckStep) db => db.Typed ∧
      (past.Pairwise InOrder → ∀ nowUs, (∀ step ∈ past, step.us ≤ nowUs) →
        WindowRecord (windowName key resource) windowUs past db nowUs))
      ⟨htyped, fun _ nowUs _ => (WindowRecord.start habsent)⟩ ?_ hcalls
    intro past middle c found hpast hlink hc
    obtain ⟨-, hrecord⟩ := hpast
    obtain ⟨hfound, hwindow⟩ := hlink
    rw [Call.exec_eq hfound]
    refine ⟨Call.typed_after hfound, fun horder nowUs hnow => ?_⟩
    obtain ⟨hpastOrder, -, hlast⟩ := List.pairwise_append.mp horder
    have hbefore : ∀ step ∈ past, InOrder step (Step.of Call.exec c found) :=
      fun step hmem => hlast step hmem _ (List.mem_singleton_self _)
    have hpastRecord := hrecord hpastOrder c.now.us fun step hmem => (hbefore step hmem).1
    have hlater := hnow (Step.of Call.exec c found)
      (List.mem_append_right _ (List.mem_singleton_self _))
    exact ((hpastRecord.link hwindow).check hc hfound hbefore).mono hlater
  exact hhistory.2 horder

/-- An admitted check of the closed interval of one window length that starts at `fromUs`. -/
def admittedIn (fromUs windowUs : Int) (step : CheckStep) : Bool :=
  step.admitted && decide (fromUs ≤ step.us ∧ step.us ≤ fromUs + windowUs)

theorem admittedIn_iff {fromUs windowUs : Int} {step : CheckStep} :
    admittedIn fromUs windowUs step = true ↔
      step.admitted = true ∧ fromUs ≤ step.us ∧ step.us ≤ fromUs + windowUs := by
  rw [admittedIn, Bool.and_eq_true, decide_eq_true_eq]

theorem exists_split_of_getLast {α : Type} {p : α → Bool} {l : List α} {last : α}
    (h : (l.filter p).getLast? = some last) :
    ∃ left right, l = left ++ last :: right ∧ l.filter p = left.filter p ++ [last] ∧
      p last = true := by
  obtain ⟨picked, hpicked⟩ := List.getLast?_eq_some_iff.mp h
  obtain ⟨left, right, rfl, hleft, hright⟩ := List.filter_eq_append_iff.mp hpicked
  obtain ⟨skipped, rest, rfl, hskipped, hlast, hrest⟩ := List.filter_eq_cons_iff.mp hright
  refine ⟨left ++ skipped, rest, by simp, ?_, hlast⟩
  rw [hpicked, List.filter_append, hleft, List.filter_eq_nil_iff.mpr hskipped, List.append_nil]

theorem card_after_admitted {c : Call} (hadmits : c.admits db = true) :
    (((c.after db).window c.skey).card : Int) ≤ c.argv.sustainedLimit := by
  have hroom := (Call.admits_iff.mp hadmits).2.1
  rw [Call.window_after_admitted hadmits]
  split
  · rw [SortedSet.card_empty]
    omega
  · have hinsert := SortedSet.card_insert_le (windowMember c.now.us c.argv.requestId) c.now.us
      (c.live db)
    omega

theorem card_after_denied {c : Call} (hdenied : ¬ c.admits db = true) :
    ((c.after db).window c.skey).card ≤ (db.window c.skey).card := by
  rw [Call.window_after_denied hdenied]
  exact SortedSet.card_removeBelow_le _ _

/-- **The sliding window bound.** With a non-decreasing clock and distinct request ids, whatever
happens to the other keys and even if the window key expires: in every closed interval of one window
length the last admitted check had room for all admissions of the interval. An admitted check leaves
at most its limit of members, and a denied one no more than it found. -/
theorem sliding_window_bound {steps : List CheckStep}
    (hrun : Run Call.exec (WindowLink (windowName key resource)) db steps db') (htyped : db.Typed)
    (habsent : db (windowName key resource) = none)
    (hcalls : ∀ step ∈ steps, step.event.OnWindow key resource windowUs)
    (htimes : steps.Pairwise fun earlier later => earlier.us ≤ later.us)
    (hids : (steps.map fun step => step.event.argv.requestId).Nodup) :
    (∀ fromUs last, (steps.filter (admittedIn fromUs windowUs)).getLast? = some last →
      ((steps.filter (admittedIn fromUs windowUs)).length : Int) ≤ last.event.argv.sustainedLimit) ∧
    ∀ step ∈ steps,
      (step.admitted = true → ((step.after.window (windowName key resource)).card : Int) ≤
        step.event.argv.sustainedLimit) ∧
      (¬ step.admitted = true → (step.after.window (windowName key resource)).card ≤
        (step.before.window (windowName key resource)).card) := by
  have horder : steps.Pairwise InOrder := htimes.and (List.pairwise_map.mp hids)
  constructor
  · intro fromUs last hlast
    obtain ⟨left, right, hsteps, hfilter, hin⟩ := exists_split_of_getLast hlast
    rw [hsteps] at hrun hcalls horder
    obtain ⟨middle, hleft, hrest⟩ := Run.append_iff.mp hrun
    obtain ⟨c, found, rfl, ⟨hfound, hwindow⟩, -⟩ := Run.cons_iff.mp hrest
    obtain ⟨hleftOrder, -, hlast⟩ := List.pairwise_append.mp horder
    have hc := hcalls _ (List.mem_append_right _ (List.mem_cons_self ..))
    have hrecord := (windowRecord_of_run hleft htyped habsent
      (fun step hmem => hcalls step (List.mem_append_left _ hmem)) hleftOrder c.now.us
      fun step hmem => (hlast step hmem _ (List.mem_cons_self ..)).1).link hwindow
    obtain ⟨hadmitted, -, hend⟩ := admittedIn_iff.mp hin
    rw [c.admitted_step hfound] at hadmitted
    have hpicked : ∀ step ∈ left.filter (admittedIn fromUs windowUs),
        step.admitted = true ∧ c.now.us - windowUs ≤ step.us := by
      intro step hmem
      obtain ⟨hstep, hbegin, -⟩ := admittedIn_iff.mp (List.mem_filter.mp hmem).2
      exact ⟨hstep, (sub_le_iff_le_add.mpr hend).trans hbegin⟩
    have hcount := hrecord.length_le_card List.filter_sublist hleftOrder hpicked
    have hroom := (Call.admits_iff.mp hadmitted).2.1
    rw [Step.of_event] at hc
    rw [Call.live, Call.skey_eq_windowName hc, hc.window_eq] at hroom
    rw [hfilter, List.length_append, List.length_singleton]
    push_cast
    exact le_trans (by omega) hroom
  · intro step hmem
    have hlink (c : Call) (db found : Keyspace) (_ : db.Typed)
        (h : WindowLink (windowName key resource) c db found) : found.Typed := h.1
    have hanswered := (answered_of_run hlink hrun htyped).2 step hmem
    rw [hanswered.admitted_eq, hanswered.after_eq, ← Call.skey_eq_windowName (hcalls step hmem)]
    exact ⟨card_after_admitted, card_after_denied⟩

/-- Two checks a second apart, in the interval of ten seconds that starts with the first. -/
theorem sliding_window_bound_sample :
    let first : CheckStep := Step.of Call.exec (sampleCall 5 1 "a") Keyspace.empty
    let second : CheckStep := Step.of Call.exec (sampleCall 6 1 "b") first.after
    ([first, second].filter (admittedIn 5000000 10000000)).length = 2 ∧
      (([first, second].filter (admittedIn 5000000 10000000)).length : Int) ≤ 3 := by
  intro first second
  have hrun : Run Call.exec (WindowLink (windowName sampleKey sampleResource)) Keyspace.empty
      [first, second] second.after :=
    .cons ⟨Keyspace.typed_empty, .inl rfl⟩ (.cons ⟨sample_typed _, .inl rfl⟩ (.nil _))
  have hcalls : ∀ step ∈ [first, second],
      step.event.OnWindow sampleKey sampleResource 10000000 := by
    simp only [List.mem_cons, List.not_mem_nil, or_false, forall_eq_or_imp, forall_eq]
    exact ⟨⟨rfl, rfl, by decide⟩, ⟨rfl, rfl, by decide⟩⟩
  have hfilter : [first, second].filter (admittedIn 5000000 10000000) = [first, second] := by
    rw [List.filter_cons_of_pos (by decide +kernel), List.filter_cons_of_pos (by decide +kernel),
      List.filter_nil]
  refine ⟨by rw [hfilter]; rfl, ?_⟩
  exact (sliding_window_bound hrun Keyspace.typed_empty rfl hcalls (by decide +kernel)
    (by decide +kernel)).1 5000000 second (by rw [hfilter]; rfl)

end QuotaGuard
