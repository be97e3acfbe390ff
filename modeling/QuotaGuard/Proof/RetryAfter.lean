import QuotaGuard.Proof.Stored

/-!
# When to come back

A denied check reports how long its caller should wait: the longest of the waits of the layers that
denied it. Coming back then is enough, as long as the key admits nothing in between, with two
exceptions. A member leaves the window when it is older than the window, not when it is exactly as
old; so where the oldest member turns exactly as old as the window at the reported second, the caller
comes back one microsecond too early. And where the bucket reaches the cost exactly at the reported
second, the refill may find it a microtoken short.
-/

namespace QuotaGuard

open CheckStep

variable {c : Call} {key : KeyId} {db db' found : Keyspace}

/-! ### The reported wait -/

theorem verdict_burstOk : (c.verdict db).burstOk = true ↔ c.argv.cost * utok ≤ (c.refilled db).1 :=
  decide_eq_true_iff

theorem verdict_sustainedOk :
    (c.verdict db).sustainedOk = true ↔ ((c.live db).card : Int) + 1 ≤ c.argv.sustainedLimit :=
  decide_eq_true_iff

theorem verdict_quotaOk :
    (c.verdict db).quotaOk = true ↔ c.used db + c.argv.cost ≤ c.argv.quotaHard :=
  decide_eq_true_iff

namespace Call

/-- The seconds until the level pays for the check. -/
def burstWait (c : Call) (db : Keyspace) : Int :=
  ⌈((c.argv.cost * utok - (c.refilled db).1 : Int) : ℚ) / c.argv.rateUtok⌉

/-- The seconds until the oldest member is as old as the window. -/
def windowWait (c : Call) (db : Keyspace) : Int :=
  match (c.live db).minScore with
  | some oldest => max 0 ⌈((oldest + c.argv.windowUs - c.now.us : Int) : ℚ) / utok⌉
  | none => 0

def monthWait (c : Call) : Int := c.now.monthEnd - c.now.sec

theorem windowWait_nonneg (c : Call) (db : Keyspace) : 0 ≤ c.windowWait db := by
  unfold windowWait
  split
  · exact le_max_left _ _
  · exact le_rfl

theorem monthWait_pos (c : Call) : 0 < c.monthWait := by
  have hend := c.now.sec_lt_monthEnd
  unfold monthWait
  omega

theorem burstWait_pos (hrate : 0 < c.argv.rateUtok) (hburst : (c.refilled db).1 < c.argv.cost * utok) :
    0 < c.burstWait db := by
  rw [burstWait, Rounding.lt_ceil_div_iff hrate, zero_mul]
  omega

/-- A denied check reports the longest wait of the layers that denied it. -/
theorem reply_retryAfter (hdenied : ¬ c.admits db = true) (hrate : 0 < c.argv.rateUtok) :
    (c.reply db).retryAfter =
      max (max (if (c.verdict db).burstOk then 0 else c.burstWait db)
        (if (c.verdict db).sustainedOk then 0 else c.windowWait db))
        (if (c.verdict db).quotaOk then 0 else c.monthWait) := by
  have hwindow := c.windowWait_nonneg db
  have hmonth := c.monthWait_pos
  have hburst : (c.verdict db).burstOk = false → 0 < c.burstWait db := by
    intro hno
    apply burstWait_pos hrate
    rw [← not_le, ← verdict_burstOk, hno]
    exact Bool.false_ne_true
  have hallowed : (c.verdict db).allowed = false := by simpa [admits] using hdenied
  have hreport : (c.reply db).retryAfter =
      let burst := if (c.verdict db).burstOk then 0 else c.burstWait db
      let sustained := if !(c.verdict db).sustainedOk && decide (c.windowWait db > burst) then
        c.windowWait db else burst
      if !(c.verdict db).quotaOk && decide (c.monthWait > sustained) then c.monthWait
      else sustained := by
    rw [reply_eq_report, levelAfter, if_neg hdenied, sub_zero, window_after_denied hdenied]
    simp only [report, hallowed, Bool.false_eq_true, if_false]
    rfl
  rw [hreport]
  generalize (c.verdict db).burstOk = burstOk at *
  generalize (c.verdict db).sustainedOk = sustainedOk at *
  generalize (c.verdict db).quotaOk = quotaOk at *
  cases burstOk <;> cases sustainedOk <;> cases quotaOk <;>
    simp only [Bool.not_true, Bool.not_false, Bool.false_and, Bool.true_and, Bool.false_eq_true,
      if_true, if_false, decide_eq_true_eq, forall_true_left, gt_iff_lt] at hburst ⊢ <;>
    omega

end Call

/-- What the reported wait is long enough for. -/
structure Call.Waited (c : Call) (db : Keyspace) (seconds : Int) : Prop where
  nonneg : 0 ≤ seconds
  burst : c.argv.cost * utok ≤ (c.refilled db).1 + seconds * c.argv.rateUtok
  window : ¬ ((c.live db).card : Int) + 1 ≤ c.argv.sustainedLimit → ∀ oldest,
    (c.live db).minScore = some oldest → oldest + c.argv.windowUs ≤ c.now.us + seconds * utok
  quota : c.used db + c.argv.cost ≤ c.argv.quotaHard ∨ c.now.monthEnd ≤ c.now.sec + seconds

theorem Call.waited (hdenied : ¬ c.admits db = true) (hrate : 0 < c.argv.rateUtok) :
    c.Waited db (c.reply db).retryAfter := by
  have hwait := c.reply_retryAfter hdenied hrate
  have hmonth := c.monthWait_pos
  have hwindow := c.windowWait_nonneg db
  have hnonneg : 0 ≤ (c.reply db).retryAfter := by
    rw [hwait]
    refine le_max_of_le_left (le_max_of_le_right ?_)
    split <;> omega
  refine ⟨hnonneg, ?_, ?_, ?_⟩
  · by_cases hburst : (c.verdict db).burstOk = true
    · have henough := verdict_burstOk.mp hburst
      have := mul_nonneg hnonneg hrate.le
      omega
    · have hle : c.burstWait db ≤ (c.reply db).retryAfter := by
        rw [hwait, if_neg hburst]
        exact le_max_of_le_left (le_max_left _ _)
      rw [burstWait, Rounding.ceil_div_le_iff hrate] at hle
      omega
  · intro hfull oldest holdest
    have hle : c.windowWait db ≤ (c.reply db).retryAfter := by
      rw [hwait, if_neg fun h => hfull (verdict_sustainedOk.mp h)]
      exact le_max_of_le_left (le_max_right _ _)
    have hceil := (le_max_right _ _).trans ((show c.windowWait db =
      max 0 ⌈((oldest + c.argv.windowUs - c.now.us : Int) : ℚ) / utok⌉ by
        rw [windowWait, holdest]) ▸ hle)
    rw [Rounding.ceil_div_le_iff utok_pos] at hceil
    omega
  · by_cases hquota : (c.verdict db).quotaOk = true
    · exact .inl (verdict_quotaOk.mp hquota)
    · have hle : c.monthWait ≤ (c.reply db).retryAfter := by
        rw [hwait, if_neg hquota]
        exact le_max_right _ _
      unfold monthWait at hle
      exact .inr (by omega)

/-- The reported wait is the least that is long enough. -/
theorem Call.Waited.le {seconds : Int} (h : c.Waited db seconds) (hdenied : ¬ c.admits db = true)
    (hrate : 0 < c.argv.rateUtok) : (c.reply db).retryAfter ≤ seconds := by
  rw [c.reply_retryAfter hdenied hrate]
  refine max_le (max_le ?_ ?_) ?_
  · split
    · exact h.nonneg
    · rw [burstWait, Rounding.ceil_div_le_iff hrate]
      have := h.burst
      omega
  · split
    · exact h.nonneg
    · rename_i hfull
      unfold windowWait
      split
      · rename_i oldest holdest
        refine max_le h.nonneg ?_
        rw [Rounding.ceil_div_le_iff utok_pos]
        have := h.window (fun hroom => hfull (verdict_sustainedOk.mpr hroom)) oldest holdest
        omega
      · exact h.nonneg
  · split
    · exact h.nonneg
    · rename_i hover
      rcases h.quota with hroom | hend
      · exact absurd (verdict_quotaOk.mpr hroom) hover
      · unfold monthWait
        omega

/-! ### What is left when the key admits nothing -/

/-- Since `db`, the key has admitted nothing: what it has stored is as it was, or gone. -/
structure Waned (key : KeyId) (db db' : Keyspace) : Prop where
  bucket : ∀ rest, db'.bucket (Family.bucket.name key rest) = db.bucket (Family.bucket.name key rest) ∨
    db'.bucket (Family.bucket.name key rest) = none
  window : ∀ rest, (db'.window (Family.window.name key rest)).entries ⊆
    (db.window (Family.window.name key rest)).entries
  used : ∀ month, db'.counter (quotaName key month) = db.counter (quotaName key month) ∨
    db'.counter (quotaName key month) = 0

namespace Waned

theorem refl (key : KeyId) (db : Keyspace) : Waned key db db where
  bucket := fun _ => .inl rfl
  window := fun _ => Finset.Subset.refl _
  used := fun _ => .inl rfl

theorem trans {db'' : Keyspace} (h : Waned key db db') (h' : Waned key db' db'') :
    Waned key db db'' where
  bucket := by
    intro rest
    rcases h'.bucket rest with hsame | hgone
    · rw [hsame]
      exact h.bucket rest
    · exact .inr hgone
  window := fun rest => (h'.window rest).trans (h.window rest)
  used := by
    intro month
    rcases h'.used month with hsame | hgone
    · rw [hsame]
      exact h.used month
    · exact .inr hgone

theorem of_losing (h : Losing c db found) : Waned key db found where
  bucket := by
    intro rest
    rcases h (Family.bucket.name key rest) with hsame | hgone
    · exact .inl (Keyspace.bucket_congr hsame)
    · exact .inr (Keyspace.bucket_of_none hgone)
  window := by
    intro rest
    rcases h (Family.window.name key rest) with hsame | hgone
    · rw [Keyspace.window_congr hsame]
    · rw [Keyspace.window_of_none hgone]
      exact Finset.empty_subset _
  used := by
    intro month
    rcases h (quotaName key month) with hsame | hgone
    · exact .inl (Keyspace.counter_congr hsame)
    · exact .inr (Keyspace.counter_of_none hgone)

theorem of_check (hdenied : c.key = key → ¬ c.admits db = true) : Waned key db (c.after db) where
  bucket := by
    intro rest
    cases hbucket : (c.after db).bucket (Family.bucket.name key rest) with
    | none => exact .inr rfl
    | some stored =>
        rcases Call.bucket_after_name hbucket with hold | ⟨⟨hkey, -⟩, hadmits, -, -⟩
        · exact .inl hold.symm
        · exact absurd hadmits (hdenied hkey.symm)
  window := by
    intro rest p hp
    rcases Call.mem_window_after_name hp with hold | ⟨⟨hkey, -⟩, hadmits, -⟩
    · exact hold
    · exact absurd hadmits (hdenied hkey.symm)
  used := by
    intro month
    rw [c.counter_after_quotaName, if_neg fun h => hdenied h.2.1 h.1, add_zero]
    exact .inl rfl

theorem of_run {steps : List CheckStep} (hrun : Run Call.exec Losing db steps db')
    (htyped : db.Typed) (hdenied : ∀ step ∈ steps, step.event.key = key → ¬ step.admitted = true) :
    Waned key db db' := by
  induction hrun with
  | nil => exact refl key _
  | @cons db found db' c steps hlink hrest ih =>
      have hfound := hlink.typed htyped
      have hfirst := hdenied _ (List.mem_cons_self ..)
      rw [c.admitted_step hfound] at hfirst
      rw [c.exec_after hfound] at ih
      have hlater := ih (Call.typed_after hfound) fun step hmem =>
        hdenied step (List.mem_cons_of_mem _ hmem)
      exact ((of_losing hlink).trans (of_check hfirst)).trans hlater

end Waned

/-! ### Months without a check -/

/-- Only months the clock has read have counted anything. -/
def Counted (key : KeyId) (nowUs : Int) (db : Keyspace) : Prop :=
  ∀ month, db.counter (quotaName key month) ≠ 0 → ∃ t : Time, t.us ≤ nowUs ∧ t.monthStr = month

theorem counted_of_run {nowUs : Int} {steps : List CheckStep}
    (hrun : Run Call.exec Losing Keyspace.empty steps db)
    (htimes : ∀ step ∈ steps, step.event.key = key → step.us ≤ nowUs) : Counted key nowUs db := by
  refine (hrun.invariant (I := fun db => db.Typed ∧ Counted key nowUs db)
    (p := fun c => c.key = key → c.now.us ≤ nowUs) (fun c db found h hlink => ?_)
    (fun c db hc h => ?_) ⟨Keyspace.typed_empty, fun _ hne => absurd rfl hne⟩ htimes).1.2
  · refine ⟨hlink.typed h.1, fun month hne => ?_⟩
    rcases (Waned.of_losing hlink).used month with hsame | hgone
    · exact h.2 month (hsame ▸ hne)
    · exact absurd hgone hne
  · rw [c.exec_after h.1]
    refine ⟨Call.typed_after h.1, fun month hne => ?_⟩
    rw [c.counter_after_quotaName] at hne
    split at hne
    · rename_i hown
      exact ⟨c.now, hc hown.2.1, hown.2.2⟩
    · rw [add_zero] at hne
      exact h.2 month hne

/-- Nothing is counted in a month that has not begun. -/
theorem Counted.zero_of_later {now later : Time} (h : Counted key now.us db)
    (hlater : now.sec ≤ later.sec) (hmonth : later.monthStr ≠ now.monthStr) :
    db.counter (quotaName key later.monthStr) = 0 := by
  by_contra hne
  obtain ⟨t, ht, hsame⟩ := h _ hne
  have hfirst : t.sec ≤ now.sec := by
    have husec := now.usec_lt
    simp only [Time.us, utok] at ht
    omega
  exact hmonth (Time.monthStr_between hfirst hlater hsame).symm

/-! ### The level later on -/

/-- The time is worth less than the cost, or exactly as much and the refill loses a microtoken. -/
def ShortOf (capUtok perSec costUtok elapsed tokens : Int) : Prop :=
  tokens + perSec * elapsed < costUtok ∨
    tokens + perSec * elapsed = costUtok ∧ FallsShort perSec elapsed ∧
      ¬ Fills capUtok (perSec * utok) elapsed

/-- A bucket that reaches a cost without a microtoken to spare stays there. -/
theorem level_of_not_shortOf {capUtok perSec costUtok nowUs laterUs tokens ts : Int}
    (h : BurstBounds capUtok perSec) (htokens : 0 ≤ tokens) (hcost : costUtok ≤ capUtok)
    (hnot : ¬ ShortOf capUtok perSec costUtok (elapsedUs nowUs ts) tokens)
    (hlater : nowUs ≤ laterUs) :
    costUtok ≤ (refill capUtok (perSec * utok) laterUs (some (tokens, ts))).1 := by
  have hmono : elapsedUs nowUs ts ≤ elapsedUs laterUs ts := by
    unfold elapsedUs
    split <;> split <;> omega
  have hworth : perSec * elapsedUs nowUs ts ≤ perSec * elapsedUs laterUs ts :=
    mul_le_mul_of_nonneg_left hmono h.perSec.1.le
  rw [ShortOf, not_or, not_lt] at hnot
  rw [refill_level h laterUs ts htokens]
  rcases (elapsedUs_nonneg laterUs ts).eq_or_lt with hstill | hpos
  · have hkept : ¬ LosesMicrotoken capUtok perSec (elapsedUs laterUs ts) tokens := fun hloses =>
      not_fallsShort_zero perSec (hstill ▸ hloses.1)
    rw [← hstill, mul_zero] at hworth
    rw [refill_still h.perSec.1 h.cap.1 hstill.symm, if_neg hkept]
    simp only
    omega
  · rw [refill_later h.perSec.1 hpos htokens]
    split
    · rename_i hloses
      obtain ⟨hshort, hpartly, hroom⟩ := hloses
      rcases hmono.eq_or_lt with hsame | hmore
      · have hover : tokens + perSec * elapsedUs laterUs ts ≠ costUtok := fun hexact =>
          hnot.2 (hsame ▸ ⟨hexact, hshort, hpartly⟩)
        simp only
        omega
      · have hgain : perSec * (elapsedUs nowUs ts + 1) ≤ perSec * elapsedUs laterUs ts :=
          mul_le_mul_of_nonneg_left hmore h.perSec.1.le
        have hperSec := h.perSec.1
        rw [mul_add, mul_one] at hgain
        simp only
        omega
    · simp only
      omega

/-- A bucket that is short of a cost does not pay for it. -/
theorem level_of_shortOf {capUtok perSec costUtok nowUs tokens ts : Int}
    (h : BurstBounds capUtok perSec) (htokens : 0 ≤ tokens) (hcost : costUtok ≤ capUtok)
    (hshort : ShortOf capUtok perSec costUtok (elapsedUs nowUs ts) tokens) :
    (refill capUtok (perSec * utok) nowUs (some (tokens, ts))).1 < costUtok := by
  rw [refill_level h nowUs ts htokens]
  rcases (elapsedUs_nonneg nowUs ts).eq_or_lt with hstill | hpos
  · rw [ShortOf, ← hstill, mul_zero, add_zero] at hshort
    have hless := hshort.resolve_right fun hexact => not_fallsShort_zero perSec hexact.2.1
    rw [refill_still h.perSec.1 h.cap.1 hstill.symm]
    split <;> simp only <;> omega
  · rw [refill_later h.perSec.1 hpos htokens]
    rcases hshort with hless | ⟨hexact, hshort, hpartly⟩
    · split <;> simp only <;> omega
    · rw [if_pos ⟨hshort, hpartly, hexact.trans_le hcost⟩]
      simp only
      omega

/-! ### Coming back -/

/-- The same check, with a request id of its own. -/
structure Call.Repeats (c c' : Call) : Prop where
  key_eq : c'.key = c.key
  resource_eq : c'.resource = c.resource
  argv_eq : c'.argv = { c.argv with requestId := c'.argv.requestId }

/-- Coming back after the reported wait is enough, whatever else happens in between, as long as the
key admits nothing. -/
def Call.RetryIsEnough (c : Call) (db : Keyspace) : Prop :=
  1 ≤ (c.reply db).retryAfter ∧
    ∀ (between : List CheckStep) db' found c', Run Call.exec Losing (c.after db) between db' →
      (∀ step ∈ between, step.event.key = c.key → ¬ step.admitted = true) →
      Losing c' db' found → c.Repeats c' →
      c.now.us + (c.reply db).retryAfter * utok ≤ c'.now.us →
      CheckStep.admitted (Step.of Call.exec c' found) = true

/-- The sustained layer denies, its oldest member will be exactly as old as the window in a whole
number of seconds, and neither of the other layers takes longer than that. -/
def Call.AtWindowEdge (c : Call) (db : Keyspace) : Prop :=
  ¬ ((c.live db).card : Int) + 1 ≤ c.argv.sustainedLimit ∧
    ∃ oldest seconds, (c.live db).minScore = some oldest ∧
      oldest + c.argv.windowUs = c.now.us + seconds * utok ∧
      c.argv.cost * utok ≤ (c.refilled db).1 + seconds * c.argv.rateUtok ∧
      (c.used db + c.argv.cost ≤ c.argv.quotaHard ∨ c.now.monthEnd ≤ c.now.sec + seconds)

/-- When the waits of all layers are over, the bucket is short of the cost. -/
def Call.AtBurstEdge (c : Call) (db : Keyspace) : Prop :=
  ∃ perSec tokens ts seconds, c.argv.rateUtok = perSec * utok ∧
    db.bucket c.bkey = some (tokens, ts) ∧ c.Waited db seconds ∧
    ShortOf c.argv.capUtok perSec (c.argv.cost * utok)
      (elapsedUs (c.now.us + seconds * utok) ts) tokens

/-- Away from the edge the oldest member has left when the wait is over. -/
theorem Call.Waited.window_lt {seconds : Int} (h : c.Waited db seconds)
    (hnot : ¬ c.AtWindowEdge db) (hfull : ¬ ((c.live db).card : Int) + 1 ≤ c.argv.sustainedLimit)
    (oldest : Int) (holdest : (c.live db).minScore = some oldest) :
    oldest + c.argv.windowUs < c.now.us + seconds * utok := by
  refine lt_of_le_of_ne (h.window hfull oldest holdest) fun hage => ?_
  exact hnot ⟨hfull, oldest, seconds, holdest, hage, h.burst, h.quota⟩

theorem Call.Waited.one_le {seconds : Int} (h : c.Waited db seconds) (hnot : ¬ c.AtWindowEdge db)
    (hdenied : ¬ c.admits db = true) (hlimit : 1 ≤ c.argv.sustainedLimit) : 1 ≤ seconds := by
  have hnonneg := h.nonneg
  by_contra hnone
  obtain rfl : seconds = 0 := by omega
  -- Nothing to wait for: every layer would have allowed.
  refine hdenied (Call.admits_iff.mpr ⟨?_, ?_, ?_⟩)
  · have hburst := h.burst
    rwa [zero_mul, add_zero] at hburst
  · by_contra hfull
    cases holdest : (c.live db).minScore with
    | none =>
        rw [SortedSet.minScore_eq_none.mp holdest, SortedSet.card_empty] at hfull
        omega
    | some oldest =>
        have hlate := h.window_lt hnot hfull oldest holdest
        obtain ⟨p, hp, rfl⟩ := SortedSet.mem_of_minScore holdest
        have hlive := (SortedSet.mem_removeBelow.mp hp).2
        omega
  · rcases h.quota with hroom | hend
    · exact hroom
    · have hopen := c.now.sec_lt_monthEnd
      omega

namespace Call.Repeats

variable {c' : Call} {seconds : Int} {limits : ResolvedKey}

theorem cap_eq (h : c.Repeats c') : c'.argv.capUtok = c.argv.capUtok := by
  rw [h.argv_eq]

theorem rate_eq (h : c.Repeats c') : c'.argv.rateUtok = c.argv.rateUtok := by
  rw [h.argv_eq]

theorem sustained_eq (h : c.Repeats c') : c'.argv.sustainedLimit = c.argv.sustainedLimit := by
  rw [h.argv_eq]

theorem window_eq (h : c.Repeats c') : c'.argv.windowUs = c.argv.windowUs := by
  rw [h.argv_eq]

theorem quota_eq (h : c.Repeats c') : c'.argv.quotaHard = c.argv.quotaHard := by
  rw [h.argv_eq]

theorem cost_eq (h : c.Repeats c') : c'.argv.cost = c.argv.cost := by
  rw [h.argv_eq]

theorem bkey_eq (h : c.Repeats c') : c'.bkey = c.bkey := by
  rw [Call.bkey, h.key_eq, h.resource_eq]

theorem skey_eq (h : c.Repeats c') : c'.skey = c.skey := by
  rw [Call.skey, h.key_eq, h.resource_eq]

theorem burst (h : c.Repeats c') (hwhole : c.argv.WholeRate)
    (hcost : c.argv.cost * utok ≤ c.argv.capUtok)
    (hlevels : ∀ t ts, db.bucket c.bkey = some (t, ts) → 0 ≤ t) (hwaned : Waned c.key db db')
    (hwaited : c.Waited db seconds) (hnot : ¬ c.AtBurstEdge db)
    (hlater : c.now.us + seconds * utok ≤ c'.now.us) :
    c'.argv.cost * utok ≤ (c'.refilled db').1 := by
  obtain ⟨perSec, hrate, hbounds⟩ := hwhole
  rw [h.cost_eq, Call.refilled, h.cap_eq, h.rate_eq, h.bkey_eq]
  rcases hwaned.bucket c.resource.val with hsame | hgone
  · rw [← Call.bkey_eq] at hsame
    rw [hsame, hrate]
    cases hbucket : db.bucket c.bkey with
    | none => exact hcost
    | some stored =>
        obtain ⟨t, ts⟩ := stored
        exact level_of_not_shortOf hbounds (hlevels t ts hbucket) hcost
          (fun hshort => hnot ⟨perSec, t, ts, seconds, hrate, hbucket, hwaited, hshort⟩) hlater
  · rw [← Call.bkey_eq] at hgone
    rw [hgone]
    exact hcost

theorem mem_live (h : c.Repeats c') (hwaned : Waned c.key db db') (hlater : c.now.us ≤ c'.now.us)
    {p : String × Int} (hp : p ∈ (c'.live db').entries) :
    p ∈ (c.live db).entries ∧ c'.now.us - c.argv.windowUs ≤ p.2 := by
  rw [Call.live, SortedSet.mem_removeBelow, h.skey_eq, h.window_eq] at hp
  refine ⟨?_, hp.2⟩
  rw [Call.live, SortedSet.mem_removeBelow]
  exact ⟨hwaned.window _ hp.1, by omega⟩

theorem sustained (h : c.Repeats c') (hlimit : 1 ≤ c.argv.sustainedLimit)
    (hcard : ((db.window c.skey).card : Int) ≤ c.argv.sustainedLimit) (hwaned : Waned c.key db db')
    (hlater : c.now.us ≤ c'.now.us)
    (hold : ¬ ((c.live db).card : Int) + 1 ≤ c.argv.sustainedLimit → ∀ oldest,
      (c.live db).minScore = some oldest → oldest + c.argv.windowUs < c'.now.us) :
    ((c'.live db').card : Int) + 1 ≤ c'.argv.sustainedLimit := by
  have hsub : (c'.live db').entries ⊆ (c.live db).entries := fun p hp =>
    (h.mem_live hwaned hlater hp).1
  rw [h.sustained_eq]
  by_cases hroom : ((c.live db).card : Int) + 1 ≤ c.argv.sustainedLimit
  · have hle := SortedSet.card_le_card hsub
    omega
  · have hlive := SortedSet.card_removeBelow_le (c.now.us - c.argv.windowUs) (db.window c.skey)
    rw [← Call.live] at hlive
    cases holdest : (c.live db).minScore with
    | none =>
        rw [SortedSet.minScore_eq_none.mp holdest, SortedSet.card_empty] at hroom
        omega
    | some oldest =>
        -- The oldest member has left by then.
        obtain ⟨p, hp, rfl⟩ := SortedSet.mem_of_minScore holdest
        have hgone : p ∉ (c'.live db').entries := by
          intro hp'
          have hkept := (h.mem_live hwaned hlater hp').2
          have hlate := hold hroom p.2 holdest
          omega
        have hlt := SortedSet.card_lt_card hsub hp hgone
        omega

theorem quota (h : c.Repeats c') (hcost : c.argv.cost ≤ c.argv.quotaHard)
    (hcounted : Counted c.key c.now.us db) (hwaned : Waned c.key db db')
    (hquota : c.used db + c.argv.cost ≤ c.argv.quotaHard ∨ c.now.monthEnd ≤ c.now.sec + seconds)
    (hnonneg : 0 ≤ seconds) (hlater : c.now.us + seconds * utok ≤ c'.now.us) :
    c'.used db' + c'.argv.cost ≤ c'.argv.quotaHard := by
  have hsec : (c.now.sec : Int) + seconds ≤ c'.now.sec := by
    have husec := c'.now.usec_lt
    simp only [Time.us, utok] at hlater
    omega
  rw [h.cost_eq, h.quota_eq, Call.used, Call.qkey_eq_quotaName, h.key_eq]
  rcases hwaned.used c'.now.monthStr with hsame | hgone
  · rw [hsame]
    by_cases hmonth : c'.now.monthStr = c.now.monthStr
    · rcases hquota with hroom | hend
      · rw [hmonth, ← Call.qkey_eq_quotaName]
        exact hroom
      · have hopen := c'.now.sec_lt_monthEnd
        rw [Time.monthEnd_eq hmonth] at hopen
        exact absurd hopen (not_lt.mpr (hend.trans hsec))
    · rw [hcounted.zero_of_later (by omega) hmonth]
      omega
  · rw [hgone]
    omega

end Call.Repeats

/-- A whole number of seconds later. -/
def Time.later (t : Time) (seconds : Int) : Time := ⟨(t.sec + seconds).toNat, t.usec, t.usec_lt⟩

theorem Time.us_later (t : Time) {seconds : Int} (hnonneg : 0 ≤ seconds) :
    (t.later seconds).us = t.us + seconds * utok := by
  simp only [later, us, utok]
  omega

/-- Coming back at the edge is too early: no member has left the window. -/
theorem Call.AtWindowEdge.not_enough (hedge : c.AtWindowEdge db) (htyped : db.Typed)
    (hdenied : ¬ c.admits db = true) (hrate : 0 < c.argv.rateUtok) : ¬ c.RetryIsEnough db := by
  obtain ⟨hfull, oldest, seconds, holdest, hage, hburst, hquota⟩ := hedge
  obtain ⟨p, hp, rfl⟩ := SortedSet.mem_of_minScore holdest
  have hpos : 0 ≤ seconds := by
    have hlive := (SortedSet.mem_removeBelow.mp hp).2
    by_contra hneg
    have := mul_le_mul_of_nonneg_right (show seconds ≤ -1 by omega) utok_pos.le
    have hutok := utok_pos
    omega
  have hwaited : c.Waited db seconds := by
    refine ⟨hpos, hburst, fun _ oldest' holdest' => ?_, hquota⟩
    rw [holdest, Option.some.injEq] at holdest'
    omega
  have hle := mul_le_mul_of_nonneg_right (hwaited.le hdenied hrate) utok_pos.le
  rintro ⟨-, henough⟩
  have hafter := Call.typed_after (c := c) htyped
  have hadmitted := henough [] (c.after db) (c.after db) { c with now := c.now.later seconds } (.nil _)
    (fun _ hmem => absurd hmem List.not_mem_nil) (fun _ => .inl rfl) ⟨rfl, rfl, rfl⟩
    (by
      rw [Time.us_later _ hpos]
      omega)
  rw [Call.admitted_step _ hafter, Call.admits_iff] at hadmitted
  have hlive : ({ c with now := c.now.later seconds } : Call).live (c.after db) = c.live db := by
    show ((c.after db).window c.skey).removeBelow ((c.now.later seconds).us - c.argv.windowUs) = _
    rw [Call.window_after_denied hdenied, Time.us_later _ hpos]
    apply SortedSet.removeBelow_eq_self
    intro q hq
    have hyounger := SortedSet.minScore_le holdest hq
    omega
  rw [hlive] at hadmitted
  exact hfull hadmitted.2.1

/-- Coming back at the edge is too early: the bucket does not pay for the check. -/
theorem Call.AtBurstEdge.not_enough (hedge : c.AtBurstEdge db) (htyped : db.Typed)
    (hdenied : ¬ c.admits db = true) (hwhole : c.argv.WholeRate)
    (hcost : c.argv.cost * utok ≤ c.argv.capUtok)
    (hlevels : ∀ t ts, db.bucket c.bkey = some (t, ts) → 0 ≤ t) : ¬ c.RetryIsEnough db := by
  obtain ⟨perSec, t, ts, seconds, hrate, hbucket, hwaited, hshort⟩ := hedge
  obtain ⟨perSec', hrate', hbounds⟩ := hwhole
  obtain rfl : perSec' = perSec := mul_right_cancel₀ utok_pos.ne' (hrate'.symm.trans hrate)
  have hratePos : 0 < c.argv.rateUtok := by
    rw [hrate]
    exact mul_pos hbounds.perSec.1 utok_pos
  have hle := mul_le_mul_of_nonneg_right (hwaited.le hdenied hratePos) utok_pos.le
  rintro ⟨-, henough⟩
  have hafter := Call.typed_after (c := c) htyped
  have hus := c.now.us_later hwaited.nonneg
  have hadmitted := henough [] (c.after db) (c.after db) { c with now := c.now.later seconds } (.nil _)
    (fun _ hmem => absurd hmem List.not_mem_nil) (fun _ => .inl rfl) ⟨rfl, rfl, rfl⟩
    (by
      rw [hus]
      omega)
  rw [Call.admitted_step _ hafter, Call.admits_iff] at hadmitted
  have hlevel := level_of_shortOf hbounds (hlevels t ts hbucket) hcost hshort
  have hrefilled : ({ c with now := c.now.later seconds } : Call).refilled (c.after db) =
      refill c.argv.capUtok (perSec' * utok) (c.now.us + seconds * utok) (some (t, ts)) := by
    show refill c.argv.capUtok c.argv.rateUtok (c.now.later seconds).us
      ((c.after db).bucket c.bkey) = _
    rw [Call.bucket_after_denied hdenied, hbucket, hrate, hus]
  rw [hrefilled] at hadmitted
  exact absurd hadmitted.1 (not_le.mpr hlevel)

/-- What checks with the same limits leave of a key, whatever was lost. -/
structure SameLimits (key : KeyId) (limits : ResolvedKey) (nowUs : Int) (db : Keyspace) : Prop where
  typed : db.Typed
  stored : Stored key limits.ceilings db
  stamped : Stamped key 0 nowUs db
  counted : Counted key nowUs db

theorem sameLimits_of_run {limits : ResolvedKey} {past : List CheckStep}
    (hlimits : limits.WithinBounds) (hpast : Run Call.exec Losing Keyspace.empty past db)
    (hcalls : ∀ step ∈ past, step.event.key = limits.keyId → step.event.MarshalledFor limits)
    (htimes : ∀ step ∈ past, step.us ≤ c.now.us) (hlink : Losing c db found)
    (hc : c.MarshalledFor limits) : SameLimits c.key limits c.now.us found := by
  have hkey := hc.key_eq
  have hrun : Run Call.exec Losing Keyspace.empty (past ++ [Step.of Call.exec c found])
      (c.exec found).2 := Run.snoc_iff.mpr ⟨db, c, found, hpast, hlink, rfl, rfl⟩
  have hmem : Step.of Call.exec c found ∈ past ++ [Step.of Call.exec c found] :=
    List.mem_append_right _ (List.mem_singleton_self _)
  have hown : ∀ step ∈ past ++ [Step.of Call.exec c found], step.event.key = c.key →
      step.event.MarshalledFor limits ∧ step.us ≤ c.now.us := by
    intro step hstep hstepKey
    rcases List.mem_append.mp hstep with hpast | hlast
    · exact ⟨hcalls step hpast (hstepKey.trans hkey), htimes step hpast⟩
    · rw [List.mem_singleton.mp hlast]
      exact ⟨hc, le_rfl⟩
  have htyped : found.Typed := ((typed_of_losing hrun Keyspace.typed_empty).2 _ hmem).typed
  have hsustained : 0 ≤ limits.ceilings.sustainedLimit := le_trans (by decide) hlimits.sustainedLimit.1
  have hmonthly : 0 ≤ limits.ceilings.quotaHard := le_trans (by decide) hlimits.monthlyQuota.1
  have hunder : ∀ step ∈ past ++ [Step.of Call.exec c found],
      step.event.Under c.key limits.ceilings := by
    intro step hstep
    have hstepOwn (hstepKey : step.event.key = c.key) :=
      ((hown step hstep hstepKey).1.under hlimits c.key)
    exact ⟨fun h => (hstepOwn h).cap h, fun h => (hstepOwn h).sustained h,
      fun h => (hstepOwn h).quota h, fun h => (hstepOwn h).cost h⟩
  have hstored : Stored c.key limits.ceilings found :=
    (stored_of_run hrun Keyspace.typed_empty (Stored.empty hsustained hmonthly) hsustained hmonthly
      hunder).2 _ hmem
  have hstamped : Stamped c.key 0 c.now.us found := (stamped_of_run hrun Keyspace.typed_empty
    Stamped.empty fun step hstep hstepKey => by
      obtain ⟨hmarshalled, htime⟩ := hown step hstep hstepKey
      exact ⟨hmarshalled.wholeRate hlimits, step.event.now.us_nonneg, htime⟩).2 _ hmem
  have hcounted : Counted c.key c.now.us found := by
    have hmiddle : Counted c.key c.now.us db :=
      counted_of_run hpast fun step hstep _ => htimes step hstep
    intro month hne
    rcases (Waned.of_losing hlink).used month with hsame | hgone
    · exact hmiddle month (hsame ▸ hne)
    · exact absurd hgone hne
  exact ⟨htyped, hstored, hstamped, hcounted⟩

/-- **Retry-After is sufficient away from the edges.** A key has had the same limits within the schema
bounds all along, and keys may have been lost. When a check that fits the capacity and the quota is
denied, the reported wait is at least a second and coming back after it is enough, exactly when the
sustained layer does not hold the caller to the very edge of its window, and the bucket is not short of
the cost when the waits are over. -/
theorem retry_after_sufficient {limits : ResolvedKey} {past : List CheckStep}
    (hlimits : limits.WithinBounds) (hpast : Run Call.exec Losing Keyspace.empty past db)
    (hcalls : ∀ step ∈ past, step.event.key = limits.keyId → step.event.MarshalledFor limits)
    (htimes : ∀ step ∈ past, step.us ≤ c.now.us) (hlink : Losing c db found)
    (hc : c.MarshalledFor limits) (hburst : c.argv.cost ≤ limits.burstCapacity)
    (hquota : c.argv.cost ≤ limits.monthlyQuota)
    (hdenied : ¬ CheckStep.admitted (Step.of Call.exec c found) = true) :
    c.RetryIsEnough found ↔ ¬ c.AtWindowEdge found ∧ ¬ c.AtBurstEdge found := by
  obtain ⟨htyped, hstored, -, hcounted⟩ :=
    sameLimits_of_run hlimits hpast hcalls htimes hlink hc
  rw [c.admitted_step htyped] at hdenied
  have hwhole := hc.wholeRate hlimits
  have hrate : 0 < c.argv.rateUtok := by
    rw [hc.rate_eq]
    exact hlimits.rate_pos
  have hlimit : 1 ≤ c.argv.sustainedLimit := by
    rw [hc.argv_eq]
    exact hlimits.sustainedLimit.1
  have hcard : ((found.window c.skey).card : Int) ≤ c.argv.sustainedLimit := by
    rw [hc.argv_eq]
    exact hstored.card _
  have hroom : c.argv.cost ≤ c.argv.quotaHard := by
    rw [hc.argv_eq]
    exact hquota
  have hcost : c.argv.cost * utok ≤ c.argv.capUtok := by
    rw [hc.cap_eq]
    exact mul_le_mul_of_nonneg_right hburst utok_pos.le
  have hlevels : ∀ t ts, found.bucket c.bkey = some (t, ts) → 0 ≤ t := fun t ts hbucket =>
    (hstored.level _ t ts hbucket).1
  constructor
  · intro henough
    exact ⟨fun hedge => hedge.not_enough htyped hdenied hrate henough,
      fun hedge => hedge.not_enough htyped hdenied hwhole hcost hlevels henough⟩
  rintro ⟨hnot, hnotBurst⟩
  have hwaited := Call.waited hdenied hrate
  have hstrict := hwaited.window_lt hnot
  refine ⟨hwaited.one_le hnot hdenied hlimit, ?_⟩
  intro between db' found' c' hbetween hsilent hlink' hrepeats hlater
  have hwaned : Waned c.key found found' :=
    ((Waned.of_check fun _ => hdenied).trans (Waned.of_run hbetween (Call.typed_after htyped)
      hsilent)).trans (Waned.of_losing hlink')
  have htyped' := hlink'.typed (typed_of_losing hbetween (Call.typed_after htyped)).1
  have hwait : 0 ≤ (c.reply found).retryAfter * utok := mul_nonneg hwaited.nonneg utok_pos.le
  rw [c'.admitted_step htyped', Call.admits_iff]
  refine ⟨?_, ?_, ?_⟩
  · exact hrepeats.burst hwhole hcost hlevels hwaned hwaited hnotBurst hlater
  · exact hrepeats.sustained hlimit hcard hwaned (by omega) fun hfull oldest holdest =>
      (hstrict hfull oldest holdest).trans_le hlater
  · exact hrepeats.quota hroom hcounted hwaned hwaited.quota hwaited.nonneg hlater

/-- The burst is spent: the second check is told to come back in a second, and may. -/
theorem retry_after_sufficient_sample :
    let first : CheckStep := Step.of Call.exec (sampleCall 0 2 "a") Keyspace.empty
    let denied : Call := sampleCall 1 2 "b"
    denied.RetryIsEnough first.after ∧ (denied.reply first.after).retryAfter = 1 := by
  intro first denied
  have hpast : Run Call.exec Losing Keyspace.empty [first] first.after :=
    .cons (fun _ => .inl rfl) (.nil _)
  refine ⟨?_, by decide +kernel⟩
  refine (retry_after_sufficient samplePlan_withinBounds hpast ?_ ?_ (fun _ => .inl rfl)
    ⟨rfl, rfl, by decide⟩ (by decide) (by decide) (by decide +kernel)).mpr ?_
  · intro step hmem _
    rw [List.mem_singleton.mp hmem]
    exact ⟨rfl, rfl, by decide⟩
  · intro step hmem
    rw [List.mem_singleton.mp hmem]
    decide
  · refine ⟨fun hedge => hedge.1 (by decide +kernel), ?_⟩
    rintro ⟨perSec, t, ts, seconds, hrate, hbucket, hwaited, hshort⟩
    have hstored : first.after.bucket denied.bkey = some (0, 0) := by decide +kernel
    rw [hstored, Option.some.injEq, Prod.mk.injEq] at hbucket
    obtain ⟨rfl, rfl⟩ := hbucket
    obtain rfl : 1 = perSec := mul_right_cancel₀ utok_pos.ne' (Eq.trans (by decide) hrate)
    have hlevel : (denied.refilled first.after).1 = 1000000 := by decide +kernel
    have hprice : denied.argv.cost * utok = 2000000 := by decide +kernel
    have hyield : denied.argv.rateUtok = 1000000 := by decide +kernel
    have hnow : denied.now.us = 1000000 := by decide +kernel
    have hburst := hwaited.burst
    rw [hlevel, hprice, hyield] at hburst
    have helapsed : elapsedUs (denied.now.us + seconds * utok) 0 = 1000000 + seconds * 1000000 := by
      rw [hnow, elapsedUs_of_le (by simp only [utok]; omega), sub_zero, utok]
    rw [hprice, helapsed, ShortOf, zero_add, one_mul] at hshort
    rcases hshort with hless | ⟨hexact, hfalls, -⟩
    · omega
    · obtain rfl : seconds = 1 := by omega
      exact absurd hfalls (by decide +kernel)

/-- One request in ten seconds, made at zero. The check at five is told to come back in five seconds,
and is denied again at ten, there with no wait at all. -/
theorem retry_after_too_early :
    let limits : ResolvedKey := { samplePlan with sustainedLimit := 1 }
    let call (sec : Fin 86400) (requestId : String) : Call :=
      ⟨sampleKey, sampleResource, sampleTime sec, scriptArgv limits 1 requestId⟩
    let first : CheckStep := Step.of Call.exec (call 0 "a") Keyspace.empty
    let second : CheckStep := Step.of Call.exec (call 5 "b") first.after
    let third : CheckStep := Step.of Call.exec (call 10 "c") second.after
    Run Call.exec Losing Keyspace.empty [first, second, third] third.after ∧
      limits.WithinBounds ∧ first.admitted = true ∧ ¬ second.admitted = true ∧
      ((call 5 "b").reply first.after).retryAfter = 5 ∧ ¬ third.admitted = true ∧
      ((call 10 "c").reply second.after).retryAfter = 0 ∧ ¬ (call 5 "b").RetryIsEnough first.after := by
  intro limits call first second third
  have hthird : ¬ third.admitted = true := by decide +kernel
  have hlinked : ∀ db, Losing (call 10 "c") db db := fun _ _ => .inl rfl
  refine ⟨.cons (fun _ => .inl rfl) (.cons (fun _ => .inl rfl) (.cons (hlinked _) (.nil _))), ?_,
    by decide +kernel, by decide +kernel, by decide +kernel, hthird, by decide +kernel, fun h => ?_⟩
  · constructor <;> decide
  · refine hthird (h.2 [] _ second.after (call 10 "c") ?_ (fun _ hmem => absurd hmem List.not_mem_nil)
      (hlinked _) ⟨rfl, rfl, rfl⟩ (by decide +kernel))
    have htyped : first.after.Typed := sample_typed _
    have hafter : second.after = (call 5 "b").after first.after := by
      rw [Step.of_after]
      exact Call.exec_after _ htyped
    rw [hafter]
    exact .nil _

/-- A bucket of 58 at 25 a second is empty at 100 seconds. A check of 29 at 100.16 is told to come back
in a second, and is denied again then: 1.16 seconds pay for 29 tokens, in doubles for a microtoken
less. -/
example :
    let limits : ResolvedKey :=
      { samplePlan with
        burstCapacity := 58, burstRefillPerSec := 25, sustainedLimit := 1000
        monthlyQuota := 1000 }
    let call (now : Time) (cost : Int) (requestId : String) : Call :=
      ⟨sampleKey, sampleResource, now, scriptArgv limits cost requestId⟩
    let first : CheckStep := Step.of Call.exec (call ⟨100, 0, by decide⟩ 58 "a") Keyspace.empty
    let denied := call ⟨100, 160000, by decide⟩ 29 "b"
    let second : CheckStep := Step.of Call.exec denied first.after
    let third : CheckStep := Step.of Call.exec (call ⟨101, 160000, by decide⟩ 29 "c") second.after
    first.admitted = true ∧ second.admitted = false ∧ (denied.reply first.after).retryAfter = 1 ∧
      third.admitted = false := by
  refine ⟨?_, ?_, ?_, ?_⟩ <;> decide +kernel

end QuotaGuard
