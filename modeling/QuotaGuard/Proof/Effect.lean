import QuotaGuard.Service.Checker

/-!
# The effect of one check

The script, read once. On a keyspace whose families hold what they should, a check always answers:
its reply and the keyspace it leaves are functions of the bucket, the window, the counter and the
flag it finds. Everything proved later about a check goes through `exec_eq` and the five facts about
`after`, one for each name the script can touch and one for all the others.
-/

namespace QuotaGuard

open Script Redis

/-! ### Month keys live in the future -/

namespace Time

variable (t : Time)

def monthDeadline : Int := (t.monthEnd + monthGraceS) * 1000

theorem ms_lt_monthDeadline : t.ms < t.monthDeadline := by
  have hend := t.sec_lt_monthEnd
  have husec := t.usec_lt
  simp only [monthDeadline, ms, us, utok, monthGraceS]
  omega

end Time

namespace Redis

variable {now : Time} {db : Keyspace} {name : String}

def put (now : Time) (name : String) (value : Value) (deadline : Int) (db : Keyspace) : Keyspace :=
  setDeadline now name deadline (store name value db)

theorem put_apply_self (value : Value) (deadline : Int) :
    put now name value deadline db name =
      if deadline ≤ now.ms then none else some ⟨value, some deadline⟩ := by
  unfold put setDeadline
  rw [store_apply_self]
  simp only
  split <;> rw [Function.update_self]

theorem put_apply_of_ne {other : String} (hne : other ≠ name) (value : Value) (deadline : Int) :
    put now name value deadline db other = db other := by
  rw [put, setDeadline_apply_of_ne hne, store_apply_of_ne hne]

end Redis

namespace Call

variable (c : Call) (db : Keyspace)

/-! ### What a check finds -/

def live : SortedSet String Int := (db.window c.skey).removeBelow (c.now.us - c.argv.windowUs)

def used : Int := db.counter c.qkey

/-- The counter passes the soft threshold and the flag is not set yet. -/
def SetsFlag : Prop :=
  CrossesSoft c.argv.quotaSoft (c.used db) (c.used db + c.argv.cost) ∧ db c.fkey = none

instance : Decidable (c.SetsFlag db) := inferInstanceAs (Decidable (_ ∧ _))

/-! ### What a check leaves -/

def trimmed : Keyspace := trim c.skey (c.now.us - c.argv.windowUs) db

variable {c db}

theorem holds_bkey (h : db.Typed) : db.Holds c.bkey .hash := h .bucket _

theorem holds_skey (h : db.Typed) : db.Holds c.skey .zset := h .window _

theorem holds_fkey (h : db.Typed) : db.Holds c.fkey .int := by
  rw [fkey_eq]
  exact h .flag _

theorem holds_qkey (h : db.Typed) : db.Holds c.qkey .int := by
  rw [qkey_eq]
  exact h .quota _

theorem trimmed_of_ne {name : String} (hs : name ≠ c.skey) : c.trimmed db name = db name :=
  trim_apply_of_ne hs _

theorem window_trimmed : (c.trimmed db).window c.skey = c.live db := window_trim _

theorem holds_trimmed : (c.trimmed db).Holds c.skey .zset := holds_trim _

/-- What a check limits with a key of the family: its resource, or its month. -/
def rest (c : Call) : Family → String
  | .bucket => c.resource.val
  | .window => c.resource.val
  | .quota => c.now.monthStr
  | .flag => c.now.monthStr

/-- The names the script reads a value of hold one of the right type. -/
structure Readable (c : Call) (db : Keyspace) : Prop where
  bucket : db.Holds c.bkey .hash
  window : db.Holds c.skey .zset
  counter : db.Holds c.qkey .int

theorem readable (h : db.Typed) : c.Readable db := ⟨holds_bkey h, holds_skey h, holds_qkey h⟩

/-! ### What the refill and the decision make of it -/

variable [Arithmetic]

section

variable (c db)

/-- The level of the bucket and the time it is credited up to. -/
def refilled : Int × Int := refill c.argv.capUtok c.argv.rateUtok c.now.us (db.bucket c.bkey)

def verdict : Verdict where
  burstOk := decide ((c.refilled db).1 ≥ c.argv.cost * utok)
  sustainedOk := decide (((c.live db).card : Int) + 1 ≤ c.argv.sustainedLimit)
  quotaOk := decide (c.used db + c.argv.cost ≤ c.argv.quotaHard)

def admits : Bool := (c.verdict db).allowed

/-- The keyspace after the bucket and the window are written. -/
def spent : Keyspace :=
  put c.now c.skey
    (.zset ((c.live db).insert (windowMember c.now.us c.argv.requestId) c.now.us))
    (c.now.ms + windowTtl c.argv)
    (put c.now c.bkey
      (.hash (some ((c.refilled db).1 - c.argv.cost * utok)) (some (c.refilled db).2))
      (c.now.ms + bucketTtl c.argv) (c.trimmed db))

/-- The keyspace after the counter is raised as well. -/
def counted : Keyspace :=
  if c.used db + c.argv.cost = c.argv.cost then
    setDeadline c.now c.qkey c.now.monthDeadline
      (store c.qkey (.int (c.used db + c.argv.cost)) (c.spent db))
  else store c.qkey (.int (c.used db + c.argv.cost)) (c.spent db)

def after : Keyspace :=
  if c.admits db then
    if c.SetsFlag db then
      setDeadline c.now c.fkey c.now.monthDeadline
        (Function.update (c.counted db) c.fkey (some ⟨.int 1, none⟩))
    else c.counted db
  else c.trimmed db

def reply : Reply :=
  if c.admits db then
    report c.argv c.now (c.verdict db) ((c.refilled db).1 - c.argv.cost * utok)
      ((c.live db).card + 1) (c.used db + c.argv.cost) (if c.SetsFlag db then 1 else 0)
      ((c.after db).window c.skey).minScore
  else
    report c.argv c.now (c.verdict db) (c.refilled db).1 (c.live db).card (c.used db) 0
      (c.live db).minScore

end

/-! ### Names the script does not touch -/

theorem spent_of_ne {name : String} (hb : name ≠ c.bkey) (hs : name ≠ c.skey) :
    c.spent db name = db name := by
  rw [spent, put_apply_of_ne hs, put_apply_of_ne hb, trimmed_of_ne hs]

theorem counted_of_ne {name : String} (hq : name ≠ c.qkey) :
    c.counted db name = c.spent db name := by
  unfold counted
  split
  · rw [setDeadline_apply_of_ne hq, store_apply_of_ne hq]
  · rw [store_apply_of_ne hq]

theorem counted_fkey : c.counted db c.fkey = db c.fkey := by
  rw [counted_of_ne c.qkey_ne_fkey.symm, spent_of_ne c.bkey_ne_fkey.symm c.skey_ne_fkey.symm]

/-! ### The parts of step 7 -/

theorem spend_run (h : db.Holds c.bkey .hash) :
    spend (scriptKeys c.key c.resource) c.argv c.now (c.refilled db).1 (c.refilled db).2 c.now
      (c.trimmed db) = (.ok (), c.spent db) := by
  have hbucket : (c.trimmed db).Holds c.bkey .hash := h.congr (trimmed_of_ne c.bkey_ne_skey)
  have hframe (value : Value) (deadline : Int) :
      put c.now c.bkey value deadline (c.trimmed db) c.skey = c.trimmed db c.skey :=
    put_apply_of_ne c.bkey_ne_skey.symm _ _
  have hwindow := zadd_run c.now (Keyspace.Holds.congr (holds_trimmed (c := c)) (hframe
    (.hash (some ((c.refilled db).1 - c.argv.cost * utok)) (some (c.refilled db).2))
    (c.now.ms + bucketTtl c.argv))) c.now.us (windowMember c.now.us c.argv.requestId)
  rw [Keyspace.window_congr (hframe _ _), window_trimmed] at hwindow
  rw [spend, bind_run (hset_run c.now hbucket _ _), bind_run (pexpire_run c.now _), ← put,
    bind_run hwindow, pexpire_run, ← put, spent]

theorem raiseCounter_run (h : db.Holds c.qkey .int) :
    raiseCounter c.qkey c.argv c.now c.now (c.spent db) =
      (.ok (c.used db + c.argv.cost), c.counted db) := by
  have hframe : c.spent db c.qkey = db c.qkey :=
    spent_of_ne c.bkey_ne_qkey.symm c.skey_ne_qkey.symm
  have hincrby : incrby c.qkey c.argv.cost c.now (c.spent db) =
      (.ok (c.used db + c.argv.cost),
        store c.qkey (.int (c.used db + c.argv.cost)) (c.spent db)) := by
    rw [incrby_run c.now (h.congr hframe), Keyspace.counter_congr hframe, used]
  rw [raiseCounter, bind_run hincrby, counted]
  by_cases hfirst : c.used db + c.argv.cost = c.argv.cost
  · rw [if_pos hfirst, if_pos hfirst]
    rfl
  · rw [if_neg hfirst, if_neg hfirst]
    rfl

theorem crossSoft_run (hadmits : c.admits db = true) :
    crossSoft c.fkey c.argv c.now (c.used db) (c.used db + c.argv.cost) c.now (c.counted db) =
      (.ok (if c.SetsFlag db then 1 else 0), c.after db) := by
  rw [after, if_pos hadmits, crossSoft]
  by_cases hcross : CrossesSoft c.argv.quotaSoft (c.used db) (c.used db + c.argv.cost)
  · rw [if_pos hcross]
    cases hflag : db c.fkey with
    | none =>
        have hsets : c.SetsFlag db := ⟨hcross, hflag⟩
        have hsetnx : setnx c.fkey 1 c.now (c.counted db) =
            (.ok 1, Function.update (c.counted db) c.fkey (some ⟨.int 1, none⟩)) := by
          rw [setnx, counted_fkey, hflag]
        rw [bind_run hsetnx, if_pos hsets, if_pos hsets]
        rfl
    | some entry =>
        have hsets : ¬ c.SetsFlag db := fun hsets => by simp [hsets.2] at hflag
        have hsetnx : setnx c.fkey 1 c.now (c.counted db) = (.ok 0, c.counted db) := by
          rw [setnx, counted_fkey, hflag]
        rw [bind_run hsetnx, if_neg hsets, if_neg hsets]
        rfl
  · have hsets : ¬ c.SetsFlag db := fun hsets => hcross hsets.1
    rw [if_neg hcross, if_neg hsets, if_neg hsets]
    rfl

/-! ### What it leaves under each name -/

theorem after_denied (hdenied : ¬ c.admits db = true) : c.after db = c.trimmed db := if_neg hdenied

theorem after_of_ne_fkey (hadmits : c.admits db = true) {name : String} (hf : name ≠ c.fkey) :
    c.after db name = c.counted db name := by
  rw [after, if_pos hadmits]
  split
  · rw [setDeadline_apply_of_ne hf, Function.update_of_ne hf]
  · rfl

theorem after_bkey (hadmits : c.admits db = true) :
    c.after db c.bkey =
      if bucketTtl c.argv ≤ 0 then none
      else some ⟨.hash (some ((c.refilled db).1 - c.argv.cost * utok)) (some (c.refilled db).2),
        some (c.now.ms + bucketTtl c.argv)⟩ := by
  rw [after_of_ne_fkey hadmits c.bkey_ne_fkey, counted_of_ne c.bkey_ne_qkey, spent,
    put_apply_of_ne c.bkey_ne_skey, put_apply_self]
  simp only [add_le_iff_nonpos_right]

theorem after_skey (hadmits : c.admits db = true) :
    c.after db c.skey =
      if windowTtl c.argv ≤ 0 then none
      else some ⟨.zset ((c.live db).insert (windowMember c.now.us c.argv.requestId) c.now.us),
        some (c.now.ms + windowTtl c.argv)⟩ := by
  rw [after_of_ne_fkey hadmits c.skey_ne_fkey, counted_of_ne c.skey_ne_qkey, spent, put_apply_self]
  simp only [add_le_iff_nonpos_right]

theorem after_qkey (hadmits : c.admits db = true) :
    c.after db c.qkey = some ⟨.int (c.used db + c.argv.cost),
      if c.used db + c.argv.cost = c.argv.cost then some c.now.monthDeadline
      else (db c.qkey).bind Entry.expireAt⟩ := by
  have hframe : c.spent db c.qkey = db c.qkey :=
    spent_of_ne c.bkey_ne_qkey.symm c.skey_ne_qkey.symm
  rw [after_of_ne_fkey hadmits c.qkey_ne_fkey, counted]
  split
  · rw [setDeadline_apply_self c.now.ms_lt_monthDeadline, store_apply_self]
    rfl
  · rw [store_apply_self, hframe]

theorem after_fkey (hadmits : c.admits db = true) :
    c.after db c.fkey =
      if c.SetsFlag db then some ⟨.int 1, some c.now.monthDeadline⟩ else db c.fkey := by
  rw [after, if_pos hadmits]
  split
  · rw [setDeadline_apply_self c.now.ms_lt_monthDeadline, Function.update_self]
    rfl
  · exact counted_fkey

/-- The script writes under its four names only. -/
theorem after_of_ne {name : String} (hb : name ≠ c.bkey) (hs : name ≠ c.skey) (hq : name ≠ c.qkey)
    (hf : name ≠ c.fkey) : c.after db name = db name := by
  by_cases hadmits : c.admits db = true
  · rw [after_of_ne_fkey hadmits hf, counted_of_ne hq, spent_of_ne hb hs]
  · rw [after_denied hadmits, trimmed_of_ne hs]

/-- In each family, one name is the check's own. -/
theorem after_name {f : Family} {key : KeyId} {rest : String}
    (hother : ¬ (key = c.key ∧ rest = c.rest f)) :
    c.after db (f.name key rest) = db (f.name key rest) := by
  apply after_of_ne
  · rw [bkey_eq, Ne, Family.name_eq_name]
    rintro ⟨rfl, hown⟩
    exact hother hown
  · rw [skey_eq, Ne, Family.name_eq_name]
    rintro ⟨rfl, hown⟩
    exact hother hown
  · rw [qkey_eq, Ne, Family.name_eq_name]
    rintro ⟨rfl, hown⟩
    exact hother hown
  · rw [fkey_eq, Ne, Family.name_eq_name]
    rintro ⟨rfl, hown⟩
    exact hother hown

theorem holds_after_bkey (h : db.Typed) : (c.after db).Holds c.bkey .hash := by
  by_cases hadmits : c.admits db = true
  · intro entry hentry
    rw [after_bkey hadmits] at hentry
    split at hentry
    · cases hentry
    · cases hentry
      rfl
  · rw [after_denied hadmits]
    exact (holds_bkey h).congr (trimmed_of_ne c.bkey_ne_skey)

theorem holds_after_skey : (c.after db).Holds c.skey .zset := by
  by_cases hadmits : c.admits db = true
  · intro entry hentry
    rw [after_skey hadmits] at hentry
    split at hentry
    · cases hentry
    · cases hentry
      rfl
  · rw [after_denied hadmits]
    exact holds_trimmed

theorem holds_after_qkey (h : db.Typed) : (c.after db).Holds c.qkey .int := by
  by_cases hadmits : c.admits db = true
  · intro entry hentry
    rw [after_qkey hadmits] at hentry
    cases hentry
    rfl
  · rw [after_denied hadmits]
    exact (holds_qkey h).congr (trimmed_of_ne c.skey_ne_qkey.symm)

theorem holds_after_fkey (h : db.Typed) : (c.after db).Holds c.fkey .int := by
  by_cases hadmits : c.admits db = true
  · intro entry hentry
    rw [after_fkey hadmits] at hentry
    split at hentry
    · cases hentry
      rfl
    · exact holds_fkey h entry hentry
  · rw [after_denied hadmits]
    exact (holds_fkey h).congr (trimmed_of_ne c.skey_ne_fkey.symm)

theorem typed_after (h : db.Typed) : (c.after db).Typed := by
  intro f rest
  by_cases hb : f.tag ++ rest = c.bkey
  · have hf := (Family.tag_append_inj (hb.trans c.bkey_eq)).1
    rw [hb, hf]
    exact holds_after_bkey h
  by_cases hs : f.tag ++ rest = c.skey
  · have hf := (Family.tag_append_inj (hs.trans c.skey_eq)).1
    rw [hs, hf]
    exact holds_after_skey
  by_cases hq : f.tag ++ rest = c.qkey
  · have hf := (Family.tag_append_inj (hq.trans c.qkey_eq)).1
    rw [hq, hf]
    exact holds_after_qkey h
  by_cases hf : f.tag ++ rest = c.fkey
  · have hf' := (Family.tag_append_inj (hf.trans c.fkey_eq)).1
    rw [hf, hf']
    exact holds_after_fkey h
  exact (h f rest).congr (after_of_ne hb hs hq hf)

/-! ### The script answers -/

/-- **What one check does.** It answers wherever it can read. -/
theorem Readable.exec_eq (h : c.Readable db) : c.exec db = (.ok (c.reply db), c.after db) := by
  obtain ⟨state, hstate, hbucket⟩ := hmget_run c.now h.bucket
  obtain ⟨stored, hget, hcounter⟩ :=
    get_run c.now (h.counter.congr (trimmed_of_ne c.skey_ne_qkey.symm))
  have hused : (tonumber stored).getD (.int 0) = .int (c.used db) :=
    hcounter.trans (congrArg _ (Keyspace.counter_congr (trimmed_of_ne c.skey_ne_qkey.symm)))
  have htrim : zremrangebyscore c.skey (c.now.us - c.argv.windowUs) c.now db =
      (.ok (), c.trimmed db) := zremrangebyscore_run c.now h.window _
  have htyped : (c.trimmed db).Holds c.skey .zset := holds_trimmed
  have hcard := zcard_run c.now htyped
  rw [window_trimmed] at hcard
  have hrefilled : refill c.argv.capUtok c.argv.rateUtok c.now.us (db.bucket c.bkey) =
      c.refilled db := rfl
  have hverdict : (⟨decide ((c.refilled db).1 ≥ c.argv.cost * utok),
      decide (((c.live db).card : Int) + 1 ≤ c.argv.sustainedLimit),
      (LuaNumber.int (c.used db)).fits c.argv.cost c.argv.quotaHard⟩ : Verdict) = c.verdict db := rfl
  rw [exec, check, bind_run (time_run c.now), bind_run hstate, hbucket]
  dsimp only
  rw [bind_run htrim, bind_run hcard, bind_run hget, hused, hrefilled, hverdict]
  simp only [LuaNumber.reply_int]
  by_cases hadmits : c.admits db = true
  · have holdest := zrangeFirst_run c.now (show (c.after db).Holds c.skey .zset from holds_after_skey)
    rw [if_pos (show (c.verdict db).allowed = true from hadmits), bind_run (spend_run h.bucket),
      bind_run (raiseCounter_run h.counter), bind_run (crossSoft_run hadmits), bind_run holdest, pure_run,
      reply, if_pos hadmits]
  · have holdest := zrangeFirst_run c.now htyped
    rw [window_trimmed] at holdest
    rw [if_neg (show ¬ (c.verdict db).allowed = true from hadmits), bind_run holdest, pure_run,
      reply, if_neg hadmits, after, if_neg hadmits]
    rfl

/-- In a typed keyspace it always answers. -/
theorem exec_eq (h : db.Typed) : c.exec db = (.ok (c.reply db), c.after db) :=
  (readable h).exec_eq

/-! ### What its reply says -/

def levelAfter (c : Call) (db : Keyspace) : Int :=
  (c.refilled db).1 - if c.admits db then c.argv.cost * utok else 0

def countAfter (c : Call) (db : Keyspace) : Int := (c.live db).card + if c.admits db then 1 else 0

def usedAfter (c : Call) (db : Keyspace) : Int := c.used db + if c.admits db then c.argv.cost else 0

theorem window_after_denied (hdenied : ¬ c.admits db = true) :
    (c.after db).window c.skey = c.live db := by
  rw [after_denied hdenied, window_trimmed]

/-- Admitted or not, the reply is the report on what the check leaves. -/
theorem reply_eq_report :
    c.reply db = report c.argv c.now (c.verdict db) (c.levelAfter db) (c.countAfter db)
      (c.usedAfter db) (if c.admits db = true ∧ c.SetsFlag db then 1 else 0)
      ((c.after db).window c.skey).minScore := by
  by_cases hadmits : c.admits db = true
  · rw [reply, levelAfter, countAfter, usedAfter]
    simp only [hadmits, if_true, true_and]
  · rw [reply, levelAfter, countAfter, usedAfter, window_after_denied hadmits]
    rw [if_neg hadmits, if_neg hadmits, if_neg hadmits, if_neg hadmits, if_neg fun h => hadmits h.1,
      sub_zero, add_zero, add_zero]

theorem reply_allowed : (c.reply db).allowed = if c.admits db then 1 else 0 := by
  rw [reply_eq_report]
  rfl

theorem reply_softCrossed :
    (c.reply db).softCrossed = if c.admits db = true ∧ c.SetsFlag db then 1 else 0 := by
  rw [reply_eq_report]
  rfl

theorem reply_bRemaining : (c.reply db).bRemaining = ⌊(c.levelAfter db : ℚ) / utok⌋ := by
  rw [reply_eq_report]
  rfl

theorem reply_bReset :
    (c.reply db).bReset = ⌈((c.argv.capUtok - c.levelAfter db : Int) : ℚ) / c.argv.rateUtok⌉ := by
  rw [reply_eq_report]
  rfl

theorem reply_denyLayer : (c.reply db).denyLayer = (c.verdict db).denyLayer := by
  rw [reply_eq_report]
  rfl

/-- The burst layer is named exactly when the level does not pay for the check. -/
theorem denyLayer_eq_burst :
    (c.reply db).denyLayer = some .burst ↔ (c.refilled db).1 < c.argv.cost * utok := by
  rw [reply_denyLayer, Verdict.denyLayer_eq_burst]
  show decide ((c.refilled db).1 ≥ c.argv.cost * utok) = false ↔ _
  rw [decide_eq_false_iff_not, not_le]

theorem admits_iff :
    c.admits db = true ↔ c.argv.cost * utok ≤ (c.refilled db).1 ∧
      ((c.live db).card : Int) + 1 ≤ c.argv.sustainedLimit ∧
      c.used db + c.argv.cost ≤ c.argv.quotaHard := by
  simp only [admits, Verdict.allowed, verdict, Bool.and_eq_true, decide_eq_true_eq, ge_iff_le,
    and_assoc]

/-! ### What the families hold afterwards -/

theorem counter_after_qkey :
    (c.after db).counter c.qkey =
      db.counter c.qkey + if c.admits db then c.argv.cost else 0 := by
  by_cases hadmits : c.admits db = true
  · rw [Keyspace.counter, after_qkey hadmits, if_pos hadmits]
    rfl
  · rw [after_denied hadmits, if_neg hadmits, add_zero]
    exact Keyspace.counter_congr (trimmed_of_ne c.skey_ne_qkey.symm)

theorem bucket_after_denied (hdenied : ¬ c.admits db = true) :
    (c.after db).bucket c.bkey = db.bucket c.bkey := by
  rw [after_denied hdenied]
  exact Keyspace.bucket_congr (trimmed_of_ne c.bkey_ne_skey)

theorem bucket_after_admitted (hadmits : c.admits db = true) :
    (c.after db).bucket c.bkey =
      if bucketTtl c.argv ≤ 0 then none
      else some ((c.refilled db).1 - c.argv.cost * utok, (c.refilled db).2) := by
  rw [Keyspace.bucket, after_bkey hadmits]
  by_cases httl : bucketTtl c.argv ≤ 0
  · rw [if_pos httl, if_pos httl]
  · rw [if_neg httl, if_neg httl]
    rfl

theorem window_after_admitted (hadmits : c.admits db = true) :
    (c.after db).window c.skey =
      if windowTtl c.argv ≤ 0 then ∅
      else (c.live db).insert (windowMember c.now.us c.argv.requestId) c.now.us := by
  rw [Keyspace.window, after_skey hadmits]
  by_cases httl : windowTtl c.argv ≤ 0
  · rw [if_pos httl, if_pos httl]
  · rw [if_neg httl, if_neg httl]

/-! ### Two keyspaces that look alike to a check -/

/-- The check reads the same in both keyspaces. -/
structure SameView (c : Call) (db db' : Keyspace) : Prop where
  refilled : c.refilled db' = c.refilled db
  live : c.live db' = c.live db
  counter : db'.counter c.qkey = db.counter c.qkey
  flag : db' c.fkey = none ↔ db c.fkey = none

namespace SameView

variable {db' : Keyspace}

theorem of_same (hbucket : db' c.bkey = db c.bkey) (hlive : c.live db' = c.live db)
    (hcounter : db' c.qkey = db c.qkey) (hflag : db' c.fkey = db c.fkey) : c.SameView db db' where
  refilled := by rw [Call.refilled, Keyspace.bucket_congr hbucket, ← Call.refilled]
  live := hlive
  counter := Keyspace.counter_congr hcounter
  flag := by rw [hflag]

theorem used_eq (h : c.SameView db db') : c.used db' = c.used db := h.counter

theorem verdict_eq (h : c.SameView db db') : c.verdict db' = c.verdict db := by
  rw [verdict, h.refilled, h.live, h.used_eq, ← verdict]

theorem admits_eq (h : c.SameView db db') : c.admits db' = c.admits db := by
  rw [admits, h.verdict_eq, ← admits]

theorem setsFlag_iff (h : c.SameView db db') : c.SetsFlag db' ↔ c.SetsFlag db := by
  rw [SetsFlag, h.used_eq, h.flag, ← SetsFlag]

theorem window_after_eq (h : c.SameView db db') :
    (c.after db').window c.skey = (c.after db).window c.skey := by
  by_cases hadmits : c.admits db = true
  · rw [window_after_admitted hadmits, window_after_admitted (h.admits_eq.trans hadmits), h.live]
  · have hdenied : ¬ c.admits db' = true := h.admits_eq ▸ hadmits
    rw [window_after_denied hadmits, window_after_denied hdenied, h.live]

theorem reply_eq (h : c.SameView db db') : c.reply db' = c.reply db := by
  simp only [reply, h.admits_eq, h.verdict_eq, h.refilled, h.live, h.used_eq, h.setsFlag_iff,
    h.window_after_eq]

/-- Outside the window, what a check leaves under a name is a function of what it reads and of what
was there. -/
theorem after_eq (h : c.SameView db db') {name : String} (hs : name ≠ c.skey)
    (hsame : db' name = db name) : c.after db' name = c.after db name := by
  by_cases hadmits : c.admits db = true
  · have hadmits' : c.admits db' = true := h.admits_eq.trans hadmits
    by_cases hb : name = c.bkey
    · rw [hb, after_bkey hadmits, after_bkey hadmits', h.refilled]
    by_cases hq : name = c.qkey
    · rw [hq] at hsame ⊢
      rw [after_qkey hadmits, after_qkey hadmits', h.used_eq, hsame]
    by_cases hf : name = c.fkey
    · rw [hf] at hsame ⊢
      rw [after_fkey hadmits, after_fkey hadmits', hsame]
      simp only [h.setsFlag_iff]
    rw [after_of_ne hb hs hq hf, after_of_ne hb hs hq hf, hsame]
  · have hdenied : ¬ c.admits db' = true := h.admits_eq ▸ hadmits
    rw [after_denied hadmits, after_denied hdenied, trimmed_of_ne hs, trimmed_of_ne hs, hsame]

end SameView

end Call

end QuotaGuard
