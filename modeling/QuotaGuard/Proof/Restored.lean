import QuotaGuard.Proof.Names
import QuotaGuard.Proof.Reconcile
import QuotaGuard.Proof.Expiry
import Mathlib.Data.Set.Card

/-!
# What a run says it has restored

Suppose that the registry has the script. It returns the counter as it is now, and
`restore_from_rollup` takes it for raised when that is the value of the rollup. But a counter that was
there already is also returned, and one whose deadline is over is set and gone again: these are counted
and are not restored. A value that is no double, from 2^53 on, is restored to the double next to it and is
not counted; and where that is larger, the next run persists it.
-/

namespace QuotaGuard

open Arithmetic

variable {registry : Registry} {now later : Time} {db : Database} {rollup other : Rollup}
  {rollups : List Rollup} {redis redis' : Keyspace} {name : String} {monthEnd value : Int}
  {env : Environment} {w start : World} {h h' : History} {upsert : Upsert} {found : List (String × Int)}
  {current : LuaNumber}

/-- The script can be called. -/
def Registry.HasRestore (registry : Registry) : Prop :=
  ∃ scripts, registry.scripts = some scripts ∧ "restore" ∈ scripts

/-- The counter is there, with a larger number than it had. -/
def Keyspace.Raised (redis redis' : Keyspace) (name : String) : Prop :=
  ∃ n deadline before, redis' name = some ⟨.int n, deadline⟩ ∧ redis.number name = some before ∧
    before.below n = true

/-- The counter of a rollup and the end of its month, where the key is known and the month can be read. -/
def Rollup.target (db : Database) (rollup : Rollup) : Option (String × Int) :=
  match db.keys.find? fun key => key.id = rollup.apiKeyId with
  | none => none
  | some key =>
    (monthEndOfText rollup.month).map fun monthEnd => (quotaName key.keyId rollup.month, monthEnd)

/-- The end of the month of a rollup, and what its counter reads as. -/
def Rollup.reading (db : Database) (redis : Keyspace) (rollup : Rollup) : Option (Int × LuaNumber) :=
  match rollup.target db with
  | none => none
  | some (name, monthEnd) => (redis.number name).map fun current => (monthEnd, current)

/-- The integer is a double, and an integer reply can return it. -/
def Returned (n : Int) : Prop := integer n = n ∧ -2 ^ 63 ≤ n ∧ n < 2 ^ 63

instance (n : Int) : Decidable (Returned n) := inferInstanceAs (Decidable (_ ∧ _ ∧ _))

/-- The deadline of the counters of a month is over. -/
def isOver (now : Time) (monthEnd : Int) : Bool := (monthEnd + monthGraceS) * 1000 ≤ now.ms

/-- The counter is not below the rollup, and has its value when it is cut to an integer; or it is below, and
the deadline is over. An absent counter reads as zero. -/
def Rollup.overcounted (now : Time) (db : Database) (redis : Keyspace) (rollup : Rollup) : Bool :=
  (rollup.reading db redis).any fun (monthEnd, current) =>
    if current.double.below (integer rollup.used) then isOver now monthEnd && decide (Returned rollup.used)
    else current.double.reply = rollup.used

/-- The counter is below the rollup, whose value the script cannot return. -/
def Rollup.undercounted (now : Time) (db : Database) (redis : Keyspace) (rollup : Rollup) : Bool :=
  (rollup.reading db redis).any fun (monthEnd, current) =>
    current.double.below (integer rollup.used) && !isOver now monthEnd && !decide (Returned rollup.used)

/-- Python reads more from the counter of the rollup than is persisted. -/
def Rollup.Outgrown (db : Database) (redis : Keyspace) (rollup : Rollup) : Prop :=
  ∃ name value upsert, redis.asInt name = some value ∧ upsertOf db name value = some upsert ∧
    upsert.slot = rollup.slot ∧ rollup.used < value

/-! ### Numbers -/

theorem integer_minimum : integer (-2 ^ 63) = -2 ^ 63 := by
  have hround := Double.round_of_short (m := 1) (k := 63) (by decide) (by decide) (by decide)
  change ⌊Double.round ((-2 ^ 63 : ℤ) : ℚ)⌋ = _
  rw [show ((-2 ^ 63 : ℤ) : ℚ) = -((1 : ℤ) * 2 ^ (63 : ℤ)) by norm_num, Double.round_neg, hround]
  norm_num

theorem returned_iff {n : Int} : (LuaNumber.finite (integer n)).reply = n ↔ Returned n := by
  rw [LuaNumber.reply_finite_intCast, Returned]
  split
  · rename_i hrange
    constructor
    · intro hsame
      rw [hsame] at hrange
      exact ⟨hsame, hrange⟩
    · exact And.left
  · rename_i hrange
    constructor
    · intro hmin
      rw [← hmin, integer_minimum] at hrange
      exact absurd hrange (by decide)
    · rintro ⟨hsame, hbounds⟩
      rw [hsame] at hrange
      exact absurd hbounds hrange

/-- What is below the double of an integer was below that before it was rounded. -/
theorem LuaNumber.below_of_double {x : LuaNumber} {n : Int} (h : x.double.below (integer n) = true) :
    x.below (integer n) = true := by
  cases x with
  | int m => exact decide_eq_true (lt_integer (LuaNumber.below_int.mp h))
  | finite q => exact h
  | infinite negative => exact h
  | nan => exact h

/-! ### One rollup -/

/-- What phase 2 counts for a rollup, and what it does to Redis. -/
def restoreOne (now : Time) (db : Database) (rollup : Rollup) (redis : Keyspace) : Nat × Keyspace :=
  match rollup.target db with
  | none => (0, redis)
  | some (name, monthEnd) =>
    (if (restore name rollup.used monthEnd now redis).1 = .ok rollup.used then 1 else 0,
      (restore name rollup.used monthEnd now redis).2)

theorem restoreFromRollup_unreadable {month : String} (hmonth : monthEndOfText month = none)
    (registry : Registry) (now : Time) (keyId : String) (floor : Int) (redis : Keyspace) :
    restoreFromRollup registry now keyId month floor redis = (0, redis) := by
  unfold restoreFromRollup
  rw [hmonth]

theorem restoreAll_cons (hregistry : registry.HasRestore) (now : Time) (db : Database)
    (rollup : Rollup) (rollups : List Rollup) (n : Nat) (redis : Keyspace) :
    restoreAll registry now db (rollup :: rollups) n redis =
      restoreAll registry now db rollups (n + (restoreOne now db rollup redis).1)
        (restoreOne now db rollup redis).2 := by
  obtain ⟨scripts, hscripts, hrestore⟩ := hregistry
  rw [restoreAll]
  unfold restoreOne Rollup.target
  cases db.keys.find? fun key => key.id = rollup.apiKeyId with
  | none => rfl
  | some key =>
      cases hmonth : monthEndOfText rollup.month with
      | none => simp only [restoreFromRollup_unreadable hmonth, Option.map_none]
      | some monthEnd =>
          simp only [restoreFromRollup_eq hscripts hrestore hmonth, Option.map_some]

theorem Rollup.reading_eq (htarget : rollup.target db = some (name, monthEnd)) (redis : Keyspace) :
    rollup.reading db redis = (redis.number name).map fun current => (monthEnd, current) := by
  rw [reading, htarget]

theorem restoreOne_run (now : Time) (htarget : rollup.target db = some (name, monthEnd))
    (hnumber : redis.number name = some current) :
    restoreOne now db rollup redis =
      (if restoreReply current rollup.used = rollup.used then 1 else 0,
        restored now name rollup.used monthEnd redis) := by
  unfold restoreOne
  rw [htarget]
  simp only [restore_run now hnumber, Except.ok.injEq]

/-- A counter that reads as no number is left alone. -/
theorem restoreOne_error (now : Time) (htarget : rollup.target db = some (name, monthEnd))
    (hnumber : redis.number name = none) : restoreOne now db rollup redis = (0, redis) := by
  obtain ⟨e, herror⟩ := restore_error now hnumber rollup.used monthEnd
  unfold restoreOne
  rw [htarget]
  simp only [herror, reduceCtorEq, if_false]

theorem restoreOne_of_none (htarget : rollup.target db = none) :
    restoreOne now db rollup redis = (0, redis) := by
  rw [restoreOne, htarget]

/-- Whatever phase 2 counts for a rollup, it leaves what the script leaves. -/
theorem restoreOne_redis (now : Time) (redis : Keyspace)
    (htarget : rollup.target db = some (name, monthEnd)) :
    (restoreOne now db rollup redis).2 = restored now name rollup.used monthEnd redis := by
  cases hnumber : redis.number name with
  | none => rw [restoreOne_error now htarget hnumber, restored, if_neg (Keyspace.not_isBelow hnumber)]
  | some current => rw [restoreOne_run now htarget hnumber]

theorem restoreOne_of_ne (hother : ∀ monthEnd, rollup.target db ≠ some (name, monthEnd)) :
    (restoreOne now db rollup redis).2 name = redis name := by
  cases htarget : rollup.target db with
  | none => rw [restoreOne_of_none htarget]
  | some target =>
      obtain ⟨own, monthEnd⟩ := target
      have hne : name ≠ own := by
        rintro rfl
        exact hother monthEnd htarget
      rw [restoreOne_redis now redis htarget, restored_of_ne hne]

/-! ### All rollups -/

theorem Rollup.target_eq_some (h : rollup.target db = some (name, monthEnd)) :
    ∃ key ∈ db.keys, key.id = rollup.apiKeyId ∧ name = quotaName key.keyId rollup.month := by
  unfold Rollup.target at h
  split at h
  · cases h
  · rename_i key hkey
    obtain ⟨_, -, heq⟩ := Option.map_eq_some_iff.mp h
    cases heq
    obtain ⟨hmem, hid⟩ := Table.find?_spec hkey
    exact ⟨key, hmem, hid, rfl⟩

/-- A counter is of one key and month. -/
theorem slot_eq_of_quotaName {key key' : ApiKey} {month month' : String} (hkey : key ∈ db.keys)
    (hkey' : key' ∈ db.keys) (h : quotaName key.keyId month = quotaName key'.keyId month') :
    (key.id, month) = (key'.id, month') := by
  obtain ⟨hkeyId, hmonth⟩ := quotaName_inj h
  rw [Database.key_eq_of_keyId hkey' hkey (congrArg KeyId.val hkeyId), hmonth]

theorem Rollup.slot_eq_of_target {monthEnd' : Int} (h : rollup.target db = some (name, monthEnd))
    (h' : other.target db = some (name, monthEnd')) : other.slot = rollup.slot := by
  obtain ⟨key, hkey, hid, hname⟩ := Rollup.target_eq_some h
  obtain ⟨key', hkey', hid', hname'⟩ := Rollup.target_eq_some h'
  rw [Rollup.slot, Rollup.slot, ← hid, ← hid']
  exact slot_eq_of_quotaName hkey' hkey (hname'.symm.trans hname)

theorem other_target (hslots : ((rollup :: rollups).map Rollup.slot).Nodup)
    (htarget : rollup.target db = some (name, monthEnd)) :
    ∀ other ∈ rollups, ∀ monthEnd', other.target db ≠ some (name, monthEnd') := by
  intro other hother monthEnd' htarget'
  rw [List.map_cons, List.nodup_cons] at hslots
  exact hslots.1 (List.mem_map.mpr ⟨other, hother, Rollup.slot_eq_of_target htarget htarget'⟩)

theorem restoreAll_of_ne (hregistry : registry.HasRestore) (n : Nat)
    (hother : ∀ rollup ∈ rollups, ∀ monthEnd, rollup.target db ≠ some (name, monthEnd)) :
    (restoreAll registry now db rollups n redis).2 name = redis name := by
  induction rollups generalizing n redis with
  | nil => rfl
  | cons rollup rollups ih =>
      rw [restoreAll_cons hregistry, ih _ fun other hmem => hother other (List.mem_cons_of_mem _ hmem)]
      exact restoreOne_of_ne (hother rollup (List.mem_cons_self ..))

/-! ### What is counted -/

theorem Keyspace.Raised.congr {redis₁ redis₁' : Keyspace} (h : redis.Raised redis' name)
    (hbefore : redis₁ name = redis name) (hafter : redis₁' name = redis' name) :
    redis₁.Raised redis₁' name := by
  obtain ⟨n, deadline, before, hentry, hnumber, hlow⟩ := h
  exact ⟨n, deadline, before, hafter.trans hentry, (number_congr hbefore).trans hnumber, hlow⟩

theorem Keyspace.not_raised_of_eq (hsame : redis' name = redis name) : ¬ redis.Raised redis' name := by
  rintro ⟨n, deadline, before, hentry, hnumber, hlow⟩
  rw [hsame] at hentry
  have hsome : redis.number name = some (.int n) := by
    rw [number, hentry]
    rfl
  rw [hsome, Option.some.injEq] at hnumber
  rw [← hnumber] at hlow
  exact lt_irrefl n (of_decide_eq_true hlow)

theorem Keyspace.not_raised_of_none (hgone : redis' name = none) : ¬ redis.Raised redis' name := by
  rintro ⟨n, deadline, before, hentry, -⟩
  rw [hgone] at hentry
  cases hentry

theorem Rollup.reading_congr
    (hsame : ∀ name monthEnd, rollup.target db = some (name, monthEnd) → redis' name = redis name) :
    rollup.reading db redis' = rollup.reading db redis := by
  cases htarget : rollup.target db with
  | none => simp only [reading, htarget]
  | some target =>
      rw [reading_eq htarget, reading_eq htarget, Keyspace.number_congr (hsame _ _ htarget)]

/-- What is counted for a rollup is that its counter is raised, but for one too many or too few. -/
theorem restoreOne_counts (now : Time) (redis : Keyspace)
    (htarget : rollup.target db = some (name, monthEnd)) :
    let out := restoreOne now db rollup redis
    (redis.Raised out.2 name ∧ rollup.overcounted now db redis = false ∧
        out.1 + (rollup.undercounted now db redis).toNat = 1) ∨
      (¬ redis.Raised out.2 name ∧ rollup.undercounted now db redis = false ∧
        out.1 = (rollup.overcounted now db redis).toNat) := by
  intro out
  rw [Rollup.overcounted, Rollup.undercounted, Rollup.reading_eq htarget]
  cases hnumber : redis.number name with
  | none =>
      rw [show out = (0, redis) from restoreOne_error now htarget hnumber]
      exact .inr ⟨Keyspace.not_raised_of_eq rfl, rfl, rfl⟩
  | some current =>
      rw [show out = _ from restoreOne_run now htarget hnumber]
      simp only [Option.map_some, Option.any_some]
      by_cases hlow : current.double.below (integer rollup.used) = true
      · have hleft := restored_apply now monthEnd ((Keyspace.isBelow_iff hnumber).mpr hlow)
        simp only [restoreReply, hlow, if_true, Bool.true_and, returned_iff]
        cases hover : isOver now monthEnd with
        | true =>
            rw [if_pos (of_decide_eq_true hover)] at hleft
            refine .inr ⟨Keyspace.not_raised_of_none hleft, rfl, ?_⟩
            by_cases hreturned : Returned rollup.used <;> simp [hreturned]
        | false =>
            rw [if_neg (of_decide_eq_false hover)] at hleft
            refine .inl ⟨⟨_, _, current, hleft, hnumber, LuaNumber.below_of_double hlow⟩, rfl, ?_⟩
            by_cases hreturned : Returned rollup.used <;> simp [hreturned]
      · have hkept : restored now name rollup.used monthEnd redis = redis := by
          rw [restored, if_neg fun h => hlow ((Keyspace.isBelow_iff hnumber).mp h)]
        rw [Bool.not_eq_true] at hlow
        rw [hkept]
        refine .inr ⟨Keyspace.not_raised_of_eq rfl, by simp [hlow], ?_⟩
        by_cases hsame : current.double.reply = rollup.used <;> simp [restoreReply, hlow, hsame]

/-- The counters that are raised between two states, with what is counted. -/
structure Tally (now : Time) (db : Database) (rollups : List Rollup) (redis redis' : Keyspace)
    (raised : List String) (count : Nat) : Prop where
  nodup : raised.Nodup
  mem_iff : ∀ name, name ∈ raised ↔ redis.Raised redis' name
  count_eq : count + rollups.countP (Rollup.undercounted now db redis) =
    raised.length + rollups.countP (Rollup.overcounted now db redis)

namespace Tally

variable {redis₁ : Keyspace} {raised : List String} {count : Nat}

theorem nil (now : Time) (db : Database) (redis : Keyspace) : Tally now db [] redis redis [] 0 where
  nodup := List.nodup_nil
  mem_iff _ := iff_of_false List.not_mem_nil (Keyspace.not_raised_of_eq rfl)
  count_eq := rfl

/-- One rollup has changed its own counter only, which the others leave alone. -/
theorem raised_iff (htally : Tally now db rollups redis₁ redis' raised count)
    (hkept : ∀ other ≠ name, redis₁ other = redis other) (hown : redis' name = redis₁ name) :
    (∀ other, redis.Raised redis' other ↔ other = name ∧ redis.Raised redis₁ name ∨ other ∈ raised) ∧
      name ∉ raised := by
  have hfresh : name ∉ raised := fun hmem =>
    Keyspace.not_raised_of_eq hown ((htally.mem_iff name).mp hmem)
  refine ⟨fun other => ?_, hfresh⟩
  by_cases hne : other = name
  · rw [hne, or_iff_left hfresh]
    exact ⟨fun h => ⟨rfl, h.congr rfl hown.symm⟩, fun h => h.2.congr rfl hown⟩
  · have hsame := hkept other hne
    rw [or_iff_right fun h => hne h.1, htally.mem_iff]
    exact ⟨fun h => h.congr hsame rfl, fun h => h.congr hsame.symm rfl⟩

/-- So the others are counted as if they were first. -/
theorem frame (htally : Tally now db rollups redis₁ redis' raised count)
    (hkept : ∀ other ≠ name, redis₁ other = redis other)
    (hothers : ∀ rollup ∈ rollups, ∀ monthEnd, rollup.target db ≠ some (name, monthEnd)) :
    count + rollups.countP (Rollup.undercounted now db redis) =
      raised.length + rollups.countP (Rollup.overcounted now db redis) := by
  have hreading : ∀ rollup ∈ rollups, rollup.reading db redis₁ = rollup.reading db redis := by
    intro rollup hmem
    refine Rollup.reading_congr fun name' monthEnd htarget => hkept name' fun heq => ?_
    exact hothers rollup hmem monthEnd (heq ▸ htarget)
  have hunder : rollups.countP (Rollup.undercounted now db redis₁) =
      rollups.countP (Rollup.undercounted now db redis) := by
    refine List.countP_congr fun rollup hmem => ?_
    rw [Rollup.undercounted, Rollup.undercounted, hreading rollup hmem]
  have hover : rollups.countP (Rollup.overcounted now db redis₁) =
      rollups.countP (Rollup.overcounted now db redis) := by
    refine List.countP_congr fun rollup hmem => ?_
    rw [Rollup.overcounted, Rollup.overcounted, hreading rollup hmem]
  rw [← hunder, ← hover]
  exact htally.count_eq

/-- The first rollup is counted with the others. -/
theorem cons {own : Nat} (htally : Tally now db rollups redis₁ redis' raised count)
    (hkept : ∀ other ≠ name, redis₁ other = redis other) (hown : redis' name = redis₁ name)
    (hothers : ∀ rollup ∈ rollups, ∀ monthEnd, rollup.target db ≠ some (name, monthEnd))
    (hone : (redis.Raised redis₁ name ∧ rollup.overcounted now db redis = false ∧
        own + (rollup.undercounted now db redis).toNat = 1) ∨
      (¬ redis.Raised redis₁ name ∧ rollup.undercounted now db redis = false ∧
        own = (rollup.overcounted now db redis).toNat)) :
    ∃ raised', Tally now db (rollup :: rollups) redis redis' raised' (own + count) := by
  obtain ⟨hraised, hfresh⟩ := htally.raised_iff hkept hown
  have hcount := htally.frame hkept hothers
  rcases hone with ⟨hup, hover, hunder⟩ | ⟨hup, hunder, hover⟩
  · refine ⟨name :: raised, List.nodup_cons.mpr ⟨hfresh, htally.nodup⟩, fun other => ?_, ?_⟩
    · rw [hraised, List.mem_cons, and_iff_left hup]
    · rw [List.countP_cons, List.countP_cons, hover, List.length_cons]
      cases hvalue : rollup.undercounted now db redis <;> rw [hvalue] at hunder <;>
        simp only [Bool.toNat_true, Bool.toNat_false, Bool.false_eq_true, if_true, if_false] at hunder ⊢ <;>
        omega
  · refine ⟨raised, htally.nodup, fun other => ?_, ?_⟩
    · rw [hraised, or_iff_right fun h => hup h.2]
    · rw [List.countP_cons, List.countP_cons, hunder]
      cases hvalue : rollup.overcounted now db redis <;> rw [hvalue] at hover <;>
        simp only [Bool.toNat_true, Bool.toNat_false, Bool.false_eq_true, if_true, if_false] at hover ⊢ <;>
        omega

end Tally

theorem Rollup.not_counted_of_none (htarget : rollup.target db = none) (now : Time) (redis : Keyspace) :
    rollup.overcounted now db redis = false ∧ rollup.undercounted now db redis = false := by
  have hreading : rollup.reading db redis = none := by simp only [reading, htarget]
  rw [overcounted, undercounted, hreading]
  exact ⟨rfl, rfl⟩

/-- What phase 2 counts is what it raises, but for the rollups that are miscounted. -/
theorem restoreAll_counts (hregistry : registry.HasRestore) (now : Time) (db : Database)
    (redis : Keyspace) (hslots : (rollups.map Rollup.slot).Nodup) (n : Nat) :
    ∃ raised count, (restoreAll registry now db rollups n redis).1 = n + count ∧
      Tally now db rollups redis (restoreAll registry now db rollups n redis).2 raised count := by
  induction rollups generalizing n redis with
  | nil => exact ⟨[], 0, rfl, .nil now db redis⟩
  | cons rollup rollups ih =>
      rw [restoreAll_cons hregistry]
      have hrest := (List.nodup_cons.mp hslots).2
      cases htarget : rollup.target db with
      | none =>
          obtain ⟨hover, hunder⟩ := Rollup.not_counted_of_none htarget now redis
          rw [restoreOne_of_none htarget]
          obtain ⟨raised, count, hcount, htally⟩ := ih redis hrest (n + 0)
          refine ⟨raised, count, hcount, htally.nodup, htally.mem_iff, ?_⟩
          simp only [List.countP_cons, hover, hunder, Bool.false_eq_true, if_false, Nat.add_zero]
          exact htally.count_eq
      | some target =>
          obtain ⟨name, monthEnd⟩ := target
          have hothers := other_target hslots htarget
          have hone := restoreOne_counts now redis htarget
          have hkept (other : String) (hne : other ≠ name) :
              (restoreOne now db rollup redis).2 other = redis other := by
            rw [restoreOne_redis now redis htarget, restored_of_ne hne]
          generalize restoreOne now db rollup redis = out at hone hkept ⊢
          obtain ⟨own, redis₁⟩ := out
          obtain ⟨raised, count, hcount, htally⟩ := ih redis₁ hrest (n + own)
          have hown : (restoreAll registry now db rollups (n + own) redis₁).2 name = redis₁ name :=
            restoreAll_of_ne hregistry _ hothers
          obtain ⟨raised', htally'⟩ := htally.cons hkept hown hothers hone
          exact ⟨raised', own + count, by rw [hcount, Nat.add_assoc], htally'⟩

/-! ### What is persisted -/

theorem History.UsedLE.trans {h'' : History} (hleft : h.UsedLE h') (hright : h'.UsedLE h'') :
    h.UsedLE h'' :=
  fun slot v hv => hright.reaches (hleft slot v hv)

theorem upsertRollup_findsNoLarger (upsert : Upsert) (h : History) :
    (upsertRollup upsert h).FindsNoLarger h := by
  intro id used quotaLimit hwrite rollup hrollup hid
  unfold upsertRollup at hwrite
  cases hfind : h.rollups.find? fun rollup => rollup.slot = upsert.slot with
  | none =>
      rw [hfind] at hwrite
      cases hwrite
  | some existing =>
      have hexisting := (Table.find?_spec hfind).1
      rw [hfind] at hwrite
      simp only at hwrite
      split at hwrite
      · rename_i hlow
        cases hwrite
        rw [h.rollup_eq_of_id hexisting hrollup hid]
        exact le_of_lt hlow
      · cases hwrite

/-- An upsert with nothing between its two steps lowers no value and reaches its own. -/
theorem upsertRollup_reaches (hcommit : (upsertRollup upsert h).commit h = .ok h') :
    h.UsedLE h' ∧ ∃ v, h'.used upsert.slot = some v ∧ upsert.used ≤ v := by
  have hpending := upsertRollup_pending upsert h
  refine ⟨(hpending.usedLE_iff hcommit).mpr (upsertRollup_findsNoLarger upsert h), ?_⟩
  have hcommits := hpending.commits
  rw [hcommit] at hcommits
  cases hcommits with
  | kept hwrite => exact used_of_upsertRollup_keep hwrite
  | written _ _ hused =>
      rw [hused, Function.update_self]
      exact ⟨_, rfl, le_rfl⟩

theorem upsertRollup_of_reached (hreached : ∃ v, h.used upsert.slot = some v ∧ upsert.used ≤ v) :
    upsertRollup upsert h = .keep := by
  obtain ⟨v, hv, hle⟩ := hreached
  obtain ⟨rollup, hfind, rfl⟩ := Option.map_eq_some_iff.mp hv
  unfold upsertRollup
  rw [hfind]
  exact if_neg (not_lt.mpr hle)

/-- No counter that was read is above its rollup. -/
def Covers (db : Database) (h : History) (found : List (String × Int)) : Prop :=
  ∀ pair ∈ found, ∀ upsert, upsertOf db pair.1 pair.2 = some upsert →
    ∃ v, h.used upsert.slot = some v ∧ upsert.used ≤ v

/-- A counter that was read is passed over or persisted, where no error ends phase 1. -/
theorem upsertAll_cons_cases {failing : Nat → Option SqlError} {n upserted : Nat}
    (hall : upsertAll db failing ((name, value) :: found) n h = ((upserted, none), h')) :
    (upsertOf db name value = none ∧ upsertAll db failing found n h = ((upserted, none), h')) ∨
      ∃ upsert h₁, upsertOf db name value = some upsert ∧
        (upsertRollup upsert h).commit h = .ok h₁ ∧
        upsertAll db failing found (n + 1) h₁ = ((upserted, none), h') := by
  unfold upsertAll at hall
  cases hupsert : upsertOf db name value with
  | none =>
      rw [hupsert] at hall
      exact .inl ⟨rfl, hall⟩
  | some upsert =>
      rw [hupsert] at hall
      simp only at hall
      cases hfailing : failing n with
      | some e =>
          rw [hfailing] at hall
          cases hall
      | none =>
          rw [hfailing] at hall
          simp only at hall
          cases hcommit : (upsertRollup upsert h).commit h with
          | error e =>
              rw [hcommit] at hall
              cases hall
          | ok h₁ =>
              rw [hcommit] at hall
              exact .inr ⟨upsert, h₁, rfl, hcommit, hall⟩

theorem upsertAll_covers {failing : Nat → Option SqlError} {n upserted : Nat}
    (hall : upsertAll db failing found n h = ((upserted, none), h')) :
    h.UsedLE h' ∧ Covers db h' found := by
  induction found generalizing n h with
  | nil =>
      cases hall
      exact ⟨.refl _, fun _ hmem => absurd hmem List.not_mem_nil⟩
  | cons pair rest ih =>
      obtain ⟨name, value⟩ := pair
      rcases upsertAll_cons_cases hall with ⟨hnone, hall⟩ | ⟨upsert, h₁, hsome, hcommit, hall⟩
      · obtain ⟨hle, hrest⟩ := ih hall
        refine ⟨hle, List.forall_mem_cons.mpr ⟨fun upsert hupsert => ?_, hrest⟩⟩
        rw [hnone] at hupsert
        cases hupsert
      · obtain ⟨hfirst, hreached⟩ := upsertRollup_reaches hcommit
        obtain ⟨hle, hrest⟩ := ih hall
        refine ⟨hfirst.trans hle, List.forall_mem_cons.mpr ⟨fun other hother => ?_, hrest⟩⟩
        rw [hsome] at hother
        cases hother
        exact hle.reaches hreached

/-- Counters that are not above their rollups change none. -/
theorem upsertAll_of_covers {failing : Nat → Option SqlError} {n upserted : Nat}
    (hcovers : Covers db h found)
    (hall : upsertAll db failing found n h = ((upserted, none), h')) : h' = h := by
  induction found generalizing n with
  | nil =>
      cases hall
      rfl
  | cons pair rest ih =>
      obtain ⟨name, value⟩ := pair
      obtain ⟨hfirst, hrest⟩ := List.forall_mem_cons.mp hcovers
      rcases upsertAll_cons_cases hall with ⟨-, hall⟩ | ⟨upsert, h₁, hsome, hcommit, hall⟩
      · exact ih hrest hall
      · rw [upsertRollup_of_reached (hfirst upsert hsome)] at hcommit
        cases hcommit
        exact ih hrest hall

/-! ### Counters that phase 2 leaves alone -/

/-- The counter of the rollup is not below it, or is absent and its deadline is over. -/
def Settled (now : Time) (db : Database) (redis : Keyspace) (rollup : Rollup) : Prop :=
  ∀ name monthEnd, rollup.target db = some (name, monthEnd) → redis.IsBelow name rollup.used →
    redis name = none ∧ (monthEnd + monthGraceS) * 1000 ≤ now.ms

theorem Settled.congr (hsettled : Settled now db redis rollup)
    (hsame : ∀ name monthEnd, rollup.target db = some (name, monthEnd) → redis' name = redis name) :
    Settled now db redis' rollup := by
  intro name monthEnd htarget hlow
  have hentry := hsame name monthEnd htarget
  rw [hentry]
  exact hsettled name monthEnd htarget ((Keyspace.isBelow_congr hentry).mp hlow)

/-- A counter that phase 2 has set is not below its rollup. -/
theorem not_isBelow_integer {n : Int} {deadline : Option Int}
    (hentry : redis name = some ⟨.int (integer n), deadline⟩) : ¬ redis.IsBelow name n := by
  have hnumber : redis.number name = some (.int (integer n)) := by
    rw [Keyspace.number, hentry]
    rfl
  rw [Keyspace.isBelow_iff hnumber, LuaNumber.below_int, integer_integer]
  exact lt_irrefl _

/-- Phase 2 settles the counter of a rollup. -/
theorem restoreOne_settled (now : Time) (db : Database) (redis : Keyspace) (rollup : Rollup) :
    Settled now db (restoreOne now db rollup redis).2 rollup := by
  intro name monthEnd htarget hafter
  rw [restoreOne_redis now redis htarget] at hafter ⊢
  by_cases hlow : redis.IsBelow name rollup.used
  · have hleft := restored_apply now monthEnd hlow
    by_cases hover : (monthEnd + monthGraceS) * 1000 ≤ now.ms
    · rw [if_pos hover] at hleft
      exact ⟨hleft, hover⟩
    · rw [if_neg hover] at hleft
      exact absurd hafter (not_isBelow_integer hleft)
  · rw [restored, if_neg hlow] at hafter
    exact absurd hafter hlow

/-- What is settled stays as it is. -/
theorem restoreOne_of_settled (hsettled : Settled now db redis rollup) (hlater : now.us ≤ later.us) :
    (restoreOne later db rollup redis).2 = redis := by
  cases htarget : rollup.target db with
  | none => rw [restoreOne_of_none htarget]
  | some target =>
      obtain ⟨name, monthEnd⟩ := target
      rw [restoreOne_redis later redis htarget]
      by_cases hlow : redis.IsBelow name rollup.used
      · obtain ⟨habsent, hover⟩ := hsettled name monthEnd htarget hlow
        have hleft := restored_apply later monthEnd hlow
        rw [if_pos (hover.trans (Time.ms_mono hlater))] at hleft
        funext other
        by_cases hne : other = name
        · rw [hne, habsent]
          exact hleft
        · exact restored_of_ne hne _ _
      · rw [restored, if_neg hlow]

theorem restoreAll_settled (hregistry : registry.HasRestore) (now : Time) (db : Database)
    (redis : Keyspace) (hslots : (rollups.map Rollup.slot).Nodup) (n : Nat) :
    ∀ rollup ∈ rollups, Settled now db (restoreAll registry now db rollups n redis).2 rollup := by
  induction rollups generalizing n redis with
  | nil => exact fun _ hmem => absurd hmem List.not_mem_nil
  | cons rollup rollups ih =>
      rw [restoreAll_cons hregistry]
      refine List.forall_mem_cons.mpr ⟨?_, ih _ (List.nodup_cons.mp hslots).2 _⟩
      refine (restoreOne_settled now db redis rollup).congr fun name monthEnd htarget => ?_
      exact restoreAll_of_ne hregistry _ (other_target hslots htarget)

theorem restoreAll_of_settled (hregistry : registry.HasRestore) (hlater : now.us ≤ later.us)
    (hsettled : ∀ rollup ∈ rollups, Settled now db redis rollup) (n : Nat) :
    (restoreAll registry later db rollups n redis).2 = redis := by
  induction rollups generalizing n with
  | nil => rfl
  | cons rollup rollups ih =>
      obtain ⟨hfirst, hrest⟩ := List.forall_mem_cons.mp hsettled
      rw [restoreAll_cons hregistry, restoreOne_of_settled hfirst hlater]
      exact ih hrest _

/-- A counter that phase 2 leaves behind was there, or has the value of its rollup as a double. -/
theorem restoreAll_apply (hregistry : registry.HasRestore) {entry : Entry} (n : Nat)
    (hentry : (restoreAll registry now db rollups n redis).2 name = some entry) :
    redis name = some entry ∨ ∃ rollup ∈ rollups, ∃ monthEnd, rollup.target db = some (name, monthEnd) ∧
      entry.value = .int (integer rollup.used) := by
  induction rollups generalizing n redis with
  | nil => exact .inl hentry
  | cons rollup rollups ih =>
      rw [restoreAll_cons hregistry] at hentry
      rcases ih _ hentry with hold | ⟨other, hmem, hother⟩
      · by_cases hown : ∃ monthEnd, rollup.target db = some (name, monthEnd)
        · obtain ⟨monthEnd, htarget⟩ := hown
          rw [restoreOne_redis now redis htarget] at hold
          by_cases hlow : redis.IsBelow name rollup.used
          · rw [restored_apply now monthEnd hlow] at hold
            split at hold
            · cases hold
            · cases hold
              exact .inr ⟨rollup, List.mem_cons_self .., monthEnd, htarget, rfl⟩
          · rw [restored, if_neg hlow] at hold
            exact .inl hold
        · rw [restoreOne_of_ne fun monthEnd htarget => hown ⟨monthEnd, htarget⟩] at hold
          exact .inl hold
      · exact .inr ⟨other, List.mem_cons_of_mem _ hmem, hother⟩

/-! ### A run that comes to phase 2 -/

/-- The lock and phase 1 of a run lead to this state, and the run goes on to restore. -/
structure RestoresFrom (env : Environment) (db : Database) (w start : World) : Prop where
  locked : acquireLock env.token env.now w.redis = .ok start.redis
  persisted : ∃ found upserted, scanQuotaKeys start.redis env.quotaKeys = .ok found ∧
    upsertAll db env.failing found 0 w.history = ((upserted, none), start.history)

theorem RestoresFrom.run_eq (hfrom : RestoresFrom env db w start) :
    ∃ stats, (run env db w).1 = .ok stats ∧
      stats.restored = (restoreAll env.registry env.now db start.history.rollups 0 start.redis).1 ∧
      (run env db w).2.history.rollups = start.history.rollups ∧
      (run env db w).2.redis = releaseLock env.decodeResponses env.token
        (restoreAll env.registry env.now db start.history.rollups 0 start.redis).2 := by
  obtain ⟨hlocked, found, upserted, hscan, hupserts⟩ := hfrom
  unfold run
  rw [hlocked]
  simp only
  unfold runPhases
  rw [hscan]
  simp only [hupserts]
  exact ⟨_, rfl, rfl, rollups_reconcileSoftWebhooks .., trivial⟩

theorem RestoresFrom.redis_of_ne (hfrom : RestoresFrom env db w start) (hne : name ≠ lockKey) :
    (run env db w).2.redis name =
      (restoreAll env.registry env.now db start.history.rollups 0 start.redis).2 name := by
  obtain ⟨-, -, -, -, hredis⟩ := hfrom.run_eq
  rw [hredis]
  exact releaseLock_of_ne hne

theorem Completes.restoresFrom (hcompletes : Completes env db w) :
    ∃ start, RestoresFrom env db w start := by
  obtain ⟨hfailing, -, -, stats, hreturns⟩ := hcompletes
  unfold run at hreturns
  cases hlock : acquireLock env.token env.now w.redis with
  | error e =>
      rw [hlock] at hreturns
      cases hreturns
  | ok redis =>
      rw [hlock] at hreturns
      simp only at hreturns
      unfold runPhases at hreturns
      cases hscan : scanQuotaKeys redis env.quotaKeys with
      | error e =>
          rw [hscan] at hreturns
          cases hreturns
      | ok found =>
          obtain ⟨upserted, history, hupserts, -⟩ :=
            upsertAll_of_no_failure hfailing db found 0 w.history
          exact ⟨⟨redis, history⟩, hlock, found, upserted, hscan, hupserts⟩

theorem Rollup.target_ne_lockKey (htarget : rollup.target db = some (name, monthEnd)) :
    name ≠ lockKey := by
  obtain ⟨key, -, -, rfl⟩ := Rollup.target_eq_some htarget
  exact quotaName_ne_lockKey _ _

theorem releaseLock_lockKey (decodeResponses : Bool) (token : String) (redis : Keyspace) :
    releaseLock decodeResponses token redis lockKey = none ∨
      releaseLock decodeResponses token redis lockKey = redis lockKey := by
  unfold releaseLock
  cases hentry : redis lockKey with
  | none => exact .inl hentry
  | some entry =>
      obtain ⟨value, deadline⟩ := entry
      cases value with
      | text value =>
          simp only
          split
          · exact .inl (Function.update_self ..)
          · exact .inr hentry
      | hash t ts => exact .inr hentry
      | zset members => exact .inr hentry
      | int n => exact .inr hentry

/-- The counters that a run has raised are those that its phase 2 has raised. -/
theorem RestoresFrom.raised_iff (hregistry : env.registry.HasRestore) (hfrom : RestoresFrom env db w start)
    (name : String) : start.redis.Raised (run env db w).2.redis name ↔
      start.redis.Raised
        (restoreAll env.registry env.now db start.history.rollups 0 start.redis).2 name := by
  obtain ⟨-, -, -, -, hredis⟩ := hfrom.run_eq
  by_cases hname : name = lockKey
  · subst hname
    have hkept : (restoreAll env.registry env.now db start.history.rollups 0 start.redis).2 lockKey =
        start.redis lockKey :=
      restoreAll_of_ne hregistry 0 fun rollup _ monthEnd htarget => Rollup.target_ne_lockKey htarget rfl
    refine iff_of_false ?_ (Keyspace.not_raised_of_eq hkept)
    rw [hredis]
    rcases releaseLock_lockKey env.decodeResponses env.token
      (restoreAll env.registry env.now db start.history.rollups 0 start.redis).2 with hgone | hsame
    · exact Keyspace.not_raised_of_none hgone
    · exact Keyspace.not_raised_of_eq (hsame.trans hkept)
  · have hentry := hfrom.redis_of_ne hname
    exact ⟨fun h => h.congr rfl hentry.symm, fun h => h.congr rfl hentry⟩

/-! ### Every run -/

/-- The state in which a run without errors leaves counters and rollups. A counter that Python can read is
persisted, or has been set to the double of what is. -/
structure AtRest (now : Time) (db : Database) (w : World) : Prop where
  covered : ∀ name value upsert, w.redis.asInt name = some value → upsertOf db name value = some upsert →
    ∃ v, w.history.used upsert.slot = some v ∧
      (value ≤ v ∨ ∃ deadline, w.redis name = some ⟨.int (integer v), deadline⟩)
  settled : ∀ rollup ∈ w.history.rollups, Settled now db w.redis rollup

theorem Completes.atRest (hregistry : env.registry.HasRestore) (hcompletes : Completes env db w) :
    AtRest env.now db (run env db w).2 := by
  obtain ⟨start, hfrom⟩ := hcompletes.restoresFrom
  have hredis (name : String) (hne : name ≠ lockKey) := hfrom.redis_of_ne hne
  obtain ⟨-, -, -, hrollups, -⟩ := hfrom.run_eq
  obtain ⟨hlocked, found, upserted, hscan, hupserts⟩ := hfrom
  constructor
  · intro name value upsert hvalue hupsert
    obtain ⟨key, hkey, hid, hname, hused⟩ := upsertOf_eq_some hupsert
    have hne : name ≠ lockKey := by
      rw [hname]
      exact quotaName_ne_lockKey _ _
    rw [Keyspace.asInt_congr (hredis name hne)] at hvalue
    rw [History.used, hrollups, hredis name hne]
    change ∃ v, start.history.used upsert.slot = some v ∧ _
    obtain ⟨entry, hentry, hread⟩ := Option.bind_eq_some_iff.mp hvalue
    rcases restoreAll_apply hregistry 0 hentry with hold | ⟨rollup, hmem, monthEnd, htarget, hset⟩
    · have hpresent : w.redis name ≠ none := by
        rw [← acquireLock_of_ne hlocked hne, hold]
        exact Option.some_ne_none _
      have hscanned : name ∈ env.quotaKeys := (hcompletes.quotas name).mpr ⟨⟨_, hname⟩, hpresent⟩
      have hfound : (name, value) ∈ found := by
        apply mem_of_scanQuotaKeys hscan hscanned
        rw [Keyspace.asInt, hold, Option.bind_some, hread]
      obtain ⟨v, hv, hle⟩ := (upsertAll_covers hupserts).2 _ hfound upsert hupsert
      exact ⟨v, hv, .inl (hused ▸ hle)⟩
    · obtain ⟨other, hother, hotherId, hotherName⟩ := Rollup.target_eq_some htarget
      have hslot : rollup.slot = upsert.slot := by
        rw [Rollup.slot, Upsert.slot, ← hotherId, ← hid]
        exact slot_eq_of_quotaName hother hkey (hotherName.symm.trans hname)
      refine ⟨rollup.used, History.used_eq_some.mpr ⟨rollup, hmem, hslot, rfl⟩, .inr ⟨entry.expireAt, ?_⟩⟩
      rw [hentry, ← hset]
  · intro rollup hmem
    rw [hrollups] at hmem
    have hsettled := restoreAll_settled hregistry env.now db start.redis
      start.history.rollupSlots 0 rollup hmem
    exact hsettled.congr fun name monthEnd htarget => hredis name (Rollup.target_ne_lockKey htarget)

/-- The counter of a rollup is named after its key and month. -/
theorem upsertOf_target {name' : String} (hupsert : upsertOf db name value = some upsert)
    (hslot : rollup.slot = upsert.slot) (htarget : rollup.target db = some (name', monthEnd)) :
    name' = name := by
  obtain ⟨key, hkey, hid, rfl, -⟩ := upsertOf_eq_some hupsert
  obtain ⟨owner, howner, hownerId, rfl⟩ := Rollup.target_eq_some htarget
  obtain ⟨hsame, hmonth⟩ := Prod.mk.injEq .. ▸ hslot
  rw [Database.key_eq_of_id howner hkey (hid.trans (hsame.symm.trans hownerId.symm)), hmonth]

/-- What a second run finds at rest, up to the lock. -/
structure Resumes (env : Environment) (db : Database) (w : World) (redis : Keyspace) (start : World) :
    Prop where
  same : ∀ name ≠ lockKey, redis name = w.redis name
  scan : IsScan "qg:q:" redis env.quotaKeys
  restores : RestoresFrom env db ⟨redis, w.history⟩ start

namespace Resumes

variable {redis : Keyspace}

theorem redis_eq (hresumes : Resumes env db w redis start) {name : String} (hne : name ≠ lockKey) :
    start.redis name = w.redis name :=
  (acquireLock_of_ne hresumes.restores.locked hne).trans (hresumes.same name hne)

/-- It reads what the first run has left. -/
theorem reads (hresumes : Resumes env db w redis start) :
    ∃ found upserted, upsertAll db env.failing found 0 w.history = ((upserted, none), start.history) ∧
      ∀ name value upsert, upsertOf db name value = some upsert →
        ((name, value) ∈ found ↔ w.redis.asInt name = some value) := by
  obtain ⟨hlocked, found, upserted, hscan, hupserts⟩ := hresumes.restores
  refine ⟨found, upserted, hupserts, fun name value upsert hupsert => ?_⟩
  obtain ⟨key, -, -, hname, -⟩ := upsertOf_eq_some hupsert
  have hne : name ≠ lockKey := by
    rw [hname]
    exact quotaName_ne_lockKey _ _
  rw [← Keyspace.asInt_congr (hresumes.redis_eq hne)]
  refine ⟨scanQuotaKeys_ok hscan name value, fun hvalue => ?_⟩
  obtain ⟨entry, hentry, -⟩ := Option.bind_eq_some_iff.mp hvalue
  have hpresent : redis name ≠ none := by
    have hkept : start.redis name = redis name := acquireLock_of_ne hlocked hne
    rw [← hkept, hentry]
    exact Option.some_ne_none _
  exact mem_of_scanQuotaKeys hscan ((hresumes.scan name).mpr ⟨⟨_, hname⟩, hpresent⟩) hvalue

/-- No counter that it finds is below its rollup, not even one that it has just persisted. -/
theorem settled (hresumes : Resumes env db w redis start) (hrest : AtRest now db w) :
    ∀ rollup ∈ start.history.rollups, Settled now db start.redis rollup := by
  obtain ⟨found, upserted, hupserts, hfound⟩ := hresumes.reads
  have hpersists := Persists.upsertAll db env.failing found 0 w.history
  have hraised := (upsertAll_covers hupserts).1
  rw [hupserts] at hpersists
  intro rollup hrollup
  have hback (hsettled : Settled now db w.redis rollup) : Settled now db start.redis rollup :=
    hsettled.congr fun name _ htarget => hresumes.redis_eq (Rollup.target_ne_lockKey htarget)
  apply hback
  rcases hpersists.read rollup hrollup with hold | ⟨name, value, upsert, hmem, hupsert, hslot, hused⟩
  · exact hrest.settled rollup hold
  · obtain ⟨-, -, -, -, hvalue⟩ := upsertOf_eq_some hupsert
    obtain ⟨v, hv, hread⟩ := hrest.covered name value upsert ((hfound name value upsert hupsert).mp hmem)
      hupsert
    rcases hread with hle | ⟨deadline, hset⟩
    · -- The value was persisted already.
      obtain ⟨old, hold, holdSlot, holdUsed⟩ := History.used_eq_some.mp hv
      obtain ⟨v', hv', hle'⟩ := hraised upsert.slot v hv
      have hsame : start.history.used upsert.slot = some rollup.used :=
        History.used_eq_some.mpr ⟨rollup, hrollup, hslot, rfl⟩
      rw [hv', Option.some.injEq] at hsame
      have hused' : rollup.used = old.used := by omega
      intro name' monthEnd htarget hlow
      have htarget' : old.target db = some (name', monthEnd) := by
        obtain ⟨hid, hmonth⟩ := Prod.mk.injEq .. ▸ hslot.trans holdSlot.symm
        rw [Rollup.target, ← hid, ← hmonth]
        exact htarget
      exact hrest.settled old hold name' monthEnd htarget' (hused' ▸ hlow)
    · intro name' monthEnd htarget hlow
      rw [upsertOf_target hupsert hslot htarget] at hlow
      have hentry : w.redis name = some ⟨.int (integer (integer v)), deadline⟩ := by
        rw [integer_integer]
        exact hset
      have hread : w.redis.asInt name = some (integer v) := by
        rw [Keyspace.asInt, hset]
        rfl
      have hvalue' : value = integer v :=
        Option.some.inj (((hfound name value upsert hupsert).mp hmem).symm.trans hread)
      rw [hused, hvalue, hvalue'] at hlow
      exact absurd hlow (not_isBelow_integer hentry)

/-- So it changes no counter. -/
theorem restoreAll_eq (hregistry : env.registry.HasRestore) (hresumes : Resumes env db w redis start)
    (hrest : AtRest now db w) (hlater : now.us ≤ env.now.us) :
    (restoreAll env.registry env.now db start.history.rollups 0 start.redis).2 = start.redis :=
  restoreAll_of_settled hregistry hlater (hresumes.settled hrest) 0

/-- And it changes a rollup exactly where Python reads more than was persisted. -/
theorem rollups_eq_iff (hresumes : Resumes env db w redis start) (hrest : AtRest now db w) :
    start.history.rollups = w.history.rollups ↔
      ∀ rollup ∈ w.history.rollups, ¬ rollup.Outgrown db w.redis := by
  obtain ⟨found, upserted, hupserts, hfound⟩ := hresumes.reads
  constructor
  · rintro hsame rollup hrollup ⟨name, value, upsert, hvalue, hupsert, hslot, hless⟩
    obtain ⟨-, -, -, -, hused⟩ := upsertOf_eq_some hupsert
    obtain ⟨v, hv, hle⟩ := (upsertAll_covers hupserts).2 _
      ((hfound name value upsert hupsert).mpr hvalue) upsert hupsert
    have hown : start.history.used upsert.slot = some rollup.used := by
      rw [History.used_eq_some, hsame]
      exact ⟨rollup, hrollup, hslot.symm, rfl⟩
    rw [hv, Option.some.injEq] at hown
    omega
  · intro hfits
    have hcovers : Covers db w.history found := by
      rintro ⟨name, value⟩ hmem upsert hupsert
      have hvalue := (hfound name value upsert hupsert).mp hmem
      obtain ⟨-, -, -, -, hused⟩ := upsertOf_eq_some hupsert
      obtain ⟨v, hv, -⟩ := hrest.covered name value upsert hvalue hupsert
      obtain ⟨rollup, hrollup, hslot, rfl⟩ := History.used_eq_some.mp hv
      refine ⟨rollup.used, hv, ?_⟩
      by_contra hless
      exact hfits rollup hrollup ⟨name, value, upsert, hvalue, hupsert, hslot.symm, by omega⟩
    rw [upsertAll_of_covers hcovers hupserts]

end Resumes

/-- A run at rest counts the rollups that it overcounts, where it persists nothing. -/
theorem AtRest.restored_eq_zero_iff (hregistry : env.registry.HasRestore) (hrest : AtRest now db w)
    (hlater : now.us ≤ env.now.us) {redis : Keyspace} (hresumes : Resumes env db w redis start)
    (hrollups : start.history.rollups = w.history.rollups) :
    (restoreAll env.registry env.now db start.history.rollups 0 start.redis).1 = 0 ↔
      ∀ rollup ∈ w.history.rollups, rollup.overcounted env.now db w.redis = false := by
  obtain ⟨raised, count, hcount, htally⟩ := restoreAll_counts hregistry env.now db start.redis
    start.history.rollupSlots 0
  have hsame := hresumes.restoreAll_eq hregistry hrest hlater
  -- Nothing is raised, and what is below its rollup has a deadline that is over.
  have hnone : raised = [] := by
    refine List.eq_nil_iff_forall_not_mem.mpr fun name hmem => ?_
    exact Keyspace.not_raised_of_eq (congrFun hsame name) ((htally.mem_iff name).mp hmem)
  have hunder : start.history.rollups.countP (Rollup.undercounted env.now db start.redis) = 0 := by
    refine List.countP_eq_zero.mpr fun rollup hmem hunder => ?_
    cases htarget : rollup.target db with
    | none => simp [(Rollup.not_counted_of_none htarget env.now start.redis).2] at hunder
    | some target =>
        obtain ⟨name, monthEnd⟩ := target
        rw [Rollup.undercounted, Rollup.reading_eq htarget] at hunder
        cases hnumber : start.redis.number name with
        | none => simp [hnumber] at hunder
        | some current =>
            simp only [hnumber, Option.map_some, Option.any_some, Bool.and_eq_true] at hunder
            obtain ⟨-, hover⟩ := hresumes.settled hrest rollup hmem name monthEnd htarget
              ((Keyspace.isBelow_iff hnumber).mpr hunder.1.1)
            have : isOver env.now monthEnd = true := decide_eq_true (hover.trans (Time.ms_mono hlater))
            simp [this] at hunder
  have hcounts := htally.count_eq
  rw [hnone, hunder, List.length_nil, Nat.add_zero, Nat.zero_add] at hcounts
  rw [hcount, Nat.zero_add, hcounts, List.countP_eq_zero, hrollups]
  refine forall₂_congr fun rollup _ => ?_
  rw [Bool.not_eq_true, Rollup.overcounted, Rollup.overcounted, Rollup.reading_congr fun name _ htarget =>
    hresumes.redis_eq (Rollup.target_ne_lockKey htarget)]

/-- **Not all that is counted is restored.** Suppose that the registry has the script. What a run that
comes to phase 2 counts is the number of the counters it has raised exactly if as many rollups are
overcounted as are undercounted. A second run, with no check in between, changes no counter. It changes no
rollup and counts nothing exactly if no rollup is outgrown by its counter or overcounted. -/
theorem restored_iff (db : Database) (hregistry : env.registry.HasRestore) :
    (∀ w start, RestoresFrom env db w start → ∃ stats, (run env db w).1 = .ok stats ∧
      (stats.restored = { name | start.redis.Raised (run env db w).2.redis name }.ncard ↔
        start.history.rollups.countP (Rollup.overcounted env.now db start.redis) =
          start.history.rollups.countP (Rollup.undercounted env.now db start.redis))) ∧
      ∀ w, Completes env db w → ∀ env' redis start, env'.registry.HasRestore →
        env.now.us ≤ env'.now.us →
        let first := (run env db w).2
        (∀ name ≠ lockKey, redis name = first.redis name) → IsScan "qg:q:" redis env'.quotaKeys →
        RestoresFrom env' db ⟨redis, first.history⟩ start →
        let second := run env' db ⟨redis, first.history⟩
        ∃ stats, second.1 = .ok stats ∧ (∀ name ≠ lockKey, second.2.redis name = first.redis name) ∧
          (second.2.history.rollups = first.history.rollups ∧ stats.restored = 0 ↔
            ∀ rollup ∈ first.history.rollups, ¬ rollup.Outgrown db first.redis ∧
              rollup.overcounted env'.now db first.redis = false) := by
  constructor
  · intro w start hfrom
    obtain ⟨stats, hstats, hrestored, -, -⟩ := hfrom.run_eq
    refine ⟨stats, hstats, ?_⟩
    obtain ⟨raised, count, hcount, htally⟩ := restoreAll_counts hregistry env.now db start.redis
      start.history.rollupSlots 0
    have hset : { name | start.redis.Raised (run env db w).2.redis name } = raised.toFinset := by
      ext name
      rw [Set.mem_ofPred_eq, hfrom.raised_iff hregistry, ← htally.mem_iff, Finset.mem_coe,
        List.mem_toFinset]
    have hcounts := htally.count_eq
    rw [hset, Set.ncard_coe_finset, List.toFinset_card_of_nodup htally.nodup, hrestored, hcount]
    omega
  · intro w hcompletes env' redis start hregistry' hlater first hredis hscan hfrom second
    have hrest := hcompletes.atRest hregistry
    have hresumes : Resumes env' db first redis start := ⟨hredis, hscan, hfrom⟩
    obtain ⟨stats, hstats, hrestored, hrollups, -⟩ := hfrom.run_eq
    refine ⟨stats, hstats, fun name hne => ?_, ?_⟩
    · calc second.2.redis name
          _ = _ := hfrom.redis_of_ne hne
          _ = start.redis name := congrFun (hresumes.restoreAll_eq hregistry' hrest hlater) name
          _ = first.redis name := hresumes.redis_eq hne
    · rw [hrollups, hrestored, hresumes.rollups_eq_iff hrest, forall₂_and]
      refine and_congr_right fun hfits => ?_
      exact hrest.restored_eq_zero_iff hregistry' hlater hresumes
        ((hresumes.rollups_eq_iff hrest).mpr hfits)

/-! ### Two runs after a loss -/

/-- The scan of this run returns these counters, and its registry has the attribute. -/
def sampleRestoring (quotaKeys : List String) : Environment :=
  { sampleEnvironment with
    registry := ⟨some ["check", "restore", "unlock"]⟩
    decodeResponses := true
    quotaKeys }

theorem hasRestore_sampleRestoring (quotaKeys : List String) :
    (sampleRestoring quotaKeys).registry.HasRestore := by
  refine ⟨_, rfl, ?_⟩
  simp

/-- Redis has lost the counter of the rollup. -/
def sampleLost : World := ⟨Keyspace.empty, sampleRollups⟩

/-- The run has taken the lock. -/
def sampleHeld : World where
  redis := Function.update Keyspace.empty lockKey (some ⟨.text "4f6d", some ((sampleTime 60).ms + 120000)⟩)
  history := sampleRollups

theorem restoresFrom_sampleHeld :
    RestoresFrom (sampleRestoring []) sampleDatabase sampleLost sampleHeld :=
  ⟨rfl, [], 0, rfl, rfl⟩

/-- What the run leaves. -/
def sampleAfterLoss : World := (run (sampleRestoring []) sampleDatabase sampleLost).2

theorem sampleRollups_target : ∀ rollup ∈ sampleRollups.rollups,
    rollup.target sampleDatabase = some (quotaName sampleKey "1970-01", 2678400) ∧ rollup.used = 5 := by
  intro rollup hmem
  rw [List.mem_singleton.mp hmem]
  exact ⟨by decide +kernel, rfl⟩

theorem sampleAfterLoss_apply (hne : name ≠ quotaName sampleKey "1970-01") :
    sampleAfterLoss.redis name = none := by
  by_cases hlock : name = lockKey
  · rw [hlock]
    decide +kernel
  · have hkept : (restoreAll (sampleRestoring []).registry (sampleTime 60) sampleDatabase
        sampleRollups.rollups 0 sampleHeld.redis).2 name = sampleHeld.redis name := by
      refine restoreAll_of_ne (hasRestore_sampleRestoring []) 0 fun rollup hmem monthEnd htarget => ?_
      rw [(sampleRollups_target rollup hmem).1] at htarget
      cases htarget
      exact hne rfl
    calc sampleAfterLoss.redis name
        _ = _ := restoresFrom_sampleHeld.redis_of_ne hlock
        _ = sampleHeld.redis name := hkept
        _ = none := Function.update_of_ne hlock _ _

theorem completes_sampleLost : Completes (sampleRestoring []) sampleDatabase sampleLost where
  failing _ := rfl
  quotas name := by simp [sampleRestoring, sampleLost]
  flags name := by simp [sampleRestoring, sampleLost, sampleEnvironment]
  returns := ⟨⟨0, 0, 1, 0⟩, by decide +kernel⟩

theorem completes_sampleAfterLoss :
    Completes (sampleRestoring [quotaName sampleKey "1970-01"]) sampleDatabase sampleAfterLoss where
  failing _ := rfl
  quotas name := by
    show name ∈ [quotaName sampleKey "1970-01"] ↔ _
    rw [List.mem_singleton]
    constructor
    · rintro rfl
      exact ⟨⟨_, rfl⟩, by decide +kernel⟩
    · rintro ⟨-, hpresent⟩
      by_contra hne
      exact hpresent (sampleAfterLoss_apply hne)
  flags name := by
    refine iff_of_false List.not_mem_nil ?_
    rintro ⟨⟨rest, rfl⟩, hpresent⟩
    refine hpresent (sampleAfterLoss_apply fun hname => ?_)
    exact absurd (Family.tag_append_inj (f := .flag) (g := .quota) hname).1 (by decide)
  returns := ⟨⟨1, 1, 1, 0⟩, by decide +kernel⟩

/-- The first run restores the counter and counts it. The second one changes no counter, and counts it
once more. -/
theorem restored_iff_sample :
    let first := run (sampleRestoring []) sampleDatabase sampleLost
    let second := run (sampleRestoring [quotaName sampleKey "1970-01"]) sampleDatabase sampleAfterLoss
    (∃ stats, first.1 = .ok stats ∧
      stats.restored = { name | sampleHeld.redis.Raised first.2.redis name }.ncard) ∧
      ∃ stats, second.1 = .ok stats ∧
        (∀ name ≠ lockKey, second.2.redis name = sampleAfterLoss.redis name) ∧
        ¬ (second.2.history.rollups = sampleAfterLoss.history.rollups ∧ stats.restored = 0) := by
  intro first second
  obtain ⟨hcounted, hagain⟩ := restored_iff sampleDatabase (hasRestore_sampleRestoring [])
  constructor
  · obtain ⟨stats, hstats, hiff⟩ := hcounted _ _ restoresFrom_sampleHeld
    exact ⟨stats, hstats, hiff.mpr (by decide +kernel)⟩
  · obtain ⟨start, hfrom⟩ := completes_sampleAfterLoss.restoresFrom
    obtain ⟨stats, hstats, hredis, hiff⟩ := hagain _ completes_sampleLost
      (sampleRestoring [quotaName sampleKey "1970-01"]) sampleAfterLoss.redis _
      (hasRestore_sampleRestoring _) le_rfl (fun _ _ => rfl) completes_sampleAfterLoss.quotas hfrom
    refine ⟨stats, hstats, hredis, fun hnothing => ?_⟩
    have hrow : (⟨1, 1, "1970-01", 5, 4⟩ : Rollup) ∈ sampleAfterLoss.history.rollups := by
      decide +kernel
    exact absurd (hiff.mp hnothing _ hrow).2 (by decide +kernel)

/-- The second run reports a counter as restored, and has raised none. A rollup whose deadline is over is
reported by every run, and its counter stays absent. -/
theorem restored_overcounted :
    let again := run (sampleRestoring [quotaName sampleKey "1970-01"]) sampleDatabase sampleAfterLoss
    let late := run { sampleRestoring [] with now := ⟨6566400, 0, by decide⟩ } sampleDatabase sampleLost
    (∃ start,
      RestoresFrom (sampleRestoring [quotaName sampleKey "1970-01"]) sampleDatabase sampleAfterLoss start ∧
      again.1 = .ok ⟨1, 1, 1, 0⟩ ∧ { name | start.redis.Raised again.2.redis name }.ncard = 0) ∧
    late.1 = .ok ⟨0, 0, 1, 0⟩ ∧ late.2.redis (quotaName sampleKey "1970-01") = none := by
  intro again late
  refine ⟨?_, by decide +kernel, by decide +kernel⟩
  obtain ⟨start, hfrom⟩ := completes_sampleAfterLoss.restoresFrom
  refine ⟨start, hfrom, by decide +kernel, ?_⟩
  have hregistry := hasRestore_sampleRestoring [quotaName sampleKey "1970-01"]
  have hresumes : Resumes (sampleRestoring [quotaName sampleKey "1970-01"]) sampleDatabase sampleAfterLoss
      sampleAfterLoss.redis start := ⟨fun _ _ => rfl, completes_sampleAfterLoss.quotas, hfrom⟩
  have hsame := hresumes.restoreAll_eq hregistry
    (completes_sampleLost.atRest (hasRestore_sampleRestoring [])) le_rfl
  have hnone : { name | start.redis.Raised again.2.redis name } = ∅ := by
    refine Set.eq_empty_iff_forall_notMem.mpr fun name hraised => ?_
    exact Keyspace.not_raised_of_eq (congrFun hsame name) ((hfrom.raised_iff hregistry name).mp hraised)
  rw [hnone, Set.ncard_empty]

/-- A value that is no double is restored to the double below it, and is not counted. -/
example :
    let lost : World := { sampleLost with history := { sampleRollups with
      rollups := [⟨1, 1, "1970-01", 2 ^ 53 + 1, 4⟩]
      rollupIds := List.nodup_singleton _
      rollupSlots := List.nodup_singleton _ } }
    let out := run (sampleRestoring []) sampleDatabase lost
    out.1 = .ok ⟨0, 0, 0, 0⟩ ∧ out.2.redis.counter (quotaName sampleKey "1970-01") = 2 ^ 53 := by
  decide +kernel

end QuotaGuard
