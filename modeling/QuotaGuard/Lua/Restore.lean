import QuotaGuard.Lua.Check

/-!
# restore.lua

After a loss of Redis data the month counters are raised again to what the rollups have persisted.
The script never lowers a counter. Both numbers come from the outside and may be any: the counter is
what `tonumber` makes of the stored string, and either is a double when they are compared.
-/

namespace QuotaGuard

open Redis Script Arithmetic

/-- The script. Lua stops at a comparison with a string that reads as no number. -/
def restore [Arithmetic] (key : String) (floor monthEnd : Int) : Script Int := do
  let floor := integer floor
  let stored ← get key
  match tonumber (stored.or (some (.int 0))) with
  | none => fail .compareNil
  | some current =>
    if current.double.below floor then
      set key floor
      expireat key (monthEnd + monthGraceS)
      return (LuaNumber.finite floor).reply
    else
      return current.double.reply

variable [Arithmetic] {now : Time} {db db' : Keyspace} {name : String} {current : LuaNumber}

/-- What the script answers for a counter that reads as this number. -/
def restoreReply (current : LuaNumber) (floor : Int) : Int :=
  if current.double.below (integer floor) then (LuaNumber.finite (integer floor)).reply
  else current.double.reply

/-- The counter reads as a number below the floor. -/
def Keyspace.IsBelow (db : Keyspace) (name : String) (floor : Int) : Prop :=
  (db.number name).any (fun current => current.double.below (integer floor)) = true

instance (db : Keyspace) (name : String) (floor : Int) : Decidable (db.IsBelow name floor) :=
  inferInstanceAs (Decidable (_ = true))

/-- The keyspace after the script. -/
def restored (now : Time) (name : String) (floor monthEnd : Int) (db : Keyspace) : Keyspace :=
  if db.IsBelow name floor then
    setDeadline now name ((monthEnd + monthGraceS) * 1000)
      (Function.update db name (some ⟨.int (integer floor), none⟩))
  else db

/-! ### Counters below the floor -/

theorem LuaNumber.below_int {m n : Int} : (LuaNumber.int m).double.below n = true ↔ integer m < n := by
  rw [double, below, decide_eq_true_eq, ← intCast_integer]
  exact_mod_cast Iff.rfl

namespace Keyspace

theorem isBelow_iff {floor : Int} (h : db.number name = some current) :
    db.IsBelow name floor ↔ current.double.below (integer floor) = true := by
  rw [IsBelow, h, Option.any_some]

theorem not_isBelow {floor : Int} (h : db.number name = none) : ¬ db.IsBelow name floor := by
  rw [IsBelow, h]
  exact Bool.false_ne_true

theorem isBelow_of_holds {floor : Int} (h : db.Holds name .int) :
    db.IsBelow name floor ↔ integer (db.counter name) < integer floor := by
  rw [isBelow_iff (number_of_holds h), LuaNumber.below_int]

theorem isBelow_congr {floor : Int} (h : db' name = db name) :
    db'.IsBelow name floor ↔ db.IsBelow name floor := by
  rw [IsBelow, IsBelow, number_congr h]

end Keyspace

/-! ### What the script does -/

theorem restore_run (now : Time) (h : db.number name = some current) (floor monthEnd : Int) :
    restore name floor monthEnd now db =
      (.ok (restoreReply current floor), restored now name floor monthEnd db) := by
  have hcurrent : ∃ stored, Redis.get name now db = (.ok stored, db) ∧
      tonumber (stored.or (some (.int 0))) = some current := by
    unfold Redis.get
    unfold Keyspace.number at h
    cases hentry : db name with
    | none =>
        rw [hentry] at h
        exact ⟨none, rfl, h⟩
    | some entry =>
        obtain ⟨value, expireAt⟩ := entry
        rw [hentry] at h
        cases value with
        | hash t ts => cases h
        | zset members => cases h
        | int n => exact ⟨some (.int n), rfl, h⟩
        | text s => exact ⟨some (.text s), rfl, h⟩
  obtain ⟨stored, hget, hnumber⟩ := hcurrent
  rw [restore, bind_run hget, hnumber, restored, restoreReply]
  dsimp only
  by_cases hlow : current.double.below (integer floor) = true
  · rw [if_pos hlow, if_pos hlow, if_pos ((Keyspace.isBelow_iff h).mpr hlow)]
    rfl
  · rw [if_neg hlow, if_neg hlow, if_neg fun h' => hlow ((Keyspace.isBelow_iff h).mp h')]
    rfl

/-- A counter that reads as no number stops the script. -/
theorem restore_error (now : Time) (h : db.number name = none) (floor monthEnd : Int) :
    ∃ e, restore name floor monthEnd now db = (.error e, db) := by
  unfold restore
  unfold Keyspace.number at h
  cases hentry : db name with
  | none =>
      rw [hentry] at h
      cases h
  | some entry =>
      obtain ⟨value, expireAt⟩ := entry
      rw [hentry] at h
      cases value with
      | int n => cases h
      | text s =>
          refine ⟨.compareNil, ?_⟩
          have hget : Redis.get name now db = (.ok (some (.text s)), db) := by
            simp [Redis.get, hentry, Value.kind]
          have hnumber : tonumber ((some (.text s)).or (some (.int 0))) = none := h
          rw [bind_run hget, hnumber]
          rfl
      | hash t ts =>
          refine ⟨.wrongType, bind_error ?_⟩
          simp [Redis.get, hentry, Value.kind]
      | zset members =>
          refine ⟨.wrongType, bind_error ?_⟩
          simp [Redis.get, hentry, Value.kind]

theorem restored_of_ne {other : String} (hne : other ≠ name) (floor monthEnd : Int) :
    restored now name floor monthEnd db other = db other := by
  unfold restored
  split
  · rw [setDeadline_apply_of_ne hne, Function.update_of_ne hne]
  · rfl

/-- What is left of a counter that the script has set. -/
theorem restored_apply (now : Time) {floor : Int} (monthEnd : Int) (hlow : db.IsBelow name floor) :
    restored now name floor monthEnd db name =
      if (monthEnd + monthGraceS) * 1000 ≤ now.ms then none
      else some ⟨.int (integer floor), some ((monthEnd + monthGraceS) * 1000)⟩ := by
  rw [restored, if_pos hlow, setDeadline, Function.update_self]
  simp only
  split <;> rw [Function.update_self]

theorem restored_ne_none {floor monthEnd : Int} (hfuture : now.ms < (monthEnd + monthGraceS) * 1000)
    (hpresent : db name ≠ none) : restored now name floor monthEnd db name ≠ none := by
  by_cases hlow : db.IsBelow name floor
  · rw [restored_apply now monthEnd hlow, if_neg (not_le.mpr hfuture)]
    exact Option.some_ne_none _
  · rw [restored, if_neg hlow]
    exact hpresent

/-- A restore that loses nothing leaves no less than there was. -/
theorem counter_restored (h : db.Holds name .int) (floor monthEnd : Int)
    (hkept : db name ≠ none → restored now name floor monthEnd db name ≠ none) :
    db.counter name ≤ (restored now name floor monthEnd db).counter name := by
  by_cases hlow : db.IsBelow name floor
  · have hleft := restored_apply now monthEnd hlow
    by_cases hpast : (monthEnd + monthGraceS) * 1000 ≤ now.ms
    · -- The new deadline is over: the key is gone, so it was not there before.
      rw [if_pos hpast] at hleft
      have habsent : db name = none := by
        by_contra hpresent
        exact hkept hpresent hleft
      rw [Keyspace.counter_of_none habsent, Keyspace.counter_of_none hleft]
    · rw [if_neg hpast] at hleft
      have hvalue : (restored now name floor monthEnd db).counter name = integer floor := by
        rw [Keyspace.counter, hleft]
      rw [hvalue]
      exact (lt_integer ((Keyspace.isBelow_of_holds h).mp hlow)).le
  · rw [restored, if_neg hlow]

end QuotaGuard
