import QuotaGuard.Redis.Keyspace
import Mathlib.Logic.Function.Basic

/-!
# Redis commands

A Lua script is a sequence of commands that Redis runs with the clock standing still and with nothing
in between. `Script` is that: it reads the clock and the keyspace, and it either returns a value or
stops at an error, keeping what it wrote before. Each command below is the part of the Redis command
of the same name that the scripts use. Beside each stands what it does to a key of the right type.
-/

namespace QuotaGuard

/-- The errors a command can stop a script with. -/
inductive RedisError where
  | wrongType
  | notInteger
  | compareNil
  deriving DecidableEq, Repr

/-- A script: the clock and the keyspace in, an answer or an error and the keyspace out. -/
def Script (α : Type) := Time → Keyspace → Except RedisError α × Keyspace

namespace Script

instance : Monad Script where
  pure a := fun _ db => (.ok a, db)
  bind x f := fun now db => match x now db with
    | (.ok a, db') => f a now db'
    | (.error e, db') => (.error e, db')

def fail {α : Type} (e : RedisError) : Script α := fun _ db => (.error e, db)

theorem pure_run {α : Type} (a : α) (now : Time) (db : Keyspace) :
    (pure a : Script α) now db = (.ok a, db) := rfl

theorem bind_run {α β : Type} {x : Script α} {f : α → Script β} {now : Time} {db db' : Keyspace}
    {a : α} (h : x now db = (.ok a, db')) : (x >>= f) now db = f a now db' := by
  change (match x now db with
    | (.ok a, db') => f a now db'
    | (.error e, db') => (.error e, db')) = _
  rw [h]

theorem bind_error {α β : Type} {x : Script α} {f : α → Script β} {now : Time} {db db' : Keyspace}
    {e : RedisError} (h : x now db = (.error e, db')) : (x >>= f) now db = (.error e, db') := by
  change (match x now db with
    | (.ok a, db') => f a now db'
    | (.error e, db') => (.error e, db')) = _
  rw [h]

/-- A script that answers has answered in its first part. -/
theorem bind_ok {α β : Type} {x : Script α} {f : α → Script β} {now : Time} {db : Keyspace} {b : β}
    (h : ((x >>= f) now db).1 = .ok b) :
    ∃ a db', x now db = (.ok a, db') ∧ (f a now db').1 = .ok b := by
  change (match x now db with
    | (.ok a, db') => f a now db'
    | (.error e, db') => (.error e, db')).1 = _ at h
  rcases hx : x now db with ⟨answer, db'⟩
  rw [hx] at h
  cases answer with
  | error e => cases h
  | ok a => exact ⟨a, db', rfl, h⟩

end Script

open Script

namespace Redis

/-- Give the key a deadline; a deadline that is not in the future removes the key at once. -/
def setDeadline (now : Time) (name : String) (deadline : Int) (db : Keyspace) : Keyspace :=
  match db name with
  | none => db
  | some entry =>
    if deadline ≤ now.ms then Function.update db name none
    else Function.update db name (some { entry with expireAt := some deadline })

def store (name : String) (value : Value) (db : Keyspace) : Keyspace :=
  Function.update db name (some ⟨value, (db name).bind Entry.expireAt⟩)

/-- `TIME`. -/
def time : Script Time := fun now db => (.ok now, db)

/-- `GET name`: the stored string, if there is one. -/
def get (name : String) : Script (Option Value) := fun _ db =>
  match db name with
  | none => (.ok none, db)
  | some entry => match entry.value.kind with
    | .int | .text => (.ok (some entry.value), db)
    | _ => (.error .wrongType, db)

/-- `SET name n`: whatever was stored is overwritten and its deadline is gone. Redis writes the decimal
text of an integral number of 62 bits; for a larger one it would write an exponent. -/
def set (name : String) (n : Int) : Script Unit := fun _ db =>
  (.ok (), Function.update db name (some ⟨.int n, none⟩))

/-- `SETNX name n`: 1 if the key was absent and is now set, 0 otherwise. -/
def setnx (name : String) (n : Int) : Script Int := fun _ db =>
  match db name with
  | none => (.ok 1, Function.update db name (some ⟨.int n, none⟩))
  | some _ => (.ok 0, db)

/-- `INCRBY name amount`: the new value; an absent key counts from zero. The new value has 64 bits, so
that it is in range. -/
def incrby (name : String) (amount : Int) : Script Int := fun _ db =>
  match db name with
  | none => (.ok amount, store name (.int amount) db)
  | some entry => match entry.value with
    | .int n => (.ok (n + amount), store name (.int (n + amount)) db)
    | .text _ => (.error .notInteger, db)
    | _ => (.error .wrongType, db)

/-- `PEXPIRE name ttl`, in milliseconds from now. The time to live comes from limits that are positive and
within the bounds of the request models, so that it is in range. -/
def pexpire (name : String) (ttl : Int) : Script Unit := fun now db =>
  (.ok (), setDeadline now name (now.ms + ttl) db)

/-- `EXPIREAT name sec`, in epoch seconds. -/
def expireat (name : String) (sec : Int) : Script Unit := fun now db =>
  (.ok (), setDeadline now name (sec * 1000) db)

/-- `HMGET name t ts`. -/
def hmget (name : String) : Script (Option Int × Option Int) := fun _ db =>
  match db name with
  | none => (.ok (none, none), db)
  | some entry => match entry.value with
    | .hash t ts => (.ok (t, ts), db)
    | _ => (.error .wrongType, db)

/-- `HSET name t .. ts ..`. -/
def hset (name : String) (t ts : Int) : Script Unit := fun _ db =>
  match db name with
  | none => (.ok (), store name (.hash (some t) (some ts)) db)
  | some entry => match entry.value with
    | .hash _ _ => (.ok (), store name (.hash (some t) (some ts)) db)
    | _ => (.error .wrongType, db)

/-- `ZREMRANGEBYSCORE name -inf (cutoff`; a set left empty is removed. -/
def zremrangebyscore (name : String) (cutoff : Int) : Script Unit := fun _ db =>
  match db name with
  | none => (.ok (), db)
  | some entry => match entry.value with
    | .zset members =>
      if members.removeBelow cutoff = ∅ then (.ok (), Function.update db name none)
      else (.ok (), store name (.zset (members.removeBelow cutoff)) db)
    | _ => (.error .wrongType, db)

/-- `ZCARD name`. -/
def zcard (name : String) : Script Int := fun _ db =>
  match db name with
  | none => (.ok 0, db)
  | some entry => match entry.value with
    | .zset members => (.ok members.card, db)
    | _ => (.error .wrongType, db)

/-- `ZADD name score member`. -/
def zadd (name : String) (score : Int) (member : String) : Script Unit := fun _ db =>
  match db name with
  | none => (.ok (), store name (.zset ((∅ : SortedSet String Int).insert member score)) db)
  | some entry => match entry.value with
    | .zset members => (.ok (), store name (.zset (members.insert member score)) db)
    | _ => (.error .wrongType, db)

/-- The score `ZRANGE name 0 0 WITHSCORES` returns. -/
def zrangeFirst (name : String) : Script (Option Int) := fun _ db =>
  match db name with
  | none => (.ok none, db)
  | some entry => match entry.value with
    | .zset members => (.ok members.minScore, db)
    | _ => (.error .wrongType, db)

variable (now : Time) {db : Keyspace} {name : String}

/-! ### What a command does to a key of the right type -/

theorem time_run : time now db = (.ok now, db) := rfl

theorem pexpire_run (ttl : Int) :
    pexpire name ttl now db = (.ok (), setDeadline now name (now.ms + ttl) db) := rfl

theorem incrby_run (h : db.Holds name .int) (amount : Int) :
    incrby name amount now db =
      (.ok (db.counter name + amount), store name (.int (db.counter name + amount)) db) := by
  unfold incrby Keyspace.counter
  cases hentry : db name with
  | none => simp
  | some entry =>
      obtain ⟨value, expireAt⟩ := entry
      have hkind : value.kind = .int := h _ hentry
      cases value <;> simp only [Value.kind, reduceCtorEq] at hkind
      rfl

theorem hmget_run (h : db.Holds name .hash) :
    ∃ state, hmget name now db = (.ok state, db) ∧ bothFields state = db.bucket name := by
  unfold hmget Keyspace.bucket
  cases hentry : db name with
  | none => exact ⟨(none, none), rfl, rfl⟩
  | some entry =>
      obtain ⟨value, expireAt⟩ := entry
      have hkind : value.kind = .hash := h _ hentry
      cases value <;> simp only [Value.kind, reduceCtorEq] at hkind
      exact ⟨(_, _), rfl, rfl⟩

theorem hset_run (h : db.Holds name .hash) (t ts : Int) :
    hset name t ts now db = (.ok (), store name (.hash (some t) (some ts)) db) := by
  unfold hset
  cases hentry : db name with
  | none => rfl
  | some entry =>
      obtain ⟨value, expireAt⟩ := entry
      have hkind : value.kind = .hash := h _ hentry
      cases value <;> simp only [Value.kind, reduceCtorEq] at hkind
      rfl

/-- The keyspace after the trim of one window. -/
def trim (name : String) (cutoff : Int) (db : Keyspace) : Keyspace :=
  if (db.window name).removeBelow cutoff = ∅ then Function.update db name none
  else store name (.zset ((db.window name).removeBelow cutoff)) db

theorem zremrangebyscore_run (h : db.Holds name .zset) (cutoff : Int) :
    zremrangebyscore name cutoff now db = (.ok (), trim name cutoff db) := by
  unfold zremrangebyscore trim Keyspace.window
  cases hentry : db name with
  | none =>
      simp only [SortedSet.removeBelow_empty, if_true]
      rw [← hentry, Function.update_eq_self]
  | some entry =>
      obtain ⟨value, expireAt⟩ := entry
      have hkind : value.kind = .zset := h _ hentry
      cases value <;> simp only [Value.kind, reduceCtorEq] at hkind
      simp only
      split <;> rfl

theorem zcard_run (h : db.Holds name .zset) :
    zcard name now db = (.ok ((db.window name).card : Int), db) := by
  unfold zcard Keyspace.window
  cases hentry : db name with
  | none => rfl
  | some entry =>
      obtain ⟨value, expireAt⟩ := entry
      have hkind : value.kind = .zset := h _ hentry
      cases value <;> simp only [Value.kind, reduceCtorEq] at hkind
      rfl

theorem zadd_run (h : db.Holds name .zset) (score : Int) (member : String) :
    zadd name score member now db =
      (.ok (), store name (.zset ((db.window name).insert member score)) db) := by
  unfold zadd Keyspace.window
  cases hentry : db name with
  | none => rfl
  | some entry =>
      obtain ⟨value, expireAt⟩ := entry
      have hkind : value.kind = .zset := h _ hentry
      cases value <;> simp only [Value.kind, reduceCtorEq] at hkind
      rfl

theorem zrangeFirst_run (h : db.Holds name .zset) :
    zrangeFirst name now db = (.ok (db.window name).minScore, db) := by
  unfold zrangeFirst Keyspace.window
  cases hentry : db name with
  | none => simp [SortedSet.minScore_eq_none.mpr]
  | some entry =>
      obtain ⟨value, expireAt⟩ := entry
      have hkind : value.kind = .zset := h _ hentry
      cases value <;> simp only [Value.kind, reduceCtorEq] at hkind
      rfl

/-! ### What an answer says about the key -/

variable {now}

theorem holds_of_hmget {state : Option Int × Option Int} (h : (hmget name now db).1 = .ok state) :
    db.Holds name .hash := by
  intro entry hentry
  obtain ⟨value, expireAt⟩ := entry
  rw [hmget, hentry] at h
  cases value with
  | hash t ts => rfl
  | zset members => cases h
  | int n => cases h
  | text s => cases h

theorem holds_of_zremrangebyscore {cutoff : Int}
    (h : (zremrangebyscore name cutoff now db).1 = .ok ()) : db.Holds name .zset := by
  intro entry hentry
  obtain ⟨value, expireAt⟩ := entry
  rw [zremrangebyscore, hentry] at h
  cases value with
  | hash t ts => cases h
  | zset members => rfl
  | int n => cases h
  | text s => cases h

theorem holds_of_incrby {amount n : Int} (h : (incrby name amount now db).1 = .ok n) :
    db.Holds name .int := by
  intro entry hentry
  obtain ⟨value, expireAt⟩ := entry
  rw [incrby, hentry] at h
  cases value with
  | hash t ts => cases h
  | zset members => cases h
  | int n => rfl
  | text s => cases h

/-- A read leaves the keyspace alone. -/
theorem get_keyspace : (get name now db).2 = db := by
  unfold get
  cases db name with
  | none => rfl
  | some entry =>
      simp only
      split <;> rfl

/-! ### What a command leaves under other names -/

theorem store_apply_of_ne {other : String} (hne : other ≠ name) (value : Value) :
    store name value db other = db other :=
  Function.update_of_ne hne _ _

@[simp] theorem store_apply_self (value : Value) :
    store name value db name = some ⟨value, (db name).bind Entry.expireAt⟩ :=
  Function.update_self ..

theorem setDeadline_apply_of_ne {other : String} (hne : other ≠ name) (deadline : Int) :
    setDeadline now name deadline db other = db other := by
  unfold setDeadline
  cases db name with
  | none => rfl
  | some entry => simp only; split <;> exact Function.update_of_ne hne _ _

/-- A deadline in the future leaves the value as it is. -/
theorem setDeadline_apply_self {deadline : Int} (hfuture : now.ms < deadline) :
    setDeadline now name deadline db name =
      (db name).map fun entry => { entry with expireAt := some deadline } := by
  unfold setDeadline
  cases hentry : db name with
  | none => simp [hentry]
  | some entry => simp [not_le.mpr hfuture]

theorem trim_apply_of_ne {other : String} (hne : other ≠ name) (cutoff : Int) :
    trim name cutoff db other = db other := by
  unfold trim
  split
  · exact Function.update_of_ne hne _ _
  · exact store_apply_of_ne hne _

@[simp] theorem window_trim (cutoff : Int) :
    (trim name cutoff db).window name = (db.window name).removeBelow cutoff := by
  unfold trim
  split
  · rename_i hempty
    simp only [Keyspace.window, Function.update_self] at hempty ⊢
    exact hempty.symm
  · simp [Keyspace.window]

theorem holds_trim (cutoff : Int) : (trim name cutoff db).Holds name .zset := by
  intro entry hentry
  unfold trim at hentry
  split at hentry
  · simp at hentry
  · rw [store_apply_self] at hentry
    cases hentry
    rfl

theorem trim_congr {db' : Keyspace} (hsame : db' name = db name) (cutoff : Int) :
    trim name cutoff db' name = trim name cutoff db name := by
  unfold trim
  rw [Keyspace.window_congr hsame]
  split
  · rw [Function.update_self, Function.update_self]
  · rw [store_apply_self, store_apply_self, hsame]

/-- After a trim the key is gone, or has the deadline it had. -/
theorem trim_expireAt {cutoff : Int} {entry : Entry} (hentry : trim name cutoff db name = some entry) :
    ∃ before, db name = some before ∧ entry.expireAt = before.expireAt := by
  unfold trim at hentry
  by_cases hempty : (db.window name).removeBelow cutoff = ∅
  · rw [if_pos hempty, Function.update_self] at hentry
    cases hentry
  · rw [if_neg hempty, store_apply_self, Option.some.injEq] at hentry
    cases hstored : db name with
    | none =>
        rw [Keyspace.window_of_none hstored] at hempty
        exact absurd (SortedSet.removeBelow_empty _) hempty
    | some before =>
        refine ⟨before, rfl, ?_⟩
        rw [← hentry, hstored]
        rfl

end Redis

end QuotaGuard
