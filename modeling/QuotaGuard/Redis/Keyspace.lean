import QuotaGuard.Lib.SortedSet
import Mathlib.Data.Int.Basic
import Mathlib.Logic.Function.Basic

/-!
# The Redis keyspace

One flat map from names to entries. An entry is a value of one type and, when an expiry was set, the
deadline from which Redis may remove it. The clock is the reading the `TIME` command returns; expiry
uses the same clock, truncated to milliseconds.
-/

namespace QuotaGuard

/-- One microtoken unit, and the number of microseconds in a second. -/
abbrev utok : Int := 1000000

theorem utok_pos : 0 < utok := by decide

/-- A reading of the clock, as `TIME` returns it: seconds, and microseconds into the second. -/
structure Time where
  sec : Nat
  usec : Nat
  usec_lt : usec < 1000000
  deriving DecidableEq

namespace Time

def us (t : Time) : Int := t.sec * utok + t.usec

/-- The reading in milliseconds, which is what deadlines are compared with. -/
def ms (t : Time) : Int := t.us / 1000

/-- Readings come in the order of their microseconds. -/
instance preorder_time : Preorder Time where
  le t t' := t.us ≤ t'.us
  le_refl t := le_refl t.us
  le_trans _ _ _ := le_trans

theorem us_nonneg (t : Time) : 0 ≤ t.us := by
  simp only [us, utok]
  omega

theorem ms_mul_le (t : Time) : t.ms * 1000 ≤ t.us := by
  simp only [ms]
  omega

theorem us_lt_ms_mul (t : Time) : t.us < (t.ms + 1) * 1000 := by
  simp only [ms]
  omega

theorem us_lt_sec_mul (t : Time) : t.us < (t.sec + 1) * utok := by
  have := t.usec_lt
  simp only [us, utok]
  omega

theorem us_inj {t t' : Time} (h : t.us = t'.us) : t = t' := by
  have := t.usec_lt
  have := t'.usec_lt
  simp only [us, utok] at h
  obtain ⟨sec, usec, _⟩ := t
  obtain ⟨sec', usec', _⟩ := t'
  simp only [mk.injEq] at *
  omega

end Time

inductive Kind where
  | hash
  | zset
  | int
  | text
  deriving DecidableEq, Repr

/-- A stored value: the bucket hash with its two fields, a sorted set, the decimal text of an integer as
Redis writes it, or any other string. -/
inductive Value where
  | hash (t ts : Option Int)
  | zset (members : SortedSet String Int)
  | int (n : Int)
  | text (s : String)
  deriving DecidableEq

/-- The type of a value. -/
def Value.kind : Value → Kind
  | .hash _ _ => .hash
  | .zset _ => .zset
  | .int _ => .int
  | .text _ => .text

/-- A value with the deadline from which Redis may remove it, in milliseconds. -/
structure Entry where
  value : Value
  expireAt : Option Int
  deriving DecidableEq

/-- The whole keyspace. -/
abbrev Keyspace := String → Option Entry

/-- Both fields of a bucket, or nothing if either is missing. -/
def bothFields : Option Int × Option Int → Option (Int × Int)
  | (some t, some ts) => some (t, ts)
  | _ => none

namespace Keyspace

def empty : Keyspace := fun _ => none

@[simp] theorem empty_apply (name : String) : empty name = none := rfl

def Holds (db : Keyspace) (name : String) (kind : Kind) : Prop :=
  ∀ entry, db name = some entry → entry.value.kind = kind

theorem Holds.of_none {db : Keyspace} {name : String} {kind : Kind} (h : db name = none) :
    db.Holds name kind := by
  intro entry hentry
  rw [h] at hentry
  cases hentry

theorem Holds.congr {db db' : Keyspace} {name : String} {kind : Kind} (h : db.Holds name kind)
    (heq : db' name = db name) : db'.Holds name kind := by
  intro entry hentry
  exact h entry (heq ▸ hentry)

def Lapsed (db : Keyspace) (name : String) (now : Time) : Prop :=
  ∃ entry deadline, db name = some entry ∧ entry.expireAt = some deadline ∧ deadline ≤ now.ms

/-- From one keyspace to the other the key is kept, or removed after its deadline. -/
def KeptOrLapsed (db found : Keyspace) (name : String) (now : Time) : Prop :=
  found name = db name ∨ db.Lapsed name now ∧ found name = none

/-- Redis may lose any of its keys. -/
def Loses (db found : Keyspace) : Prop := ∀ name, found name = db name ∨ found name = none

theorem Loses.refl (db : Keyspace) : db.Loses db := fun _ => .inl rfl

theorem Loses.single (db : Keyspace) (name : String) : db.Loses (Function.update db name none) := by
  intro other
  by_cases hname : other = name
  · rw [hname]
    exact .inr (Function.update_self name none db)
  · exact .inl (Function.update_of_ne hname none db)

theorem Loses.trans {db found later : Keyspace} (hleft : db.Loses found) (hright : found.Loses later) :
    db.Loses later := by
  intro name
  rcases hright name with hsame | hgone
  · rw [hsame]
    exact hleft name
  · exact .inr hgone

/-- The level and the timestamp of a bucket, when both fields are stored. -/
def bucket (db : Keyspace) (name : String) : Option (Int × Int) :=
  match db name with
  | some ⟨.hash t ts, _⟩ => bothFields (t, ts)
  | _ => none

/-- The members of a sliding window; an absent window has none. -/
def window (db : Keyspace) (name : String) : SortedSet String Int :=
  match db name with
  | some ⟨.zset members, _⟩ => members
  | _ => ∅

/-- The number a counter holds; an absent counter counts as zero. -/
def counter (db : Keyspace) (name : String) : Int :=
  match db name with
  | some ⟨.int n, _⟩ => n
  | _ => 0

theorem bucket_congr {db db' : Keyspace} {name : String} (h : db' name = db name) :
    db'.bucket name = db.bucket name := by
  simp only [bucket, h]

theorem window_congr {db db' : Keyspace} {name : String} (h : db' name = db name) :
    db'.window name = db.window name := by
  simp only [window, h]

theorem counter_congr {db db' : Keyspace} {name : String} (h : db' name = db name) :
    db'.counter name = db.counter name := by
  simp only [counter, h]

theorem bucket_of_none {db : Keyspace} {name : String} (h : db name = none) :
    db.bucket name = none := by
  simp only [bucket, h]

theorem window_of_none {db : Keyspace} {name : String} (h : db name = none) :
    db.window name = ∅ := by
  simp only [window, h]

theorem counter_of_none {db : Keyspace} {name : String} (h : db name = none) :
    db.counter name = 0 := by
  simp only [counter, h]

end Keyspace

/-- Any keys may be lost between two executions. -/
def Losing {ε : Type} (_ : ε) (db found : Keyspace) : Prop := db.Loses found

end QuotaGuard
