import QuotaGuard.Lua.Arithmetic
import QuotaGuard.Redis.Command

/-!
# What Lua makes of a string

`tonumber` reads a string as `strtod` does: a sign, a decimal or hexadecimal numeral with an exponent, an
infinity or a NaN, in any case and with white space around it. A numeral is rounded to a double. The
integer a counter holds is kept as it is; a script that may see one beyond 2^53 rounds it (`double`).
-/

namespace QuotaGuard

open Arithmetic

inductive LuaNumber where
  | int (n : Int)
  | finite (q : ℚ)
  | infinite (negative : Bool)
  | nan
  deriving DecidableEq

namespace LuaNumber

def neg : LuaNumber → LuaNumber
  | int n => int (-n)
  | finite q => finite (-q)
  | infinite negative => infinite !negative
  | nan => nan

/-- `x < n`; nothing is less or greater than a NaN. -/
def below (n : Int) : LuaNumber → Bool
  | int m => m < n
  | finite q => q < n
  | infinite negative => negative
  | nan => false

/-- The number as an integer reply: a C cast, which drops the fraction and makes the least integer of
whatever has no 64 bits. -/
def reply : LuaNumber → Int
  | int n => n
  | finite q =>
    let n := if 0 ≤ q then ⌊q⌋ else ⌈q⌉
    if -2 ^ 63 ≤ n ∧ n < 2 ^ 63 then n else -2 ^ 63
  | infinite _ => -2 ^ 63
  | nan => -2 ^ 63

@[simp] theorem reply_int (n : Int) : (int n).reply = n := rfl

theorem reply_finite_intCast (n : Int) :
    (finite n).reply = if -2 ^ 63 ≤ n ∧ n < 2 ^ 63 then n else -2 ^ 63 := by
  rw [reply, Int.floor_intCast, Int.ceil_intCast, ite_self]

variable [Arithmetic]

def double : LuaNumber → LuaNumber
  | int n => finite (Arithmetic.round n)
  | x => x

/-- `x + cost <= limit`. -/
def fits (cost limit : Int) : LuaNumber → Bool
  | int n => n + cost ≤ limit
  | finite q => Arithmetic.round (q + cost) ≤ limit
  | infinite negative => negative
  | nan => false

/-- `limit - x`, or zero where that is negative, as a reply. -/
def remaining (limit : Int) : LuaNumber → Int
  | int n => max 0 (limit - n)
  | finite q => (finite (max 0 (Arithmetic.round (limit - q)))).reply
  | infinite negative => if negative then (infinite false).reply else 0
  | nan => nan.reply

end LuaNumber

/-! ### Reading a string -/

namespace Strtod

/-- `isspace`. -/
def isSpace (c : Char) : Bool := c = ' ' || 9 ≤ c.toNat && c.toNat ≤ 13

/-- The value of a digit, the letters in lower case. -/
def digitValue (c : Char) : Option Nat :=
  if c.isDigit then some (c.toNat - '0'.toNat)
  else if c.isLower then some (c.toNat - 'a'.toNat + 10)
  else none

/-- The digits at the front of a text, and the rest. -/
def digits (base : Nat) : List Char → List Nat × List Char
  | [] => ([], [])
  | c :: rest =>
    match digitValue c with
    | none => ([], c :: rest)
    | some d =>
      if d < base then
        let (found, after) := digits base rest
        (d :: found, after)
      else ([], c :: rest)

def ofDigits (base : Nat) (found : List Nat) : Nat := found.foldl (fun n d => n * base + d) 0

/-- The numeral at the front of a text, with at least one digit before or after the point. -/
def mantissa (base : Nat) (text : List Char) : Option (ℚ × List Char) :=
  let (whole, rest) := digits base text
  let (fraction, rest) := if rest.head? = some '.' then digits base rest.tail else ([], rest)
  if whole ++ fraction = [] then none
  else some (ofDigits base (whole ++ fraction) / base ^ fraction.length, rest)

/-- What is read behind a sign, if there is one. -/
def signed {α : Type} (neg : α → α) (read : List Char → Option α) (text : List Char) : Option α :=
  if text.head? = some '-' then (read text.tail).map neg
  else if text.head? = some '+' then read text.tail
  else read text

def natural (text : List Char) : Option Int :=
  let (found, rest) := digits 10 text
  if found ≠ [] ∧ rest = [] then some (ofDigits 10 found) else none

/-- The exponent behind its letter; a text that ends here has none. -/
def exponent (letter : Char) (text : List Char) : Option Int :=
  if text = [] then some 0
  else if text.head? = some letter then signed Neg.neg natural text.tail
  else none

variable [Arithmetic]

def numeral (base : Nat) (letter : Char) (radix : ℚ) (text : List Char) : Option LuaNumber := do
  let (m, rest) ← mantissa base text
  let e ← exponent letter rest
  return .finite (Arithmetic.round (m * radix ^ e))

/-- `nan`, or `nan(` … `)`. -/
def isNan (text : List Char) : Bool :=
  text = "nan".toList || "nan(".toList.isPrefixOf text && text.getLast? = some ')' &&
    (text.drop 4).dropLast.all fun c => c.isAlphanum || c = '_'

def unsigned (text : List Char) : Option LuaNumber :=
  if text = "inf".toList ∨ text = "infinity".toList then some (.infinite false)
  else if isNan text then some .nan
  else if "0x".toList.isPrefixOf text then numeral 16 'p' 2 (text.drop 2)
  else numeral 10 'e' 10 text

end Strtod

open Strtod in
/-- The number a whole string reads as, up to its first NUL. -/
def strtod [Arithmetic] (s : String) : Option LuaNumber :=
  let text := (s.toList.takeWhile fun c => c.toNat ≠ 0).map Char.toLower
  signed LuaNumber.neg unsigned
    (((text.dropWhile isSpace).reverse).dropWhile isSpace).reverse

/-- `tonumber` of a reply of `GET`. -/
def tonumber [Arithmetic] : Option Value → Option LuaNumber
  | some (.int n) => some (.int n)
  | some (.text s) => strtod s
  | _ => none

example : strtod " 5.5" = some (.finite (11 / 2)) := by decide +kernel

example : strtod "-0X1.8p3\n" = some (.finite (-12)) := by decide +kernel

example : strtod "1e" = none := by decide +kernel

/-! ### The number of a counter -/

/-- What a counter reads as; an absent one is zero. -/
def Keyspace.number [Arithmetic] (db : Keyspace) (name : String) : Option LuaNumber :=
  match db name with
  | none => some (.int 0)
  | some entry => tonumber (some entry.value)

namespace Keyspace

variable [Arithmetic] {db db' : Keyspace} {name : String}

theorem number_congr (h : db' name = db name) : db'.number name = db.number name := by
  simp only [number, h]

theorem number_of_holds (h : db.Holds name .int) : db.number name = some (.int (db.counter name)) := by
  unfold number counter
  cases hentry : db name with
  | none => rfl
  | some entry =>
      obtain ⟨value, expireAt⟩ := entry
      have hkind : value.kind = .int := h _ hentry
      cases value <;> simp only [Value.kind, reduceCtorEq] at hkind
      rfl

end Keyspace

namespace Redis

variable [Arithmetic] (now : Time) {db : Keyspace} {name : String}

theorem get_run (h : db.Holds name .int) :
    ∃ reply, get name now db = (.ok reply, db) ∧
      (tonumber reply).getD (.int 0) = .int (db.counter name) := by
  unfold get Keyspace.counter
  cases hentry : db name with
  | none => exact ⟨none, rfl, rfl⟩
  | some entry =>
      obtain ⟨value, expireAt⟩ := entry
      have hkind : value.kind = .int := h _ hentry
      cases value <;> simp only [Value.kind, reduceCtorEq] at hkind
      exact ⟨some (.int _), rfl, rfl⟩

end Redis

end QuotaGuard
