import Mathlib.Data.List.Basic

/-!
# URL-safe base64

Bytes as characters of six bits each, without padding, and back. Three bytes are four characters; one or
two at the end are two or three.
-/

namespace Base64

def digit (n : Nat) : Char :=
  if n < 26 then Char.ofNat (65 + n)
  else if n < 52 then Char.ofNat (97 + (n - 26))
  else if n < 62 then Char.ofNat (48 + (n - 52))
  else if n = 62 then '-'
  else '_'

def value (c : Char) : Option Nat :=
  if 'A' ≤ c ∧ c ≤ 'Z' then some (c.toNat - 65)
  else if 'a' ≤ c ∧ c ≤ 'z' then some (c.toNat - 97 + 26)
  else if '0' ≤ c ∧ c ≤ '9' then some (c.toNat - 48 + 52)
  else if c = '-' then some 62
  else if c = '_' then some 63
  else none

def encode : List UInt8 → List Char
  | [] => []
  | [a] => [digit (a.toNat / 4), digit (a.toNat % 4 * 16)]
  | [a, b] => [digit (a.toNat / 4), digit (a.toNat % 4 * 16 + b.toNat / 16), digit (b.toNat % 16 * 4)]
  | a :: b :: c :: rest =>
    digit (a.toNat / 4) :: digit (a.toNat % 4 * 16 + b.toNat / 16) ::
      digit (b.toNat % 16 * 4 + c.toNat / 64) :: digit (c.toNat % 64) :: encode rest

def decode : List Char → Option (List UInt8)
  | [] => some []
  | [_] => none
  | [p, q] => do
    let x ← value p
    let y ← value q
    return [UInt8.ofNat (x * 4 + y / 16)]
  | [p, q, r] => do
    let x ← value p
    let y ← value q
    let z ← value r
    return [UInt8.ofNat (x * 4 + y / 16), UInt8.ofNat (y % 16 * 16 + z / 4)]
  | p :: q :: r :: s :: rest => do
    let x ← value p
    let y ← value q
    let z ← value r
    let w ← value s
    let bytes ← decode rest
    return UInt8.ofNat (x * 4 + y / 16) :: UInt8.ofNat (y % 16 * 16 + z / 4) ::
      UInt8.ofNat (z % 4 * 64 + w) :: bytes

theorem value_digit {n : Nat} (h : n < 64) : value (digit n) = some n := by
  have hall : ∀ n < 64, value (digit n) = some n := by decide
  exact hall n h

theorem digit_injective {m n : Nat} (hm : m < 64) (hn : n < 64) (h : digit m = digit n) : m = n := by
  rw [← Option.some.injEq, ← value_digit hm, h, value_digit hn]

theorem ofNat_eq {a : UInt8} {n : Nat} (h : n = a.toNat) : UInt8.ofNat n = a := by
  rw [h, UInt8.ofNat_toNat]

/-- **The decoder undoes the encoder.** -/
theorem decode_encode (bytes : List UInt8) : decode (encode bytes) = some bytes := by
  induction bytes using encode.induct with
  | case1 => rfl
  | case2 a =>
      have ha := a.toNat_lt
      rw [encode, decode, value_digit (by omega), value_digit (by omega)]
      simp only [Option.bind_eq_bind, Option.bind_some, Option.pure_def, Option.some.injEq,
        List.cons.injEq, and_true]
      exact ofNat_eq (by omega)
  | case3 a b =>
      have ha := a.toNat_lt
      have hb := b.toNat_lt
      rw [encode, decode, value_digit (by omega), value_digit (by omega), value_digit (by omega)]
      simp only [Option.bind_eq_bind, Option.bind_some, Option.pure_def, Option.some.injEq,
        List.cons.injEq, and_true]
      exact ⟨ofNat_eq (by omega), ofNat_eq (by omega)⟩
  | case4 a b c rest ih =>
      have ha := a.toNat_lt
      have hb := b.toNat_lt
      have hc := c.toNat_lt
      rw [encode, decode, value_digit (by omega), value_digit (by omega), value_digit (by omega),
        value_digit (by omega), ih]
      simp only [Option.bind_eq_bind, Option.bind_some, Option.pure_def, Option.some.injEq,
        List.cons.injEq, and_true]
      exact ⟨ofNat_eq (by omega), ofNat_eq (by omega), ofNat_eq (by omega)⟩

theorem encode_injective {bytes bytes' : List UInt8} (h : encode bytes = encode bytes') :
    bytes = bytes' := by
  rw [← Option.some.injEq, ← decode_encode, h, decode_encode]

/-- Three bytes in front, and four characters for them. -/
theorem encode_inj_cons {a b c a' b' c' : UInt8} {rest rest' : List UInt8} {n : Nat} :
    (encode (a :: b :: c :: rest)).take (n + 4) = (encode (a' :: b' :: c' :: rest')).take (n + 4) ↔
      (a = a' ∧ b = b' ∧ c = c') ∧ (encode rest).take n = (encode rest').take n := by
  simp only [encode, List.take_succ_cons, List.cons.injEq]
  constructor
  · rintro ⟨hp, hq, hr, hs, hrest⟩
    have ha := a.toNat_lt
    have hb := b.toNat_lt
    have hc := c.toNat_lt
    have ha' := a'.toNat_lt
    have hb' := b'.toNat_lt
    have hc' := c'.toNat_lt
    have hx := digit_injective (by omega) (by omega) hp
    have hy := digit_injective (by omega) (by omega) hq
    have hz := digit_injective (by omega) (by omega) hr
    have hw := digit_injective (by omega) (by omega) hs
    exact ⟨⟨UInt8.toNat_inj.mp (by omega), UInt8.toNat_inj.mp (by omega), UInt8.toNat_inj.mp (by omega)⟩,
      hrest⟩
  · rintro ⟨⟨rfl, rfl, rfl⟩, hrest⟩
    exact ⟨rfl, rfl, rfl, rfl, hrest⟩

/-- The first character has the first six bits. -/
theorem encode_inj_head {a b c a' b' c' : UInt8} {rest rest' : List UInt8} :
    (encode (a :: b :: c :: rest)).take 1 = (encode (a' :: b' :: c' :: rest')).take 1 ↔
      a.toNat / 4 = a'.toNat / 4 := by
  have ha := a.toNat_lt
  have ha' := a'.toNat_lt
  simp only [encode, List.take_succ_cons, List.take_zero, List.cons.injEq, and_true]
  exact ⟨digit_injective (by omega) (by omega), fun h => by rw [h]⟩

/-- Eight bits for every byte in characters of six. -/
theorem length_encode (bytes : List UInt8) : (encode bytes).length = (8 * bytes.length + 5) / 6 := by
  induction bytes using encode.induct with
  | case1 => rfl
  | case2 a => simp [encode]
  | case3 a b => simp [encode]
  | case4 a b c rest ih =>
      simp only [encode, List.length_cons, ih]
      omega

end Base64
