import Mathlib.Data.List.Basic
import Mathlib.Data.List.TakeWhile
import Mathlib.Data.Nat.Digits.Defs

/-!
# Objects of strings and numbers as JSON text

A text is written in ASCII: of every character outside the printable range the UTF-16 units are escaped,
so one outside the basic plane becomes a pair of surrogates. The reader takes any spacing between the
tokens, any escape and unescaped characters. A number is kept as its text.
-/

namespace Json

/-! ### Units -/

/-- The UTF-16 units of a character. -/
def units (c : Char) : List Nat :=
  if c.toNat < 0x10000 then [c.toNat]
  else [0xd800 + (c.toNat - 0x10000) / 0x400, 0xdc00 + (c.toNat - 0x10000) % 0x400]

/-- The characters of UTF-16 units; a surrogate has to be one of a pair. -/
def chars : List Nat → Option (List Char)
  | [] => some []
  | u :: rest =>
    if 0xd800 ≤ u ∧ u ≤ 0xdbff then
      match rest with
      | [] => none
      | v :: rest =>
        if 0xdc00 ≤ v ∧ v ≤ 0xdfff then
          (chars rest).map (Char.ofNat (0x10000 + (u - 0xd800) * 0x400 + (v - 0xdc00)) :: ·)
        else none
    else if 0xdc00 ≤ u ∧ u ≤ 0xdfff then none
    else (chars rest).map (Char.ofNat u :: ·)

theorem units_lt {c : Char} {u : Nat} (h : u ∈ units c) : u < 0x10000 := by
  have hvalid : c.toNat < 0x110000 := by
    rcases c.valid with hlow | ⟨-, hhigh⟩
    · exact lt_trans hlow (by decide)
    · exact hhigh
  unfold units at h
  split at h
  · rename_i hlow
    rw [List.mem_singleton.mp h]
    exact hlow
  · simp only [List.mem_cons, List.not_mem_nil, or_false] at h
    omega

theorem chars_units (c : Char) (rest : List Nat) :
    chars (units c ++ rest) = (chars rest).map (c :: ·) := by
  have hvalid : c.toNat < 0xd800 ∨ 0xdfff < c.toNat ∧ c.toNat < 0x110000 := c.valid
  unfold units
  split
  · rw [List.singleton_append, chars.eq_def]
    dsimp only
    rw [if_neg (by omega), if_neg (by omega), Char.ofNat_toNat]
  · have hhigh : 0xd800 ≤ 0xd800 + (c.toNat - 0x10000) / 0x400 ∧
        0xd800 + (c.toNat - 0x10000) / 0x400 ≤ 0xdbff := by omega
    have hlow : 0xdc00 ≤ 0xdc00 + (c.toNat - 0x10000) % 0x400 ∧
        0xdc00 + (c.toNat - 0x10000) % 0x400 ≤ 0xdfff := by omega
    have hvalue : 0x10000 + (0xd800 + (c.toNat - 0x10000) / 0x400 - 0xd800) * 0x400 +
        (0xdc00 + (c.toNat - 0x10000) % 0x400 - 0xdc00) = c.toNat := by omega
    rw [List.cons_append, List.singleton_append, chars.eq_def]
    dsimp only
    rw [if_pos hhigh, if_pos hlow, hvalue, Char.ofNat_toNat]

theorem chars_flatMap_units (text : List Char) : chars (text.flatMap units) = some text := by
  induction text with
  | nil => rfl
  | cons c text ih => rw [List.flatMap_cons, chars_units, ih, Option.map_some]

/-! ### Escapes -/

/-- The units with an escape of one letter. -/
def letters : List (Nat × Char) :=
  [(0x5c, '\\'), (0x22, '"'), (8, 'b'), (12, 'f'), (10, 'n'), (13, 'r'), (9, 't')]

/-- Four hexadecimal digits. -/
def hex (u : Nat) : List Char :=
  [Nat.digitChar (u / 4096), Nat.digitChar (u / 256 % 16), Nat.digitChar (u / 16 % 16),
    Nat.digitChar (u % 16)]

def escape (u : Nat) : List Char :=
  match letters.lookup u with
  | some letter => ['\\', letter]
  | none => if 32 ≤ u ∧ u ≤ 126 then [Char.ofNat u] else '\\' :: 'u' :: hex u

def hexValue (c : Char) : Option Nat :=
  if '0' ≤ c ∧ c ≤ '9' then some (c.toNat - 48)
  else if 'a' ≤ c ∧ c ≤ 'f' then some (c.toNat - 87)
  else if 'A' ≤ c ∧ c ≤ 'F' then some (c.toNat - 55)
  else none

def unescape (c : Char) : Option Nat :=
  if c = '/' then some 0x2f
  else (letters.find? fun letter => letter.2 = c).map Prod.fst

/-- The units up to the closing quote, and the text behind it. -/
def body : List Char → Option (List Nat × List Char)
  | [] => none
  | c :: rest =>
    if c = '"' then some ([], rest)
    else if c = '\\' then
      match rest with
      | [] => none
      | e :: rest =>
        if e = 'u' then
          match rest with
          | h₁ :: h₂ :: h₃ :: h₄ :: rest => do
            let d₁ ← hexValue h₁
            let d₂ ← hexValue h₂
            let d₃ ← hexValue h₃
            let d₄ ← hexValue h₄
            let (us, rest) ← body rest
            return ((d₁ * 4096 + d₂ * 256 + d₃ * 16 + d₄) :: us, rest)
          | _ => none
        else do
          let u ← unescape e
          let (us, rest) ← body rest
          return (u :: us, rest)
    else if c.toNat < 32 then none
    else do
      let (us, rest) ← body rest
      return (units c ++ us, rest)

theorem hexValue_digitChar {d : Nat} (h : d < 16) : hexValue (Nat.digitChar d) = some d := by
  have hall : ∀ d < 16, hexValue (Nat.digitChar d) = some d := by decide
  exact hall d h

theorem body_quote (rest : List Char) : body ('"' :: rest) = some ([], rest) := by
  rw [body.eq_def]
  exact if_pos rfl

theorem body_letter {u : Nat} {letter : Char} (h : (u, letter) ∈ letters) (rest : List Char) :
    body ('\\' :: letter :: rest) = (body rest).map fun read => (u :: read.1, read.2) := by
  have hall : ∀ pair ∈ letters, pair.2 ≠ 'u' ∧ unescape pair.2 = some pair.1 := by decide
  obtain ⟨hne, hread⟩ := hall _ h
  rw [body.eq_def]
  dsimp only
  rw [if_neg (by decide), if_pos rfl, if_neg hne, hread]
  cases body rest <;> rfl

theorem body_hex {u : Nat} (h : u < 0x10000) (rest : List Char) :
    body ('\\' :: 'u' :: (hex u ++ rest)) = (body rest).map fun read => (u :: read.1, read.2) := by
  have hsum : u / 4096 * 4096 + u / 256 % 16 * 256 + u / 16 % 16 * 16 + u % 16 = u := by omega
  rw [body.eq_def]
  dsimp only [hex, List.cons_append, List.nil_append]
  rw [if_neg (by decide), if_pos rfl, if_pos rfl, hexValue_digitChar (by omega),
    hexValue_digitChar (by omega), hexValue_digitChar (by omega), hexValue_digitChar (by omega)]
  cases hrest : body rest with
  | none => simp
  | some read => simp [hsum]

theorem toNat_ofNat {u : Nat} (h : u ≤ 126) : (Char.ofNat u).toNat = u := by
  have hvalid : u.isValidChar := .inl (by omega)
  rw [Char.ofNat, dif_pos hvalid]
  rfl

theorem body_plain {u : Nat} (hlow : 32 ≤ u) (hhigh : u ≤ 126) (hletter : letters.lookup u = none)
    (rest : List Char) :
    body (Char.ofNat u :: rest) = (body rest).map fun read => (u :: read.1, read.2) := by
  have htoNat := toNat_ofNat hhigh
  have hquote : Char.ofNat u ≠ '"' := by
    intro hsame
    rw [hsame] at htoNat
    rw [← htoNat] at hletter
    cases hletter
  have hslash : Char.ofNat u ≠ '\\' := by
    intro hsame
    rw [hsame] at htoNat
    rw [← htoNat] at hletter
    cases hletter
  rw [body.eq_def]
  dsimp only
  rw [if_neg hquote, if_neg hslash, htoNat, if_neg (by omega), units, htoNat, if_pos (by omega)]
  cases body rest <;> rfl

/-- The reader undoes an escape. -/
theorem body_escape {u : Nat} (h : u < 0x10000) (rest : List Char) :
    body (escape u ++ rest) = (body rest).map fun read => (u :: read.1, read.2) := by
  unfold escape
  cases hletter : letters.lookup u with
  | some letter =>
      obtain ⟨before, after, hsplit, -⟩ := List.lookup_eq_some_iff.mp hletter
      exact body_letter (hsplit ▸ by simp) rest
  | none =>
      dsimp only
      split
      · rename_i hplain
        exact body_plain hplain.1 hplain.2 hletter rest
      · exact body_hex h rest

theorem body_escapes {us : List Nat} (h : ∀ u ∈ us, u < 0x10000) (rest : List Char) :
    body (us.flatMap escape ++ '"' :: rest) = some (us, rest) := by
  induction us with
  | nil => exact body_quote rest
  | cons u us ih =>
      rw [List.flatMap_cons, List.append_assoc, body_escape (h u (List.mem_cons_self ..)),
        ih fun v hv => h v (List.mem_cons_of_mem _ hv), Option.map_some]

/-! ### Objects -/

def isNumberChar (c : Char) : Bool := c.isDigit || ['-', '+', '.', 'e', 'E'].contains c

/-- A number, as its text. -/
@[ext] structure Number where
  text : List Char
  nonempty : text ≠ []
  chars : ∀ c ∈ text, isNumberChar c

inductive Value where
  | string (text : String)
  | number (n : Number)

abbrev Members := List (String × Value)

def dumpString (text : String) : List Char :=
  '"' :: (text.toList.flatMap units).flatMap escape ++ ['"']

def dumpValue : Value → List Char
  | .string text => dumpString text
  | .number n => n.text

def dumpMember (member : String × Value) : List Char :=
  dumpString member.1 ++ ':' :: ' ' :: dumpValue member.2

def dumpMembers : Members → List Char
  | [] => []
  | [member] => dumpMember member
  | member :: rest => dumpMember member ++ ',' :: ' ' :: dumpMembers rest

/-- The text of an object. -/
def dump (members : Members) : List Char := '{' :: dumpMembers members ++ ['}']

def isSpace (c : Char) : Bool := [' ', '\t', '\n', '\r'].contains c

def skip (text : List Char) : List Char := text.dropWhile isSpace

def readString (text : List Char) : Option (String × List Char) :=
  match text with
  | '"' :: rest => do
    let (us, rest) ← body rest
    let read ← chars us
    return (String.ofList read, rest)
  | _ => none

def readValue (text : List Char) : Option (Value × List Char) :=
  if text.head? = some '"' then
    (readString text).map fun read => (.string read.1, read.2)
  else if h : text.takeWhile isNumberChar = [] then none
  else some (.number ⟨text.takeWhile isNumberChar, h, fun _ hc => List.mem_takeWhile_imp hc⟩,
    text.dropWhile isNumberChar)

def readMember (text : List Char) : Option ((String × Value) × List Char) := do
  let (name, text) ← readString (skip text)
  match skip text with
  | ':' :: text =>
    let (value, text) ← readValue (skip text)
    return ((name, value), text)
  | _ => none

/-- The members up to the closing brace, no more of them than there is fuel. -/
def readMembers : Nat → List Char → Option (Members × List Char)
  | 0, _ => none
  | fuel + 1, text => do
    let (member, text) ← readMember text
    match skip text with
    | ',' :: text =>
      let (members, text) ← readMembers fuel text
      return (member :: members, text)
    | '}' :: text => return ([member], text)
    | _ => none

/-- The object behind an opening brace. -/
def readRest (text : List Char) : Option Members := do
  let (members, text) ← if (skip text).head? = some '}' then some ([], (skip text).tail)
    else readMembers text.length text
  if skip text = [] then some members else none

/-- The object that a text is, with spacing around it. -/
def read (text : List Char) : Option Members :=
  match skip text with
  | '{' :: text => readRest text
  | _ => none

theorem readString_dumpString (text : String) (rest : List Char) :
    readString (dumpString text ++ rest) = some (text, rest) := by
  have hunits : ∀ u ∈ text.toList.flatMap units, u < 0x10000 := by
    intro u hu
    obtain ⟨c, -, hu⟩ := List.mem_flatMap.mp hu
    exact units_lt hu
  rw [dumpString, List.append_assoc, List.singleton_append, List.cons_append, readString,
    body_escapes hunits]
  simp [chars_flatMap_units]

theorem head_dumpString (text : String) (rest : List Char) :
    (dumpString text ++ rest).head? = some '"' := rfl

/-- What follows a number in an object. -/
def Ends (rest : List Char) : Prop := ∃ c tail, rest = c :: tail ∧ isNumberChar c = false

theorem takeWhile_number (n : Number) {rest : List Char} (h : Ends rest) :
    (n.text ++ rest).takeWhile isNumberChar = n.text ∧
      (n.text ++ rest).dropWhile isNumberChar = rest := by
  obtain ⟨c, tail, rfl, hc⟩ := h
  have hstop : ¬ isNumberChar c = true := by
    rw [hc]
    decide
  constructor
  · rw [List.takeWhile_append_of_pos n.chars, List.takeWhile_cons_of_neg hstop, List.append_nil]
  · rw [List.dropWhile_append_of_pos n.chars, List.dropWhile_cons_of_neg hstop]

theorem readValue_dumpValue (value : Value) {rest : List Char} (h : Ends rest) :
    readValue (dumpValue value ++ rest) = some (value, rest) := by
  cases value with
  | string text =>
      rw [dumpValue, readValue, if_pos (head_dumpString text rest), readString_dumpString]
      rfl
  | number n =>
      obtain ⟨htake, hdrop⟩ := takeWhile_number n h
      have hhead : (n.text ++ rest).head? ≠ some '"' := by
        intro hquote
        cases htext : n.text with
        | nil => exact n.nonempty htext
        | cons c tail =>
            rw [htext, List.cons_append, List.head?_cons, Option.some.injEq] at hquote
            have hnumber := n.chars c (htext ▸ List.mem_cons_self ..)
            rw [hquote] at hnumber
            cases hnumber
      have hnonempty : ¬ (n.text ++ rest).takeWhile isNumberChar = [] := by
        rw [htake]
        exact n.nonempty
      rw [dumpValue, readValue, if_neg hhead, dif_neg hnonempty, hdrop]
      exact congrArg (fun n => some (Value.number n, rest)) (Number.ext htake)

theorem skip_of_head {c : Char} (h : isSpace c = false) (rest : List Char) :
    skip (c :: rest) = c :: rest :=
  List.dropWhile_cons_of_neg (by rw [h]; decide)

theorem skip_space (rest : List Char) : skip (' ' :: rest) = skip rest :=
  List.dropWhile_cons_of_pos (by decide)

theorem isSpace_of_isNumberChar {c : Char} (h : isNumberChar c) : isSpace c = false := by
  have hall : ∀ d ∈ [' ', '\t', '\n', '\r'], isNumberChar d = false := by
    intro d hd
    simp only [List.mem_cons, List.not_mem_nil, or_false] at hd
    rcases hd with rfl | rfl | rfl | rfl <;> decide
  cases hspace : isSpace c with
  | false => rfl
  | true =>
      rw [hall c (List.contains_iff_mem.mp hspace)] at h
      cases h

theorem skip_dumpString (text : String) (rest : List Char) :
    skip (dumpString text ++ rest) = dumpString text ++ rest :=
  skip_of_head (by decide) _

theorem skip_dumpValue (value : Value) (rest : List Char) :
    skip (dumpValue value ++ rest) = dumpValue value ++ rest := by
  cases value with
  | string text => exact skip_dumpString text rest
  | number n =>
      cases htext : n.text with
      | nil => exact absurd htext n.nonempty
      | cons c tail =>
          rw [dumpValue, htext]
          exact skip_of_head (isSpace_of_isNumberChar (n.chars c (htext ▸ List.mem_cons_self ..))) _

theorem readMember_dumpMember (member : String × Value) {rest : List Char} (h : Ends rest) :
    readMember (dumpMember member ++ rest) = some (member, rest) := by
  obtain ⟨name, value⟩ := member
  rw [dumpMember, List.append_assoc, readMember, skip_dumpString, readString_dumpString]
  simp only [List.cons_append, Option.bind_eq_bind, Option.bind_some,
    skip_of_head (c := ':') (by decide), skip_space, skip_dumpValue, readValue_dumpValue value h,
    Option.pure_def]

theorem readMembers_space (fuel : Nat) (text : List Char) :
    readMembers fuel (' ' :: text) = readMembers fuel text := by
  cases fuel with
  | zero => rfl
  | succ fuel => rw [readMembers, readMembers, readMember, readMember, skip_space]

theorem readMembers_dumpMembers (members : Members) (hne : members ≠ []) (fuel : Nat)
    (hfuel : members.length ≤ fuel) (rest : List Char) :
    readMembers fuel (dumpMembers members ++ '}' :: rest) = some (members, rest) := by
  induction members generalizing fuel with
  | nil => exact absurd rfl hne
  | cons member members ih =>
      obtain ⟨fuel, rfl⟩ : ∃ n, fuel = n + 1 :=
        Nat.exists_eq_succ_of_ne_zero (Nat.ne_zero_of_lt (Nat.lt_of_lt_of_le (Nat.succ_pos _) hfuel))
      cases members with
      | nil =>
          have hends : Ends ('}' :: rest) := ⟨'}', rest, rfl, by decide⟩
          rw [dumpMembers, readMembers, readMember_dumpMember member hends]
          simp [skip_of_head (c := '}') (by decide)]
      | cons other members =>
          have htail := ih (List.cons_ne_nil _ _) fuel (Nat.le_of_succ_le_succ hfuel)
          have hends : Ends (',' :: ' ' :: (dumpMembers (other :: members) ++ '}' :: rest)) :=
            ⟨',', _, rfl, by decide⟩
          rw [dumpMembers.eq_3 _ _ (List.cons_ne_nil _ _), List.append_assoc, List.cons_append,
            List.cons_append, readMembers, readMember_dumpMember member hends]
          simp only [Option.bind_eq_bind, Option.bind_some, skip_of_head (c := ',') (by decide),
            readMembers_space, htail, Option.pure_def]

theorem length_le_dumpMembers (members : Members) : members.length ≤ (dumpMembers members).length := by
  induction members with
  | nil => exact Nat.zero_le _
  | cons member members ih =>
      cases members with
      | nil =>
          rw [dumpMembers, dumpMember, List.length_append]
          exact Nat.le_add_right_of_le (Nat.succ_le_succ (Nat.zero_le _))
      | cons other members =>
          rw [dumpMembers.eq_3 _ _ (List.cons_ne_nil _ _)]
          simp only [List.length_append, List.length_cons] at ih ⊢
          omega

/-- **The reader undoes the writer.** -/
theorem read_dump (members : Members) : read (dump members) = some members := by
  cases members with
  | nil => rfl
  | cons member members =>
      have hlength : (member :: members).length ≤ (dumpMembers (member :: members) ++ ['}']).length := by
        rw [List.length_append]
        exact Nat.le_add_right_of_le (length_le_dumpMembers _)
      have hread := readMembers_dumpMembers (member :: members) (List.cons_ne_nil _ _) _ hlength []
      have hhead : ∃ rest, dumpMembers (member :: members) ++ ['}'] = '"' :: rest := by
        cases members <;> exact ⟨_, rfl⟩
      obtain ⟨rest, hrest⟩ := hhead
      have hbrace : ¬ ('"' :: rest).head? = some '}' := by simp
      rw [dump, read, List.cons_append, skip_of_head (by decide)]
      change readRest _ = _
      rw [hrest] at hread ⊢
      rw [readRest, skip_of_head (by decide), if_neg hbrace, hread]
      rfl

/-! ### The characters of a text -/

def IsPrintable (c : Char) : Prop := 32 ≤ c.toNat ∧ c.toNat ≤ 126

instance (c : Char) : Decidable (IsPrintable c) := inferInstanceAs (Decidable (_ ∧ _))

theorem isPrintable_hex {u : Nat} (h : u < 0x10000) {c : Char} (hc : c ∈ hex u) : IsPrintable c := by
  have hall : ∀ d < 16, IsPrintable (Nat.digitChar d) := by decide
  simp only [hex, List.mem_cons, List.not_mem_nil, or_false] at hc
  rcases hc with rfl | rfl | rfl | rfl
  · exact hall _ (by omega)
  · exact hall _ (by omega)
  · exact hall _ (by omega)
  · exact hall _ (by omega)

theorem isPrintable_escape {u : Nat} (h : u < 0x10000) {c : Char} (hc : c ∈ escape u) :
    IsPrintable c := by
  unfold escape at hc
  cases hletter : letters.lookup u with
  | some letter =>
      have hall : ∀ pair ∈ letters, IsPrintable pair.2 := by decide
      obtain ⟨before, after, hsplit, -⟩ := List.lookup_eq_some_iff.mp hletter
      rw [hletter] at hc
      rcases List.mem_pair.mp hc with rfl | rfl
      · decide
      · exact hall (u, c) (hsplit ▸ by simp)
  | none =>
      rw [hletter] at hc
      dsimp only at hc
      split at hc
      · rename_i hplain
        rw [List.mem_singleton.mp hc, IsPrintable, toNat_ofNat hplain.2]
        exact hplain
      · rcases List.mem_cons.mp hc with rfl | hc
        · decide
        · rcases List.mem_cons.mp hc with rfl | hc
          · decide
          · exact isPrintable_hex h hc

theorem isPrintable_dumpString {text : String} {c : Char} (hc : c ∈ dumpString text) :
    IsPrintable c := by
  rw [dumpString, List.cons_append, List.mem_cons, List.mem_append, List.mem_flatMap] at hc
  rcases hc with rfl | ⟨u, hu, hc⟩ | hquote
  · decide
  · obtain ⟨d, -, hu⟩ := List.mem_flatMap.mp hu
    exact isPrintable_escape (units_lt hu) hc
  · rw [List.mem_singleton.mp hquote]
    decide

theorem isPrintable_of_isNumberChar {c : Char} (h : isNumberChar c) : IsPrintable c := by
  have hall : ∀ d ∈ ['-', '+', '.', 'e', 'E'], IsPrintable d := by
    intro d hd
    simp only [List.mem_cons, List.not_mem_nil, or_false] at hd
    rcases hd with rfl | rfl | rfl | rfl | rfl <;> decide
  rcases Bool.or_eq_true_iff.mp h with hdigit | hsign
  · obtain ⟨hlow, hhigh⟩ := Char.isDigit_iff_toNat.mp hdigit
    exact ⟨le_trans (by decide) hlow, le_trans hhigh (by decide)⟩
  · exact hall c (List.contains_iff_mem.mp hsign)

theorem isPrintable_dumpMember {member : String × Value} {c : Char} (hc : c ∈ dumpMember member) :
    IsPrintable c := by
  obtain ⟨name, value⟩ := member
  simp only [dumpMember, List.mem_append, List.mem_cons] at hc
  rcases hc with hname | rfl | rfl | hvalue
  · exact isPrintable_dumpString hname
  · decide
  · decide
  · cases value with
    | string text => exact isPrintable_dumpString hvalue
    | number n => exact isPrintable_of_isNumberChar (n.chars c hvalue)

theorem isPrintable_dumpMembers {members : Members} {c : Char} (hc : c ∈ dumpMembers members) :
    IsPrintable c := by
  induction members with
  | nil => cases hc
  | cons member members ih =>
      cases members with
      | nil => exact isPrintable_dumpMember hc
      | cons other members =>
          rw [dumpMembers.eq_3 _ _ (List.cons_ne_nil _ _)] at hc
          simp only [List.mem_append, List.mem_cons] at hc
          rcases hc with hmember | rfl | rfl | hrest
          · exact isPrintable_dumpMember hmember
          · decide
          · decide
          · exact ih hrest

/-- A text is in the printable part of ASCII, and so on one line. -/
theorem isPrintable_dump {members : Members} {c : Char} (hc : c ∈ dump members) : IsPrintable c := by
  simp only [dump, List.cons_append, List.mem_cons, List.mem_append, List.not_mem_nil, or_false] at hc
  rcases hc with rfl | hmembers | rfl
  · decide
  · exact isPrintable_dumpMembers hmembers
  · decide

/-! ### Integers -/

/-- A sign and decimal digits. -/
theorem toList_intToString (n : Int) :
    (toString n).toList = (if n < 0 then ['-'] else []) ++ Nat.toDigits 10 n.natAbs := by
  cases n with
  | ofNat n =>
      have hnonneg : ¬ Int.ofNat n < 0 := Int.not_lt.mpr (Int.natCast_nonneg n)
      rw [if_neg hnonneg, List.nil_append]
      exact Nat.toList_repr
  | negSucc n =>
      rw [if_pos (Int.negSucc_lt_zero n)]
      change ("-" ++ Nat.repr (n + 1)).toList = _
      rw [String.toList_append, Nat.toList_repr]
      rfl

/-- The text of an integer. -/
def Number.ofInt (n : Int) : Number where
  text := (toString n).toList
  nonempty := by
    rw [toList_intToString]
    exact List.append_ne_nil_of_right_ne_nil _ Nat.toDigits_ne_nil
  chars := by
    intro c hc
    rw [toList_intToString, List.mem_append] at hc
    rcases hc with hsign | hdigit
    · split at hsign
      · rw [List.mem_singleton.mp hsign]
        decide
      · cases hsign
    · exact Bool.or_eq_true_iff.mpr (.inl (Nat.isDigit_of_mem_toDigits (by decide) (by decide) hdigit))

theorem Number.ofInt_injective {m n : Int} (h : ofInt m = ofInt n) : m = n := by
  have htext : (toString m).toList = (toString n).toList := congrArg Number.text h
  have hhead : ∀ k : Nat, (Nat.toDigits 10 k).head? ≠ some '-' := by
    intro k hminus
    have hdigit := Nat.isDigit_of_mem_toDigits (by decide) (by decide) (List.mem_of_mem_head? hminus)
    cases hdigit
  have hvalue : ∀ {j k : Nat}, Nat.toDigits 10 j = Nat.toDigits 10 k → j = k := by
    intro j k hdigits
    rw [← Nat.ofDigitChars_ten_toDigits (n := j), hdigits, Nat.ofDigitChars_ten_toDigits]
  rw [toList_intToString, toList_intToString] at htext
  by_cases hm : m < 0
  · by_cases hn : n < 0
    · rw [if_pos hm, if_pos hn] at htext
      have habs := hvalue (List.append_cancel_left htext)
      omega
    · rw [if_pos hm, if_neg hn] at htext
      exact absurd (congrArg List.head? htext).symm (hhead _)
  · by_cases hn : n < 0
    · rw [if_neg hm, if_pos hn] at htext
      exact absurd (congrArg List.head? htext) (hhead _)
    · rw [if_neg hm, if_neg hn] at htext
      have habs := hvalue (List.append_cancel_left htext)
      omega

end Json
