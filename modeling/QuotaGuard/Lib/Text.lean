import Mathlib.Data.List.Basic
import Mathlib.Data.Int.Basic
import Mathlib.Algebra.Ring.Nat

/-!
# Separators and decimal text

Names built by joining parts with a separator, and numbers printed with a fixed width, are read back
here. A part that does not contain the separator is determined by the joined name, whatever follows
the separator; a zero-padded decimal determines its number, and of two decimals of one width the
smaller number comes first as a text.
-/

namespace Text

private theorem split_inj {α : Type*} {a : α} {left left' right right' : List α}
    (hleft : a ∉ left) (hleft' : a ∉ left') (h : left ++ a :: right = left' ++ a :: right') :
    left = left' ∧ right = right' := by
  induction left generalizing left' with
  | nil =>
      cases left' with
      | nil => exact ⟨rfl, (List.cons.inj h).2⟩
      | cons b left' =>
          obtain ⟨rfl, -⟩ := List.cons.inj h
          exact absurd (List.mem_cons_self ..) hleft'
  | cons b left ih =>
      cases left' with
      | nil =>
          obtain ⟨rfl, -⟩ := List.cons.inj h
          exact absurd (List.mem_cons_self ..) hleft
      | cons b' left' =>
          obtain ⟨rfl, htail⟩ := List.cons.inj h
          obtain ⟨rfl, rfl⟩ := ih (fun hmem => hleft (List.mem_cons_of_mem _ hmem))
            (fun hmem => hleft' (List.mem_cons_of_mem _ hmem)) htail
          exact ⟨rfl, rfl⟩

/-- A separator splits a text at one place only, as long as neither left part contains it. -/
theorem append_sep_inj {sep : Char} {left left' right right' : String}
    (hleft : sep ∉ left.toList) (hleft' : sep ∉ left'.toList)
    (h : left ++ String.singleton sep ++ right = left' ++ String.singleton sep ++ right') :
    left = left' ∧ right = right' := by
  have hlist := congrArg String.toList h
  simp only [String.toList_append, String.toList_singleton, List.append_assoc,
    List.singleton_append] at hlist
  obtain ⟨hl, hr⟩ := split_inj hleft hleft' hlist
  exact ⟨String.toList_injective hl, String.toList_injective hr⟩

/-- The decimal digits of a number, with zeros in front up to the width. -/
def pad (width n : Nat) : String :=
  String.ofList (List.replicate (width - (Nat.toDigits 10 n).length) '0' ++ Nat.toDigits 10 n)

/-- C's `%0<width>d`: the sign counts towards the width. -/
def zeroPad (width : Nat) (n : Int) : String :=
  if n < 0 then "-" ++ pad (width - 1) n.natAbs else pad width n.natAbs

theorem toList_pad (width n : Nat) :
    (pad width n).toList =
      List.replicate (width - (Nat.toDigits 10 n).length) '0' ++ Nat.toDigits 10 n := by
  rw [pad, String.toList_ofList]

theorem isDigit_of_mem_pad {width n : Nat} {c : Char} (h : c ∈ (pad width n).toList) :
    c.isDigit := by
  rw [toList_pad, List.mem_append, List.mem_replicate] at h
  rcases h with ⟨-, rfl⟩ | h
  · decide
  · exact Nat.isDigit_of_mem_toDigits (by decide) (by decide) h

theorem length_pad {width n : Nat} (hwidth : 0 < width) (h : n < 10 ^ width) :
    (pad width n).toList.length = width := by
  have hshort := (Nat.length_toDigits_le_iff (by decide) hwidth).mpr h
  rw [toList_pad, List.length_append, List.length_replicate]
  omega

theorem value_pad (width n : Nat) : Nat.ofDigitChars 10 (pad width n).toList 0 = n := by
  simp only [toList_pad, Nat.ofDigitChars_append, Nat.ofDigitChars_replicate_zero, Nat.mul_zero,
    Nat.ofDigitChars_ten_toDigits]

theorem pad_injective {width m n : Nat} (h : pad width m = pad width n) : m = n := by
  have hvalue := congrArg (fun s : String => Nat.ofDigitChars 10 s.toList 0) h
  simpa only [value_pad] using hvalue

theorem zeroPad_of_nonneg {width : Nat} {n : Int} (h : 0 ≤ n) :
    zeroPad width n = pad width n.natAbs :=
  if_neg (Int.not_lt.mpr h)

theorem zeroPad_injective {width : Nat} {m n : Int} (hm : 0 ≤ m) (hn : 0 ≤ n)
    (h : zeroPad width m = zeroPad width n) : m = n := by
  rw [zeroPad_of_nonneg hm, zeroPad_of_nonneg hn] at h
  have := pad_injective h
  omega

theorem sep_notMem_zeroPad {sep : Char} (hsep : sep.isDigit = false) {width : Nat} {n : Int}
    (hn : 0 ≤ n) : sep ∉ (zeroPad width n).toList := by
  rw [zeroPad_of_nonneg hn]
  intro hmem
  rw [isDigit_of_mem_pad hmem] at hsep
  cases hsep

theorem toString_injective {m n : Nat} (h : toString m = toString n) : m = n := by
  have hvalue := congrArg (fun s : String => Nat.ofDigitChars 10 s.toList 0) h
  simpa only [Nat.toString_eq_repr, Nat.toList_repr, Nat.ofDigitChars_ten_toDigits] using hvalue

theorem sep_notMem_toString {sep : Char} (hsep : sep.isDigit = false) (n : Nat) :
    sep ∉ (toString n).toList := by
  rw [Nat.toString_eq_repr, Nat.toList_repr]
  intro hmem
  rw [Nat.isDigit_of_mem_toDigits (by decide) (by decide) hmem] at hsep
  cases hsep

/-! ### The order of texts -/

theorem append_lt_append_iff {left left' right right' : List Char}
    (hlength : left.length = left'.length) :
    left ++ right < left' ++ right' ↔ left < left' ∨ left = left' ∧ right < right' := by
  induction left generalizing left' with
  | nil =>
      rw [List.length_nil, eq_comm, List.length_eq_zero_iff] at hlength
      subst hlength
      simp
  | cons c left ih =>
      cases left' with
      | nil => cases hlength
      | cons c' left' =>
          rw [List.length_cons, List.length_cons, Nat.add_right_cancel_iff] at hlength
          simp only [List.cons_append, List.cons_lt_cons_iff, ih hlength, List.cons.injEq]
          tauto

theorem value_lt {digits : List Char} (h : ∀ c ∈ digits, c.isDigit) :
    Nat.ofDigitChars 10 digits 0 < 10 ^ digits.length := by
  induction digits with
  | nil => decide
  | cons c digits ih =>
      have hrest := ih fun d hd => h d (List.mem_cons_of_mem _ hd)
      obtain ⟨hlow, hhigh⟩ := Char.isDigit_iff_toNat.mp (h c (List.mem_cons_self ..))
      rw [Nat.ofDigitChars_cons, Nat.ofDigitChars_eq_ofDigitChars_zero, List.length_cons, Nat.pow_succ]
      have hdigit : 10 * 0 + (c.toNat - '0'.toNat) ≤ 9 := by
        rw [show '9'.toNat = 57 from rfl] at hhigh
        rw [show '0'.toNat = 48 from rfl]
        omega
      have hplace := Nat.mul_le_mul_left (10 ^ digits.length) hdigit
      omega

/-- Digits of one length are ordered as their numbers are. -/
theorem digits_lt_iff {digits digits' : List Char} (h : ∀ c ∈ digits, c.isDigit)
    (h' : ∀ c ∈ digits', c.isDigit) (hlength : digits.length = digits'.length) :
    digits < digits' ↔ Nat.ofDigitChars 10 digits 0 < Nat.ofDigitChars 10 digits' 0 := by
  induction digits generalizing digits' with
  | nil =>
      rw [List.length_nil, eq_comm, List.length_eq_zero_iff] at hlength
      subst hlength
      simp
  | cons c digits ih =>
      cases digits' with
      | nil => cases hlength
      | cons c' digits' =>
          rw [List.length_cons, List.length_cons, Nat.add_right_cancel_iff] at hlength
          obtain ⟨hlow, hhigh⟩ := Char.isDigit_iff_toNat.mp (h c (List.mem_cons_self ..))
          obtain ⟨hlow', hhigh'⟩ := Char.isDigit_iff_toNat.mp (h' c' (List.mem_cons_self ..))
          have hrest : ∀ d ∈ digits, d.isDigit := fun d hd => h d (List.mem_cons_of_mem _ hd)
          have hrest' : ∀ d ∈ digits', d.isDigit := fun d hd => h' d (List.mem_cons_of_mem _ hd)
          have hvalue := value_lt hrest
          have hvalue' := value_lt hrest'
          obtain ⟨d, hd⟩ : ∃ d, d = 10 * 0 + (c.toNat - '0'.toNat) := ⟨_, rfl⟩
          obtain ⟨d', hd'⟩ : ∃ d', d' = 10 * 0 + (c'.toNat - '0'.toNat) := ⟨_, rfl⟩
          have hsplit : Nat.ofDigitChars 10 digits d =
              10 ^ digits.length * d + Nat.ofDigitChars 10 digits 0 :=
            Nat.ofDigitChars_eq_ofDigitChars_zero
          have hsplit' : Nat.ofDigitChars 10 digits' d' =
              10 ^ digits'.length * d' + Nat.ofDigitChars 10 digits' 0 :=
            Nat.ofDigitChars_eq_ofDigitChars_zero
          rw [List.cons_lt_cons_iff, ih hrest hrest' hlength, ← Char.toNat_inj,
            show c < c' ↔ c.toNat < c'.toNat from Iff.rfl, Nat.ofDigitChars_cons,
            Nat.ofDigitChars_cons, ← hd, ← hd', hsplit, hsplit']
          rw [hlength] at hvalue ⊢
          rcases lt_trichotomy c.toNat c'.toNat with hlt | heq | hlt
          · have hplace := Nat.mul_le_mul_left (10 ^ digits'.length) (show d + 1 ≤ d' by omega)
            rw [Nat.mul_add] at hplace
            omega
          · have hplace : d = d' := by omega
            rw [hplace]
            omega
          · have hplace := Nat.mul_le_mul_left (10 ^ digits'.length) (show d' + 1 ≤ d by omega)
            rw [Nat.mul_add] at hplace
            omega

/-- Numbers printed with one width are ordered as texts as they are as numbers. -/
theorem pad_lt_pad_iff {width m n : Nat} (hwidth : 0 < width) (hm : m < 10 ^ width)
    (hn : n < 10 ^ width) : (pad width m).toList < (pad width n).toList ↔ m < n := by
  rw [digits_lt_iff (fun _ => isDigit_of_mem_pad) (fun _ => isDigit_of_mem_pad)
    ((length_pad hwidth hm).trans (length_pad hwidth hn).symm), value_pad, value_pad]

/-! ### Texts of fixed widths -/

/-- Numbers with fixed widths, each with the character behind it. -/
def fields : List (Nat × Char) → List Nat → List Char
  | (width, sep) :: shape, value :: values => (pad width value).toList ++ sep :: fields shape values
  | _, _ => []

/-- The numbers fit their widths. -/
def Fits (shape : List (Nat × Char)) (values : List Nat) : Prop :=
  List.Forall₂ (fun field value => 0 < field.1 ∧ value < 10 ^ field.1) shape values

/-- Texts of one shape are ordered as their numbers are, from the left. -/
theorem fields_lt_iff {shape : List (Nat × Char)} {values values' : List Nat} (h : Fits shape values)
    (h' : Fits shape values') : fields shape values < fields shape values' ↔ values < values' := by
  induction h generalizing values' with
  | nil =>
      cases h'
      exact iff_of_false (List.not_lt_nil _) (List.not_lt_nil _)
  | @cons field value shape values hvalue hrest ih =>
      obtain ⟨width, sep⟩ := field
      obtain ⟨hwidth, hvalue⟩ := hvalue
      cases h' with
      | @cons _ value' _ values' hvalue' hrest' =>
          obtain ⟨-, hvalue'⟩ := hvalue'
          have hlength := (length_pad hwidth hvalue).trans (length_pad hwidth hvalue').symm
          have hsame : (pad width value).toList = (pad width value').toList ↔ value = value' :=
            ⟨fun heq => pad_injective (String.toList_injective heq), fun heq => heq ▸ rfl⟩
          rw [fields, fields, append_lt_append_iff hlength, pad_lt_pad_iff hwidth hvalue hvalue', hsame,
            List.cons_lt_cons_iff, List.cons_lt_cons_iff, ih hrest']
          simp

end Text
