import Mathlib.Data.List.Forall2
import Mathlib.Data.List.TakeWhile
import Mathlib.Tactic.Common

namespace bits

/-- The value of a digit; hexadecimal digits come in either case. -/
def digit_value (c : Char) : Option Nat :=
  if '0'.toNat ≤ c.toNat ∧ c.toNat ≤ '9'.toNat then some (c.toNat - '0'.toNat)
  else if 'a'.toNat ≤ c.toNat ∧ c.toNat ≤ 'f'.toNat then some (c.toNat - 'a'.toNat + 10)
  else if 'A'.toNat ≤ c.toNat ∧ c.toNat ≤ 'F'.toNat then some (c.toNat - 'A'.toNat + 10)
  else none

def is_digit (base : Nat) (c : Char) : Bool := (digit_value c).any fun d => decide (d < base)

/-- The number that digits stand for. -/
def numeral_value (base : Nat) (digits : List Char) : Nat :=
  digits.foldl (fun v c => base * v + (digit_value c).getD 0) 0

structure IsNumeral (base : Nat) (digits : List Char) (value : Nat) : Prop where
  nonempty : digits ≠ []
  all_digits : ∀ c ∈ digits, is_digit base c = true
  value_eq : numeral_value base digits = value

/-- A text that spells numbers: a numeral for each, with separators between them. -/
def Spells (base : Nat) (sep : Char) (text : List Char) (values : List Nat) : Prop :=
  ∃ numerals : List (List Char), text = [sep].intercalate numerals ∧
    List.Forall₂ (IsNumeral base) numerals values

/-- What Python's `int` makes of a text of digits. -/
def int_of_text (base : Nat) (text : List Char) : Option Nat :=
  if text ≠ [] ∧ text.all (is_digit base) then some (numeral_value base text) else none

/-- Python's `[int(x) for x in text.split(sep)]`. -/
def split_ints (base : Nat) (sep : Char) (text : List Char) : Option (List Nat) :=
  (text.splitOn sep).mapM (int_of_text base)

/-- The numbers that C's `sscanf` converts, given `n` integer directives with separators
between them. It stops at the first mismatch. A directive is taken to match digits; the
blanks and signs it also matches do not occur in addresses. -/
def scan_ints (base : Nat) (sep : Char) : Nat → List Char → List Nat
  | 0, _ => []
  | n + 1, text =>
    if text.takeWhile (is_digit base) = [] then []
    else
      numeral_value base (text.takeWhile (is_digit base)) ::
        match text.dropWhile (is_digit base) with
        | [] => []
        | c :: rest => if c = sep then scan_ints base sep n rest else []

theorem IsNumeral.int_of_text {base value : Nat} {digits : List Char}
    (h : IsNumeral base digits value) : int_of_text base digits = some value := by
  rw [bits.int_of_text, if_pos ⟨h.nonempty, List.all_eq_true.mpr h.all_digits⟩, h.value_eq]

theorem IsNumeral.not_mem {base value : Nat} {digits : List Char} {sep : Char}
    (h : IsNumeral base digits value) (hsep : is_digit base sep = false) : sep ∉ digits := by
  intro hmem
  rw [h.all_digits sep hmem] at hsep
  cases hsep

/-- Each of the numerals is one. -/
theorem forall_isNumeral {base : Nat} {numerals : List (List Char)} {values : List Nat}
    (h : List.Forall₂ (IsNumeral base) numerals values) :
    ∀ digits ∈ numerals, ∃ value, IsNumeral base digits value := by
  induction h with
  | nil =>
    intro digits hmem
    cases hmem
  | @cons first value numerals values hnumeral _ ih =>
    intro digits hmem
    rcases List.mem_cons.mp hmem with rfl | hrest
    · exact ⟨value, hnumeral⟩
    · exact ih digits hrest

theorem mapM_int_of_text {base : Nat} {numerals : List (List Char)} {values : List Nat}
    (h : List.Forall₂ (IsNumeral base) numerals values) :
    numerals.mapM (int_of_text base) = some values := by
  induction h with
  | nil => rfl
  | @cons digits value numerals values hnumeral _ ih =>
    rw [List.mapM_cons, hnumeral.int_of_text, ih]
    rfl

/-- Python reads the numbers that a text spells. -/
theorem Spells.split_ints {base : Nat} {sep : Char} {text : List Char} {values : List Nat}
    (h : Spells base sep text values) (hsep : is_digit base sep = false) (hsome : values ≠ []) :
    split_ints base sep text = some values := by
  obtain ⟨numerals, rfl, hnumerals⟩ := h
  have hclear : ∀ digits ∈ numerals, sep ∉ digits := by
    intro digits hmem
    obtain ⟨value, hnumeral⟩ := forall_isNumeral hnumerals digits hmem
    exact hnumeral.not_mem hsep
  have hne : numerals ≠ [] := by
    rintro rfl
    cases hnumerals
    exact hsome rfl
  rw [bits.split_ints, List.splitOn_intercalate sep hclear hne, mapM_int_of_text hnumerals]

/-- A text that is put together from digits spells their values. -/
theorem spells_intercalate (base : Nat) (sep : Char) (numerals : List (List Char))
    (hdigits : numerals.all (fun digits => !digits.isEmpty && digits.all (is_digit base)) = true) :
    Spells base sep ([sep].intercalate numerals) (numerals.map (numeral_value base)) := by
  refine ⟨numerals, rfl, ?_⟩
  rw [List.forall₂_map_right_iff, List.forall₂_same]
  intro digits hmem
  have hnumeral := List.all_eq_true.mp hdigits digits hmem
  simp only [Bool.and_eq_true, Bool.not_eq_true', List.isEmpty_eq_false_iff] at hnumeral
  exact ⟨hnumeral.1, List.all_eq_true.mp hnumeral.2, rfl⟩

/-- A directive takes the digits in front of a separator and leaves the separator. -/
theorem IsNumeral.span {base value : Nat} {digits : List Char} {sep : Char}
    (h : IsNumeral base digits value) (hsep : is_digit base sep = false) (rest : List Char) :
    (digits ++ sep :: rest).takeWhile (is_digit base) = digits ∧
      (digits ++ sep :: rest).dropWhile (is_digit base) = sep :: rest := by
  have hstop : ¬is_digit base sep = true := by simp [hsep]
  constructor
  · rw [List.takeWhile_append_of_pos h.all_digits, List.takeWhile_cons_of_neg hstop,
      List.append_nil]
  · rw [List.dropWhile_append_of_pos h.all_digits, List.dropWhile_cons_of_neg hstop]

/-- C reads the numbers that a text spells, when it asks for as many. -/
theorem Spells.scan_ints {base : Nat} {sep : Char} {text : List Char} {values : List Nat}
    (h : Spells base sep text values) (hsep : is_digit base sep = false) :
    scan_ints base sep values.length text = values := by
  obtain ⟨numerals, rfl, hnumerals⟩ := h
  induction hnumerals with
  | nil => rfl
  | @cons digits value numerals values hnumeral hrest ih =>
    cases hrest with
    | nil =>
      have htake : digits.takeWhile (is_digit base) = digits :=
        List.takeWhile_eq_self_iff.mpr hnumeral.all_digits
      have hdrop : digits.dropWhile (is_digit base) = [] :=
        List.dropWhile_eq_nil_iff.mpr hnumeral.all_digits
      simp [bits.scan_ints, htake, hdrop, hnumeral.nonempty, hnumeral.value_eq]
    | @cons next value' numerals values hnext htail =>
      obtain ⟨htake, hdrop⟩ := hnumeral.span hsep ([sep].intercalate (next :: numerals))
      have htext : [sep].intercalate (digits :: next :: numerals) =
          digits ++ sep :: [sep].intercalate (next :: numerals) := by
        simp [List.intercalate]
      rw [List.length_cons, bits.scan_ints, htext, htake, hdrop, if_neg hnumeral.nonempty,
        hnumeral.value_eq]
      simp only [if_true]
      rw [ih]

end bits
