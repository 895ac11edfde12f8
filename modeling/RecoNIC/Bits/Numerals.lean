import Mathlib.Algebra.Order.Ring.Nat
import Mathlib.Tactic.Ring

namespace bits

abbrev Byte := BitVec 8

/-- The `n` low bytes of a number, the least significant first. -/
def little_endian : Nat → Nat → List Byte
  | 0, _ => []
  | n + 1, v => BitVec.ofNat 8 v :: little_endian n (v / 256)

@[simp] theorem little_endian_length (n v : Nat) : (little_endian n v).length = n := by
  induction n generalizing v with
  | zero => rfl
  | succ n ih => rw [little_endian, List.length_cons, ih]

@[simp] theorem little_endian_zero (n : Nat) : little_endian n 0 = List.replicate n 0#8 := by
  induction n with
  | zero => rfl
  | succ n ih => rw [little_endian, Nat.zero_div, ih, List.replicate_succ]

/-- The bytes of a number that is put together from two parts. -/
theorem little_endian_add (m n lo hi : Nat) (hlo : lo < 256 ^ m) :
    little_endian (m + n) (lo + 256 ^ m * hi) = little_endian m lo ++ little_endian n hi := by
  induction m generalizing lo with
  | zero =>
    obtain rfl : lo = 0 := by simpa using hlo
    simp [little_endian]
  | succ m ih =>
    rw [Nat.pow_succ] at hlo
    have hrest : lo / 256 < 256 ^ m := Nat.div_lt_of_lt_mul (by omega)
    have hsum : lo + 256 ^ (m + 1) * hi = lo + 256 * (256 ^ m * hi) := by
      rw [Nat.pow_succ, Nat.mul_comm (256 ^ m) 256, Nat.mul_assoc]
    have hbyte : BitVec.ofNat 8 (lo + 256 * (256 ^ m * hi)) = BitVec.ofNat 8 lo := by
      apply BitVec.eq_of_toNat_eq
      simp only [BitVec.toNat_ofNat]
      omega
    have hquotient : (lo + 256 * (256 ^ m * hi)) / 256 = lo / 256 + 256 ^ m * hi :=
      Nat.add_mul_div_left _ _ (by decide)
    rw [Nat.succ_add, little_endian, hsum, hbyte, hquotient, ih _ hrest, little_endian,
      List.cons_append]

/-- A mask of low bits. -/
theorem and_mask_toNat {w : Nat} (x mask : BitVec w) (k : Nat) (hmask : mask.toNat = 2 ^ k - 1) :
    (x &&& mask).toNat = x.toNat % 2 ^ k := by
  rw [BitVec.toNat_and, hmask, Nat.and_two_pow_sub_one_eq_mod]

/-- Two masks that together cover a word once split it. -/
theorem and_split_toNat {w : Nat} (x high low : BitVec w) (hapart : high &&& low = 0#w)
    (hall : high ||| low = BitVec.allOnes w) : (x &&& high).toNat + (x &&& low).toNat = x.toNat := by
  have hparts : (x &&& high) &&& (x &&& low) = 0#w := by
    rw [BitVec.and_assoc, ← BitVec.and_assoc high, BitVec.and_comm high, BitVec.and_assoc x, hapart,
      BitVec.and_zero, BitVec.and_zero]
  rw [← BitVec.toNat_add_of_and_eq_zero hparts, BitVec.add_eq_or_of_and_eq_zero _ _ hparts,
    ← BitVec.and_or_distrib_left, hall, BitVec.and_allOnes]

/-- The value of one word in front of another. -/
theorem append_toNat {v w : Nat} (high : BitVec v) (low : BitVec w) :
    (high ++ low).toNat = high.toNat * 2 ^ w + low.toNat := by
  rw [BitVec.toNat_append, Nat.shiftLeft_eq, Nat.mul_comm, Nat.two_pow_add_eq_or_of_lt low.isLt]

/-- A mask sees only the low bits of a number. -/
theorem mod_and_mask (n : Nat) {mask k : Nat} (hmask : mask < 2 ^ k) :
    n % 2 ^ k &&& mask = n &&& mask := by
  rw [← Nat.and_two_pow_sub_one_eq_mod n k, Nat.and_assoc, Nat.and_comm (2 ^ k - 1) mask,
    Nat.and_two_pow_sub_one_eq_mod, Nat.mod_eq_of_lt hmask]

/-- Octets that are shifted into their places and joined. -/
theorem join_octets {a b c d : Nat} (hb : b < 256) (hc : c < 256) (hd : d < 256) :
    a <<< 24 ||| b <<< 16 ||| c <<< 8 ||| d = a * 2 ^ 24 + b * 2 ^ 16 + c * 2 ^ 8 + d := by
  have hcd : c <<< 8 ||| d = c * 2 ^ 8 + d := by
    rw [← Nat.shiftLeft_add_eq_or_of_lt (by omega), Nat.shiftLeft_eq]
  have hbcd : b <<< 16 ||| (c * 2 ^ 8 + d) = b * 2 ^ 16 + (c * 2 ^ 8 + d) := by
    rw [← Nat.shiftLeft_add_eq_or_of_lt (by omega), Nat.shiftLeft_eq]
  rw [Nat.or_assoc, Nat.or_assoc, hcd, hbcd, ← Nat.shiftLeft_add_eq_or_of_lt (by omega),
    Nat.shiftLeft_eq]
  omega

/-- The digits of a number in base 16, with zeros in front up to the width. -/
def format_hex (width n : Nat) : List Char :=
  List.replicate (width - (Nat.toDigits 16 n).length) '0' ++ Nat.toDigits 16 n

def hex_digit (c : Char) : Nat :=
  if c.toNat < 'a'.toNat then c.toNat - '0'.toNat else c.toNat - 'a'.toNat + 10

/-- The number that hexadecimal digits stand for, after what stood in front of them. -/
def hex_value_from (acc : Nat) (digits : List Char) : Nat :=
  digits.foldl (fun v c => 16 * v + hex_digit c) acc

def hex_value (digits : List Char) : Nat := hex_value_from 0 digits

theorem hex_digit_digitChar : ∀ d < 16, hex_digit d.digitChar = d := by decide

theorem hex_value_from_eq (acc : Nat) (digits : List Char) :
    hex_value_from acc digits = 16 ^ digits.length * acc + hex_value digits := by
  induction digits generalizing acc with
  | nil => simp [hex_value_from, hex_value]
  | cons c digits ih =>
    have hacc := ih (16 * acc + hex_digit c)
    have hzero := ih (16 * 0 + hex_digit c)
    simp only [hex_value, hex_value_from, List.foldl_cons, List.length_cons, Nat.pow_succ] at *
    rw [hacc, hzero]
    ring

/-- Digits behind others. -/
theorem hex_value_append (front back : List Char) :
    hex_value (front ++ back) = 16 ^ back.length * hex_value front + hex_value back := by
  rw [hex_value, hex_value_from, List.foldl_append]
  exact hex_value_from_eq _ back

theorem hex_value_replicate_zero (n : Nat) : hex_value (List.replicate n '0') = 0 := by
  induction n with
  | zero => rfl
  | succ n ih =>
    rw [List.replicate_succ, ← List.singleton_append, hex_value_append, ih]
    rfl

theorem hex_value_toDigits (n : Nat) : hex_value (Nat.toDigits 16 n) = n := by
  induction n using Nat.strongRecOn with
  | ind n ih =>
    by_cases hsmall : n < 16
    · rw [Nat.toDigits_of_lt_base hsmall]
      exact (Nat.zero_add _).trans (hex_digit_digitChar n hsmall)
    · have hlast : n % 16 < 16 := Nat.mod_lt _ (by decide)
      rw [Nat.toDigits_of_base_le (by decide) (by omega), hex_value_append, ih _ (by omega)]
      have hvalue : hex_value [(n % 16).digitChar] = n % 16 :=
        (Nat.zero_add _).trans (hex_digit_digitChar _ hlast)
      rw [hvalue, List.length_singleton]
      omega

@[simp] theorem hex_value_format_hex (width n : Nat) : hex_value (format_hex width n) = n := by
  rw [format_hex, hex_value_append, hex_value_replicate_zero, hex_value_toDigits, Nat.mul_zero,
    Nat.zero_add]

theorem digitChar_ne_blank : ∀ d < 16, d.digitChar ≠ ' ' := by decide

theorem blank_notMem_toDigits (n : Nat) : ' ' ∉ Nat.toDigits 16 n := by
  induction n using Nat.strongRecOn with
  | ind n ih =>
    by_cases hsmall : n < 16
    · rw [Nat.toDigits_of_lt_base hsmall, List.mem_singleton]
      exact (digitChar_ne_blank n hsmall).symm
    · have hlast : n % 16 < 16 := Nat.mod_lt _ (by decide)
      rw [Nat.toDigits_of_base_le (by decide) (by omega), List.mem_append, List.mem_singleton, not_or]
      exact ⟨ih _ (by omega), (digitChar_ne_blank _ hlast).symm⟩

/-- There is no blank in a number. -/
theorem blank_notMem_format_hex (width n : Nat) : ' ' ∉ format_hex width n := by
  rw [format_hex, List.mem_append, not_or, List.mem_replicate]
  exact ⟨fun hzero => absurd hzero.2 (by decide), blank_notMem_toDigits n⟩

/-- The numbers of a line, with a blank between them. -/
def hex_fields (line : List Char) : List Nat := (line.splitOn ' ').map hex_value

/-- A line that is put together from numbers has these. -/
theorem hex_fields_intercalate {numerals : List (List Char)} (hsome : numerals ≠ [])
    (hblank : ∀ digits ∈ numerals, ' ' ∉ digits) :
    hex_fields ([' '].intercalate numerals) = numerals.map hex_value := by
  rw [hex_fields, List.splitOn_intercalate ' ' hblank hsome]

/-- A number that fits takes exactly the width. -/
theorem format_hex_length {width n : Nat} (hwidth : 0 < width) (hn : n < 16 ^ width) :
    (format_hex width n).length = width := by
  have hle : (Nat.toDigits 16 n).length ≤ width :=
    (Nat.length_toDigits_le_iff (by decide) hwidth).mpr hn
  rw [format_hex, List.length_append, List.length_replicate]
  omega

end bits
