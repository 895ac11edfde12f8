import Mathlib.Data.List.Basic
import Mathlib.Tactic.Common

namespace bits

/-- The Toeplitz hash of a sequence of bits: each bit that is set adds the window of the key that
begins at its position. -/
def toeplitz {w : Nat} (n : Nat) (key : BitVec w) : List Bool → BitVec n
  | [] => 0#n
  | b :: input => (if b then key.setWidth n else 0#n) ^^^ toeplitz n (key >>> 1) input

section Toeplitz

variable {w : Nat} (n : Nat) (key : BitVec w)

/-- The hash of a sequence is that of its parts, each with the key moved to where it begins. -/
theorem toeplitz_append (first second : List Bool) :
    toeplitz n key (first ++ second) =
      toeplitz n key first ^^^ toeplitz n (key >>> first.length) second := by
  induction first generalizing key with
  | nil => simp [toeplitz]
  | cons b first ih =>
    rw [List.cons_append, toeplitz, toeplitz, ih, BitVec.xor_assoc, List.length_cons, Nat.add_comm,
      BitVec.shiftRight_add]

theorem toeplitz_false (count : Nat) : toeplitz n key (List.replicate count false) = 0#n := by
  induction count generalizing key with
  | zero => rfl
  | succ count ih => simp [List.replicate_succ, toeplitz, ih]

/-- The hash as a sum of windows. -/
theorem toeplitz_windows (bit : Nat → Bool) (offset count : Nat) :
    ((List.range count).foldl
        (fun acc j => acc ^^^ if bit j then key.extractLsb' (offset + j) n else 0) 0) =
      toeplitz n (key >>> offset) ((List.range count).map bit) := by
  induction count with
  | zero => rfl
  | succ count ih =>
    rw [List.range_succ, List.foldl_append, ih, List.map_append, toeplitz_append, List.length_map,
      List.length_range, ← BitVec.shiftRight_add]
    simp [toeplitz, BitVec.setWidth_ushiftRight_eq_extractLsb]

end Toeplitz

end bits
