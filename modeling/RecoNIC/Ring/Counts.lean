import Mathlib.Tactic.Common

namespace ring

/-- Two counts less than a full turn of the ring apart differ in their indices. -/
theorem count_eq_of_index_eq {size a b : Nat} (hle : a ≤ b) (hturn : b < a + size)
    (hindex : a % size = b % size) : a = b := by
  have hdiv : (b - a) % size = 0 := Nat.sub_mod_eq_zero_of_mod_eq hindex.symm
  rw [Nat.mod_eq_of_lt (by omega)] at hdiv
  omega

/-- The count that an index stands for, less than a full turn ahead of a count that is
known. -/
def count_ahead (size known index : Nat) : Nat := known + (index + size - known % size) % size

/-- The index of a count is read back as that count. -/
theorem count_ahead_index {size known count : Nat} (hle : known ≤ count)
    (hturn : count < known + size) : count_ahead size known (count % size) = count := by
  obtain ⟨ahead, rfl⟩ := Nat.exists_eq_add_of_le hle
  have hahead : ahead < size := by omega
  have hsmall := Nat.mod_lt known (by omega : 0 < size)
  have hindex : (known + ahead) % size = (known % size + ahead) % size := (Nat.mod_add_mod ..).symm
  rw [count_ahead, hindex]
  by_cases hwrap : known % size + ahead < size
  · rw [Nat.mod_eq_of_lt hwrap, show known % size + ahead + size - known % size = ahead + size by omega,
      Nat.add_mod_right, Nat.mod_eq_of_lt hahead]
  · have hturned : (known % size + ahead) % size = known % size + ahead - size := by
      rw [Nat.mod_eq_sub_mod (by omega), Nat.mod_eq_of_lt (by omega)]
    rw [hturned, show known % size + ahead - size + size - known % size = ahead by omega,
      Nat.mod_eq_of_lt hahead]

end ring
