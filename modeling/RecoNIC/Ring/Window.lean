import Mathlib.Tactic.Common

namespace ring

/-- The slots of a ring that are full after `takes` removals and `puts` returns, when
the ring was full in the beginning and both go around it in order. -/
def Full (size takes puts slot : Nat) : Prop :=
  ∃ position, takes ≤ position ∧ position < puts + size ∧ position % size = slot

theorem full_in_the_beginning {size slot : Nat} (hslot : slot < size) : Full size 0 0 slot :=
  ⟨slot, Nat.zero_le _, by omega, Nat.mod_eq_of_lt hslot⟩

/-- The next slot to take from is full as long as not everything is out. -/
theorem full_next_take {size takes puts : Nat} (hsome : takes < puts + size) :
    Full size takes puts (takes % size) :=
  ⟨takes, Nat.le_refl _, hsome, rfl⟩

theorem full_after_take {size takes puts slot : Nat} (hle : puts ≤ takes) :
    Full size (takes + 1) puts slot ↔ Full size takes puts slot ∧ slot ≠ takes % size := by
  constructor
  · rintro ⟨position, hfrom, hto, rfl⟩
    refine ⟨⟨position, by omega, hto, rfl⟩, ?_⟩
    intro hsame
    have hzero := Nat.sub_mod_eq_zero_of_mod_eq hsame
    rw [Nat.mod_eq_of_lt (by omega)] at hzero
    omega
  · rintro ⟨⟨position, hfrom, hto, rfl⟩, hne⟩
    have hpast : position ≠ takes := fun heq => hne (by rw [heq])
    exact ⟨position, by omega, hto, rfl⟩

/-- The next slot to return to is empty as long as something is out. -/
theorem empty_next_put {size takes puts : Nat} (hout : puts < takes) :
    ¬Full size takes puts (puts % size) := by
  rintro ⟨position, hfrom, hto, hsame⟩
  have hzero := Nat.sub_mod_eq_zero_of_mod_eq hsame
  rw [Nat.mod_eq_of_lt (by omega)] at hzero
  omega

theorem full_after_put {size takes puts slot : Nat} (hroom : takes ≤ puts + size) :
    Full size takes (puts + 1) slot ↔ Full size takes puts slot ∨ slot = puts % size := by
  constructor
  · rintro ⟨position, hfrom, hto, rfl⟩
    obtain hold | rfl : position < puts + size ∨ position = puts + size := by omega
    · exact .inl ⟨position, hfrom, hold, rfl⟩
    · exact .inr (Nat.add_mod_right ..)
  · rintro (⟨position, hfrom, hto, rfl⟩ | rfl)
    · exact ⟨position, hfrom, by omega, rfl⟩
    · exact ⟨puts + size, by omega, by omega, Nat.add_mod_right ..⟩

end ring
