import Mathlib.Data.List.Basic
import Mathlib.Tactic.Common

namespace ring

/-- The slots of a ring hold the items of a stream from the position `first` to before `next`,
each at its position modulo the size. -/
structure Holds {α : Type} (size : Nat) (slots : List α) (stream : List α) (first next : Nat) :
    Prop where
  length : slots.length = size
  item : ∀ k, first ≤ k → k < next → slots[k % size]? = stream[k]?

section Holds

variable {α : Type} {size first next : Nat} {slots stream : List α}

theorem Holds.empty (hlength : slots.length = size) (stream : List α) (position : Nat) :
    Holds size slots stream position position := ⟨hlength, fun _ hlow hhigh => by omega⟩

/-- The next item of the stream is stored in a free slot. -/
theorem Holds.put (h : Holds size slots stream first next) (hle : first ≤ next)
    (hroom : next < first + size) {item : α} (hitem : stream[next]? = some item) :
    Holds size (slots.set (next % size) item) stream first (next + 1) := by
  have hslot : next % size < size := Nat.mod_lt _ (by omega)
  refine ⟨by simp [h.length], fun k hlow hhigh => ?_⟩
  by_cases hlast : k = next
  · subst hlast
    rw [List.getElem?_set_self (by rw [h.length]; exact hslot), hitem]
  · have hne : next % size ≠ k % size := by
      intro heq
      have hzero := Nat.sub_mod_eq_zero_of_mod_eq heq
      rw [Nat.mod_eq_of_lt (by omega)] at hzero
      omega
    rw [List.getElem?_set_ne hne]
    exact h.item k hlow (by omega)

theorem Holds.from_later (h : Holds size slots stream first next) {first' : Nat}
    (hle : first ≤ first') : Holds size slots stream first' next :=
  ⟨h.length, fun k hlow hhigh => h.item k (Nat.le_trans hle hlow) hhigh⟩

/-- The stream goes on. -/
theorem Holds.extend (h : Holds size slots stream first next) (hnext : next ≤ stream.length)
    (more : List α) : Holds size slots (stream ++ more) first next := by
  refine ⟨h.length, fun k hlow hhigh => ?_⟩
  rw [h.item k hlow hhigh, List.getElem?_append_left (by omega)]

/-- The end of the stream is given up. -/
theorem Holds.shorten {more : List α} (h : Holds size slots (stream ++ more) first next) {next' : Nat}
    (hle : next' ≤ next) (hlength : next' ≤ stream.length) :
    Holds size slots stream first next' := by
  refine ⟨h.length, fun k hlow hhigh => ?_⟩
  rw [h.item k hlow (by omega), List.getElem?_append_left (by omega)]

/-- What is read at a position of the stream. -/
theorem Holds.get (h : Holds size slots stream first next) (hnext : next ≤ stream.length) {k : Nat}
    (hlow : first ≤ k) (hhigh : k < next) (fallback : α) :
    stream.take (k + 1) = stream.take k ++ [slots.getD (k % size) fallback] := by
  rw [List.take_add_one, List.getD_eq_getElem?_getD, h.item k hlow hhigh,
    List.getElem?_eq_getElem (by omega)]
  rfl

end Holds

/-- How far an index is ahead of another one, less than a full turn. -/
theorem index_ahead {size a b : Nat} (hle : a ≤ b) (hturn : b < a + size) :
    (if b % size < a % size then size - a % size + b % size else b % size - a % size) = b - a := by
  obtain ⟨ahead, rfl⟩ := Nat.exists_eq_add_of_le hle
  have hsmall := Nat.mod_lt a (by omega : 0 < size)
  have hindex : (a + ahead) % size = (a % size + ahead) % size := (Nat.mod_add_mod ..).symm
  by_cases hwrap : a % size + ahead < size
  · rw [hindex, Nat.mod_eq_of_lt hwrap]
    split <;> omega
  · rw [hindex, Nat.mod_eq_sub_mod (by omega), Nat.mod_eq_of_lt (by omega)]
    split <;> omega

end ring
