import Mathlib.Data.List.Basic
import Mathlib.Tactic.Common

namespace bits

/-- The bits of a word, the most significant first. -/
def toBits {w : Nat} (v : BitVec w) : List Bool := (List.range w).map v.getMsbD

/-- The word whose bits are the first `w` of a list, the most significant first. -/
def ofBits (w : Nat) (l : List Bool) : BitVec w := (BitVec.ofBoolListBE (l.take w)).setWidth w

/-- A fixed-size format. Reading looks at the first `size` bits of a list that has
them, and writing gives back exactly the bits that were read. -/
structure Codec (α : Type) where
  size : Nat
  dec : List Bool → α
  enc : α → List Bool
  enc_dec : ∀ l, size ≤ l.length → enc (dec l) = l.take size

@[simp] theorem toBits_length {w : Nat} (v : BitVec w) : (toBits v).length = w := by
  rw [toBits, List.length_map, List.length_range]

/-- Writing the word read from exactly `w` bits gives these bits. -/
theorem toBits_ofBoolListBE (l : List Bool) : toBits (BitVec.ofBoolListBE l) = l := by
  apply List.ext_getElem
  · simp [toBits]
  · intro i hi hl
    simp [toBits, hl]

theorem toBits_ofBits {w : Nat} {l : List Bool} (h : w ≤ l.length) :
    toBits (ofBits w l) = l.take w := by
  have hlength : (l.take w).length = w := by
    rw [List.length_take, Nat.min_eq_left h]
  have hcast : ∀ (m : List Bool) (n : Nat), m.length = n →
      toBits ((BitVec.ofBoolListBE m).setWidth n) = m := by
    rintro m n rfl
    rw [BitVec.setWidth_eq, toBits_ofBoolListBE]
  exact hcast (l.take w) w hlength

/-- A word of `w` bits. -/
def Codec.word (w : Nat) : Codec (BitVec w) where
  size := w
  dec := ofBits w
  enc := toBits
  enc_dec := fun _ h => toBits_ofBits h

/-- One format after the other. -/
def Codec.pair {α β : Type} (c : Codec α) (d : Codec β) : Codec (α × β) where
  size := c.size + d.size
  dec := fun l => (c.dec l, d.dec (l.drop c.size))
  enc := fun x => c.enc x.1 ++ d.enc x.2
  enc_dec := by
    intro l h
    have hfirst := c.enc_dec l (by omega)
    have hsecond := d.enc_dec (l.drop c.size) (by rw [List.length_drop]; omega)
    rw [hfirst, hsecond, List.take_add]

/-- The same format for a type whose values are those of another one. -/
def Codec.iso {α β : Type} (c : Codec α) (f : α → β) (g : β → α) (h : ∀ x, g (f x) = x) :
    Codec β where
  size := c.size
  dec := fun l => f (c.dec l)
  enc := fun y => c.enc (g y)
  enc_dec := by
    intro l hl
    rw [h, c.enc_dec l hl]

end bits
