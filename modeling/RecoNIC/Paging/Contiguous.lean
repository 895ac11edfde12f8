import Mathlib.Algebra.Order.Ring.Nat
import Mathlib.Tactic.Common
import Mathlib.Tactic.Ring

namespace paging

/-- The physical address of an offset into a region whose page `h` lies in frame `frame h`. -/
def phys (page : Nat) (frame : Nat → Nat) (offset : Nat) : Nat :=
  frame (offset / page) * page + offset % page

variable {page : Nat} {frame : Nat → Nat}

theorem phys_page_start (hpage : 0 < page) (h : Nat) : phys page frame (h * page) = frame h * page := by
  rw [phys, Nat.mul_div_cancel _ hpage, Nat.mul_mod_left, Nat.add_zero]

/-- Inside a page, addresses follow one another. -/
theorem phys_succ {offset : Nat} (hsame : (offset + 1) / page = offset / page) :
    phys page frame (offset + 1) = phys page frame offset + 1 := by
  have hnext := Nat.div_add_mod (offset + 1) page
  have hnow := Nat.div_add_mod offset page
  rw [hsame] at hnext
  rw [phys, phys, hsame]
  omega

/-- A block that begins in page `h`, as far as it lies in consecutive frames. -/
theorem phys_eq_of_consecutive (hpage : 0 < page) {start k : Nat}
    (hframes : ∀ h, start / page ≤ h → (h + 1) * page ≤ start + k → frame (h + 1) = frame h + 1) :
    phys page frame (start + k) = phys page frame start + k := by
  induction k with
  | zero => rfl
  | succ k ih =>
    have hbefore := ih fun h hfrom hto => hframes h hfrom (by omega)
    by_cases hsame : (start + k + 1) / page = (start + k) / page
    · rw [← Nat.add_assoc, phys_succ hsame, hbefore, Nat.add_assoc]
    · -- the next byte is the first one of a page
      have hdvd : page ∣ start + k + 1 := by
        by_contra hnot
        exact hsame (Nat.succ_div.trans (by rw [if_neg hnot, Nat.add_zero]))
      have hpages : (start + k + 1) / page = (start + k) / page + 1 :=
        Nat.succ_div.trans (by rw [if_pos hdvd])
      have hstart : start + k + 1 = ((start + k) / page + 1) * page := by
        rw [← hpages, Nat.div_mul_cancel hdvd]
      have hconsecutive := hframes ((start + k) / page) (Nat.div_le_div_right (by omega)) (by omega)
      have hend := Nat.div_add_mod (start + k) page
      have hvalue : phys page frame (start + k + 1) = phys page frame (start + k) + 1 := by
        rw [hstart, phys_page_start hpage, hconsecutive, phys]
        have hlast : (start + k) % page + 1 = page := by
          rw [Nat.add_mul, Nat.one_mul, Nat.mul_comm] at hstart
          omega
        rw [Nat.add_assoc, hlast]
        ring
      rw [← Nat.add_assoc, hvalue, hbefore, Nat.add_assoc]

/-- When a block is physically contiguous: when the frames of the pages that it touches
follow one another. -/
theorem contiguous_iff (hpage : 0 < page) (start size : Nat) :
    (∀ k < size, phys page frame (start + k) = phys page frame start + k) ↔
      ∀ h, start / page ≤ h → (h + 1) * page < start + size → frame (h + 1) = frame h + 1 := by
  constructor
  · intro hcontiguous h hfrom hto
    have hafter : start < (h + 1) * page :=
      Nat.lt_of_lt_of_le (Nat.lt_mul_div_succ start hpage)
        ((Nat.mul_comm ..).trans_le (Nat.mul_le_mul_right page (by omega)))
    obtain ⟨k, hk⟩ : ∃ k, (h + 1) * page = start + (k + 1) :=
      ⟨(h + 1) * page - start - 1, by omega⟩
    have hlast := hcontiguous k (by omega)
    have hfirst := hcontiguous (k + 1) (by omega)
    have hplace : start + k = h * page + (page - 1) := by
      rw [Nat.add_mul] at hk
      omega
    have hquotient : (h * page + (page - 1)) / page = h := by
      rw [Nat.mul_comm, Nat.mul_add_div hpage, Nat.div_eq_of_lt (by omega), Nat.add_zero]
    have hrest : (h * page + (page - 1)) % page = page - 1 := by
      rw [Nat.mul_comm, Nat.mul_add_mod, Nat.mod_eq_of_lt (by omega)]
    rw [← hk, phys_page_start hpage] at hfirst
    rw [hplace, phys, hquotient, hrest] at hlast
    have hpages : frame (h + 1) * page = (frame h + 1) * page := by
      rw [hfirst, Nat.add_mul]
      omega
    exact Nat.eq_of_mul_eq_mul_right hpage hpages
  · intro hframes k hk
    exact phys_eq_of_consecutive hpage fun h hfrom hto => hframes h hfrom (by omega)

end paging
