import Mathlib.Data.List.Perm.Basic
import Mathlib.Tactic.Common

namespace interleaving

/-- One entry of a list and the others: a change of the entry leaves the others alone. -/
theorem one_and_others {α : Type} {entries : List α} {i : Nat} {a : α} (ha : entries[i]? = some a) :
    ∃ others, entries.Perm (a :: others) ∧ ∀ a', (entries.set i a').Perm (a' :: others) := by
  obtain ⟨hi, rfl⟩ := List.getElem?_eq_some_iff.mp ha
  exact ⟨entries.eraseIdx i, (List.getElem_cons_eraseIdx_perm hi).symm,
    fun a' => List.set_perm_cons_eraseIdx hi a'⟩

theorem countP_split {Thread : Type} {threads others : List Thread} {t : Thread}
    (hsplit : threads.Perm (t :: others)) (point : Thread → Bool) :
    threads.countP point = (point t).toNat + others.countP point := by
  rw [hsplit.countP_eq, List.countP_cons]
  cases point t with
  | true => exact Nat.add_comm ..
  | false => exact (Nat.zero_add _).symm

/-- The count of a semaphore and the threads between their down and their up on it make
up its capacity. -/
def InBalance {Thread : Type} (capacity count : Nat) (inside : Thread → Bool)
    (threads : List Thread) : Prop :=
  count + threads.countP inside = capacity

/-- The rule for every step of a thread: a down takes one from the count and leads
inside, an up adds one and leads outside, and other steps do neither. -/
theorem InBalance.step {Thread : Type} {capacity count count' : Nat} {inside : Thread → Bool}
    {threads threads' others : List Thread} {t t' : Thread}
    (hbalanced : InBalance capacity count inside threads) (hbefore : threads.Perm (t :: others))
    (hafter : threads'.Perm (t' :: others))
    (hcount : count' + (inside t').toNat = count + (inside t).toNat) :
    InBalance capacity count' inside threads' := by
  rw [InBalance, countP_split hbefore] at hbalanced
  rw [InBalance, countP_split hafter]
  omega

/-- Under a semaphore of capacity 1 a thread that is inside is there alone, so no other
thread is at any point of the critical section. -/
theorem InBalance.alone {Thread : Type} {count : Nat} {inside point : Thread → Bool}
    {threads others : List Thread} {t : Thread} (hbalanced : InBalance 1 count inside threads)
    (hsplit : threads.Perm (t :: others)) (hin : inside t = true)
    (hpoint : ∀ u, point u = true → inside u = true) : others.countP point = 0 := by
  rw [InBalance, countP_split hsplit, hin, Bool.toNat_true] at hbalanced
  have hnone : others.countP inside = 0 := by omega
  rw [List.countP_eq_zero] at hnone ⊢
  exact fun u hu hat => hnone u hu (hpoint u hat)

end interleaving
