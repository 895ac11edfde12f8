import Mathlib.Data.Set.Lattice
import Mathlib.Order.CompletePartialOrder

namespace loops

variable {σ ι α β ε : Type*}

/-- The invariant rule of a counting loop. -/
theorem foldlM_range_invariant {step : σ → Nat → Except ε σ} (I : Nat → σ → Prop) {n : Nat} {s : σ}
    (hstart : I 0 s)
    (hstep : ∀ k < n, ∀ s, I k s → ∃ s', step s k = .ok s' ∧ I (k + 1) s') :
    ∃ s', (List.range n).foldlM step s = .ok s' ∧ I n s' := by
  induction n with
  | zero => exact ⟨s, rfl, hstart⟩
  | succ n ih =>
    obtain ⟨mid, hmid, hinv⟩ := ih fun k hk => hstep k (by omega)
    obtain ⟨last, hlast, hdone⟩ := hstep n (by omega) mid hinv
    refine ⟨last, ?_, hdone⟩
    rw [List.range_succ, List.foldlM_append, hmid]
    simp only [List.foldlM_cons, List.foldlM_nil, bind, Except.bind, hlast]
    rfl

/-- A run that rewrites the given cells, each one by its own function of its old
content, and keeps the other cells. -/
def Rewrites (get : σ → ι → β) (cells : Set ι) (f : ι → β → β) (run : σ → Except ε σ) : Prop :=
  ∀ s, ∃ s', run s = .ok s' ∧ (∀ y ∈ cells, get s' y = f y (get s y)) ∧
    ∀ y, y ∉ cells → get s' y = get s y

/-- A sweep: where the steps of a loop rewrite disjoint sets of cells, the loop
rewrites their union. -/
theorem Rewrites.foldlM {get : σ → ι → β} {cells : α → Set ι} {f : ι → β → β}
    {step : σ → α → Except ε σ} {places : List α}
    (hdisjoint : places.Pairwise fun x y => Disjoint (cells x) (cells y))
    (hstep : ∀ x ∈ places, Rewrites get (cells x) f (step · x)) :
    Rewrites get {y | ∃ x ∈ places, y ∈ cells x} f (places.foldlM step) := by
  induction places with
  | nil => exact fun s => ⟨s, rfl, fun y hy => by simp at hy, fun _ _ => rfl⟩
  | cons x places ih =>
    rw [List.pairwise_cons] at hdisjoint
    intro s
    obtain ⟨mid, hmid, hhere, hbeside⟩ := hstep x (List.mem_cons_self ..) s
    obtain ⟨last, hlast, hthere, houtside⟩ :=
      ih hdisjoint.2 (fun z hz => hstep z (List.mem_cons_of_mem _ hz)) mid
    refine ⟨last, ?_, ?_, ?_⟩
    · simp only [List.foldlM_cons, bind, Except.bind, hmid, hlast]
    · rintro y ⟨z, hz, hy⟩
      obtain rfl | hz := List.mem_cons.mp hz
      · -- the later steps keep the cells of the first one
        have hkept : y ∉ {y | ∃ x ∈ places, y ∈ cells x} := by
          rintro ⟨w, hw, hyw⟩
          exact Set.disjoint_left.mp (hdisjoint.1 w hw) hy hyw
        rw [houtside y hkept, hhere y hy]
      · have hfresh : y ∉ cells x := fun hyx => Set.disjoint_left.mp (hdisjoint.1 z hz) hyx hy
        rw [hthere y ⟨z, hz, hy⟩, hbeside y hfresh]
    · intro y hy
      have hrest : y ∉ {y | ∃ x ∈ places, y ∈ cells x} := by
        rintro ⟨z, hz, hyz⟩
        exact hy ⟨z, List.mem_cons_of_mem _ hz, hyz⟩
      have hhead : y ∉ cells x := fun hyx => hy ⟨x, List.mem_cons_self .., hyx⟩
      rw [houtside y hrest, hbeside y hhead]

theorem Rewrites.sweep {get : σ → ι → β} {f : ι → β → β} {step : σ → α → Except ε σ}
    {places : List α} {all : Set ι} (cells : α → Set ι)
    (hall : ∀ y, y ∈ all ↔ ∃ x ∈ places, y ∈ cells x)
    (hdisjoint : places.Pairwise fun x y => Disjoint (cells x) (cells y))
    (hstep : ∀ x ∈ places, Rewrites get (cells x) f (step · x)) :
    Rewrites get all f (places.foldlM step) := by
  have hcells : all = {y | ∃ x ∈ places, y ∈ cells x} := Set.ext hall
  rw [hcells]
  exact Rewrites.foldlM hdisjoint hstep

end loops
