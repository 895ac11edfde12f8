import Mathlib.Algebra.Order.Field.Basic
import Mathlib.Algebra.Order.Floor.Semiring
import Mathlib.Data.Nat.Count
import RecoNIC.Clocked.Machine

namespace clocked

/-- The edges of a clock, each placed in a cycle of another clock that is at least as
fast: no two of them fall in one cycle. -/
structure Sampling where
  edge : Nat → Nat
  increasing : StrictMono edge

/-- Two clocks of fixed periods. Time is counted in periods of the fast clock, `ratio` is
the period of the slow one and `phase` the time of its first edge. -/
def Sampling.ofClocks {K : Type} [Field K] [LinearOrder K] [IsStrictOrderedRing K] [FloorSemiring K]
    (ratio phase : K) (hratio : 1 ≤ ratio) (hphase : 0 ≤ phase) : Sampling where
  edge k := ⌊phase + k * ratio⌋₊
  increasing := by
    apply strictMono_nat_of_lt_succ
    intro k
    have hbefore : 0 ≤ phase + k * ratio :=
      add_nonneg hphase (mul_nonneg k.cast_nonneg (zero_le_one.trans hratio))
    have hnext : phase + k * ratio + 1 ≤ phase + (k + 1 : Nat) * ratio := by
      rw [Nat.cast_add, Nat.cast_one, add_mul, one_mul, ← add_assoc]
      exact add_le_add_right hratio _
    calc ⌊phase + k * ratio⌋₊ < ⌊phase + k * ratio⌋₊ + 1 := Nat.lt_succ_self _
      _ = ⌊phase + k * ratio + 1⌋₊ := (Nat.floor_add_one hbefore).symm
      _ ≤ ⌊phase + (k + 1 : Nat) * ratio⌋₊ := Nat.floor_mono hnext

/-- Equal clocks have one edge in every cycle. -/
theorem Sampling.ofClocks_one_edge {K : Type} [Field K] [LinearOrder K] [IsStrictOrderedRing K]
    [FloorSemiring K] {phase : K} (hphase : 0 ≤ phase) (hfirst : phase < 1) (k : Nat) :
    (Sampling.ofClocks 1 phase le_rfl hphase).edge k = k := by
  change ⌊phase + k * 1⌋₊ = k
  rw [mul_one, Nat.floor_add_natCast hphase, Nat.floor_eq_zero.mpr hfirst, Nat.zero_add]

/-- A clock of half the speed has an edge in every second cycle. -/
theorem Sampling.ofClocks_two_edge {K : Type} [Field K] [LinearOrder K] [IsStrictOrderedRing K]
    [FloorSemiring K] (k : Nat) :
    (Sampling.ofClocks (2 : K) 0 one_le_two le_rfl).edge k = 2 * k := by
  change ⌊(0 : K) + k * 2⌋₊ = 2 * k
  rw [zero_add, mul_comm, ← Nat.cast_ofNat, ← Nat.cast_mul, Nat.floor_natCast]

/-- A signal behind a register of its clock. -/
def registered {α : Type} (init : α) (src_in : Nat → α) : Nat → α
  | 0 => init
  | j + 1 => src_in j

/-- A level synchroniser with a registered input: each edge of the destination clock
samples the level, which comes out `stages` destination cycles later. -/
def Sampling.synchronised {α : Type} (clocks : Sampling) (stages : Nat) (init : α)
    (src_in : Nat → α) (m : Nat) : α :=
  if m < stages then init else registered init src_in (clocks.edge (m - stages))

@[simp] theorem Sampling.synchronised_early {α : Type} (clocks : Sampling) {stages : Nat} (init : α)
    (src_in : Nat → α) {m : Nat} (hearly : m < stages) :
    clocks.synchronised stages init src_in m = init :=
  if_pos hearly

@[simp] theorem Sampling.synchronised_add {α : Type} (clocks : Sampling) (stages : Nat) (init : α)
    (src_in : Nat → α) (k : Nat) : clocks.synchronised stages init src_in (stages + k) =
      registered init src_in (clocks.edge k) := by
  simp [Sampling.synchronised]

/-- As many cycles come out high as edges have sampled a high level. -/
theorem Sampling.count_synchronised (clocks : Sampling) (stages : Nat) (src_in : Nat → Bool)
    (k : Nat) : Nat.count (fun m => clocks.synchronised stages false src_in m = true) (stages + k) =
      Nat.count (fun n => registered false src_in (clocks.edge n) = true) k := by
  have hstart : Nat.count (fun m => clocks.synchronised stages false src_in m = true) stages = 0 := by
    rw [Nat.count_iff_forall_not]
    intro m hm
    simp [hm]
  rw [Nat.count_add, hstart, Nat.zero_add]
  simp

theorem countP_map_range {α : Type} (p : α → Bool) (f : Nat → α) (n : Nat) :
    ((List.range n).map f).countP p = Nat.count (fun k => p (f k) = true) n := by
  induction n with
  | zero => rfl
  | succ n ih =>
    rw [List.range_succ, List.map_append, List.countP_append, ih, Nat.count_succ]
    cases hp : p (f n) <;> simp [hp]

/-- As many high cycles of the fast clock are sampled as there are exactly when an edge
falls in each of these. -/
theorem Sampling.count_eq_iff (clocks : Sampling) (level : Nat → Bool) (k : Nat) :
    Nat.count (fun n => level (clocks.edge n) = true) k =
        Nat.count (fun j => level j = true) (clocks.edge k) ↔
      ∀ j < clocks.edge k, level j = true → ∃ n < k, clocks.edge n = j := by
  rw [Nat.count_eq_card_filter_range, Nat.count_eq_card_filter_range]
  have hinjective : Function.Injective clocks.edge := clocks.increasing.injective
  rw [← Finset.card_image_of_injective _ hinjective]
  -- The sampled high cycles are among the high cycles.
  have hsubset : ({n ∈ Finset.range k | level (clocks.edge n) = true}.image clocks.edge) ⊆
      {j ∈ Finset.range (clocks.edge k) | level j = true} := by
    intro j hj
    obtain ⟨n, hn, rfl⟩ := Finset.mem_image.mp hj
    obtain ⟨hlt, hlevel⟩ := Finset.mem_filter.mp hn
    exact Finset.mem_filter.mpr
      ⟨Finset.mem_range.mpr (clocks.increasing (Finset.mem_range.mp hlt)), hlevel⟩
  constructor
  · intro hcard j hj hlevel
    have heq := Finset.eq_of_subset_of_card_le hsubset hcard.ge
    have hmem : j ∈ ({j ∈ Finset.range (clocks.edge k) | level j = true} : Finset Nat) :=
      Finset.mem_filter.mpr ⟨Finset.mem_range.mpr hj, hlevel⟩
    rw [← heq] at hmem
    obtain ⟨n, hn, hedge⟩ := Finset.mem_image.mp hmem
    exact ⟨n, Finset.mem_range.mp (Finset.mem_filter.mp hn).1, hedge⟩
  · intro hsampled
    refine congrArg Finset.card (hsubset.antisymm ?_)
    intro j hj
    obtain ⟨hlt, hlevel⟩ := Finset.mem_filter.mp hj
    obtain ⟨n, hn, rfl⟩ := hsampled j (Finset.mem_range.mp hlt) hlevel
    exact Finset.mem_image_of_mem _
      (Finset.mem_filter.mpr ⟨Finset.mem_range.mpr hn, hlevel⟩)

theorem Sampling.count_le (clocks : Sampling) (level : Nat → Bool) (k : Nat) :
    Nat.count (fun n => level (clocks.edge n) = true) k ≤
      Nat.count (fun j => level j = true) (clocks.edge k) := by
  induction k with
  | zero => simp
  | succ k ih =>
    have hnext : clocks.edge k + 1 ≤ clocks.edge (k + 1) := clocks.increasing (Nat.lt_succ_self k)
    have hmono := Nat.count_monotone (fun j => level j = true) hnext
    rw [Nat.count_succ] at hmono ⊢
    omega

end clocked
