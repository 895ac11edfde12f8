import Mathlib.Algebra.BigOperators.Group.Finset.Basic
import Mathlib.Data.BitVec
import Mathlib.Data.List.Pairwise
import RecoNIC.Loops.Sweep

namespace reconic.systolic

open loops

/-- The `MAX_SIZE` of the kernel. -/
def MAX_SIZE : Nat := 16

/-- A local matrix, `int [MAX_SIZE][MAX_SIZE]`. -/
abbrev LocalMatrix := Vector (Vector (BitVec 32) MAX_SIZE) MAX_SIZE

/-- The memory behind the `systolic` bundle; an `int *` is the index of a word. -/
abbrev Memory := Nat → BitVec 32

/-- An access outside a local matrix. -/
inductive Fault where
  | out_of_bounds
  deriving DecidableEq

def LocalMatrix.read (m : LocalMatrix) (row col : Nat) : Except Fault (BitVec 32) :=
  if h : row < MAX_SIZE ∧ col < MAX_SIZE then .ok m[row][col]
  else .error .out_of_bounds

def LocalMatrix.write (m : LocalMatrix) (row col : Nat) (value : BitVec 32) :
    Except Fault LocalMatrix :=
  if h : row < MAX_SIZE ∧ col < MAX_SIZE then .ok (m.set row (m[row].set col value h.2) h.1)
  else .error .out_of_bounds

/-- The `memcpy` of a whole block into a local matrix. -/
def readBlock (mem : Memory) (p : Nat) : LocalMatrix :=
  Vector.ofFn fun row => Vector.ofFn fun col => mem (p + (MAX_SIZE * row.val + col.val))

/-- The `memcpy` of a local matrix over a whole block. -/
def writeBlock (mem : Memory) (p : Nat) (m : LocalMatrix) : Memory := fun q =>
  if h : p ≤ q ∧ q < p + MAX_SIZE * MAX_SIZE then
    have hrow : (q - p) / MAX_SIZE < MAX_SIZE := Nat.div_lt_of_lt_mul (by omega)
    have hcol : (q - p) % MAX_SIZE < MAX_SIZE := Nat.mod_lt _ (by decide)
    m[(q - p) / MAX_SIZE][(q - p) % MAX_SIZE]
  else mem q

section systolic

variable (a_row a_col b_col : BitVec 32) (localA localB : LocalMatrix)

/-- The previous sum; the first iteration starts from 0. -/
def last (localC : LocalMatrix) (k i j : Nat) : Except Fault (BitVec 32) :=
  if k = 0 then .ok 0 else localC.read i j

/-- The guarded operands: 0 outside the matrices. -/
def a_val (i k : Nat) : Except Fault (BitVec 32) :=
  if (i : Int) < a_row.toInt ∧ (k : Int) < a_col.toInt then localA.read i k else .ok 0

def b_val (k j : Nat) : Except Fault (BitVec 32) :=
  let b_row := a_col
  if (k : Int) < b_row.toInt ∧ (j : Int) < b_col.toInt then localB.read k j else .ok 0

/-- The body of the innermost loop. -/
def update (k i : Nat) (localC : LocalMatrix) (j : Nat) : Except Fault LocalMatrix := do
  let last ← last localC k i j
  let a_val ← a_val a_row a_col localA i k
  let b_val ← b_val a_col b_col localB k j
  let result := last + a_val * b_val
  localC.write i j result

def systolic3 (k : Nat) (localC : LocalMatrix) (i : Nat) : Except Fault LocalMatrix :=
  (List.range MAX_SIZE).foldlM (update a_row a_col b_col localA localB k i) localC

def systolic2 (localC : LocalMatrix) (k : Nat) : Except Fault LocalMatrix :=
  (List.range MAX_SIZE).foldlM (systolic3 a_row a_col b_col localA localB k) localC

def systolic1 (localC : LocalMatrix) : Except Fault LocalMatrix :=
  (List.range a_col.toInt.toNat).foldlM (systolic2 a_row a_col b_col localA localB) localC

end systolic

/-- One call of the kernel. `localC` is what the uninitialised local matrix
happens to hold. -/
def mmult (localC : LocalMatrix) (mem : Memory) (work_id_out_stream : List (BitVec 32))
    (a b c : Nat) (a_row a_col b_col work_id : BitVec 32) :
    Except Fault (Memory × List (BitVec 32)) := do
  let localA := readBlock mem a
  let localB := readBlock mem b
  let localC ← systolic1 a_row a_col b_col localA localB localC
  return (writeBlock mem c localC, work_id_out_stream ++ [work_id])

/-- The content of a position, 0 outside the matrix. -/
def LocalMatrix.entry (m : LocalMatrix) (p : Nat × Nat) : BitVec 32 :=
  if h : p.1 < MAX_SIZE ∧ p.2 < MAX_SIZE then m[p.1][p.2] else 0

theorem LocalMatrix.read_eq (m : LocalMatrix) {row col : Nat}
    (hrow : row < MAX_SIZE) (hcol : col < MAX_SIZE) : m.read row col = .ok (m.entry (row, col)) := by
  simp only [LocalMatrix.read, LocalMatrix.entry, hrow, hcol, and_self, dite_true]

theorem LocalMatrix.write_eq (m : LocalMatrix) {row col : Nat} (value : BitVec 32)
    (hrow : row < MAX_SIZE) (hcol : col < MAX_SIZE) :
    ∃ m', m.write row col value = .ok m' ∧ m'.entry (row, col) = value ∧
      ∀ p, p ≠ (row, col) → m'.entry p = m.entry p := by
  refine ⟨m.set row (m[row].set col value hcol) hrow, ?_, ?_, ?_⟩
  · simp only [LocalMatrix.write, hrow, hcol, and_self, dite_true]
  · simp [LocalMatrix.entry, hrow, hcol]
  · rintro ⟨i, j⟩ hne
    by_cases hin : i < MAX_SIZE ∧ j < MAX_SIZE
    · simp only [LocalMatrix.entry, hin, and_self, dite_true, Vector.getElem_set]
      by_cases hi : row = i
      · subst hi
        have hj : col ≠ j := fun hj => hne (by rw [hj])
        simp [hj]
      · simp [hi]
    · simp only [LocalMatrix.entry, dif_neg hin]

theorem readBlock_entry (mem : Memory) (p : Nat) {i j : Nat} (hi : i < MAX_SIZE)
    (hj : j < MAX_SIZE) : (readBlock mem p).entry (i, j) = mem (p + (MAX_SIZE * i + j)) := by
  simp [LocalMatrix.entry, readBlock, hi, hj]

theorem writeBlock_entry (mem : Memory) (p : Nat) (m : LocalMatrix) {i j : Nat}
    (hi : i < MAX_SIZE) (hj : j < MAX_SIZE) :
    writeBlock mem p m (p + (MAX_SIZE * i + j)) = m.entry (i, j) := by
  have hin : p ≤ p + (MAX_SIZE * i + j) ∧ p + (MAX_SIZE * i + j) < p + MAX_SIZE * MAX_SIZE := by
    simp only [MAX_SIZE] at *
    omega
  have hplace : p + (MAX_SIZE * i + j) - p = MAX_SIZE * i + j := Nat.add_sub_cancel_left ..
  have hrow : (MAX_SIZE * i + j) / MAX_SIZE = i := by
    rw [Nat.mul_add_div (by decide), Nat.div_eq_of_lt hj, Nat.add_zero]
  have hcol : (MAX_SIZE * i + j) % MAX_SIZE = j := by
    rw [Nat.mul_add_mod, Nat.mod_eq_of_lt hj]
  simp only [writeBlock, dif_pos hin, hplace, hrow, hcol, LocalMatrix.entry, hi, hj, and_self,
    dite_true]

/-- What is written depends on the entries alone. -/
theorem writeBlock_congr (mem : Memory) (p : Nat) {m m' : LocalMatrix}
    (hentry : ∀ i < MAX_SIZE, ∀ j < MAX_SIZE, m.entry (i, j) = m'.entry (i, j)) :
    writeBlock mem p m = writeBlock mem p m' := by
  funext q
  by_cases hq : p ≤ q ∧ q < p + MAX_SIZE * MAX_SIZE
  · have hplace : q = p + (MAX_SIZE * ((q - p) / MAX_SIZE) + (q - p) % MAX_SIZE) := by
      rw [Nat.div_add_mod]
      omega
    have hrow : (q - p) / MAX_SIZE < MAX_SIZE := Nat.div_lt_of_lt_mul (by omega)
    have hcol : (q - p) % MAX_SIZE < MAX_SIZE := Nat.mod_lt _ (by decide)
    rw [hplace, writeBlock_entry mem p m hrow hcol, writeBlock_entry mem p m' hrow hcol]
    exact hentry _ hrow _ hcol
  · rw [writeBlock, writeBlock, dif_neg hq, dif_neg hq]

theorem writeBlock_outside (mem : Memory) {p q : Nat} (m : LocalMatrix)
    (hq : ¬(p ≤ q ∧ q < p + MAX_SIZE * MAX_SIZE)) : writeBlock mem p m q = mem q :=
  dif_neg hq

section systolic

variable (a_row a_col b_col : BitVec 32) (localA localB : LocalMatrix)

/-- What the update of iteration `k` makes of the content of a position. -/
def accumulate (k : Nat) (p : Nat × Nat) (content : BitVec 32) : BitVec 32 :=
  (if k = 0 then 0 else content) +
    if (p.1 : Int) < a_row.toInt ∧ (p.2 : Int) < b_col.toInt then
      localA.entry (p.1, k) * localB.entry (k, p.2)
    else 0

variable {k : Nat} (hmax : k < MAX_SIZE) (hcol : (k : Int) < a_col.toInt)

include hmax hcol

theorem update_rewrites {i j : Nat} (hi : i < MAX_SIZE) (hj : j < MAX_SIZE) :
    Rewrites LocalMatrix.entry {(i, j)} (accumulate a_row b_col localA localB k)
      (update a_row a_col b_col localA localB k i · j) := by
  intro localC
  have hlast : last localC k i j = .ok (if k = 0 then 0 else localC.entry (i, j)) := by
    rw [last, LocalMatrix.read_eq localC hi hj]
    by_cases hk : k = 0
    · rw [if_pos hk, if_pos hk]
    · rw [if_neg hk, if_neg hk]
  have ha : a_val a_row a_col localA i k =
      .ok (if (i : Int) < a_row.toInt then localA.entry (i, k) else 0) := by
    rw [a_val, LocalMatrix.read_eq localA hi hmax]
    by_cases hrow : (i : Int) < a_row.toInt
    · rw [if_pos ⟨hrow, hcol⟩, if_pos hrow]
    · rw [if_neg fun h => hrow h.1, if_neg hrow]
  have hb : b_val a_col b_col localB k j =
      .ok (if (j : Int) < b_col.toInt then localB.entry (k, j) else 0) := by
    rw [b_val, LocalMatrix.read_eq localB hmax hj]
    by_cases hright : (j : Int) < b_col.toInt
    · rw [if_pos ⟨hcol, hright⟩, if_pos hright]
    · rw [if_neg fun h => hright h.2, if_neg hright]
  obtain ⟨m', hwrite, hhere, helse⟩ := LocalMatrix.write_eq localC
    ((if k = 0 then 0 else localC.entry (i, j)) +
      (if (i : Int) < a_row.toInt then localA.entry (i, k) else 0) *
        (if (j : Int) < b_col.toInt then localB.entry (k, j) else 0)) hi hj
  refine ⟨m', ?_, ?_, helse⟩
  · simp only [update, hlast, ha, hb, bind, Except.bind, hwrite]
  · rintro y rfl
    rw [hhere, accumulate]
    by_cases hrow : (i : Int) < a_row.toInt <;> by_cases hright : (j : Int) < b_col.toInt <;>
      simp [hrow, hright]

theorem systolic3_rewrites {i : Nat} (hi : i < MAX_SIZE) :
    Rewrites LocalMatrix.entry {p | p.1 = i ∧ p.2 < MAX_SIZE}
      (accumulate a_row b_col localA localB k)
      (systolic3 a_row a_col b_col localA localB k · i) := by
  refine Rewrites.sweep (fun j => {(i, j)}) ?_ ?_ ?_
  · rintro ⟨row, col⟩
    simp only [Set.mem_ofPred_eq, List.mem_range, Set.mem_singleton_iff, Prod.mk.injEq]
    constructor
    · rintro ⟨rfl, hcol⟩
      exact ⟨col, hcol, rfl, rfl⟩
    · rintro ⟨j, hj, rfl, rfl⟩
      exact ⟨rfl, hj⟩
  · refine List.nodup_range.imp ?_
    intro j j' hne
    rw [Set.disjoint_singleton]
    simpa using hne
  · intro j hj
    exact update_rewrites a_row a_col b_col localA localB hmax hcol hi (List.mem_range.mp hj)

theorem systolic2_rewrites :
    Rewrites LocalMatrix.entry {p | p.1 < MAX_SIZE ∧ p.2 < MAX_SIZE}
      (accumulate a_row b_col localA localB k)
      (systolic2 a_row a_col b_col localA localB · k) := by
  refine Rewrites.sweep (fun i => {p | p.1 = i ∧ p.2 < MAX_SIZE}) ?_ ?_ ?_
  · rintro ⟨row, col⟩
    simp only [Set.mem_ofPred_eq, List.mem_range]
    constructor
    · rintro ⟨hrow, hcol⟩
      exact ⟨row, hrow, rfl, hcol⟩
    · rintro ⟨i, hi, rfl, hcol⟩
      exact ⟨hi, hcol⟩
  · refine List.nodup_range.imp ?_
    intro i i' hne
    apply Set.disjoint_left.mpr
    rintro p ⟨rfl, _⟩ ⟨h, _⟩
    exact hne h
  · intro i hi
    exact systolic3_rewrites a_row a_col b_col localA localB hmax hcol (List.mem_range.mp hi)

omit hmax hcol

/-- After `n` iterations a position inside the result holds the first `n`
products of its sum, and one outside holds 0. -/
def partialSum (n i j : Nat) : BitVec 32 :=
  if (i : Int) < a_row.toInt ∧ (j : Int) < b_col.toInt then
    ∑ k ∈ Finset.range n, localA.entry (i, k) * localB.entry (k, j)
  else 0

theorem accumulate_zero (i j : Nat) (content : BitVec 32) :
    accumulate a_row b_col localA localB 0 (i, j) content =
      partialSum a_row b_col localA localB 1 i j := by
  rw [accumulate, partialSum, if_pos rfl, Finset.sum_range_one, zero_add]

theorem accumulate_succ (k i j : Nat) :
    accumulate a_row b_col localA localB (k + 1) (i, j)
        (partialSum a_row b_col localA localB (k + 1) i j) =
      partialSum a_row b_col localA localB (k + 2) i j := by
  rw [accumulate, if_neg (Nat.succ_ne_zero k), partialSum, partialSum]
  by_cases hinside : (i : Int) < a_row.toInt ∧ (j : Int) < b_col.toInt
  · rw [if_pos hinside, if_pos hinside, if_pos hinside, Finset.sum_range_succ _ (k + 1)]
  · rw [if_neg hinside, if_neg hinside, if_neg hinside, add_zero]

/-- The outer loop: whatever `localC` held, the sums are complete. -/
theorem systolic1_sums (localC : LocalMatrix) (hlow : 1 ≤ a_col.toInt)
    (hhigh : a_col.toInt ≤ MAX_SIZE) :
    ∃ m, systolic1 a_row a_col b_col localA localB localC = .ok m ∧
      ∀ i < MAX_SIZE, ∀ j < MAX_SIZE,
        m.entry (i, j) = partialSum a_row b_col localA localB a_col.toInt.toNat i j := by
  have hloop : ∃ m, systolic1 a_row a_col b_col localA localB localC = .ok m ∧
      (0 < a_col.toInt.toNat → ∀ i < MAX_SIZE, ∀ j < MAX_SIZE,
        m.entry (i, j) = partialSum a_row b_col localA localB a_col.toInt.toNat i j) := by
    refine foldlM_range_invariant (fun n m => 0 < n → ∀ i < MAX_SIZE, ∀ j < MAX_SIZE,
      LocalMatrix.entry m (i, j) = partialSum a_row b_col localA localB n i j) ?_ ?_
    · intro hnone
      exact absurd hnone (Nat.lt_irrefl 0)
    · intro k hk m hsums
      have hmax : k < MAX_SIZE := by omega
      have hcol : (k : Int) < a_col.toInt := by omega
      obtain ⟨m', hstep, hupdated, _⟩ :=
        systolic2_rewrites a_row a_col b_col localA localB hmax hcol m
      refine ⟨m', hstep, ?_⟩
      intro _ i hi j hj
      rw [hupdated (i, j) ⟨hi, hj⟩]
      cases k with
      | zero => exact accumulate_zero a_row b_col localA localB i j _
      | succ k =>
        rw [hsums (Nat.succ_pos k) i hi j hj]
        exact accumulate_succ a_row b_col localA localB k i j
  obtain ⟨m, hruns, hsums⟩ := hloop
  exact ⟨m, hruns, hsums (by omega)⟩

end systolic

/-- The product of the two padded blocks at `a` and `b`: rows are `MAX_SIZE`
words apart, whatever the sizes are. -/
def paddedProduct (mem : Memory) (a b : Nat) (a_row a_col b_col : BitVec 32) (i j : Nat) :
    BitVec 32 :=
  if (i : Int) < a_row.toInt ∧ (j : Int) < b_col.toInt then
    ∑ k ∈ Finset.range a_col.toInt.toNat,
      mem (a + (MAX_SIZE * i + k)) * mem (b + (MAX_SIZE * k + j))
  else 0

theorem partialSum_readBlock (mem : Memory) (a b : Nat) {a_row a_col b_col : BitVec 32}
    (hhigh : a_col.toInt ≤ MAX_SIZE) {i j : Nat} (hi : i < MAX_SIZE) (hj : j < MAX_SIZE) :
    partialSum a_row b_col (readBlock mem a) (readBlock mem b) a_col.toInt.toNat i j =
      paddedProduct mem a b a_row a_col b_col i j := by
  rw [partialSum, paddedProduct]
  refine if_congr Iff.rfl ?_ rfl
  apply Finset.sum_congr rfl
  intro k hk
  have hmax : k < MAX_SIZE := by
    rw [Finset.mem_range] at hk
    omega
  rw [readBlock_entry mem a hi hmax, readBlock_entry mem b hmax hj]

/-- A call stores one block, the same for every content of `localC`, and pushes
its `work_id`. -/
theorem mmult_block (mem : Memory) (work_id_out_stream : List (BitVec 32)) (a b c : Nat)
    (a_row b_col work_id : BitVec 32) {a_col : BitVec 32} (hlow : 1 ≤ a_col.toInt)
    (hhigh : a_col.toInt ≤ MAX_SIZE) :
    ∃ m, (∀ localC, mmult localC mem work_id_out_stream a b c a_row a_col b_col work_id =
        .ok (writeBlock mem c m, work_id_out_stream ++ [work_id])) ∧
      ∀ i < MAX_SIZE, ∀ j < MAX_SIZE,
        m.entry (i, j) = paddedProduct mem a b a_row a_col b_col i j := by
  have hblock : ∀ localC, ∃ m,
      systolic1 a_row a_col b_col (readBlock mem a) (readBlock mem b) localC = .ok m ∧
      ∀ i < MAX_SIZE, ∀ j < MAX_SIZE,
        m.entry (i, j) = paddedProduct mem a b a_row a_col b_col i j := by
    intro localC
    obtain ⟨m, hruns, hsums⟩ := systolic1_sums a_row a_col b_col (readBlock mem a)
      (readBlock mem b) localC hlow hhigh
    refine ⟨m, hruns, ?_⟩
    intro i hi j hj
    rw [hsums i hi j hj, partialSum_readBlock mem a b hhigh hi hj]
  obtain ⟨m, _, hproduct⟩ := hblock (readBlock mem c)
  refine ⟨m, ?_, hproduct⟩
  intro localC
  obtain ⟨m', hruns, hproduct'⟩ := hblock localC
  have hsame : writeBlock mem c m' = writeBlock mem c m := by
    apply writeBlock_congr
    intro i hi j hj
    rw [hproduct i hi j hj, hproduct' i hi j hj]
  simp only [mmult, hruns, bind, Except.bind, hsame]
  rfl

/-- For at most `MAX_SIZE` columns of A the block at `c` receives the product of
the padded blocks, independent of what `localC` held, no other word changes, and
`work_id` is pushed once. -/
theorem mmult_padded_product (mem : Memory) (work_id_out_stream : List (BitVec 32)) (a b c : Nat)
    (a_row a_col b_col work_id : BitVec 32) (hlow : 1 ≤ a_col.toInt) (hhigh : a_col.toInt ≤ 16) :
    ∃ mem', (∀ localC, mmult localC mem work_id_out_stream a b c a_row a_col b_col work_id =
        .ok (mem', work_id_out_stream ++ [work_id])) ∧
      (∀ i < 16, ∀ j < 16, mem' (c + (16 * i + j)) =
        if (i : Int) < a_row.toInt ∧ (j : Int) < b_col.toInt then
          ∑ k ∈ Finset.range a_col.toInt.toNat, mem (a + (16 * i + k)) * mem (b + (16 * k + j))
        else 0) ∧
      ∀ q, ¬(c ≤ q ∧ q < c + 256) → mem' q = mem q := by
  obtain ⟨m, hruns, hproduct⟩ :=
    mmult_block mem work_id_out_stream a b c a_row b_col work_id hlow hhigh
  refine ⟨writeBlock mem c m, hruns, ?_, ?_⟩
  · intro i hi j hj
    exact (writeBlock_entry mem c m hi hj).trans (hproduct i hi j hj)
  · intro q hq
    exact writeBlock_outside mem m hq

/-- Two columns and two rows out of blocks whose word `n` holds `n`. -/
theorem mmult_padded_product_two :
    ∃ mem', (∀ localC, mmult localC (BitVec.ofNat 32) [] 0 256 512 2 2 2 7 = .ok (mem', [7])) ∧
      mem' (512 + (16 * 1 + 1)) = 16 * 257 + 17 * 273 ∧ mem' (512 + (16 * 2 + 0)) = 0 := by
  obtain ⟨mem', hruns, hproduct, _⟩ :=
    mmult_padded_product (BitVec.ofNat 32) [] 0 256 512 2 2 2 7 (by decide) (by decide)
  refine ⟨mem', hruns, ?_, ?_⟩
  · rw [hproduct 1 (by decide) 1 (by decide)]
    rfl
  · rw [hproduct 2 (by decide) 0 (by decide)]
    rfl

end reconic.systolic
