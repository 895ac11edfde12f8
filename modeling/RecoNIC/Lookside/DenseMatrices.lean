import RecoNIC.Lookside.Mmult

namespace reconic.systolic

/-- One word of the product of two matrices that are stored row-major without
padding, as the host and the simulation store them. -/
def denseProduct (mem : Memory) (a b a_col b_col i j : Nat) : BitVec 32 :=
  ∑ k ∈ Finset.range a_col, mem (a + (a_col * i + k)) * mem (b + (b_col * k + j))

/-- The words at `c` are the dense product of what was stored at `a` and `b`,
and no other word has changed. -/
structure DenseResult (mem mem' : Memory) (a b c a_row a_col b_col : Nat) : Prop where
  product : ∀ i < a_row, ∀ j < b_col,
    mem' (c + (b_col * i + j)) = denseProduct mem a b a_col b_col i j
  unchanged : ∀ q, ¬(c ≤ q ∧ q < c + a_row * b_col) → mem' q = mem q

/-- A call that multiplies dense matrices of these sizes, whatever they hold. -/
def MultipliesDense (localC : LocalMatrix) (a b c : Nat)
    (a_row a_col b_col work_id : BitVec 32) : Prop :=
  ∀ mem out, ∃ mem' out',
    mmult localC mem out a b c a_row a_col b_col work_id = .ok (mem', out') ∧
      DenseResult mem mem' a b c a_row.toNat a_col.toNat b_col.toNat

/-- A matrix size that the local matrices have room for. -/
def Fits (size : BitVec 32) : Prop := 1 ≤ size.toNat ∧ size.toNat ≤ 16

instance (size : BitVec 32) : Decidable (Fits size) :=
  inferInstanceAs (Decidable (1 ≤ size.toNat ∧ size.toNat ≤ 16))

theorem Fits.toInt {size : BitVec 32} (h : Fits size) : size.toInt = size.toNat := by
  apply BitVec.toInt_eq_toNat_of_lt
  have := h.2
  omega

theorem eq_sixteen {size : BitVec 32} : size = 16 ↔ size.toNat = 16 := by
  constructor
  · rintro rfl
    rfl
  · intro h
    exact BitVec.eq_of_toNat_eq h

section call

variable {localC : LocalMatrix} {a b c : Nat} {a_row a_col b_col work_id : BitVec 32}
  (hrow : Fits a_row) (hmid : Fits a_col) (hcol : Fits b_col)

include hrow hmid hcol

theorem paddedProduct_eq (mem : Memory) (i j : Nat) :
    paddedProduct mem a b a_row a_col b_col i j =
      if i < a_row.toNat ∧ j < b_col.toNat then
        ∑ k ∈ Finset.range a_col.toNat, mem (a + (16 * i + k)) * mem (b + (16 * k + j))
      else 0 := by
  rw [paddedProduct, hrow.toInt, hmid.toInt, hcol.toInt, Int.toNat_natCast]
  exact if_congr (by omega) rfl rfl

/-- Every call stores the padded product over the whole block at `c`. -/
theorem mmult_stores (localC : LocalMatrix) (mem : Memory) (out : List (BitVec 32)) (c : Nat)
    (work_id : BitVec 32) :
    ∃ mem', mmult localC mem out a b c a_row a_col b_col work_id =
        .ok (mem', out ++ [work_id]) ∧
      (∀ i < 16, ∀ j < 16, mem' (c + (16 * i + j)) =
        if i < a_row.toNat ∧ j < b_col.toNat then
          ∑ k ∈ Finset.range a_col.toNat, mem (a + (16 * i + k)) * mem (b + (16 * k + j))
        else 0) ∧
      ∀ q, ¬(c ≤ q ∧ q < c + 256) → mem' q = mem q := by
  have hlow : 1 ≤ a_col.toInt := by
    rw [hmid.toInt]
    have := hmid.1
    omega
  have hhigh : a_col.toInt ≤ MAX_SIZE := by
    rw [hmid.toInt]
    have := hmid.2
    simp only [MAX_SIZE]
    omega
  obtain ⟨m, hruns, hproduct⟩ := mmult_block mem out a b c a_row b_col work_id hlow hhigh
  refine ⟨writeBlock mem c m, hruns localC, ?_, ?_⟩
  · intro i hi j hj
    rw [← paddedProduct_eq hrow hmid hcol]
    exact (writeBlock_entry mem c m hi hj).trans (hproduct i hi j hj)
  · intro q hq
    exact writeBlock_outside mem m hq

/-- The padding is stored as well: with fewer rows or columns in the result
than the block has, its last word becomes 0. -/
theorem MultipliesDense.full_result
    (h : MultipliesDense localC a b c a_row a_col b_col work_id) :
    a_row.toNat = 16 ∧ b_col.toNat = 16 := by
  obtain ⟨mem', out', hcall, hdense⟩ := h (fun _ => 1) []
  obtain ⟨stored, hstores, hblock, _⟩ :=
    mmult_stores hrow hmid hcol localC (fun _ => 1) [] c work_id
  obtain ⟨rfl, _⟩ : mem' = stored ∧ out' = [] ++ [work_id] := by
    rw [hstores] at hcall
    simpa using hcall.symm
  apply Classical.byContradiction
  intro hpart
  have hcorner : ¬(15 < a_row.toNat ∧ 15 < b_col.toNat) := by
    have := hrow.2
    have := hcol.2
    omega
  have hzero := hblock 15 (by decide) 15 (by decide)
  rw [if_neg hcorner] at hzero
  have harea : a_row.toNat * b_col.toNat ≤ 255 := by
    obtain h | h : a_row.toNat ≤ 15 ∨ b_col.toNat ≤ 15 := by omega
    · exact (Nat.mul_le_mul h hcol.2).trans (by decide)
    · exact (Nat.mul_le_mul hrow.2 h).trans (by decide)
  have hone := hdense.unchanged (c + (16 * 15 + 15)) (by omega)
  rw [hzero] at hone
  exact absurd hone (by decide)

omit hrow hmid hcol

/-- A memory that holds 1 at two places and 0 elsewhere. -/
def marked (p q : Nat) : Memory := fun place => if place = p ∨ place = q then 1 else 0

/-- With the second row of A marked at its dense place and a column of B at its
first word, the dense product of the two is 1. -/
theorem denseProduct_marked {cols : Nat} (a b j : Nat) (hcols : 0 < cols) :
    denseProduct (marked (a + cols) (b + j)) a b cols 16 1 j = 1 := by
  rw [denseProduct, Finset.sum_eq_single 0]
  · simp [marked]
  · intro k _ hk
    by_cases hsecond : b + (16 * k + j) = a + cols
    · have hfirst : ¬(a + (cols * 1 + k) = a + cols ∨ a + (cols * 1 + k) = b + j) := by omega
      rw [marked, if_neg hfirst, zero_mul]
    · have hmiss : ¬(b + (16 * k + j) = a + cols ∨ b + (16 * k + j) = b + j) := by omega
      rw [marked, marked, if_neg hmiss, mul_zero]
  · intro hempty
    exact absurd (Finset.mem_range.mpr hcols) hempty

/-- The kernel looks for the second row of A 16 words behind the first. -/
theorem paddedSum_marked {cols : Nat} (a b j : Nat) (hcols : cols < 16) (hj : b + j ≠ a + 16) :
    ∑ k ∈ Finset.range cols, marked (a + cols) (b + j) (a + (16 * 1 + k)) *
      marked (a + cols) (b + j) (b + (16 * k + j)) = 0 := by
  apply Finset.sum_eq_zero
  intro k _
  by_cases hfirst : a + (16 * 1 + k) = b + j
  · have hmiss : ¬(b + (16 * k + j) = a + cols ∨ b + (16 * k + j) = b + j) := by omega
    rw [marked, marked, if_neg hmiss, mul_zero]
  · have hmiss : ¬(a + (16 * 1 + k) = a + cols ∨ a + (16 * 1 + k) = b + j) := by omega
    rw [marked, if_neg hmiss, zero_mul]

include hrow hmid hcol

/-- Rows of A that are shorter than the block's are read at the wrong places. -/
theorem MultipliesDense.full_rows (h : MultipliesDense localC a b c a_row a_col b_col work_id) :
    a_col.toNat = 16 := by
  obtain ⟨hsixteen, hsixteen'⟩ := MultipliesDense.full_result hrow hmid hcol h
  apply Classical.byContradiction
  intro hshort
  have hcols : a_col.toNat < 16 := by
    have := hmid.2
    omega
  -- one of two columns of B keeps clear of the word that the kernel takes for the row
  obtain ⟨j, hj, hclear⟩ : ∃ j < 16, b + j ≠ a + 16 := by
    by_cases hb : b = a + 16
    · exact ⟨1, by decide, by omega⟩
    · exact ⟨0, by decide, by omega⟩
  obtain ⟨mem', out', hcall, hdense⟩ := h (marked (a + a_col.toNat) (b + j)) []
  obtain ⟨stored, hstores, hblock, _⟩ := mmult_stores hrow hmid hcol localC
    (marked (a + a_col.toNat) (b + j)) [] c work_id (a := a) (b := b)
  obtain ⟨rfl, _⟩ : mem' = stored ∧ out' = [] ++ [work_id] := by
    rw [hstores] at hcall
    simpa using hcall.symm
  have hone := hdense.product 1 (by omega) j (by omega)
  rw [hsixteen', denseProduct_marked a b j hmid.1] at hone
  have hzero := hblock 1 (by decide) j hj
  rw [paddedSum_marked a b j hcols hclear, ite_self, hone] at hzero
  exact absurd hzero (by decide)

end call

/-- Full blocks have no padding. -/
theorem multipliesDense_sixteen (localC : LocalMatrix) (a b c : Nat) (work_id : BitVec 32) :
    MultipliesDense localC a b c 16 16 16 work_id := by
  intro mem out
  have hfits : Fits 16 := by decide
  obtain ⟨mem', hcall, hblock, houtside⟩ :=
    mmult_stores hfits hfits hfits localC mem out c work_id (a := a) (b := b)
  refine ⟨mem', out ++ [work_id], hcall, ?_, houtside⟩
  intro i hi j hj
  exact (hblock i hi j hj).trans (if_pos ⟨hi, hj⟩)

/-- The kernel multiplies dense matrices, for all their contents, exactly when
both fill the blocks. -/
theorem mmult_dense_iff (localC : LocalMatrix) (a b c : Nat) {a_row a_col b_col : BitVec 32}
    (work_id : BitVec 32) (hrow : Fits a_row) (hmid : Fits a_col) (hcol : Fits b_col) :
    MultipliesDense localC a b c a_row a_col b_col work_id ↔
      a_row = 16 ∧ a_col = 16 ∧ b_col = 16 := by
  constructor
  · intro h
    obtain ⟨hrows, hcols⟩ := MultipliesDense.full_result hrow hmid hcol h
    have hmids := MultipliesDense.full_rows hrow hmid hcol h
    exact ⟨eq_sixteen.mpr hrows, eq_sixteen.mpr hmids, eq_sixteen.mpr hcols⟩
  · rintro ⟨rfl, rfl, rfl⟩
    exact multipliesDense_sixteen localC a b c work_id

theorem mmult_dense_iff_sixteen :
    MultipliesDense (readBlock (fun _ => 0) 0) 0 256 512 16 16 16 7 :=
  (mmult_dense_iff _ 0 256 512 7 (by decide) (by decide) (by decide)).mpr ⟨rfl, rfl, rfl⟩

/-- The dense matrix with rows 1 2 and 3 4 at 0, and the identity at 256. -/
def twoByTwo : Memory := fun p =>
  [1, 2, 3, 4].getD p (if p = 256 ∨ p = 259 then 1 else 0)

/-- The product of a 2 by 2 matrix with the identity: the second row is not
stored where the host reads it. -/
theorem mmult_dense_two :
    ¬∃ mem' out', mmult (readBlock (fun _ => 0) 0) twoByTwo [] 0 256 512 2 2 2 7 =
        .ok (mem', out') ∧ DenseResult twoByTwo mem' 0 256 512 2 2 2 := by
  rintro ⟨mem', out', hcall, hdense⟩
  have hfits : Fits 2 := by decide
  obtain ⟨stored, hstores, hblock, _⟩ := mmult_stores hfits hfits hfits
    (readBlock (fun _ => 0) 0) twoByTwo [] 512 7 (a := 0) (b := 256)
  obtain ⟨rfl, _⟩ : mem' = stored ∧ out' = [] ++ [7] := by
    rw [hstores] at hcall
    simpa using hcall.symm
  have hthree := hdense.product 1 (by decide) 0 (by decide)
  have hzero := hblock 0 (by decide) 2 (by decide)
  rw [show 512 + (16 * 0 + 2) = 512 + (2 * 1 + 0) from rfl, hthree] at hzero
  exact absurd hzero (by decide)

end reconic.systolic
