import Mathlib.Algebra.BigOperators.Group.List.Basic
import Mathlib.Algebra.Order.Group.Multiset
import Mathlib.Data.List.Sort
import Mathlib.Data.Multiset.Range
import Mathlib.Tactic.Common
import Mathlib.Tactic.Ring

namespace ranges

/-- Consecutive numbers: `size` of them, from `base` on. -/
structure Block where
  base : ℤ
  size : ℕ
  deriving DecidableEq

namespace Block

/-- The first number after a block. -/
def stop (b : Block) : ℤ := b.base + b.size

def cells (b : Block) : Multiset ℤ := (Multiset.range b.size).map fun i : ℕ => b.base + i

def Contains (b : Block) (base : ℤ) (size : ℕ) : Prop := b.base ≤ base ∧ base + size ≤ b.stop

instance (b : Block) (base : ℤ) (size : ℕ) : Decidable (b.Contains base size) :=
  inferInstanceAs (Decidable (_ ∧ _))

@[simp] theorem stop_mk (base : ℤ) (size : ℕ) : (Block.mk base size).stop = base + size := rfl

/-- The numbers of a block lie from its base up to its stop. -/
@[simp] theorem mem_cells {b : Block} {x : ℤ} : x ∈ b.cells ↔ b.base ≤ x ∧ x < b.stop := by
  simp only [cells, stop, Multiset.mem_map, Multiset.mem_range]
  constructor
  · rintro ⟨i, hi, rfl⟩
    omega
  · rintro ⟨hlow, hhigh⟩
    exact ⟨(x - b.base).toNat, by omega, by omega⟩

/-- No number is twice in a block. -/
theorem cells_nodup (b : Block) : b.cells.Nodup :=
  (Multiset.nodup_range b.size).map fun i j h => by simpa using h

@[simp] theorem card_cells (b : Block) : Multiset.card b.cells = b.size := by simp [cells]

@[simp] theorem cells_empty (base : ℤ) : (Block.mk base 0).cells = 0 := rfl

/-- A block is cut into two. -/
theorem cells_cut (base : ℤ) (m n : ℕ) :
    (Block.mk base (m + n)).cells = (Block.mk base m).cells + (Block.mk (base + m) n).cells := by
  simp only [cells, Multiset.range_add, Multiset.map_add, Multiset.map_map, Function.comp_def]
  congr 2
  funext i
  push_cast
  ring

end Block

/-- All numbers of a list of blocks, each as often as it is in one of them. -/
def cells (blocks : List Block) : Multiset ℤ := (blocks.map Block.cells).sum

@[simp] theorem cells_nil : cells [] = 0 := rfl

@[simp] theorem cells_cons (b : Block) (blocks : List Block) :
    cells (b :: blocks) = b.cells + cells blocks := by simp [cells]

@[simp] theorem cells_append (l l' : List Block) : cells (l ++ l') = cells l + cells l' := by
  simp [cells]

/-- The order of the blocks does not matter. -/
theorem cells_perm {l l' : List Block} (h : l.Perm l') : cells l = cells l' :=
  (h.map Block.cells).sum_eq

/-- The numbers of blocks are those of each of them. -/
theorem mem_cells {blocks : List Block} {x : ℤ} : x ∈ cells blocks ↔ ∃ b ∈ blocks, x ∈ b.cells := by
  induction blocks with
  | nil => simp
  | cons b blocks ih => simp [ih]

/-- Blocks have all numbers of each of them. -/
theorem cells_le_of_mem {blocks : List Block} {b : Block} (h : b ∈ blocks) :
    b.cells ≤ cells blocks := by
  obtain ⟨l, l', rfl⟩ := List.append_of_mem h
  rw [cells_append, cells_cons]
  exact (Multiset.le_add_right _ _).trans (Multiset.le_add_left _ _)

/-- Blocks have as many numbers as their sizes add up to. -/
theorem card_cells (blocks : List Block) :
    Multiset.card (cells blocks) = (blocks.map Block.size).sum := by
  induction blocks with
  | nil => rfl
  | cons b blocks ih => simp [ih]

/-- Blocks in order that do not overlap. -/
def Ordered (blocks : List Block) : Prop := blocks.Pairwise fun a b => a.stop ≤ b.base

/-- Blocks in order with a gap between any two. -/
def Separated (blocks : List Block) : Prop := blocks.Pairwise fun a b => a.stop < b.base

/-- Blocks with gaps between them do not overlap. -/
theorem Separated.ordered {blocks : List Block} (h : Separated blocks) : Ordered blocks :=
  h.imp fun h => h.le

/-- A run of numbers that are all in separated blocks is in one of them. -/
theorem Separated.run_in_block {blocks : List Block} (h : Separated blocks) {base : ℤ} {size : ℕ}
    (hpos : 0 < size) (hrun : ∀ x, base ≤ x → x < base + size → x ∈ cells blocks) :
    ∃ b ∈ blocks, b.Contains base size := by
  induction blocks with
  | nil => simpa using hrun base (by omega) (by omega)
  | cons b blocks ih =>
    obtain ⟨hfirst, hrest⟩ := List.pairwise_cons.mp h
    have hlater : ∀ x ∈ cells blocks, b.stop < x := by
      intro x hx
      obtain ⟨c, hc, hin⟩ := mem_cells.mp hx
      have := hfirst c hc
      have := (Block.mem_cells.mp hin).1
      omega
    by_cases hbefore : b.stop ≤ base
    · obtain ⟨c, hc, hin⟩ := ih hrest fun x hlow hhigh => by
        rcases Multiset.mem_add.mp (cells_cons b blocks ▸ hrun x hlow hhigh) with hb | hb
        · have := (Block.mem_cells.mp hb).2
          omega
        · exact hb
      exact ⟨c, List.mem_cons_of_mem _ hc, hin⟩
    · refine ⟨b, List.mem_cons_self, ?_, ?_⟩
      · rcases Multiset.mem_add.mp (cells_cons b blocks ▸ hrun base le_rfl (by omega)) with hb | hb
        · exact (Block.mem_cells.mp hb).1
        · have := hlater base hb
          omega
      · by_contra hover
        rcases Multiset.mem_add.mp
          (cells_cons b blocks ▸ hrun b.stop (by omega) (by omega)) with hb | hb
        · have := (Block.mem_cells.mp hb).2
          omega
        · have := hlater b.stop hb
          omega

/-- The blocks from a first one on, where each that another one continues is joined with it. -/
def join (first : Block) : List Block → List Block
  | [] => [first]
  | b :: blocks =>
    if first.stop = b.base then join ⟨first.base, first.size + b.size⟩ blocks
    else first :: join b blocks

def joined : List Block → List Block
  | [] => []
  | b :: blocks => join b blocks

/-- Joining neighbours keeps every number. -/
theorem cells_join (first : Block) (blocks : List Block) :
    cells (join first blocks) = first.cells + cells blocks := by
  induction blocks generalizing first with
  | nil => simp [join]
  | cons b blocks ih =>
    rw [join]
    split
    · next hnext =>
      rw [ih, Block.cells_cut, cells_cons, add_assoc]
      simp only [Block.stop] at hnext
      rw [hnext]
    · rw [cells_cons, ih, cells_cons]

theorem cells_joined (blocks : List Block) : cells (joined blocks) = cells blocks := by
  cases blocks with
  | nil => rfl
  | cons b blocks => rw [joined, cells_join, cells_cons]

/-- A block and its neighbour may be made one. -/
theorem Ordered.joining {first b : Block} {blocks : List Block}
    (h : Ordered (first :: b :: blocks)) (hnext : first.stop = b.base) :
    Ordered (⟨first.base, first.size + b.size⟩ :: blocks) := by
  obtain ⟨-, hrest⟩ := List.pairwise_cons.mp h
  obtain ⟨hb, hblocks⟩ := List.pairwise_cons.mp hrest
  refine List.pairwise_cons.mpr ⟨fun c hc => ?_, hblocks⟩
  have := hb c hc
  simp only [Block.stop] at this hnext ⊢
  push_cast
  omega

/-- Joining does not begin before the first block. -/
theorem base_le_join {first : Block} {blocks : List Block} (h : Ordered (first :: blocks)) :
    ∀ b ∈ join first blocks, first.base ≤ b.base := by
  induction blocks generalizing first with
  | nil => simp [join]
  | cons b blocks ih =>
    intro c hc
    rw [join] at hc
    split at hc
    · next hnext => exact ih (h.joining hnext) c hc
    · obtain ⟨hfirst, hrest⟩ := List.pairwise_cons.mp h
      rcases List.mem_cons.mp hc with rfl | hc
      · exact le_rfl
      · have := hfirst b List.mem_cons_self
        have := ih hrest c hc
        simp only [Block.stop] at *
        omega

/-- Once neighbours are joined there are gaps between all blocks. -/
theorem separated_join {first : Block} {blocks : List Block} (h : Ordered (first :: blocks)) :
    Separated (join first blocks) := by
  induction blocks generalizing first with
  | nil => exact List.pairwise_singleton _ _
  | cons b blocks ih =>
    rw [join]
    split
    · next hnext => exact ih (h.joining hnext)
    · next hgap =>
      obtain ⟨hfirst, hrest⟩ := List.pairwise_cons.mp h
      refine List.pairwise_cons.mpr ⟨fun c hc => ?_, ih hrest⟩
      have := hfirst b List.mem_cons_self
      have := base_le_join hrest c hc
      omega

theorem separated_joined {blocks : List Block} (h : Ordered blocks) : Separated (joined blocks) := by
  cases blocks with
  | nil => exact List.Pairwise.nil
  | cons b blocks => exact separated_join h

/-- Every block is in a window. -/
def Within (w : Block) (blocks : List Block) : Prop :=
  ∀ b ∈ blocks, w.base ≤ b.base ∧ b.stop ≤ w.stop

/-- The list with a block of it cut into two. -/
theorem cells_cut {l l' : List Block} (base : ℤ) (m n : ℕ) :
    cells (l ++ ⟨base, m⟩ :: ⟨base + m, n⟩ :: l') = cells (l ++ ⟨base, m + n⟩ :: l') := by
  simp only [cells_append, cells_cons, Block.cells_cut, add_assoc]

/-- A block may be cut in two within its window. -/
theorem Within.cut {w : Block} {l l' : List Block} {base : ℤ} {m n : ℕ}
    (h : Within w (l ++ ⟨base, m + n⟩ :: l')) :
    Within w (l ++ ⟨base, m⟩ :: ⟨base + m, n⟩ :: l') := by
  obtain ⟨hlow, hhigh⟩ := h ⟨base, m + n⟩ (by simp)
  simp only [Block.stop_mk] at hlow hhigh
  push_cast at hhigh
  intro b hb
  simp only [List.mem_append, List.mem_cons] at hb
  rcases hb with hb | rfl | rfl | hb
  · exact h b (by simp [hb])
  · exact ⟨hlow, by simp only [Block.stop_mk]; omega⟩
  · exact ⟨by dsimp only; omega, by simp only [Block.stop_mk]; omega⟩
  · exact h b (by simp [hb])

/-- The two parts of a block do not overlap with each other or with the rest. -/
theorem Ordered.cut {l l' : List Block} {base : ℤ} {m n : ℕ}
    (h : Ordered (l ++ ⟨base, m + n⟩ :: l')) :
    Ordered (l ++ ⟨base, m⟩ :: ⟨base + m, n⟩ :: l') := by
  obtain ⟨hl, hrest, hacross⟩ := List.pairwise_append.mp h
  obtain ⟨hb, hl'⟩ := List.pairwise_cons.mp hrest
  have hlast : ∀ c ∈ l', base + m + n ≤ c.base := by
    intro c hc
    have := hb c hc
    simp only [Block.stop_mk] at this
    push_cast at this
    omega
  refine List.pairwise_append.mpr ⟨hl, List.pairwise_cons.mpr ⟨?_, List.pairwise_cons.mpr
    ⟨fun c hc => hlast c hc, hl'⟩⟩, ?_⟩
  · intro c hc
    rcases List.mem_cons.mp hc with rfl | hc
    · exact le_rfl
    · have := hlast c hc
      simp only [Block.stop_mk]
      omega
  · intro a ha c hc
    have hbase : a.stop ≤ base := hacross a ha _ List.mem_cons_self
    rcases List.mem_cons.mp hc with rfl | hc
    · exact hbase
    · rcases List.mem_cons.mp hc with rfl | hc
      · dsimp only
        omega
      · exact hacross a ha c (List.mem_cons_of_mem _ hc)

/-- A block with its numbers in a window is in the window. -/
theorem Block.within_of_cells_le {b w : Block} (h : b.cells ≤ w.cells) (hpos : 0 < b.size) :
    w.base ≤ b.base ∧ b.stop ≤ w.stop := by
  have hfirst : b.base ∈ w.cells := Multiset.mem_of_le h (by
    simp only [Block.mem_cells, Block.stop]
    omega)
  have hlast : b.stop - 1 ∈ w.cells := Multiset.mem_of_le h (by
    simp only [Block.mem_cells, Block.stop]
    omega)
  rw [Block.mem_cells] at hfirst hlast
  omega

/-- Joined blocks stay within the window. -/
theorem Within.join {w first : Block} {blocks : List Block} (h : Within w (first :: blocks)) :
    Within w (join first blocks) := by
  induction blocks generalizing first with
  | nil => exact h
  | cons b blocks ih =>
    have hfirst := h first List.mem_cons_self
    have hb := h b (by simp)
    rw [ranges.join]
    split
    · next hnext =>
      refine ih fun c hc => ?_
      rcases List.mem_cons.mp hc with rfl | hc
      · simp only [Block.stop] at hfirst hb hnext ⊢
        push_cast
        omega
      · exact h c (by simp [hc])
    · intro c hc
      rcases List.mem_cons.mp hc with rfl | hc
      · exact hfirst
      · exact ih (fun d hd => h d (List.mem_cons_of_mem _ hd)) c hc

theorem Within.joined {w : Block} {blocks : List Block} (h : Within w blocks) :
    Within w (joined blocks) := by
  cases blocks with
  | nil => exact h
  | cons b blocks => exact h.join

/-- Joining leaves no empty block behind. -/
theorem size_pos_join {first : Block} {blocks : List Block}
    (h : ∀ b ∈ first :: blocks, 0 < b.size) : ∀ b ∈ join first blocks, 0 < b.size := by
  induction blocks generalizing first with
  | nil => exact h
  | cons b blocks ih =>
    rw [join]
    split
    · refine ih fun c hc => ?_
      rcases List.mem_cons.mp hc with rfl | hc
      · exact Nat.add_pos_left (h first List.mem_cons_self) _
      · exact h c (by simp [hc])
    · intro c hc
      rcases List.mem_cons.mp hc with rfl | hc
      · exact h c List.mem_cons_self
      · exact ih (fun d hd => h d (List.mem_cons_of_mem _ hd)) c hc

theorem size_pos_joined {blocks : List Block} (h : ∀ b ∈ blocks, 0 < b.size) :
    ∀ b ∈ joined blocks, 0 < b.size := by
  cases blocks with
  | nil => exact h
  | cons b blocks => exact size_pos_join h

/-- A block is put before the first one that is above it. -/
def insert (b : Block) (blocks : List Block) : List Block :=
  blocks.orderedInsert (fun a c => a.base < c.base) b

/-- Inserting a block adds just its numbers. -/
theorem cells_insert (b : Block) (blocks : List Block) :
    cells (insert b blocks) = b.cells + cells blocks := by
  rw [insert, cells_perm (List.perm_orderedInsert _ b blocks), cells_cons]

/-- A block that is apart from all others has its place between them. -/
theorem Ordered.insert {b : Block} {blocks : List Block} (h : Ordered blocks)
    (hapart : ∀ c ∈ blocks, b.stop ≤ c.base ∨ c.stop ≤ b.base) (hpos : 0 < b.size)
    (hsizes : ∀ c ∈ blocks, 0 < c.size) : Ordered (insert b blocks) := by
  induction blocks with
  | nil => exact List.pairwise_singleton _ _
  | cons c blocks ih =>
    obtain ⟨hc, hrest⟩ := List.pairwise_cons.mp h
    have hcb := hapart c List.mem_cons_self
    have hsize := hsizes c List.mem_cons_self
    rw [ranges.insert, List.orderedInsert_cons]
    split
    · next hlt =>
      have hbc : b.stop ≤ c.base := by
        simp only [Block.stop] at hcb ⊢
        omega
      refine List.pairwise_cons.mpr ⟨fun d hd => ?_, h⟩
      rcases List.mem_cons.mp hd with rfl | hd
      · exact hbc
      · have := hc d hd
        simp only [Block.stop] at this hbc ⊢
        omega
    · next hlt =>
      refine List.pairwise_cons.mpr ⟨fun d hd => ?_, ih hrest (fun d hd => hapart d (by simp [hd]))
        fun d hd => hsizes d (by simp [hd])⟩
      rcases (List.mem_orderedInsert _).mp hd with rfl | hd
      · simp only [Block.stop] at hcb hlt ⊢
        omega
      · exact hc d hd

/-- Blocks without a common number are one after the other. -/
theorem Block.apart {a b : Block} (h : (a.cells + b.cells).Nodup) (ha : 0 < a.size)
    (hb : 0 < b.size) : a.stop ≤ b.base ∨ b.stop ≤ a.base := by
  by_contra hover
  simp only [Block.stop] at hover
  have hdisjoint := (Multiset.nodup_add.mp h).2.2
  have hin : max a.base b.base ∈ a.cells ∧ max a.base b.base ∈ b.cells := by
    simp only [Block.mem_cells, Block.stop]
    omega
  exact Multiset.disjoint_left.mp hdisjoint hin.1 hin.2

end ranges
