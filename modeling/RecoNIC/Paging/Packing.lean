import Mathlib.Algebra.Order.Ring.Nat
import Mathlib.Data.List.Induction
import Mathlib.Tactic.Common

namespace paging

section Packing

variable {page : Nat}

/-- A block of at most a page lies in one page, and a larger one starts a page. -/
def InPlace (page offset size : Nat) : Prop :=
  if size ≤ page then offset % page + size ≤ page else offset % page = 0

/-- Where a block goes that is placed at an offset or at the next page behind it. -/
def place (page offset size : Nat) : Nat :=
  if size ≤ page then
    if offset % page + size > page then (offset / page + 1) * page else offset
  else if offset % page ≠ 0 then (offset / page + 1) * page
  else offset

/-- Where blocks end that are placed one behind the other. -/
def packed (page : Nat) (sizes : List Nat) : Nat :=
  sizes.foldl (fun offset size => place page offset size + size) 0

/-- The blocks with their places, from an offset on. -/
def placesFrom (page : Nat) : Nat → List Nat → List (Nat × Nat)
  | _, [] => []
  | offset, size :: sizes =>
    (place page offset size, size) :: placesFrom page (place page offset size + size) sizes

def places (page : Nat) (sizes : List Nat) : List (Nat × Nat) := placesFrom page 0 sizes

theorem le_next_page (hpage : 0 < page) (offset : Nat) : offset ≤ (offset / page + 1) * page := by
  rw [Nat.mul_comm]
  exact Nat.le_of_lt (Nat.lt_mul_div_succ offset hpage)

/-- An offset that lies behind another one but less far into its page is in a later page. -/
theorem next_page_le {offset later : Nat} (hle : offset ≤ later)
    (hless : later % page < offset % page) : (offset / page + 1) * page ≤ later := by
  have hpages : offset / page ≤ later / page := Nat.div_le_div_right hle
  have hne : offset / page ≠ later / page := by
    intro hsame
    have hoffset := Nat.div_add_mod offset page
    have hlater := Nat.div_add_mod later page
    rw [hsame] at hoffset
    omega
  calc (offset / page + 1) * page ≤ later / page * page := Nat.mul_le_mul_right page (by omega)
    _ ≤ later := Nat.div_mul_le_self later page

theorem le_place (hpage : 0 < page) (offset size : Nat) : offset ≤ place page offset size := by
  have hnext := le_next_page hpage offset
  rw [place]
  split <;> split <;> omega

theorem place_inPlace (offset size : Nat) :
    InPlace page (place page offset size) size := by
  rw [InPlace, place]
  by_cases hsmall : size ≤ page
  · rw [if_pos hsmall, if_pos hsmall]
    by_cases hcross : offset % page + size > page
    · rw [if_pos hcross, Nat.mul_mod_left]
      omega
    · rw [if_neg hcross]
      omega
  · rw [if_neg hsmall, if_neg hsmall]
    by_cases hinside : offset % page ≠ 0
    · rw [if_pos hinside, Nat.mul_mod_left]
    · rw [if_neg hinside]
      omega

/-- No earlier place obeys the rule. -/
theorem place_least {offset size other : Nat} (hle : offset ≤ other)
    (hother : InPlace page other size) : place page offset size ≤ other := by
  rw [InPlace] at hother
  rw [place]
  by_cases hsmall : size ≤ page
  · rw [if_pos hsmall] at hother ⊢
    by_cases hcross : offset % page + size > page
    · rw [if_pos hcross]
      exact next_page_le hle (by omega)
    · rwa [if_neg hcross]
  · rw [if_neg hsmall] at hother ⊢
    by_cases hinside : offset % page ≠ 0
    · rw [if_pos hinside]
      exact next_page_le hle (by omega)
    · rwa [if_neg hinside]

@[simp] theorem packed_nil : packed page [] = 0 := rfl

@[simp] theorem packed_snoc (sizes : List Nat) (size : Nat) :
    packed page (sizes ++ [size]) = place page (packed page sizes) size + size := by
  simp [packed]

theorem placesFrom_snoc (offset : Nat) (sizes : List Nat) (size : Nat) :
    placesFrom page offset (sizes ++ [size]) = placesFrom page offset sizes ++
      [(place page (sizes.foldl (fun o s => place page o s + s) offset) size, size)] := by
  induction sizes generalizing offset with
  | nil => rfl
  | cons first sizes ih => simp [placesFrom, ih]

@[simp] theorem places_nil : places page [] = [] := rfl

@[simp] theorem places_snoc (sizes : List Nat) (size : Nat) :
    places page (sizes ++ [size]) = places page sizes ++ [(place page (packed page sizes) size, size)] :=
  placesFrom_snoc 0 sizes size

/-- Blocks are placed one behind the other. -/
theorem packed_le_snoc (hpage : 0 < page) (sizes : List Nat) (size : Nat) :
    packed page sizes ≤ packed page (sizes ++ [size]) := by
  have hle := le_place hpage (packed page sizes) size
  rw [packed_snoc]
  omega

/-- Every block ends before the last one does. -/
theorem places_end (hpage : 0 < page) (sizes : List Nat) :
    ∀ block ∈ places page sizes, block.1 + block.2 ≤ packed page sizes := by
  induction sizes using List.reverseRecOn with
  | nil => simp
  | append_singleton sizes size ih =>
    intro block hblock
    rw [places_snoc, List.mem_append, List.mem_singleton] at hblock
    obtain hearlier | rfl := hblock
    · exact (ih block hearlier).trans (packed_le_snoc hpage sizes size)
    · rw [packed_snoc]

end Packing

end paging
