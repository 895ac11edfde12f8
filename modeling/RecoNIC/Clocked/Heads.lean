import RecoNIC.Clocked.Packets

namespace clocked

section Heads

variable {α : Type} (last : α → Bool)

/-- The first element of the packet that goes on after an element. -/
def first_next (first : Option α) (a : α) : Option α :=
  if last a then none else some (first.getD a)

/-- The first element of the packet that has not ended after a stream, if there is one. -/
def first_after (first : Option α) (l : List α) : Option α := l.foldl (first_next last) first

/-- The elements of a stream, each with the first one of its packet. -/
def with_first : Option α → List α → List (α × α)
  | _, [] => []
  | first, a :: l => (first.getD a, a) :: with_first (first_next last first a) l

/-- The first elements of the packets that begin in a stream. -/
def firsts : Option α → List α → List α
  | _, [] => []
  | first, a :: l => (if first.isNone then [a] else []) ++ firsts (first_next last first a) l

variable {last}

theorem with_first_append (first : Option α) (l l' : List α) :
    with_first last first (l ++ l') =
      with_first last first l ++ with_first last (first_after last first l) l' := by
  induction l generalizing first with
  | nil => rfl
  | cons a l ih => exact congrArg _ (ih _)

theorem with_first_map_snd (first : Option α) (l : List α) :
    (with_first last first l).map Prod.snd = l := by
  induction l generalizing first with
  | nil => rfl
  | cons a l ih => exact congrArg _ (ih _)

theorem with_first_length (first : Option α) (l : List α) :
    (with_first last first l).length = l.length := by
  rw [← List.length_map Prod.snd, with_first_map_snd]

theorem first_after_snoc (first : Option α) (l : List α) (a : α) :
    first_after last first (l ++ [a]) = first_next last (first_after last first l) a := by
  simp [first_after]

theorem firsts_append (first : Option α) (l l' : List α) :
    firsts last first (l ++ l') =
      firsts last first l ++ firsts last (first_after last first l) l' := by
  induction l generalizing first with
  | nil => rfl
  | cons a l ih => simp [firsts, ih, first_after]

/-- As many packets begin as end, but for the ones at the two ends of the stream. -/
theorem firsts_length (first : Option α) (l : List α) :
    (first.toList ++ firsts last first l).length =
      l.countP last + (first_after last first l).toList.length := by
  induction l generalizing first with
  | nil => simp [firsts, first_after]
  | cons a l ih =>
    have hrest := ih (first_next last first a)
    rw [first_after, List.foldl_cons, ← first_after, List.countP_cons]
    simp only [firsts, List.length_append] at hrest ⊢
    cases ha : last a <;> cases first <;> simp [first_next, ha] at hrest ⊢ <;> omega

/-- The packet of an element is the one with as many packets before it as end marks. -/
theorem with_first_getElem? (first : Option α) {l : List α} {n : Nat} (hn : n < l.length) :
    (first.toList ++ firsts last first l)[(l.take n).countP last]? =
      ((with_first last first l)[n]?).map Prod.fst := by
  induction l generalizing first n with
  | nil => cases hn
  | cons a l ih =>
    cases n with
    | zero => cases first <;> rfl
    | succ n =>
      have hrest := ih (first_next last first a) (Nat.lt_of_succ_lt_succ hn)
      rw [with_first, List.getElem?_cons_succ, ← hrest, List.take_succ_cons, List.countP_cons]
      cases ha : last a <;> cases first <;> simp [first_next, firsts, ha]

/-- What follows a packet that has not ended holds more elements than ends of packets. -/
theorem countP_add_first_le (l c : List α) :
    c.countP last + (first_after last none (l ++ c)).toList.length ≤ max 1 c.length := by
  induction c using List.reverseRecOn with
  | nil =>
    generalize first_after last none (l ++ []) = first
    cases first <;> simp
  | append_singleton c a _ =>
    have hcount : c.countP last ≤ c.length := List.countP_le_length
    rw [← List.append_assoc, first_after_snoc, List.countP_append, List.length_append,
      List.length_singleton, first_next]
    split
    · next ha => simp [ha]; omega
    · next ha => simp [ha]; omega

/-- There is a packet for each element. -/
theorem countP_add_first_pos {l c : List α} (hc : c ≠ []) :
    1 ≤ c.countP last + (first_after last none (l ++ c)).toList.length := by
  obtain ⟨init, a, rfl⟩ := (List.eq_nil_or_concat' c).resolve_left hc
  rw [← List.append_assoc, first_after_snoc, List.countP_append, first_next]
  cases ha : last a <;> simp [ha]

end Heads

end clocked
