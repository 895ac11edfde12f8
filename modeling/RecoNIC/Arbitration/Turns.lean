import Mathlib.Data.Finset.Basic
import Mathlib.Data.Finset.Card
import Mathlib.Data.Finset.Dedup
import Mathlib.Tactic.Common

namespace arbitration

section Turns

variable {ι : Type} [DecidableEq ι]

/-- The turns that are taken when groups come one after the other. The members of a group take
theirs in the order given, and are the last ones of the order from then on. -/
def turns : List ι → List (Finset ι) → List ι
  | _, [] => []
  | order, g :: groups =>
    order.filter (· ∈ g) ++ turns (order.filter (· ∉ g) ++ order.filter (· ∈ g)) groups

/-- All members of groups. -/
def members (groups : List (Finset ι)) : Finset ι := groups.foldr (· ∪ ·) ∅

@[simp] theorem turns_nil (order : List ι) : turns order [] = [] := rfl

@[simp] theorem members_nil : members ([] : List (Finset ι)) = ∅ := rfl

@[simp] theorem members_cons (g : Finset ι) (groups : List (Finset ι)) :
    members (g :: groups) = g ∪ members groups := rfl

theorem members_append (groups more : List (Finset ι)) :
    members (groups ++ more) = members groups ∪ members more := by
  induction groups with
  | nil => simp
  | cons g groups ih => simp [ih, Finset.union_assoc]

theorem mem_members {i : ι} {groups : List (Finset ι)} :
    i ∈ members groups ↔ ∃ g ∈ groups, i ∈ g := by
  induction groups with
  | nil => simp
  | cons g groups ih => simp [ih]

theorem disjoint_members {s : Finset ι} {groups : List (Finset ι)} :
    Disjoint s (members groups) ↔ ∀ g ∈ groups, Disjoint s g := by
  induction groups with
  | nil => simp
  | cons g groups ih => simp [Finset.disjoint_union_right, ih]

/-- An empty group takes no turns. -/
@[simp] theorem turns_empty_cons (order : List ι) (groups : List (Finset ι)) :
    turns order (∅ :: groups) = turns order groups := by
  simp [turns]

/-- The first one of the order that is in the group takes the next turn. -/
theorem turns_first {before after : List ι} {i : ι} {g : Finset ι}
    (hnodup : (before ++ i :: after).Nodup) (hbefore : ∀ j ∈ before, j ∉ g) (hi : i ∈ g)
    (groups : List (Finset ι)) :
    turns (before ++ i :: after) (g :: groups) =
      i :: turns (before ++ after ++ [i]) (g.erase i :: groups) := by
  have hothers : ∀ j ∈ before ++ after, j ≠ i := by
    intro j hj heq
    subst heq
    simp only [List.nodup_append, List.nodup_cons, List.mem_cons] at hnodup
    rcases List.mem_append.mp hj with hj | hj
    · exact hnodup.2.2 j hj j (.inl rfl) rfl
    · exact hnodup.2.1.1 hj
  have hin : ∀ l : List ι, (∀ j ∈ l, j ≠ i) → l.filter (· ∈ g.erase i) = l.filter (· ∈ g) := by
    intro l hl
    refine List.filter_congr fun j hj => ?_
    simp [hl j hj]
  have hout : ∀ l : List ι, (∀ j ∈ l, j ≠ i) → l.filter (· ∉ g.erase i) = l.filter (· ∉ g) := by
    intro l hl
    refine List.filter_congr fun j hj => ?_
    simp [hl j hj]
  have hnone : before.filter (· ∈ g) = [] := List.filter_eq_nil_iff.mpr (by simpa using hbefore)
  simp only [List.forall_mem_append] at hothers
  simp only [turns, List.filter_append, List.filter_cons, List.filter_nil, hi, hnone,
    hin before hothers.1, hin after hothers.2, hout before hothers.1, hout after hothers.2,
    Finset.notMem_erase, decide_true, decide_false, not_true_eq_false, not_false_eq_true, if_true,
    List.nil_append, List.cons_append, Bool.false_eq_true, if_false, List.append_nil,
    List.append_assoc]

/-- Groups that come later do not change the turns before theirs. -/
theorem turns_initial (order : List ι) (groups more : List (Finset ι)) :
    turns order groups <+: turns order (groups ++ more) := by
  induction groups generalizing order with
  | nil => exact List.nil_prefix
  | cons g groups ih =>
    rw [List.cons_append, turns, turns, List.prefix_append_right_inj]
    exact ih _

theorem mem_turns {order : List ι} (hall : ∀ i, i ∈ order) {groups : List (Finset ι)} {i : ι} :
    i ∈ turns order groups ↔ i ∈ members groups := by
  induction groups generalizing order with
  | nil => simp
  | cons g groups ih =>
    have hnext : ∀ j, j ∈ order.filter (· ∉ g) ++ order.filter (· ∈ g) := by
      intro j
      by_cases hj : j ∈ g <;> simp [hj, hall j]
    rw [turns, List.mem_append, ih hnext]
    simp [hall i]

/-- Members of groups that have none in common take a turn once. -/
theorem turns_nodup {order : List ι} (hall : ∀ i, i ∈ order) (hnodup : order.Nodup)
    {groups : List (Finset ι)} (hgroups : groups.Pairwise Disjoint) : (turns order groups).Nodup := by
  induction groups generalizing order with
  | nil => simp
  | cons g groups ih =>
    rw [List.pairwise_cons] at hgroups
    have hnext : ∀ j, j ∈ order.filter (· ∉ g) ++ order.filter (· ∈ g) := by
      intro j
      by_cases hj : j ∈ g <;> simp [hj, hall j]
    rw [turns, List.nodup_append]
    refine ⟨hnodup.filter _, ih hnext ?_ hgroups.2, ?_⟩
    · rw [List.nodup_append]
      refine ⟨hnodup.filter _, hnodup.filter _, fun j hj k hk heq => ?_⟩
      subst heq
      simp only [List.mem_filter, decide_eq_true_eq] at hj hk
      exact hj.2 hk.2
    · intro j hj k hk heq
      subst heq
      obtain ⟨g', hg', hmem⟩ := mem_members.mp ((mem_turns hnext).mp hk)
      simp only [List.mem_filter, decide_eq_true_eq] at hj
      exact Finset.disjoint_left.mp (hgroups.1 g' hg') hj.2 hmem

/-- There are at most as many groups as members when none is empty and none has a member in
common with another one. -/
theorem length_le_card {groups : List (Finset ι)} (hgroups : groups.Pairwise Disjoint)
    (hne : ∀ g ∈ groups, g.Nonempty) : groups.length ≤ (members groups).card := by
  induction groups with
  | nil => simp
  | cons g groups ih =>
    rw [List.pairwise_cons] at hgroups
    have hg := (hne g List.mem_cons_self).card_pos
    have hrest := ih hgroups.2 fun g' hg' => hne g' (List.mem_cons_of_mem _ hg')
    rw [members_cons, Finset.card_union_of_disjoint (disjoint_members.mpr hgroups.1),
      List.length_cons]
    omega

end Turns

end arbitration
