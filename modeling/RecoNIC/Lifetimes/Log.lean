import Mathlib.Algebra.Order.Ring.Nat
import Mathlib.Data.List.Basic
import Mathlib.Data.List.ReduceOption
import Mathlib.Tactic.Common

namespace lifetimes

/-- What a program does with an object in memory. -/
inductive Event (Object : Type) where
  | malloc (o : Object)
  | use (o : Object)
  | free (o : Object)
  deriving DecidableEq

abbrev Log (Object : Type) := List (Event Object)

section Log

variable {Object α : Type}

def NeverUsedAfterFree (log : Log Object) : Prop :=
  log.Pairwise fun earlier later => ∀ o, earlier = .free o → later ≠ .use o

/-- Nothing is freed in a first part, and what is freed in the rest is not used there. -/
theorem neverUsedAfterFree_append {first rest : Log Object} (hfirst : ∀ o, .free o ∉ first)
    (hrest : ∀ o, .free o ∈ rest → .use o ∉ rest) : NeverUsedAfterFree (first ++ rest) := by
  have hpart : ∀ log : Log Object, (∀ o, .free o ∈ log → .use o ∉ log) →
      NeverUsedAfterFree log := by
    intro log happart
    apply List.pairwise_of_forall_mem_list
    rintro earlier hearlier later hlater o rfl rfl
    exact happart o hearlier hlater
  refine List.pairwise_append.mpr ⟨hpart first fun o hfree => absurd hfree (hfirst o),
    hpart rest hrest, ?_⟩
  rintro earlier hearlier later - o rfl
  exact absurd hearlier (hfirst o)

/-- The last event frees an object, and what is freed before it is not used. -/
theorem neverUsedAfterFree_concat {first : Log Object} (last : Object)
    (hfirst : ∀ o, .free o ∈ first → .use o ∉ first) :
    NeverUsedAfterFree (first ++ [.free last]) := by
  refine List.pairwise_append.mpr ⟨?_, List.pairwise_singleton _ _, ?_⟩
  · apply List.pairwise_of_forall_mem_list
    rintro earlier hearlier later hlater o rfl rfl
    exact hfirst o hearlier hlater
  · rintro earlier - later hlater o - rfl
    cases List.mem_singleton.mp hlater

variable [DecidableEq Object] {o : Object}

/-- How often an object is freed. -/
def frees (log : Log Object) (o : Object) : Nat := log.count (.free o)

/-- The tracked objects are freed exactly once, and none is used after that. -/
structure ReleasedOnce (tracked : Object → Prop) (log : Log Object) : Prop where
  once : ∀ o, tracked o → .malloc o ∈ log → frees log o = 1
  unused : NeverUsedAfterFree log

/-- What is allocated is freed exactly once, and nothing else is freed. -/
def AllReleased (log : Log Object) : Prop :=
  ∀ o, (.malloc o ∈ log → frees log o = 1) ∧ (.malloc o ∉ log → frees log o = 0)

theorem not_allReleased_of_leak {log : Log Object} (hmalloc : .malloc o ∈ log)
    (hleak : .free o ∉ log) : ¬AllReleased log := by
  intro hall
  have honce := (hall o).1 hmalloc
  rw [frees, List.count_eq_zero_of_not_mem hleak] at honce
  cases honce

/-- Once a tracked object is freed, nobody touches it. -/
theorem ReleasedOnce.untouched {tracked : Object → Prop} {first rest : Log Object}
    (h : ReleasedOnce tracked (first ++ rest)) (ho : tracked o) (hmalloc : .malloc o ∈ first)
    (hfree : .free o ∈ first) : .free o ∉ rest ∧ .use o ∉ rest := by
  constructor
  · intro hagain
    have honce := h.once o ho (List.mem_append_left _ hmalloc)
    have hbefore : 0 < first.count (.free o) := List.count_pos_iff.mpr hfree
    have hafter : 0 < rest.count (.free o) := List.count_pos_iff.mpr hagain
    rw [frees, List.count_append] at honce
    omega
  · intro huse
    exact (List.pairwise_append.mp h.unused).2.2 _ hfree _ huse o rfl rfl

theorem frees_append (first rest : Log Object) (o : Object) :
    frees (first ++ rest) o = frees first o + frees rest o := List.count_append

theorem frees_eq_zero {log : Log Object} (hnever : .free o ∉ log) : frees log o = 0 :=
  List.count_eq_zero_of_not_mem hnever

/-- When each part frees the object at most once, the parts that do are counted. -/
theorem frees_flatMap {parts : List α} {f : α → Log Object} {p : α → Bool}
    (hparts : ∀ a ∈ parts, frees (f a) o = if p a then 1 else 0) :
    frees (parts.flatMap f) o = parts.countP p := by
  induction parts with
  | nil => rfl
  | cons a parts ih =>
    rw [List.forall_mem_cons] at hparts
    rw [List.flatMap_cons, frees_append, hparts.1, ih hparts.2, List.countP_cons, Nat.add_comm]

/-- The entries of a table of pointers, when what else is done at an entry frees nothing. -/
theorem frees_flatMap_reduceOption (table : List (Option α)) (f : α → Log Object)
    {visit : Log Object} (hvisit : .free o ∉ visit) :
    frees (table.flatMap fun entry => visit ++ entry.elim [] f) o =
      frees (table.reduceOption.flatMap f) o := by
  induction table with
  | nil => rfl
  | cons entry table ih =>
    rw [List.flatMap_cons, frees_append, frees_append, frees_eq_zero hvisit, ih]
    cases entry with
    | none => simp [frees, List.reduceOption_cons_of_none]
    | some a =>
      rw [List.reduceOption_cons_of_some, List.flatMap_cons, frees_append, Option.elim_some,
        Nat.zero_add]

end Log

end lifetimes
