import Mathlib.Data.List.FinRange
import Mathlib.Logic.Function.Basic
import Mathlib.Tactic.Common

namespace tables

/-- A slot of a table that is searched by its keys. -/
structure Slot (Key Value : Type) where
  key : Key
  value : Value
  deriving DecidableEq

abbrev Table (n : Nat) (Key Value : Type) := Fin n → Slot Key Value

/-- What one step does to a table. -/
inductive Op (n : Nat) (Key Value : Type) where
  | keep
  | insert (i : Fin n) (slot : Slot Key Value)
  | update (i : Fin n) (value : Value)
  | clear (i : Fin n)

section Keyed

variable {n : Nat} {Key Value : Type}

def Op.apply (blank : Slot Key Value) (t : Table n Key Value) : Op n Key Value → Table n Key Value
  | .keep => t
  | .insert i slot => Function.update t i slot
  | .update i value => Function.update t i ⟨(t i).key, value⟩
  | .clear i => Function.update t i blank

/-- The key and the value that a step stores. -/
def Op.stored (t : Table n Key Value) : Op n Key Value → List (Slot Key Value)
  | .insert _ slot => [slot]
  | .update i value => [⟨(t i).key, value⟩]
  | _ => []

variable [DecidableEq Key]

/-- The places where a key is found. -/
def Table.hits (t : Table n Key Value) (key : Key) : List (Fin n) :=
  (List.finRange n).filter fun i => (t i).key = key

/-- What has been stored last for a key. -/
def last_stored (log : List (Slot Key Value)) (key : Key) : Option Value :=
  ((log.filter fun slot => slot.key = key).getLast?).map fun slot => slot.value

/-- A slot has been written: at a place that is given when its key is new, and else where its
key is found. -/
def Written (i : Fin n) (slot : Slot Key Value) (t t' : Table n Key Value) : Prop :=
  (t.hits slot.key = [] ∧ t' = Function.update t i slot) ∨
    ∃ j ∈ t.hits slot.key, t' = Function.update t j slot

/-- A key has been removed, if there was one. -/
def Removed (blank : Slot Key Value) (key : Key) (t t' : Table n Key Value) : Prop :=
  (t.hits key = [] ∧ t' = t) ∨ ∃ j ∈ t.hits key, t' = Function.update t j blank

/-- A step inserts only what the table does not have. -/
def Op.Fresh (t : Table n Key Value) : Op n Key Value → Prop
  | .insert _ slot => t.hits slot.key = []
  | _ => True

/-- Every key but that of blank slots has one slot at most, with the value that has been stored
for it last. -/
structure Keyed (blank : Slot Key Value) (log : List (Slot Key Value)) (t : Table n Key Value) :
    Prop where
  unique : ∀ i j, (t i).key = (t j).key → (t i).key ≠ blank.key → i = j
  latest : ∀ i, (t i).key ≠ blank.key → last_stored log (t i).key = some (t i).value

theorem mem_hits {t : Table n Key Value} {key : Key} {i : Fin n} :
    i ∈ t.hits key ↔ (t i).key = key := by
  simp only [Table.hits, List.mem_filter, List.mem_finRange, true_and, decide_eq_true_eq]

theorem hits_nodup (t : Table n Key Value) (key : Key) : (t.hits key).Nodup :=
  (List.nodup_finRange n).filter _

theorem hits_eq_nil {t : Table n Key Value} {key : Key} :
    t.hits key = [] ↔ ∀ i, (t i).key ≠ key := by
  rw [List.eq_nil_iff_forall_not_mem]
  exact forall_congr' fun i => not_congr mem_hits

/-- A table that stays as it is has been written when it had the slot before. -/
theorem written_self_iff {i : Fin n} {slot : Slot Key Value} {t : Table n Key Value} :
    Written i slot t t ↔ ∃ j, t j = slot := by
  constructor
  · rintro (⟨-, hsame⟩ | ⟨j, -, hsame⟩)
    · exact ⟨i, Function.update_eq_self_iff.mp hsame.symm |>.symm⟩
    · exact ⟨j, Function.update_eq_self_iff.mp hsame.symm |>.symm⟩
  · rintro ⟨j, rfl⟩
    exact .inr ⟨j, mem_hits.mpr rfl, (Function.update_eq_self j t).symm⟩

theorem removed_self_iff {blank : Slot Key Value} {key : Key} {t : Table n Key Value} :
    Removed blank key t t ↔ t.hits key = [] ∨ (key = blank.key ∧ ∃ j, t j = blank) := by
  constructor
  · rintro (⟨hnone, -⟩ | ⟨j, hj, hsame⟩)
    · exact .inl hnone
    · have hblank : blank = t j := Function.update_eq_self_iff.mp hsame.symm
      exact .inr ⟨(mem_hits.mp hj).symm.trans (congrArg Slot.key hblank.symm), j, hblank.symm⟩
  · rintro (hnone | ⟨rfl, j, rfl⟩)
    · exact .inl ⟨hnone, rfl⟩
    · exact .inr ⟨j, mem_hits.mpr rfl, (Function.update_eq_self j t).symm⟩

/-- A search for a key finds it nowhere or in one place. -/
theorem Keyed.hits {blank : Slot Key Value} {log : List (Slot Key Value)} {t : Table n Key Value}
    (hkeyed : Keyed blank log t) {key : Key} (hkey : key ≠ blank.key) :
    t.hits key = [] ∨ ∃ i, t.hits key = [i] := by
  cases hhits : t.hits key with
  | nil => exact .inl rfl
  | cons i rest =>
    have hi : (t i).key = key := mem_hits.mp (hhits ▸ List.mem_cons_self ..)
    have hnodup := hits_nodup t key
    rw [hhits, List.nodup_cons] at hnodup
    have hrest : rest = [] := by
      rw [List.eq_nil_iff_forall_not_mem]
      intro j hj
      have hj' : (t j).key = key := mem_hits.mp (hhits ▸ List.mem_cons_of_mem _ hj)
      obtain rfl := hkeyed.unique i j (hi.trans hj'.symm) (hi ▸ hkey)
      exact hnodup.1 hj
    exact .inr ⟨i, by rw [hrest]⟩

theorem last_stored_append_self (log : List (Slot Key Value)) (slot : Slot Key Value) :
    last_stored (log ++ [slot]) slot.key = some slot.value := by
  simp [last_stored, List.filter_append]

theorem last_stored_append_other (log : List (Slot Key Value)) (slot : Slot Key Value) {key : Key}
    (hother : slot.key ≠ key) : last_stored (log ++ [slot]) key = last_stored log key := by
  simp [last_stored, List.filter_append, hother]

theorem keyed_blank (blank : Slot Key Value) : Keyed (n := n) blank [] fun _ => blank :=
  ⟨fun _ _ _ hkey => absurd rfl hkey, fun _ hkey => absurd rfl hkey⟩

theorem Keyed.insert {blank : Slot Key Value} {log : List (Slot Key Value)} {t : Table n Key Value}
    (hkeyed : Keyed blank log t) (i : Fin n) {slot : Slot Key Value}
    (hnew : ∀ j, (t j).key ≠ slot.key) :
    Keyed blank (log ++ [slot]) (Function.update t i slot) := by
  refine ⟨fun j k hkey hsome => ?_, fun j hsome => ?_⟩
  · by_cases hj : j = i <;> by_cases hk : k = i
    · exact hj.trans hk.symm
    · rw [hj, Function.update_self, Function.update_of_ne hk] at hkey
      exact absurd hkey.symm (hnew k)
    · rw [hk, Function.update_self, Function.update_of_ne hj] at hkey
      exact absurd hkey (hnew j)
    · rw [Function.update_of_ne hj, Function.update_of_ne hk] at hkey
      rw [Function.update_of_ne hj] at hsome
      exact hkeyed.unique j k hkey hsome
  · by_cases hj : j = i
    · rw [hj, Function.update_self]
      exact last_stored_append_self log slot
    · rw [Function.update_of_ne hj] at hsome ⊢
      rw [last_stored_append_other log slot (hnew j).symm]
      exact hkeyed.latest j hsome

theorem Keyed.update {blank : Slot Key Value} {log : List (Slot Key Value)} {t : Table n Key Value}
    (hkeyed : Keyed blank log t) (i : Fin n) (value : Value) :
    Keyed blank (log ++ [⟨(t i).key, value⟩]) (Function.update t i ⟨(t i).key, value⟩) := by
  have hkey (j : Fin n) : (Function.update t i ⟨(t i).key, value⟩ j).key = (t j).key := by
    by_cases hj : j = i
    · rw [hj, Function.update_self]
    · rw [Function.update_of_ne hj]
  refine ⟨fun j k hsame hsome => ?_, fun j hsome => ?_⟩
  · rw [hkey] at hsome
    rw [hkey, hkey] at hsame
    exact hkeyed.unique j k hsame hsome
  · by_cases hj : j = i
    · rw [hj, Function.update_self]
      exact last_stored_append_self log ⟨(t i).key, value⟩
    · rw [hkey] at hsome
      rw [Function.update_of_ne hj]
      have hother : (t i).key ≠ (t j).key := fun hsame => hj (hkeyed.unique j i hsame.symm hsome)
      rw [last_stored_append_other log ⟨(t i).key, value⟩ hother]
      exact hkeyed.latest j hsome

theorem Keyed.clear {blank : Slot Key Value} {log : List (Slot Key Value)} {t : Table n Key Value}
    (hkeyed : Keyed blank log t) (i : Fin n) : Keyed blank log (Function.update t i blank) := by
  have hold {j : Fin n} (hsome : (Function.update t i blank j).key ≠ blank.key) : j ≠ i := by
    rintro rfl
    exact hsome (by rw [Function.update_self])
  refine ⟨fun j k hsame hsome => ?_, fun j hsome => ?_⟩
  · have hj := hold hsome
    have hk := hold (hsame ▸ hsome)
    rw [Function.update_of_ne hj] at hsome
    rw [Function.update_of_ne hj, Function.update_of_ne hk] at hsame
    exact hkeyed.unique j k hsame hsome
  · have hj := hold hsome
    rw [Function.update_of_ne hj] at hsome ⊢
    exact hkeyed.latest j hsome

/-- A step that inserts nothing twice keeps the table keyed. -/
theorem Keyed.apply {blank : Slot Key Value} {log : List (Slot Key Value)} {t : Table n Key Value}
    (hkeyed : Keyed blank log t) {op : Op n Key Value} (hfresh : op.Fresh t) :
    Keyed blank (log ++ op.stored t) (op.apply blank t) := by
  cases op with
  | keep => simpa [Op.stored, Op.apply] using hkeyed
  | insert i slot => exact hkeyed.insert i (hits_eq_nil.mp hfresh)
  | update i value => exact hkeyed.update i value
  | clear i => simpa [Op.stored, Op.apply] using hkeyed.clear i

end Keyed

end tables
