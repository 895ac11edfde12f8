import RecoNIC.Mmio.Program

namespace mmio

/-- An access to a register, with the value that was read or written. -/
inductive Access where
  | read (offset value : BitVec 32)
  | write (offset value : BitVec 32)
  deriving DecidableEq

/-- The values that the hardware will return, one after the other, for each register. -/
abbrev Supply := BitVec 32 → Nat → BitVec 32

/-- What is left after `n` reads of a register. -/
def Supply.drop (supply : Supply) (offset : BitVec 32) (n : Nat) : Supply :=
  Function.update supply offset fun k => supply offset (n + k)

/-- A run by what it reads and writes: its end, the values that are left, and the accesses. -/
structure Course (Stop α : Type) where
  outcome : Except Stop α
  supply : Supply
  accesses : List Access

section Course

variable {Stop α β : Type}

def Course.after (first : List Access) (course : Course Stop α) : Course Stop α :=
  { course with accesses := first ++ course.accesses }

def Program.course : Program Stop α → Supply → Course Stop α
  | .done result, supply => ⟨.ok result, supply, []⟩
  | .stop reason, supply => ⟨.error reason, supply, []⟩
  | .read offset next, supply =>
    ((next (supply offset 0)).course (supply.drop offset 1)).after [.read offset (supply offset 0)]
  | .write offset value next, supply => (next.course supply).after [.write offset value]

/-- Values that have been read are gone from the supply of their register. -/
theorem Supply.drop_self (supply : Supply) (offset : BitVec 32) (n : Nat) :
    supply.drop offset n offset = fun k => supply offset (n + k) :=
  Function.update_self ..

/-- The other registers keep their supply. -/
theorem Supply.drop_of_ne (supply : Supply) {offset other : BitVec 32} (hother : other ≠ offset)
    (n : Nat) : supply.drop offset n other = supply other :=
  Function.update_of_ne hother ..

/-- Reading goes on where it has stopped. -/
theorem Supply.drop_drop (supply : Supply) (offset : BitVec 32) (m n : Nat) :
    (supply.drop offset m).drop offset n = supply.drop offset (m + n) := by
  simp only [Supply.drop, Function.update_self, Function.update_idem, Nat.add_assoc]

@[simp] theorem Course.after_outcome (first : List Access) (course : Course Stop α) :
    (course.after first).outcome = course.outcome := rfl

@[simp] theorem Course.after_supply (first : List Access) (course : Course Stop α) :
    (course.after first).supply = course.supply := rfl

@[simp] theorem Course.after_accesses (first : List Access) (course : Course Stop α) :
    (course.after first).accesses = first ++ course.accesses := rfl

/-- Accesses come in order. -/
theorem Course.after_after (first second : List Access) (course : Course Stop α) :
    (course.after second).after first = course.after (first ++ second) := by
  simp only [Course.after, List.append_assoc]

/-- A read takes the next value that its register supplies. -/
theorem course_read (offset : BitVec 32) (f : BitVec 32 → Program Stop α) (supply : Supply) :
    (read32_data offset >>= f).course supply =
      ((f (supply offset 0)).course (supply.drop offset 1)).after [.read offset (supply offset 0)] :=
  rfl

/-- A write takes nothing from the supply. -/
theorem course_write (offset value : BitVec 32) (f : Unit → Program Stop α) (supply : Supply) :
    (write32_data offset value >>= f).course supply =
      ((f ()).course supply).after [.write offset value] :=
  rfl

/-- A result comes without an access. -/
theorem course_pure (result : α) (supply : Supply) :
    (pure result : Program Stop α).course supply = ⟨.ok result, supply, []⟩ :=
  rfl

/-- A result is handed on as it is. -/
theorem course_pure_bind (result : α) (f : α → Program Stop β) (supply : Supply) :
    (pure result >>= f).course supply = (f result).course supply :=
  rfl

/-- After a first part that gives a result comes the second. -/
theorem Program.course_bind_ok {program : Program Stop α} (f : α → Program Stop β)
    {supply : Supply} {result : α} (hresult : (program.course supply).outcome = .ok result) :
    (program >>= f).course supply =
      ((f result).course (program.course supply).supply).after (program.course supply).accesses := by
  induction program generalizing supply with
  | done first =>
    cases hresult
    rfl
  | stop reason => cases hresult
  | read offset next ih =>
    have hrest := @ih (supply offset 0) (supply.drop offset 1) hresult
    exact (congrArg (Course.after _) hrest).trans (Course.after_after ..)
  | write offset value next ih =>
    exact (congrArg (Course.after _) (ih hresult)).trans (Course.after_after ..)

/-- A first part that stops is all there is. -/
theorem Program.course_bind_error {program : Program Stop α} (f : α → Program Stop β)
    {supply : Supply} {reason : Stop} (hstop : (program.course supply).outcome = .error reason) :
    (program >>= f).course supply =
      ⟨.error reason, (program.course supply).supply, (program.course supply).accesses⟩ := by
  induction program generalizing supply with
  | done first => cases hstop
  | stop reason =>
    cases hstop
    rfl
  | read offset next ih =>
    exact congrArg (Course.after _) (@ih (supply offset 0) (supply.drop offset 1) hstop)
  | write offset value next ih => exact congrArg (Course.after _) (ih hstop)

/-- The accesses of a first part come first. -/
theorem Program.course_bind_accesses (program : Program Stop α) (f : α → Program Stop β)
    (supply : Supply) :
    ∃ later, ((program >>= f).course supply).accesses = (program.course supply).accesses ++ later := by
  cases houtcome : (program.course supply).outcome with
  | ok result => exact ⟨_, by rw [program.course_bind_ok f houtcome, Course.after_accesses]⟩
  | error reason => exact ⟨[], by rw [program.course_bind_error f houtcome, List.append_nil]⟩

end Course

section Guarded

variable {Guard : List Access → Prop} {Step : Access → Prop}

/-- Each of certain accesses comes only when `Guard` holds of the accesses before it. -/
def Guarded (Guard : List Access → Prop) (Step : Access → Prop) (accesses : List Access) : Prop :=
  ∀ before access later, accesses = before ++ access :: later → Step access → Guard before

/-- What lies before the first of them. -/
def BeforeFirst (Step : Access → Prop) (accesses before : List Access) : Prop :=
  (∀ access ∈ before, ¬Step access) ∧
    ∃ access later, accesses = before ++ access :: later ∧ Step access

/-- Accesses that are no such step come before the first one. -/
theorem BeforeFirst.after {accesses before first : List Access}
    (hbefore : BeforeFirst Step accesses before) (hfirst : ∀ access ∈ first, ¬Step access) :
    BeforeFirst Step (first ++ accesses) (first ++ before) := by
  obtain ⟨hnone, access, later, rfl, hstep⟩ := hbefore
  refine ⟨fun a ha => ?_, access, later, (List.append_assoc ..).symm, hstep⟩
  exact (List.mem_append.mp ha).elim (hfirst a) (hnone a)

/-- What follows does not change what comes before the first such step. -/
theorem BeforeFirst.append {accesses before : List Access}
    (hbefore : BeforeFirst Step accesses before) (more : List Access) :
    BeforeFirst Step (accesses ++ more) before := by
  obtain ⟨hnone, access, later, rfl, hstep⟩ := hbefore
  exact ⟨hnone, access, later ++ more, by rw [List.append_assoc, List.cons_append], hstep⟩

/-- Where there is no such step, there is nothing to guard. -/
theorem guarded_of_none {accesses : List Access} (hnone : ∀ access ∈ accesses, ¬Step access) :
    Guarded Guard Step accesses := by
  intro before access later hsplit hstep
  exact absurd hstep (hnone access (by simp [hsplit]))

/-- When a guard that holds goes on holding, the first of the accesses decides. -/
theorem guarded_iff_first (hmono : ∀ before later, Guard before → Guard (before ++ later))
    {accesses before : List Access} (hbefore : BeforeFirst Step accesses before) :
    Guarded Guard Step accesses ↔ Guard before := by
  obtain ⟨hnone, access, later, rfl, hstep⟩ := hbefore
  refine ⟨fun hguarded => hguarded before access later rfl hstep, fun hguard => ?_⟩
  intro before' access' later' hsplit hstep'
  obtain ⟨middle, rfl, -⟩ | ⟨middle, hbefore', hrest⟩ := List.append_eq_append_iff.mp hsplit
  · exact hmono before middle hguard
  · cases middle with
    | nil =>
      rw [List.append_nil] at hbefore'
      exact hbefore' ▸ hguard
    | cons first rest =>
      -- the access would lie before the first one
      obtain ⟨rfl, -⟩ := List.cons.inj hrest
      exact absurd hstep' (hnone access' (by simp [hbefore']))

end Guarded

end mmio
