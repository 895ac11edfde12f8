import Mathlib.Data.List.Basic
import Mathlib.Logic.Function.Basic
import Mathlib.Tactic.Common

namespace mmio

/-- A program that reads and writes 32-bit registers. It ends with a result, or stops for
a reason. -/
inductive Program (Stop α : Type) where
  | done (result : α)
  | stop (reason : Stop)
  | read (offset : BitVec 32) (next : BitVec 32 → Program Stop α)
  | write (offset value : BitVec 32) (next : Program Stop α)

section Program

variable {Stop α β : Type}

def Program.bind : Program Stop α → (α → Program Stop β) → Program Stop β
  | .done result, f => f result
  | .stop reason, _ => .stop reason
  | .read offset next, f => .read offset fun value => (next value).bind f
  | .write offset value next, f => .write offset value (next.bind f)

instance : Monad (Program Stop) where
  pure := .done
  bind := .bind

def read32_data (offset : BitVec 32) : Program Stop (BitVec 32) := .read offset .done

def write32_data (offset value : BitVec 32) : Program Stop Unit := .write offset value (.done ())

/-- A computation without registers. -/
def Program.of : Except Stop α → Program Stop α
  | .ok result => .done result
  | .error reason => .stop reason

abbrev Regs := BitVec 32 → BitVec 32

/-- What a run leaves: its end, the registers, and what it has written in this order. -/
structure Run (Stop α : Type) where
  outcome : Except Stop α
  regs : Regs
  writes : List (BitVec 32 × BitVec 32)

/-- A run over hardware that may change the registers before every access. -/
def Program.run (hardware : Nat → Regs → Regs) : Program Stop α → Nat → Regs → Run Stop α
  | .done result, _, regs => ⟨.ok result, regs, []⟩
  | .stop reason, _, regs => ⟨.error reason, regs, []⟩
  | .read offset next, time, regs =>
    (next (hardware time regs offset)).run hardware (time + 1) (hardware time regs)
  | .write offset value next, time, regs =>
    let rest := next.run hardware (time + 1) (Function.update (hardware time regs) offset value)
    { rest with writes := (offset, value) :: rest.writes }

/-- When every value that is read obeys `rely`, every write obeys `guar`, and the end is
one of `post`. -/
def Program.Meets (rely guar : BitVec 32 → BitVec 32 → Prop) (post : Except Stop α → Prop) :
    Program Stop α → Prop
  | .done result => post (.ok result)
  | .stop reason => post (.error reason)
  | .read offset next => ∀ value, rely offset value → (next value).Meets rely guar post
  | .write offset value next => guar offset value ∧ next.Meets rely guar post

variable {rely guar : BitVec 32 → BitVec 32 → Prop}

/-- A sequence meets what its second part makes of the results of its first one. -/
theorem Program.Meets.bind {post : Except Stop α → Prop} {post' : Except Stop β → Prop}
    {program : Program Stop α} {f : α → Program Stop β} (hmeets : program.Meets rely guar post)
    (hresult : ∀ result, post (.ok result) → (f result).Meets rely guar post')
    (hstop : ∀ reason, post (.error reason) → post' (.error reason)) :
    (program >>= f).Meets rely guar post' := by
  induction program with
  | done result => exact hresult result hmeets
  | stop reason => exact hstop reason hmeets
  | read offset next ih => exact fun value hvalue => ih value (hmeets value hvalue)
  | write offset value next ih => exact ⟨hmeets.1, ih hmeets.2⟩

/-- For writes alone, the parts of a program are looked at one by one. -/
theorem Program.Meets.then {program : Program Stop α} {f : α → Program Stop β}
    (hmeets : program.Meets rely guar fun _ => True)
    (hresult : ∀ result, (f result).Meets rely guar fun _ => True) :
    (program >>= f).Meets rely guar fun _ => True :=
  hmeets.bind (fun result _ => hresult result) fun _ _ => trivial

/-- A weaker guarantee and a weaker postcondition are met as well. -/
theorem Program.Meets.mono {guar' : BitVec 32 → BitVec 32 → Prop} {post post' : Except Stop α → Prop}
    {program : Program Stop α} (hguar : ∀ offset value, guar offset value → guar' offset value)
    (hpost : ∀ outcome, post outcome → post' outcome) (hmeets : program.Meets rely guar post) :
    program.Meets rely guar' post' := by
  induction program with
  | done result => exact hpost _ hmeets
  | stop reason => exact hpost _ hmeets
  | read offset next ih => exact fun value hvalue => ih value (hmeets value hvalue)
  | write offset value next ih => exact ⟨hguar offset value hmeets.1, ih hmeets.2⟩

@[simp] theorem meets_pure {post : Except Stop α → Prop} {result : α} :
    (pure result : Program Stop α).Meets rely guar post ↔ post (.ok result) := Iff.rfl

/-- Whatever value a read may return, the rest has to meet the specification. -/
@[simp] theorem meets_read {post : Except Stop α → Prop} {offset : BitVec 32}
    {f : BitVec 32 → Program Stop α} :
    (read32_data offset >>= f).Meets rely guar post ↔
      ∀ value, rely offset value → (f value).Meets rely guar post := Iff.rfl

/-- A write has to be one that is guaranteed. -/
@[simp] theorem meets_write {post : Except Stop α → Prop} {offset value : BitVec 32}
    {f : Unit → Program Stop α} :
    (write32_data offset value >>= f).Meets rely guar post ↔
      guar offset value ∧ (f ()).Meets rely guar post := Iff.rfl

@[simp] theorem meets_last_write {post : Except Stop Unit → Prop} {offset value : BitVec 32} :
    (write32_data offset value : Program Stop Unit).Meets rely guar post ↔
      guar offset value ∧ post (.ok ()) := Iff.rfl

/-- A given outcome is the outcome. -/
theorem meets_of (outcome : Except Stop α) :
    (Program.of outcome).Meets rely guar fun end_ => end_ = outcome := by
  cases outcome <;> rfl

/-- What is shown of a program holds of its runs, on hardware that keeps to `rely`. -/
theorem Program.Meets.run {post : Except Stop α → Prop} {program : Program Stop α}
    (hmeets : program.Meets rely guar post) {hardware : Nat → Regs → Regs}
    (hhardware : ∀ time regs, (∀ offset, rely offset (regs offset)) →
      ∀ offset, rely offset (hardware time regs offset))
    (hguar : ∀ offset value, guar offset value → rely offset value) {time : Nat} {regs : Regs}
    (hregs : ∀ offset, rely offset (regs offset)) :
    post (program.run hardware time regs).outcome ∧
      (∀ w ∈ (program.run hardware time regs).writes, guar w.1 w.2) ∧
      ∀ offset, rely offset ((program.run hardware time regs).regs offset) := by
  induction program generalizing time regs with
  | done result => exact ⟨hmeets, by simp [Program.run], hregs⟩
  | stop reason => exact ⟨hmeets, by simp [Program.run], hregs⟩
  | read offset next ih =>
    have hnow := hhardware time regs hregs
    exact ih _ (hmeets _ (hnow offset)) hnow
  | write offset value next ih =>
    have hnow := hhardware time regs hregs
    have hwritten : ∀ o, rely o (Function.update (hardware time regs) offset value o) := by
      intro o
      by_cases hsame : o = offset
      · subst hsame
        rw [Function.update_self]
        exact hguar _ _ hmeets.1
      · rw [Function.update_of_ne hsame]
        exact hnow o
    obtain ⟨hpost, hwrites, hend⟩ := ih hmeets.2 hwritten
    refine ⟨hpost, ?_, hend⟩
    simp only [Program.run, List.forall_mem_cons]
    exact ⟨hmeets.1, hwrites⟩

/-- What needs nothing of the hardware holds on any. -/
theorem Program.Meets.any_run {post : Except Stop α → Prop} {program : Program Stop α}
    (hmeets : program.Meets (fun _ _ => True) guar post) (hardware : Nat → Regs → Regs)
    (time : Nat) (regs : Regs) :
    post (program.run hardware time regs).outcome ∧
      ∀ w ∈ (program.run hardware time regs).writes, guar w.1 w.2 := by
  obtain ⟨hpost, hwrites, -⟩ := hmeets.run (fun _ _ _ _ => trivial) (fun _ _ _ => trivial)
    fun _ => trivial
  exact ⟨hpost, hwrites⟩

/-- A write comes between the hardware's steps before and after it. -/
theorem run_write (hardware : Nat → Regs → Regs) (offset value : BitVec 32)
    (f : Unit → Program Stop α) (time : Nat) (regs : Regs) :
    ((write32_data offset value >>= f).run hardware time regs).regs =
      ((f ()).run hardware (time + 1) (Function.update (hardware time regs) offset value)).regs :=
  rfl

/-- The registers after a last write. -/
theorem run_last_write (hardware : Nat → Regs → Regs) (offset value : BitVec 32) (time : Nat)
    (regs : Regs) :
    ((write32_data offset value : Program Stop Unit).run hardware time regs).regs =
      Function.update (hardware time regs) offset value :=
  rfl

/-- After a first part that gives a result, the run goes on with what comes next. -/
theorem Program.run_bind {program : Program Stop α} {f : α → Program Stop β}
    {hardware : Nat → Regs → Regs} {time : Nat} {regs : Regs} {result : α}
    (hresult : (program.run hardware time regs).outcome = .ok result) :
    ∃ later, ((program >>= f).run hardware time regs).outcome =
      ((f result).run hardware later (program.run hardware time regs).regs).outcome := by
  induction program generalizing time regs with
  | done first =>
    cases hresult
    exact ⟨time, rfl⟩
  | stop reason => cases hresult
  | read offset next ih => exact ih _ hresult
  | write offset value next ih => exact ih hresult

/-- A register that neither the hardware changes nor the program writes keeps its value. -/
theorem Program.run_frame {program : Program Stop α} {hardware : Nat → Regs → Regs}
    {offset : BitVec 32} (hhardware : ∀ time regs, hardware time regs offset = regs offset)
    {time : Nat} {regs : Regs}
    (hwrites : ∀ w ∈ (program.run hardware time regs).writes, w.1 ≠ offset) :
    (program.run hardware time regs).regs offset = regs offset := by
  induction program generalizing time regs with
  | done result => rfl
  | stop reason => rfl
  | read source next ih => exact (ih _ hwrites).trans (hhardware time regs)
  | write target value next ih =>
    simp only [Program.run, List.forall_mem_cons] at hwrites
    obtain ⟨hother, hrest⟩ := hwrites
    have hnext := ih hrest
    rw [Function.update_of_ne hother.symm] at hnext
    exact hnext.trans (hhardware time regs)

end Program

end mmio
