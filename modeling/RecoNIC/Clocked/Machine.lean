import Mathlib.Data.List.Induction
import Mathlib.Tactic.Common

namespace clocked

/-- A synchronous circuit: the contents of its registers after reset, and what
one rising clock edge makes of the registers and the input pins. -/
structure Machine (State Input : Type) where
  reset : State
  step : State → Input → State

/-- One clock cycle as an observer sees it: the registers before the edge and
the inputs held during the cycle. Every output pin is a function of these. -/
structure Cycle (State Input : Type) where
  state : State
  input : Input

/-- The registers after a run of cycles that starts at reset. -/
def Machine.run {State Input : Type} (m : Machine State Input) (inputs : List Input) : State :=
  inputs.foldl m.step m.reset

/-- The cycles of a run that starts in a given state. -/
def Machine.traceFrom {State Input : Type} (m : Machine State Input) :
    State → List Input → List (Cycle State Input)
  | _, [] => []
  | s, i :: rest => ⟨s, i⟩ :: m.traceFrom (m.step s i) rest

/-- The cycles of a run that starts at reset. -/
def Machine.trace {State Input : Type} (m : Machine State Input) (inputs : List Input) :
    List (Cycle State Input) :=
  m.traceFrom m.reset inputs

@[simp] theorem Machine.run_nil {State Input : Type} (m : Machine State Input) :
    m.run [] = m.reset := rfl

@[simp] theorem Machine.trace_nil {State Input : Type} (m : Machine State Input) :
    m.trace [] = [] := rfl

@[simp] theorem Machine.run_snoc {State Input : Type} (m : Machine State Input)
    (inputs : List Input) (i : Input) : m.run (inputs ++ [i]) = m.step (m.run inputs) i := by
  simp [Machine.run]

theorem Machine.traceFrom_append {State Input : Type} (m : Machine State Input)
    (s : State) (first second : List Input) :
    m.traceFrom s (first ++ second) =
      m.traceFrom s first ++ m.traceFrom (first.foldl m.step s) second := by
  induction first generalizing s with
  | nil => rfl
  | cons i rest ih => simp [Machine.traceFrom, ih]

theorem Machine.trace_append {State Input : Type} (m : Machine State Input)
    (first second : List Input) :
    m.trace (first ++ second) = m.trace first ++ m.traceFrom (m.run first) second :=
  m.traceFrom_append m.reset first second

theorem Machine.trace_initial {State Input : Type} (m : Machine State Input)
    {earlier inputs : List Input} (h : earlier <+: inputs) : m.trace earlier <+: m.trace inputs := by
  obtain ⟨later, rfl⟩ := h
  rw [m.trace_append]
  exact List.prefix_append ..

@[simp] theorem Machine.trace_snoc {State Input : Type} (m : Machine State Input)
    (inputs : List Input) (i : Input) :
    m.trace (inputs ++ [i]) = m.trace inputs ++ [⟨m.run inputs, i⟩] := by
  simp [Machine.trace_append, Machine.traceFrom]

/-- The history rule. A relation between the cycles seen so far and the
registers holds after every run when it holds at reset and every cycle that the
environment may add keeps it. What the environment promises is a property of
histories that is inherited by their initial segments. -/
theorem Machine.history_induction {State Input : Type} (m : Machine State Input)
    (Allowed : List (Cycle State Input) → Prop) (P : List (Cycle State Input) → State → Prop)
    (hclosed : ∀ h c, Allowed (h ++ [c]) → Allowed h)
    (hreset : P [] m.reset)
    (hstep : ∀ h s i, Allowed (h ++ [⟨s, i⟩]) → P h s → P (h ++ [⟨s, i⟩]) (m.step s i)) :
    ∀ inputs, Allowed (m.trace inputs) → P (m.trace inputs) (m.run inputs) := by
  intro inputs
  induction inputs using List.reverseRecOn with
  | nil => exact fun _ => hreset
  | append_singleton inputs i ih =>
    intro hallowed
    rw [m.trace_snoc] at hallowed
    rw [m.trace_snoc, m.run_snoc]
    exact hstep _ _ _ hallowed (ih (hclosed _ _ hallowed))

/-- The history rule without a promise of the environment. -/
theorem Machine.free_history_induction {State Input : Type} (m : Machine State Input)
    (P : List (Cycle State Input) → State → Prop) (hreset : P [] m.reset)
    (hstep : ∀ h s i, P h s → P (h ++ [⟨s, i⟩]) (m.step s i)) :
    ∀ inputs, P (m.trace inputs) (m.run inputs) := by
  intro inputs
  exact m.history_induction (fun _ => True) P (fun _ _ _ => trivial) hreset
    (fun h s i _ hP => hstep h s i hP) inputs trivial

/-- A cycle of a run is the cycle after one of its initial segments. -/
theorem Machine.mem_trace {State Input : Type} (m : Machine State Input) {inputs : List Input}
    {c : Cycle State Input} (hc : c ∈ m.trace inputs) :
    ∃ earlier later, inputs = earlier ++ c.input :: later ∧ c.state = m.run earlier := by
  induction inputs using List.reverseRecOn with
  | nil => simp at hc
  | append_singleton inputs i ih =>
    rw [m.trace_snoc, List.mem_append, List.mem_singleton] at hc
    obtain hc | rfl := hc
    · obtain ⟨earlier, later, hsplit, hstate⟩ := ih hc
      exact ⟨earlier, later ++ [i], by simp [hsplit], hstate⟩
    · exact ⟨inputs, [], rfl, rfl⟩

/-- The rule for a promise about every state of the run. -/
theorem Machine.state_promise_induction {State Input : Type} (m : Machine State Input)
    (Promise P : State → Prop) (hreset : P m.reset)
    (hstep : ∀ s i, Promise s → P s → Promise (m.step s i) → P (m.step s i)) :
    ∀ inputs, (∀ earlier, earlier <+: inputs → Promise (m.run earlier)) → P (m.run inputs) := by
  intro inputs
  induction inputs using List.reverseRecOn with
  | nil => exact fun _ => hreset
  | append_singleton inputs i ih =>
    intro hpromise
    have hbefore := ih fun earlier hinitial => hpromise earlier (hinitial.trans (List.prefix_append ..))
    have hnow := hpromise inputs (List.prefix_append ..)
    have hnext := hpromise (inputs ++ [i]) (List.prefix_refl _)
    rw [m.run_snoc] at hnext ⊢
    exact hstep _ _ hnow hbefore hnext

theorem Machine.input_mem {State Input : Type} (m : Machine State Input) {inputs : List Input}
    {c : Cycle State Input} (hc : c ∈ m.trace inputs) : c.input ∈ inputs := by
  obtain ⟨earlier, later, rfl, -⟩ := m.mem_trace hc
  simp

/-- The rule for a promise about each cycle by itself: an invariant that such a cycle
keeps holds before every cycle of the run, and after the last one. -/
theorem Machine.promise_induction {State Input : Type} (m : Machine State Input)
    (Promise : Cycle State Input → Prop) (P : State → Prop) (hreset : P m.reset)
    (hstep : ∀ s i, Promise ⟨s, i⟩ → P s → P (m.step s i)) :
    ∀ inputs, (∀ c ∈ m.trace inputs, Promise c) →
      (∀ c ∈ m.trace inputs, P c.state) ∧ P (m.run inputs) := by
  intro inputs
  apply m.history_induction (fun h => ∀ c ∈ h, Promise c) (fun h s => (∀ c ∈ h, P c.state) ∧ P s)
  · exact fun h c hall d hd => hall d (List.mem_append_left _ hd)
  · exact ⟨by simp, hreset⟩
  · intro h s i hall ⟨hbefore, hnow⟩
    refine ⟨?_, hstep s i (hall ⟨s, i⟩ (by simp)) hnow⟩
    intro c hc
    obtain hc | hc := List.mem_append.mp hc
    · exact hbefore c hc
    · obtain rfl := List.mem_singleton.mp hc
      exact hnow

/-- The rule for the exact condition of a property. When a step from a good state gives
the property exactly under the condition, and then leads to a good state, the property
holds throughout a run exactly when every cycle of it meets the condition. -/
theorem Machine.condition_exact {State Input : Type} (m : Machine State Input)
    (Good Property : State → Prop) (Condition : Cycle State Input → Prop) (inputs : List Input)
    (hreset : Good m.reset) (hgood : ∀ s, Good s → Property s)
    (hstep : ∀ s i, ⟨s, i⟩ ∈ m.trace inputs → Good s →
      (Property (m.step s i) ↔ Condition ⟨s, i⟩) ∧ (Condition ⟨s, i⟩ → Good (m.step s i))) :
    (∀ earlier, earlier <+: inputs → Property (m.run earlier)) ↔
      ∀ c ∈ m.trace inputs, Condition c := by
  suffices hall : ((∀ earlier, earlier <+: inputs → Property (m.run earlier)) ↔
      ∀ c ∈ m.trace inputs, Condition c) ∧
      ((∀ c ∈ m.trace inputs, Condition c) → Good (m.run inputs)) from hall.1
  induction inputs using List.reverseRecOn with
  | nil => exact ⟨by simp [hgood _ hreset], fun _ => hreset⟩
  | append_singleton inputs i ih =>
    rw [m.trace_snoc] at hstep
    obtain ⟨hiff, hrun⟩ := ih fun s j hc => hstep s j (List.mem_append_left _ hc)
    have hlast := hstep (m.run inputs) i (by simp)
    rw [m.trace_snoc, m.run_snoc]
    simp only [List.mem_append, List.mem_singleton, or_imp, forall_and, forall_eq]
    refine ⟨⟨?_, ?_⟩, fun hconditions => (hlast (hrun hconditions.1)).2 hconditions.2⟩
    · intro hproperty
      have hearlier := hiff.mp fun earlier hinitial =>
        hproperty earlier (hinitial.trans (List.prefix_append ..))
      have hnow := hproperty (inputs ++ [i]) (List.prefix_refl _)
      rw [m.run_snoc] at hnow
      exact ⟨hearlier, (hlast (hrun hearlier)).1.mp hnow⟩
    · intro ⟨hearlier, hnow⟩ earlier hinitial
      obtain rfl | hshort := List.prefix_concat_iff.mp hinitial
      · rw [m.run_snoc]
        exact (hlast (hrun hearlier)).1.mpr hnow
      · exact hiff.mpr hearlier earlier hshort

end clocked
