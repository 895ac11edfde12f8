import RecoNIC.Clocked.Machine
import Mathlib.Data.List.Range

namespace clocked

/-- The first `n` inputs of an infinite run. -/
def initialInputs {Input : Type} (inputs : Nat → Input) (n : Nat) : List Input :=
  (List.range n).map inputs

/-- The registers of an infinite run before its `n`-th cycle. -/
def Machine.stateAt {State Input : Type} (m : Machine State Input) (inputs : Nat → Input) (n : Nat) :
    State :=
  m.run (initialInputs inputs n)

/-- The cycles of an infinite run before its `n`-th. -/
def Machine.historyAt {State Input : Type} (m : Machine State Input) (inputs : Nat → Input)
    (n : Nat) : List (Cycle State Input) :=
  m.trace (initialInputs inputs n)

@[simp] theorem initialInputs_succ {Input : Type} (inputs : Nat → Input) (n : Nat) :
    initialInputs inputs (n + 1) = initialInputs inputs n ++ [inputs n] := by
  simp [initialInputs, List.range_succ]

theorem Machine.stateAt_succ {State Input : Type} (m : Machine State Input) (inputs : Nat → Input)
    (n : Nat) : m.stateAt inputs (n + 1) = m.step (m.stateAt inputs n) (inputs n) := by
  simp [Machine.stateAt]

theorem Machine.historyAt_succ {State Input : Type} (m : Machine State Input) (inputs : Nat → Input)
    (n : Nat) :
    m.historyAt inputs (n + 1) = m.historyAt inputs n ++ [⟨m.stateAt inputs n, inputs n⟩] := by
  simp [Machine.historyAt, Machine.stateAt]

/-- Cycle `n` of an infinite run. -/
def Machine.cycleAt {State Input : Type} (m : Machine State Input) (inputs : Nat → Input) (n : Nat) :
    Cycle State Input :=
  ⟨m.stateAt inputs n, inputs n⟩

theorem Machine.cycleAt_mem_trace {State Input : Type} (m : Machine State Input)
    (inputs : Nat → Input) (n : Nat) :
    m.cycleAt inputs n ∈ m.trace (initialInputs inputs (n + 1)) := by
  rw [initialInputs_succ, m.trace_snoc]
  exact List.mem_append_right _ (List.mem_singleton_self _)

/-- What holds at reset and is kept by every step holds in every cycle. -/
theorem Machine.stateAt_invariant {State Input : Type} (m : Machine State Input) {P : State → Prop}
    (hreset : P m.reset) (hstep : ∀ s i, P s → P (m.step s i)) (inputs : Nat → Input) (n : Nat) :
    P (m.stateAt inputs n) := by
  induction n with
  | zero => exact hreset
  | succ n ih =>
    rw [m.stateAt_succ]
    exact hstep _ _ ih

/-- What a step never undoes stays. -/
theorem Machine.stateAt_stays {State Input : Type} (m : Machine State Input) {P : State → Prop}
    (hstep : ∀ s i, P s → P (m.step s i)) (inputs : Nat → Input) {n later : Nat}
    (hnow : P (m.stateAt inputs n)) (hle : n ≤ later) : P (m.stateAt inputs later) := by
  induction hle with
  | refl => exact hnow
  | step _ ih =>
    rw [m.stateAt_succ]
    exact hstep _ _ ih

/-- The progress rule. Every state that still has to get somewhere wants one of
the helpful events; the event it wants stays the same until it happens, and then
the rank goes down. When every event happens again and again, the goal is reached. -/
theorem progress {Event : Type} (given : Event → Nat → Prop)
    (hfair : ∀ e n, ∃ m, n ≤ m ∧ given e m) (Pending Goal : Nat → Prop) (rank : Nat → Nat)
    (wanted : Nat → Event)
    (hstep : ∀ n, Pending n → Goal (n + 1) ∨ Pending (n + 1) ∧
      (rank (n + 1) < rank n ∨
        rank (n + 1) = rank n ∧ wanted (n + 1) = wanted n ∧ ¬given (wanted n) n)) :
    ∀ n, Pending n → ∃ m, n < m ∧ Goal m := by
  -- Until the wanted event happens, nothing changes; `wait` is how long that takes.
  have hevent : ∀ wait n r, Pending n → rank n = r → given (wanted n) (n + wait) →
      (∃ m, n < m ∧ Goal m) ∨ ∃ m, n < m ∧ Pending m ∧ rank m < r := by
    intro wait
    induction wait with
    | zero =>
      intro n r hpending hrank hgiven
      obtain hgoal | ⟨hnext, hless | ⟨_, _, hnot⟩⟩ := hstep n hpending
      · exact Or.inl ⟨n + 1, by omega, hgoal⟩
      · exact Or.inr ⟨n + 1, by omega, hnext, by omega⟩
      · exact absurd hgiven hnot
    | succ wait ih =>
      intro n r hpending hrank hgiven
      obtain hgoal | ⟨hnext, hless | ⟨hsame, hwanted, _⟩⟩ := hstep n hpending
      · exact Or.inl ⟨n + 1, by omega, hgoal⟩
      · exact Or.inr ⟨n + 1, by omega, hnext, by omega⟩
      · have hlater : given (wanted (n + 1)) (n + 1 + wait) := by
          rw [hwanted, Nat.add_assoc, Nat.add_comm 1 wait]
          exact hgiven
        obtain ⟨m, hm, hgoal⟩ | ⟨m, hm, hless⟩ := ih (n + 1) r hnext (by omega) hlater
        · exact Or.inl ⟨m, by omega, hgoal⟩
        · exact Or.inr ⟨m, by omega, hless⟩
  intro n hpending
  induction hrank : rank n using Nat.strongRecOn generalizing n with
  | ind r ih =>
    obtain ⟨m, hm, hgiven⟩ := hfair (wanted n) n
    obtain ⟨wait, rfl⟩ := Nat.exists_eq_add_of_le hm
    obtain hgoal | ⟨m, hm, hnext, hless⟩ := hevent wait n r hpending hrank hgiven
    · exact hgoal
    · obtain ⟨m', hm', hgoal⟩ := ih (rank m) hless m hnext rfl
      exact ⟨m', by omega, hgoal⟩

end clocked
