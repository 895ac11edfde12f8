import RecoNIC.Clocked.Machine

namespace clocked

section Flow

variable {State Input α : Type} (m : Machine State Input) (held : State → List α)
  (taken sent : Cycle State Input → List α)

/-- Conservation over runs. When every cycle from a state that keeps an invariant gives out first
what was held, and then what it takes, the elements sent so far followed by those held are the
elements taken so far. -/
theorem Machine.flow_law (Inv : State → Prop) (hreset : Inv m.reset) (hempty : held m.reset = [])
    (hstep : ∀ s i, Inv s → Inv (m.step s i) ∧
      held s ++ taken ⟨s, i⟩ = sent ⟨s, i⟩ ++ held (m.step s i)) (inputs : List Input) :
    (m.trace inputs).flatMap sent ++ held (m.run inputs) = (m.trace inputs).flatMap taken := by
  refine (m.free_history_induction
    (fun h s => Inv s ∧ h.flatMap sent ++ held s = h.flatMap taken) ⟨hreset, by simp [hempty]⟩ ?_
    inputs).2
  intro h s i ⟨hinv, hlaw⟩
  obtain ⟨hnext, hmoves⟩ := hstep s i hinv
  refine ⟨hnext, ?_⟩
  simp only [List.flatMap_append, List.flatMap_singleton]
  rw [← hlaw, List.append_assoc, List.append_assoc, hmoves]

end Flow

theorem Machine.trace_inputs {State Input : Type} (m : Machine State Input) (inputs : List Input) :
    (m.trace inputs).map Cycle.input = inputs := by
  induction inputs using List.reverseRecOn with
  | nil => rfl
  | append_singleton inputs i ih => rw [m.trace_snoc, List.map_append, ih, List.map_singleton]

/-- An initial segment of the cycles of a run is those of an initial segment of its inputs. -/
theorem Machine.initial_trace {State Input : Type} (m : Machine State Input) {inputs : List Input}
    {earlier : List (Cycle State Input)} (h : earlier <+: m.trace inputs) :
    ∃ first, first <+: inputs ∧ earlier = m.trace first := by
  induction inputs using List.reverseRecOn with
  | nil => exact ⟨[], List.prefix_refl _, List.prefix_nil.mp h⟩
  | append_singleton inputs i ih =>
    rw [m.trace_snoc] at h
    obtain rfl | hshort := List.prefix_concat_iff.mp h
    · exact ⟨inputs ++ [i], List.prefix_refl _, (m.trace_snoc inputs i).symm⟩
    · obtain ⟨first, hfirst, hearlier⟩ := ih hshort
      exact ⟨first, hfirst.trans (List.prefix_append _ _), hearlier⟩

section Component

variable {State Input State' Input' : Type} (m : Machine State Input) (part : Machine State' Input')
  (sub : State → State') (pins : State → Input → Input')

/-- What a part of a circuit sees of a cycle. -/
def Cycle.of_part (c : Cycle State Input) : Cycle State' Input' :=
  ⟨sub c.state, pins c.state c.input⟩

/-- A run of a circuit is a run of each of its parts. -/
theorem Machine.part_run (hreset : sub m.reset = part.reset)
    (hstep : ∀ s i, sub (m.step s i) = part.step (sub s) (pins s i)) (inputs : List Input) :
    (m.trace inputs).map (Cycle.of_part sub pins) =
        part.trace ((m.trace inputs).map fun c => pins c.state c.input) ∧
      sub (m.run inputs) = part.run ((m.trace inputs).map fun c => pins c.state c.input) := by
  induction inputs using List.reverseRecOn with
  | nil => exact ⟨rfl, hreset⟩
  | append_singleton inputs i ih =>
    obtain ⟨htrace, hrun⟩ := ih
    rw [m.trace_snoc, m.run_snoc, List.map_append, List.map_append, htrace, List.map_singleton,
      List.map_singleton, part.trace_snoc, part.run_snoc, hstep, ← hrun]
    exact ⟨rfl, rfl⟩

end Component

end clocked
