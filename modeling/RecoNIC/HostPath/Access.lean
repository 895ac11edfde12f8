import RecoNIC.HostPath.Arbiter

open clocked

namespace reconic.rr_arbiter

section Access

variable {N : Nat} {s : Regs N}

/-- Whoever has access in a cycle in which the arbiter is ready. -/
def access (s : Regs N) (req : Finset (Fin N)) : Finset (Fin N) :=
  match s.state with
  | .S_IDLE => choice s req
  | .S_BUSY => s.granted

theorem grant_eq (s : Regs N) (req : Finset (Fin N)) (ready : Bool) :
    grant s req ready = if ready then access s req else ∅ := rfl

/-- One channel at a time. -/
structure OneHot (s : Regs N) : Prop where
  prio : ∀ p ∈ s.prio, ∃ k, p = {k}
  busy : s.state = .S_BUSY → ∃ k, s.granted = {k}

theorem OneHot.arbitrate_cases (h : OneHot s) (valid_req : Finset (Fin N)) :
    ((arbitrate valid_req s.prio).1 = ∅ ∨ ∃ k, (arbitrate valid_req s.prio).1 = {k}) ∧
      ∀ p ∈ (arbitrate valid_req s.prio).2, ∃ k, p = {k} := by
  unfold arbitrate
  split
  · exact ⟨.inl rfl, h.prio⟩
  · next index hfind =>
    obtain ⟨hlt, hne, -⟩ := List.findIdx?_eq_some_iff_getElem.mp hfind
    have hget : s.prio.getD index ∅ = s.prio[index] := by
      rw [List.getD_eq_getElem?_getD, List.getElem?_eq_getElem hlt]
      rfl
    obtain ⟨k, hk⟩ := h.prio _ (List.getElem_mem hlt)
    refine ⟨.inr ⟨k, ?_⟩, fun p hp => ?_⟩
    · rw [hk, decide_eq_true_eq] at hne
      dsimp only
      rw [hget, hk]
      by_cases hmem : k ∈ valid_req
      · exact Finset.inter_singleton_of_mem hmem
      · exact absurd (Finset.inter_singleton_of_notMem hmem) hne
    · rcases List.mem_append.mp hp with hp | hp
      · exact h.prio p (List.mem_of_mem_eraseIdx hp)
      · rw [List.mem_singleton.mp hp, hget]
        exact ⟨k, hk⟩

theorem OneHot.access_cases (h : OneHot s) (req : Finset (Fin N)) :
    access s req = ∅ ∨ ∃ k, access s req = {k} := by
  cases hstate : s.state with
  | S_IDLE =>
    simp only [access, hstate]
    exact (h.arbitrate_cases _).1
  | S_BUSY =>
    simp only [access, hstate]
    exact .inr (h.busy hstate)

/-- Access goes on until the channel has finished. -/
theorem OneHot.step_state (h : OneHot s) (i : Input N) :
    ((step s i).state = .S_BUSY ↔ access s i.req ≠ ∅ ∧ i.fin ∩ grant s i.req i.ready = ∅) ∧
      ((step s i).state = .S_BUSY → (step s i).granted = access s i.req) := by
  cases hstate : s.state with
  | S_IDLE =>
    by_cases hfin : i.fin ∩ grant s i.req i.ready = ∅ <;>
      by_cases hchoice : choice s i.req = ∅ <;>
        simp [step, access, hstate, hfin, hchoice]
  | S_BUSY =>
    obtain ⟨k, hk⟩ := h.busy hstate
    have hne : s.granted ≠ ∅ := by simp [hk]
    by_cases hfin : i.fin ∩ grant s i.req i.ready = ∅ <;>
      simp [step, access, hstate, hfin, hne]

theorem OneHot.next (h : OneHot s) (i : Input N) : OneHot (step s i) := by
  obtain ⟨hiff, hgranted⟩ := h.step_state i
  refine ⟨?_, fun hbusy => ?_⟩
  · cases hstate : s.state with
    | S_IDLE =>
      simp only [step, hstate]
      exact (h.arbitrate_cases _).2
    | S_BUSY =>
      simp only [step, hstate]
      exact h.prio
  · rw [hgranted hbusy]
    exact (h.access_cases i.req).resolve_left (hiff.mp hbusy).1

theorem reset_one_hot (N : Nat) (unknown : Nat → Finset (Fin N)) :
    OneHot (machine N unknown).reset where
  prio := fun p hp => by
    obtain ⟨k, -, rfl⟩ := List.mem_map.mp hp
    exact ⟨k, rfl⟩
  busy := fun hbusy => by cases hbusy

/-- What is selected in a cycle: whoever has access and had none before. -/
theorem selection_eq (s : Regs N) (req : Finset (Fin N)) :
    (if s.state = .S_BUSY then [s.granted] else []) ++ selection s req =
      if s.state = .S_BUSY ∨ access s req ≠ ∅ then [access s req] else [] := by
  cases hstate : s.state <;> simp [selection, access, hstate]

end Access

end reconic.rr_arbiter
