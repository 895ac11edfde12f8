import RecoNIC.Clocked.Flow

open clocked

namespace reconic.axi_stream_register_slice

/-- The pins that a slice reads. A beat carries `tdata`, `tkeep`, `tlast`, `tid`, `tdest` and
`tuser`, which the slice only stores. -/
structure Input (α : Type) where
  s_axis_tvalid : Bool
  s_axis : α
  m_axis_tready : Bool

section Forward

/-- The registers in the forward mode. -/
structure ForwardRegs (α : Type) where
  axis : α
  filled : Bool

variable {α : Type}

def ForwardRegs.s_axis_tready (s : ForwardRegs α) (m_axis_tready : Bool) : Bool :=
  !s.filled || m_axis_tready

def ForwardRegs.step (s : ForwardRegs α) (i : Input α) : ForwardRegs α :=
  match s.filled with
  | false => if i.s_axis_tvalid then ⟨i.s_axis, true⟩ else s
  | true =>
    if i.s_axis_tvalid && i.m_axis_tready then { s with axis := i.s_axis }
    else if !i.s_axis_tvalid && i.m_axis_tready then { s with filled := false }
    else s

/-- A slice loads the beat that it takes, or else becomes empty when its beat leaves. -/
theorem ForwardRegs.step_eq (s : ForwardRegs α) (i : Input α) :
    s.step i =
      if i.s_axis_tvalid && s.s_axis_tready i.m_axis_tready then ⟨i.s_axis, true⟩
      else ⟨s.axis, s.filled && !i.m_axis_tready⟩ := by
  obtain ⟨axis, filled⟩ := s
  obtain ⟨tvalid, beat, tready⟩ := i
  cases filled <;> cases tvalid <;> cases tready <;> rfl

/-- The beat that a slice holds. -/
def ForwardRegs.held (s : ForwardRegs α) : List α := if s.filled then [s.axis] else []

def ForwardRegs.taken (s : ForwardRegs α) (i : Input α) : List α :=
  if i.s_axis_tvalid && s.s_axis_tready i.m_axis_tready then [i.s_axis] else []

def ForwardRegs.sent (s : ForwardRegs α) (i : Input α) : List α :=
  if s.filled && i.m_axis_tready then [s.axis] else []

theorem ForwardRegs.step_moves (s : ForwardRegs α) (i : Input α) :
    s.held ++ s.taken i = s.sent i ++ (s.step i).held := by
  obtain ⟨axis, filled⟩ := s
  obtain ⟨tvalid, beat, tready⟩ := i
  cases filled <;> cases tvalid <;> cases tready <;> rfl

/-- A slice in a circuit sends the beats that it takes, in order and each once. -/
theorem ForwardRegs.stream_law {State Pins : Type} (m : Machine State Pins)
    (slice : State → ForwardRegs α) (pins : State → Pins → Input α)
    (hreset : (slice m.reset).filled = false)
    (hstep : ∀ s i, slice (m.step s i) = (slice s).step (pins s i)) (inputs : List Pins) :
    (m.trace inputs).flatMap (fun c => (slice c.state).sent (pins c.state c.input)) ++
        (slice (m.run inputs)).held =
      (m.trace inputs).flatMap fun c => (slice c.state).taken (pins c.state c.input) := by
  refine m.flow_law (fun s => (slice s).held) _ _ (fun _ => True) trivial (by simp [held, hreset])
    (fun s i _ => ⟨trivial, ?_⟩) inputs
  rw [hstep]
  exact (slice s).step_moves (pins s i)

end Forward

section Full

/-- The registers in the full mode. -/
structure FullRegs (α : Type) where
  axis0 : α
  axis1 : α
  filled : BitVec 2

variable {α : Type}

def FullRegs.s_axis_tready (s : FullRegs α) : Bool := !s.filled.getLsbD 1

def FullRegs.m_axis_tvalid (s : FullRegs α) : Bool := s.filled.getLsbD 0

def FullRegs.step (s : FullRegs α) (i : Input α) : FullRegs α :=
  if s.filled = 0b00#2 then
    if i.s_axis_tvalid then { s with axis0 := i.s_axis, filled := 0b01#2 } else s
  else if s.filled = 0b01#2 then
    if i.s_axis_tvalid && i.m_axis_tready then { s with axis0 := i.s_axis }
    else if i.s_axis_tvalid && !i.m_axis_tready then { s with axis1 := i.s_axis, filled := 0b11#2 }
    else if !i.s_axis_tvalid && i.m_axis_tready then { s with filled := 0b00#2 }
    else s
  else if s.filled = 0b11#2 then
    if i.m_axis_tready then { s with axis0 := s.axis1, filled := 0b01#2 } else s
  else { s with filled := 0b00#2 }

/-- The beats that a slice holds. -/
def FullRegs.held (s : FullRegs α) : List α :=
  if s.filled = 0b00#2 then [] else if s.filled = 0b01#2 then [s.axis0] else [s.axis0, s.axis1]

def FullRegs.taken (s : FullRegs α) (i : Input α) : List α :=
  if i.s_axis_tvalid && s.s_axis_tready then [i.s_axis] else []

def FullRegs.sent (s : FullRegs α) (i : Input α) : List α :=
  if s.m_axis_tvalid && i.m_axis_tready then [s.axis0] else []

/-- The second pair of registers is only filled behind the first one. -/
def FullRegs.Ordered (s : FullRegs α) : Prop := s.filled ≠ 0b10#2

theorem FullRegs.Ordered.filled_cases {s : FullRegs α} (h : s.Ordered) :
    s.filled = 0b00#2 ∨ s.filled = 0b01#2 ∨ s.filled = 0b11#2 := by
  have hcases : ∀ filled : BitVec 2, filled ≠ 0b10#2 →
      filled = 0b00#2 ∨ filled = 0b01#2 ∨ filled = 0b11#2 := by decide
  exact hcases s.filled h

theorem FullRegs.step_moves {s : FullRegs α} (h : s.Ordered) (i : Input α) :
    (s.step i).Ordered ∧ s.held ++ s.taken i = s.sent i ++ (s.step i).held := by
  obtain ⟨axis0, axis1, filled⟩ := s
  obtain ⟨tvalid, beat, tready⟩ := i
  obtain rfl | rfl | rfl : filled = 0b00#2 ∨ filled = 0b01#2 ∨ filled = 0b11#2 := h.filled_cases <;> cases tvalid <;> cases tready <;>
    simp [Ordered, step, held, taken, sent, s_axis_tready, m_axis_tvalid]

/-- A slice in a circuit sends the beats that it takes, in order and each once. -/
theorem FullRegs.stream_law {State Pins : Type} (m : Machine State Pins)
    (slice : State → FullRegs α) (pins : State → Pins → Input α)
    (hreset : (slice m.reset).filled = 0b00#2)
    (hstep : ∀ s i, slice (m.step s i) = (slice s).step (pins s i)) (inputs : List Pins) :
    (m.trace inputs).flatMap (fun c => (slice c.state).sent (pins c.state c.input)) ++
        (slice (m.run inputs)).held =
      (m.trace inputs).flatMap fun c => (slice c.state).taken (pins c.state c.input) := by
  refine m.flow_law (fun s => (slice s).held) _ _ (fun s => (slice s).Ordered)
    (by simp [Ordered, hreset]) (by simp [held, hreset]) (fun s i hordered => ?_) inputs
  rw [hstep]
  exact (slice s).step_moves hordered (pins s i)

end Full

end reconic.axi_stream_register_slice
