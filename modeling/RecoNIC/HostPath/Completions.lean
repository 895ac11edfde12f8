import RecoNIC.HostPath.WholePackets

open clocked
open reconic.axi_stream_register_slice (ForwardRegs)

namespace reconic.qdma_subsystem_c2h

section Completions

variable {NUM_PHYS_FUNC : Nat} (unknown : Nat → Finset (Fin NUM_PHYS_FUNC))

/-- The last beats of the packets that the QDMA has received, and whether the completion FIFO was
full then. -/
def delivered (h : List (Cycle (Regs NUM_PHYS_FUNC) (Input NUM_PHYS_FUNC))) : List (Beat × Bool) :=
  h.flatMap fun c =>
    if cpl_fifo_wr_en c.state c.input then [(c.state.slice.axis, c.state.cpl_fifo.full)] else []

/-- The pins of the completion stream: `ctrl_qid`, `ctrl_wait_pld_pkt_id` and `tdata`. -/
def cpl_pins (c : Completion) : BitVec 11 × BitVec 16 × BitVec 512 := (c.qid, c.pkt_id, cpl_tdata c)

/-- The completions that the QDMA has taken. -/
def reported (h : List (Cycle (Regs NUM_PHYS_FUNC) (Input NUM_PHYS_FUNC))) :
    List (BitVec 11 × BitVec 16 × BitVec 512) :=
  h.flatMap fun c => (c.state.cpl_fifo.popped (cpl_fifo_rd_en c.state c.input)).map cpl_pins

/-- The completion of the packet with a number, which counts from one. -/
def completion (last : Beat) (number : Nat) : Completion :=
  ⟨last.tuser_qid, BitVec.ofNat 16 number, last.tuser_size⟩

/-- The completions of the packets received, but for those whose last beats found the FIFO full. -/
def owed (ps : List (Beat × Bool)) : List Completion :=
  (ps.zipIdx.filter fun x => !x.1.2).map fun x => completion x.1.1 (x.2 + 1)

theorem delivered_snoc (h : List (Cycle (Regs NUM_PHYS_FUNC) (Input NUM_PHYS_FUNC)))
    (s : Regs NUM_PHYS_FUNC) (i : Input NUM_PHYS_FUNC) :
    delivered (h ++ [⟨s, i⟩]) = delivered h ++
      if cpl_fifo_wr_en s i then [(s.slice.axis, s.cpl_fifo.full)] else [] := by
  simp [delivered]

theorem owed_snoc (ps : List (Beat × Bool)) (last : Beat) (full : Bool) :
    owed (ps ++ [(last, full)]) =
      owed ps ++ if full then [] else [completion last (ps.length + 1)] := by
  rw [owed, List.zipIdx_append, List.filter_append, List.map_append]
  cases full <;> simp [owed]

/-- The packet numbers count the packets that the QDMA has received. -/
theorem run_pkt_pld_id (inputs : List (Input NUM_PHYS_FUNC)) :
    ((machine NUM_PHYS_FUNC unknown).run inputs).pkt_pld_id =
      BitVec.ofNat 16 (delivered ((machine NUM_PHYS_FUNC unknown).trace inputs)).length := by
  refine (machine NUM_PHYS_FUNC unknown).free_history_induction
    (fun h s => s.pkt_pld_id = BitVec.ofNat 16 (delivered h).length) rfl ?_ inputs
  intro h s i ih
  have hstep : ((machine NUM_PHYS_FUNC unknown).step s i).pkt_pld_id =
      if cpl_fifo_wr_en s i then s.pkt_pld_id + 1 else s.pkt_pld_id := rfl
  rw [hstep, delivered_snoc, List.length_append, ih]
  split
  · rw [List.length_singleton, BitVec.ofNat_add]
    rfl
  · rfl

/-- What is written to the FIFO is owed. -/
theorem accepted_owed (inputs : List (Input NUM_PHYS_FUNC)) :
    ((machine NUM_PHYS_FUNC unknown).trace inputs).flatMap (fun c =>
        c.state.cpl_fifo.accepted (if cpl_fifo_wr_en c.state c.input then [cpl_fifo_din c.state] else [])) =
      owed (delivered ((machine NUM_PHYS_FUNC unknown).trace inputs)) := by
  induction inputs using List.reverseRecOn with
  | nil => rfl
  | append_singleton inputs i ih =>
    have hid := run_pkt_pld_id unknown inputs
    rw [Machine.trace_snoc, List.flatMap_append, ih, delivered_snoc, List.flatMap_singleton]
    dsimp only
    generalize (machine NUM_PHYS_FUNC unknown).run inputs = s at *
    cases hwrite : cpl_fifo_wr_en s i with
    | false => simp
    | true =>
      rw [if_pos rfl, if_pos rfl, owed_snoc]
      congr 1
      have hdin : cpl_fifo_din s = completion s.slice.axis
          ((delivered ((machine NUM_PHYS_FUNC unknown).trace inputs)).length + 1) := by
        rw [cpl_fifo_din, hid, completion, BitVec.ofNat_add]
        rfl
      by_cases hfull : s.cpl_fifo.full = true
      · rw [if_pos hfull, Fifo.accepted_of_full _ ((Fifo.full_eq_true _).mp hfull)]
      · rw [if_neg hfull, Fifo.accepted_of_not_full _
          ((Fifo.full_eq_false _).mp (Bool.eq_false_iff.mpr hfull)), hdin]

/-- Every packet that the QDMA has received is reported once and in order, with its queue, its
number and its size, unless the completion FIFO is full when its last beat is received. -/
theorem packets_reported (inputs : List (Input NUM_PHYS_FUNC)) :
    let m := machine NUM_PHYS_FUNC unknown
    let h := m.trace inputs
    reported h ++ (m.run inputs).cpl_fifo.contents.map cpl_pins = (owed (delivered h)).map cpl_pins ∧
      (delivered h).map Prod.fst = ((received h).map Prod.fst).filter Beat.tlast := by
  intro m h
  have hlaw := Fifo.stream_law m Regs.cpl_fifo
    (fun c => if cpl_fifo_wr_en c.state c.input then [cpl_fifo_din c.state] else [])
    (fun c => cpl_fifo_rd_en c.state c.input) rfl (fun _ _ => rfl) inputs
  constructor
  · rw [← accepted_owed unknown inputs, ← hlaw, List.map_append, List.map_flatMap]
    rfl
  · rw [delivered, received, List.map_flatMap, List.map_flatMap, List.filter_flatMap]
    refine List.flatMap_congr fun c _ => ?_
    simp only [cpl_fifo_wr_en]
    by_cases hfilled : c.state.slice.filled = true <;>
      by_cases hlast : c.state.slice.axis.tlast = true <;>
        by_cases hready : c.input.m_axis_qdma_c2h_tready = true <;> simp [hfilled, hlast, hready]

end Completions

end reconic.qdma_subsystem_c2h
