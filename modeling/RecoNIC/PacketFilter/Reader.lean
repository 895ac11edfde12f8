import Mathlib.Data.List.Basic
import RecoNIC.PacketFilter.Spec

open clocked

namespace reconic.packet_filter

/-- The beats and the metadata words the RoCE FIFOs have stored so far. -/
def roceStored (h : List (Cycle Regs Input)) : List Beat :=
  h.flatMap fun c => c.state.filter_rdma_pkt_fifo.accepted (rdmaWrite c.state c.input)

def metaStored (h : List (Cycle Regs Input)) : List Metadata :=
  h.flatMap fun c => c.state.filter_metadata_fifo.accepted (metaWrite c.state c.input)

/-- The beats the non-RoCE FIFO has stored so far. -/
def nonRoceStored (h : List (Cycle Regs Input)) : List Beat :=
  h.flatMap fun c => c.state.filter_non_rdma_pkt_fifo.accepted (nonRdmaWrite c.state c.input)

/-- Whether the RDMA read FSM has stopped inside a packet. -/
def readMid (s : Regs) : Bool := decide (s.filter_rd_rdma_state = .READ_RDMA)

/-- What the RDMA read FSM can do in a cycle: stand still, or transfer the beat
at the head of the FIFO, taking a metadata word exactly when it is between
packets. -/
theorem rdmaReadControl_cases (s : Regs) (i : Input) :
    rdmaReadControl s i = ⟨false, false, s.filter_rd_rdma_state⟩ ∨
    (i.m_axis_roce_tready = true ∧ ∃ b beats, s.filter_rdma_pkt_fifo.contents = b :: beats ∧
      ((s.filter_rd_rdma_state = .READ_RDMA_IDLE ∧
        (∃ m metas, s.filter_metadata_fifo.contents = m :: metas) ∧
        rdmaReadControl s i = ⟨true, true, if b.tlast then .READ_RDMA_IDLE else .READ_RDMA⟩) ∨
      (s.filter_rd_rdma_state = .READ_RDMA ∧
        rdmaReadControl s i = ⟨false, true, if b.tlast then .READ_RDMA_IDLE else .READ_RDMA⟩))) := by
  cases hready : i.m_axis_roce_tready <;>
    cases hbeats : s.filter_rdma_pkt_fifo.contents <;>
      cases hmetas : s.filter_metadata_fifo.contents <;>
        cases hstate : s.filter_rd_rdma_state <;>
          simp [rdmaReadControl, rdma_pkt_fifo_out, Fifo.empty, Fifo.dout, hready, hbeats, hmetas,
            hstate]

/-- What the non-RDMA read FSM can do in a cycle. -/
theorem nonrdmaReadControl_cases (s : Regs) (i : Input) :
    (nonrdmaReadControl s i).non_rdma_pkt_rd_en = false ∨
    ((nonrdmaReadControl s i).non_rdma_pkt_rd_en = true ∧ i.m_axis_non_roce_tready = true ∧
      ∃ b beats, s.filter_non_rdma_pkt_fifo.contents = b :: beats) := by
  cases hready : i.m_axis_non_roce_tready <;>
    cases hbeats : s.filter_non_rdma_pkt_fifo.contents <;>
      cases hstate : s.filter_rd_nonrdma_state <;>
        simp [nonrdmaReadControl, Fifo.empty, hready, hbeats, hstate]

/-- The read side at a point of a run. However the streams of stored words go
on, pairing them from the start is what has been transferred followed by the
pairing of what is still stored. -/
def ReaderInv (h : List (Cycle Regs Input)) (s : Regs) : Prop :=
  ∀ beats metas, label false (roceStored h ++ beats) (metaStored h ++ metas) =
    roceTransfers h ++ label (readMid s) (s.filter_rdma_pkt_fifo.contents ++ beats)
      (s.filter_metadata_fifo.contents ++ metas)

/-- One read and one write of both FIFOs, seen as one step of the pairing. -/
theorem label_step (s : Regs) (i : Input) (beats : List Beat) (metas : List Metadata) :
    label (readMid s) (s.filter_rdma_pkt_fifo.contents ++
        (s.filter_rdma_pkt_fifo.accepted (rdmaWrite s i) ++ beats))
        (s.filter_metadata_fifo.contents ++
          (s.filter_metadata_fifo.accepted (metaWrite s i) ++ metas)) =
      (roceTransfer ⟨s, i⟩).toList ++ label (readMid (machine.step s i))
        ((machine.step s i).filter_rdma_pkt_fifo.contents ++ beats)
        ((machine.step s i).filter_metadata_fifo.contents ++ metas) := by
  obtain hctl |
    ⟨hready, b, rest, hbeats, ⟨hstate, ⟨m, words, hmetas⟩, hctl⟩ | ⟨hstate, hctl⟩⟩ :=
    rdmaReadControl_cases s i
  · simp [roceTransfer, m_axis_roce_tvalid, readMid, machine, Fifo.clock_contents, hctl]
  · have htransfer : roceTransfer ⟨s, i⟩ = some (b, some m) := by
      simp [roceTransfer, m_axis_roce_tvalid, metadata_out_valid, m_axis_roce, metadata_out,
        rdma_pkt_fifo_out, meta_out, Fifo.dout, hctl, hready, hbeats, hmetas]
    rw [htransfer]
    cases hlast : b.tlast <;>
      simp [readMid, machine, Fifo.clock_contents, hctl, hbeats, hmetas, hstate, label, hlast]
  · have htransfer : roceTransfer ⟨s, i⟩ = some (b, none) := by
      simp [roceTransfer, m_axis_roce_tvalid, metadata_out_valid, m_axis_roce,
        rdma_pkt_fifo_out, Fifo.dout, hctl, hready, hbeats]
    rw [htransfer]
    cases hlast : b.tlast <;>
      simp [readMid, machine, Fifo.clock_contents, hctl, hbeats, hstate, label, hlast]

theorem reader_invariant (inputs : List Input) :
    ReaderInv (machine.trace inputs) (machine.run inputs) := by
  apply machine.free_history_induction ReaderInv
  · intro beats metas
    simp [roceStored, metaStored, roceTransfers, machine, readMid]
  · intro h s i inv beats metas
    have hroce : roceStored (h ++ [⟨s, i⟩]) =
        roceStored h ++ s.filter_rdma_pkt_fifo.accepted (rdmaWrite s i) := by simp [roceStored]
    have hmeta : metaStored (h ++ [⟨s, i⟩]) =
        metaStored h ++ s.filter_metadata_fifo.accepted (metaWrite s i) := by simp [metaStored]
    have hout : roceTransfers (h ++ [⟨s, i⟩]) =
        roceTransfers h ++ (roceTransfer ⟨s, i⟩).toList := by
      cases htransfer : roceTransfer ⟨s, i⟩ <;> simp [roceTransfers, htransfer]
    rw [hroce, hmeta, hout, List.append_assoc, List.append_assoc, inv, label_step,
      List.append_assoc]

/-- In every run, also under overload, the RoCE port emits a beginning of the
pairing of the stored beats with the stored metadata words. -/
theorem roceTransfers_initial (inputs : List Input) :
    roceTransfers (machine.trace inputs) <+:
      label false (roceStored (machine.trace inputs)) (metaStored (machine.trace inputs)) := by
  have h := reader_invariant inputs [] []
  simp only [List.append_nil] at h
  rw [h]
  exact List.prefix_append _ _

/-- In every run, also under overload, the beats transferred on the RoCE port followed
by those in its FIFO are the beats the FIFO has stored. -/
theorem roceTransfers_then_stored (inputs : List Input) :
    (roceTransfers (machine.trace inputs)).map Prod.fst ++
        (machine.run inputs).filter_rdma_pkt_fifo.contents =
      roceStored (machine.trace inputs) := by
  have hlaw := Fifo.stream_law machine Regs.filter_rdma_pkt_fifo
    (fun c => rdmaWrite c.state c.input)
    (fun c => (rdmaReadControl c.state c.input).rdma_pkt_rd_en) rfl (fun _ _ => rfl) inputs
  have hpop : (roceTransfers (machine.trace inputs)).map Prod.fst =
      (machine.trace inputs).flatMap fun c =>
        c.state.filter_rdma_pkt_fifo.popped (rdmaReadControl c.state c.input).rdma_pkt_rd_en := by
    rw [roceTransfers, List.filterMap_eq_flatMap_toList, List.map_flatMap]
    apply List.flatMap_congr
    intro c _
    obtain hctl | ⟨hready, b, rest, hbeats, ⟨_, _, hctl⟩ | ⟨_, hctl⟩⟩ :=
      rdmaReadControl_cases c.state c.input
    · simp [roceTransfer, m_axis_roce_tvalid, hctl]
    all_goals
      simp [roceTransfer, m_axis_roce_tvalid, m_axis_roce, rdma_pkt_fifo_out, Fifo.popped,
        Fifo.dout, hctl, hready, hbeats]
  rw [hpop, hlaw]
  rfl

/-- In every run, also under overload, the beats transferred on the non-RoCE
port followed by those in its FIFO are the beats the FIFO has stored. -/
theorem nonRoceTransfers_then_stored (inputs : List Input) :
    nonRoceTransfers (machine.trace inputs) ++
        (machine.run inputs).filter_non_rdma_pkt_fifo.contents =
      nonRoceStored (machine.trace inputs) := by
  have hlaw := Fifo.stream_law machine Regs.filter_non_rdma_pkt_fifo
    (fun c => nonRdmaWrite c.state c.input)
    (fun c => (nonrdmaReadControl c.state c.input).non_rdma_pkt_rd_en) rfl (fun _ _ => rfl) inputs
  have hpop : nonRoceTransfers (machine.trace inputs) = (machine.trace inputs).flatMap fun c =>
      c.state.filter_non_rdma_pkt_fifo.popped
        (nonrdmaReadControl c.state c.input).non_rdma_pkt_rd_en := by
    rw [nonRoceTransfers, List.filterMap_eq_flatMap_toList]
    apply List.flatMap_congr
    intro c _
    obtain hidle | ⟨hread, hready, b, rest, hbeats⟩ := nonrdmaReadControl_cases c.state c.input
    · simp [nonRoceTransfer, m_axis_non_roce_tvalid, hidle]
    · simp [nonRoceTransfer, m_axis_non_roce_tvalid, m_axis_non_roce, non_rdma_pkt_fifo_out,
        Fifo.popped, Fifo.dout, hread, hready, hbeats]
  rw [hpop, hlaw]
  rfl

end reconic.packet_filter
