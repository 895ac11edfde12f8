import RecoNIC.PacketFilter.Writer
import RecoNIC.PacketFilter.Reader

open clocked

namespace reconic.packet_filter

/-- The pairing of the metadata FIFO with the packet boundaries of the RoCE
packet FIFO: one stored metadata word for each packet whose first beat is
stored, and the stored beats end where the write FSM stands. -/
def Paired (s : Regs) : Prop :=
  Pairing (readMid s) s.filter_rdma_pkt_fifo.contents s.filter_metadata_fifo.contents
    (decide (s.filter_state = .FILTER_WR_ROCE))

/-- Reading keeps the pairing of what stays in the FIFOs. -/
theorem read_paired (s : Regs) (i : Input) (hpaired : Paired s) :
    Pairing (readMid (machine.step s i))
      (s.filter_rdma_pkt_fifo.kept (rdmaReadControl s i).rdma_pkt_rd_en)
      (s.filter_metadata_fifo.kept (rdmaReadControl s i).meta_rd_en)
      (decide (s.filter_state = .FILTER_WR_ROCE)) := by
  obtain ⟨hcount, hends⟩ := hpaired
  obtain hctl |
    ⟨_, b, rest, hbeats, ⟨hstate, ⟨m, words, hmetas⟩, hctl⟩ | ⟨hstate, hctl⟩⟩ :=
    rdmaReadControl_cases s i
  · exact ⟨by simpa [readMid, machine, hctl] using hcount,
      by simpa [readMid, machine, hctl] using hends⟩
  · rw [hbeats] at hcount hends
    rw [hmetas] at hcount
    constructor <;> cases hlast : b.tlast <;>
      simp_all [readMid, machine, heads, midAfter]
  · rw [hbeats] at hcount hends
    constructor <;> cases hlast : b.tlast <;>
      simp_all [readMid, machine, heads, midAfter]

/-- In a cycle without overflow of the RoCE packet FIFO all that is written for
RoCE packets is stored: the metadata FIFO is never the one that is full. -/
theorem stored_of_paired (s : Regs) (i : Input) (hpaired : Paired s)
    (hfits : roceOverflow ⟨s, i⟩ = false) :
    s.filter_rdma_pkt_fifo.accepted (rdmaWrite s i) = rdmaWrite s i ∧
      s.filter_metadata_fifo.accepted (metaWrite s i) = metaWrite s i := by
  have hheads := heads_le_length Beat.tlast (readMid s) s.filter_rdma_pkt_fifo.contents
  have hcount := hpaired.count
  obtain ⟨_, hctl⟩ | ⟨_, _, _, hctl⟩ | ⟨_, _, _, hctl⟩ |
    ⟨_, _, hctl⟩ | ⟨_, _, hctl⟩ := writeControl_cases s i
  · simp [rdmaWrite, metaWrite, hctl]
  · have hroom : s.filter_rdma_pkt_fifo.contents.length < FIFO_WRITE_DEPTH := by
      simpa [roceOverflow, hctl] using hfits
    simp only [rdmaWrite, metaWrite, hctl, if_true]
    exact ⟨Fifo.accepted_of_not_full _ hroom, Fifo.accepted_of_not_full _ (by omega)⟩
  · simp [rdmaWrite, metaWrite, hctl]
  · have hroom : s.filter_rdma_pkt_fifo.contents.length < FIFO_WRITE_DEPTH := by
      simpa [roceOverflow, hctl] using hfits
    simp only [rdmaWrite, metaWrite, hctl, if_true]
    exact ⟨Fifo.accepted_of_not_full _ hroom, by simp⟩
  · simp [rdmaWrite, metaWrite, hctl]

/-- A cycle without overflow of the RoCE packet FIFO keeps the pairing. -/
theorem paired_step (s : Regs) (i : Input) (hpaired : Paired s)
    (hfits : roceOverflow ⟨s, i⟩ = false) : Paired (machine.step s i) := by
  obtain ⟨hbeats, hmetas⟩ := stored_of_paired s i hpaired hfits
  have hread := read_paired s i hpaired
  have hfifo : (machine.step s i).filter_rdma_pkt_fifo.contents =
      s.filter_rdma_pkt_fifo.kept (rdmaReadControl s i).rdma_pkt_rd_en ++ rdmaWrite s i := by
    simp only [machine, Fifo.clock_contents, hbeats]
  have hmeta : (machine.step s i).filter_metadata_fifo.contents =
      s.filter_metadata_fifo.kept (rdmaReadControl s i).meta_rd_en ++ metaWrite s i := by
    simp only [machine, Fifo.clock_contents, hmetas]
  have hnext : (machine.step s i).filter_state = (writeControl s i).filter_nextstate := rfl
  rw [Paired, hfifo, hmeta, hnext, rdmaWrite, metaWrite]
  obtain ⟨_, hctl⟩ | ⟨_, hstate, _, hctl⟩ | ⟨_, hstate, _, hctl⟩ |
    ⟨_, hstate, hctl⟩ | ⟨_, hstate, hctl⟩ := writeControl_cases s i
  · simpa [hctl] using hread
  · rw [hstate] at hread
    have hpush := Pairing.snoc_head hread i.s_axis i.metadata_in
    cases hlast : i.s_axis.tlast <;> simpa [hctl, hlast] using hpush
  · rw [hstate] at hread
    cases hlast : i.s_axis.tlast <;> simpa [hctl, hlast] using hread
  · rw [hstate] at hread
    have hpush := Pairing.snoc_inside hread i.s_axis
    cases hlast : i.s_axis.tlast <;> simpa [hctl, hlast] using hpush
  · rw [hstate] at hread
    cases hlast : i.s_axis.tlast <;> simpa [hctl, hlast] using hread

/-- As long as no write has reached the full RoCE packet FIFO, both RoCE FIFOs
have stored all that was written to them, and they are paired. -/
theorem roce_fits (inputs : List Input)
    (hfits : ∀ c ∈ machine.trace inputs, roceOverflow c = false) :
    (roceStored (machine.trace inputs) = roceWrites (machine.trace inputs) ∧
      metaStored (machine.trace inputs) = metaWrites (machine.trace inputs)) ∧
    Paired (machine.run inputs) := by
  apply machine.history_induction (fun h => ∀ c ∈ h, roceOverflow c = false)
    (fun h s => (roceStored h = roceWrites h ∧ metaStored h = metaWrites h) ∧ Paired s)
    (fun h c hallowed d hd => hallowed d (List.mem_append_left _ hd))
    ⟨⟨rfl, rfl⟩, ⟨rfl, rfl⟩⟩ _ inputs hfits
  intro h s i hallowed ⟨⟨hbeats, hmetas⟩, hpaired⟩
  have hnow : roceOverflow ⟨s, i⟩ = false := hallowed _ (by simp)
  obtain ⟨hbeat, hmeta⟩ := stored_of_paired s i hpaired hnow
  refine ⟨⟨?_, ?_⟩, paired_step s i hpaired hnow⟩
  · rw [roceStored, roceWrites, List.flatMap_append, List.flatMap_append, ← roceStored,
      ← roceWrites, hbeats]
    simp [hbeat]
  · rw [metaStored, metaWrites, List.flatMap_append, List.flatMap_append, ← metaStored,
      ← metaWrites, hmetas]
    simp [hmeta]

/-- As long as no write has reached the full non-RoCE packet FIFO, it has stored
all that was written to it. -/
theorem nonRoce_fits (inputs : List Input)
    (hfits : ∀ c ∈ machine.trace inputs, nonRoceOverflow c = false) :
    nonRoceStored (machine.trace inputs) = nonRoceWrites (machine.trace inputs) := by
  apply List.flatMap_congr
  intro c hc
  have hroom := hfits c hc
  cases hwr : (writeControl c.state c.input).non_rdma_pkt_wr_en with
  | false => simp [nonRdmaWrite, hwr]
  | true =>
    simp only [nonRdmaWrite, hwr, if_true]
    exact Fifo.accepted_of_not_full _ (by simpa [nonRoceOverflow, hwr] using hroom)

/-- The read FSM stands inside a packet exactly when the last transfer on the
RoCE port did not end one. -/
theorem readMid_eq (inputs : List Input) : readMid (machine.run inputs) =
    midAfter Beat.tlast false ((roceTransfers (machine.trace inputs)).map Prod.fst) := by
  apply machine.free_history_induction (fun h s =>
    readMid s = midAfter Beat.tlast false ((roceTransfers h).map Prod.fst))
  · rfl
  · intro h s i ih
    obtain hctl |
      ⟨hready, b, rest, hbeats, ⟨_, _, hctl⟩ | ⟨_, hctl⟩⟩ := rdmaReadControl_cases s i
    · simpa [roceTransfers, roceTransfer, m_axis_roce_tvalid, readMid, machine, hctl] using ih
    all_goals
      have htransfer : ∃ label, roceTransfer ⟨s, i⟩ = some (b, label) := by
        simp [roceTransfer, m_axis_roce_tvalid, m_axis_roce, rdma_pkt_fifo_out, Fifo.dout, hctl,
          hready, hbeats]
      obtain ⟨label, htransfer⟩ := htransfer
      cases hlast : b.tlast <;>
        simp [roceTransfers, htransfer, readMid, machine, hctl, midAfter_snoc, hlast]

/-- Steering is exact while no write reaches a full packet FIFO. Each port emits
a beginning of the stream of its class and the rest of that stream is in its FIFO; on
the RoCE port the metadata output is
valid with the first beat of each packet, carries that packet's metadata and is
valid in no other cycle. The metadata FIFO holds one word for each RoCE packet
whose first beat is stored, so it neither overflows nor keeps a packet waiting. -/
theorem steering_exact (inputs : List Input)
    (hfits : ∀ c ∈ machine.trace inputs, roceOverflow c = false ∧ nonRoceOverflow c = false) :
    roceTransfers (machine.trace inputs) <+:
      roceStream (inPackets (machine.trace inputs)).packets ∧
    nonRoceTransfers (machine.trace inputs) <+:
      nonRoceStream (inPackets (machine.trace inputs)).packets ∧
    (roceTransfers (machine.trace inputs)).map Prod.fst ++
        (machine.run inputs).filter_rdma_pkt_fifo.contents =
      (roceStream (inPackets (machine.trace inputs)).packets).map Prod.fst ∧
    nonRoceTransfers (machine.trace inputs) ++
        (machine.run inputs).filter_non_rdma_pkt_fifo.contents =
      nonRoceStream (inPackets (machine.trace inputs)).packets ∧
    (∀ c ∈ machine.trace inputs, metadata_out_valid c.state c.input = true →
      (roceTransfer c).isSome = true) ∧
    (machine.run inputs).filter_metadata_fifo.contents.length =
      heads Beat.tlast
        (midAfter Beat.tlast false ((roceTransfers (machine.trace inputs)).map Prod.fst))
        (machine.run inputs).filter_rdma_pkt_fifo.contents ∧
    (∀ c ∈ machine.trace inputs, (writeControl c.state c.input).meta_wr_en = true →
      c.state.filter_metadata_fifo.full = false) ∧
    ((machine.run inputs).filter_rd_rdma_state = .READ_RDMA_IDLE →
      (machine.run inputs).filter_metadata_fifo.empty = true →
      (machine.run inputs).filter_rdma_pkt_fifo.empty = true) := by
  have hwriter := writer_invariant inputs
  obtain ⟨⟨hbeats, hmetas⟩, hpaired⟩ := roce_fits inputs fun c hc => (hfits c hc).1
  have hstored := nonRoce_fits inputs fun c hc => (hfits c hc).2
  refine ⟨?_, ?_, ?_, ?_, ?_, ?_, ?_, ?_⟩
  · rw [hwriter.roce, ← hbeats, ← hmetas]
    exact roceTransfers_initial inputs
  · rw [hwriter.nonRoce, ← hstored, ← nonRoceTransfers_then_stored]
    exact List.prefix_append _ _
  · rw [roceTransfers_then_stored, hbeats, hwriter.roce, map_fst_label hwriter.paired]
  · rw [nonRoceTransfers_then_stored, hstored, hwriter.nonRoce]
  · intro c _ hvalid
    obtain hctl |
      ⟨hready, _, _, _, ⟨_, _, hctl⟩ | ⟨_, hctl⟩⟩ := rdmaReadControl_cases c.state c.input
    · simp [metadata_out_valid, hctl] at hvalid
    · simp [roceTransfer, m_axis_roce_tvalid, hctl, hready]
    · simp [metadata_out_valid, hctl] at hvalid
  · rw [← readMid_eq]
    exact hpaired.count
  · intro c hc hwr
    obtain ⟨earlier, later, hsplit, hstate⟩ := machine.mem_trace hc
    have hbefore : ∀ d ∈ machine.trace earlier, roceOverflow d = false := by
      intro d hd
      apply (hfits d _).1
      rw [hsplit, machine.trace_append]
      exact List.mem_append_left _ hd
    have hpaired := (roce_fits earlier hbefore).2
    rw [← hstate] at hpaired
    obtain ⟨_, hmeta⟩ := stored_of_paired c.state c.input hpaired (hfits c hc).1
    rw [Fifo.full_eq_false]
    by_contra hfull
    rw [Fifo.accepted_of_full _ (Nat.le_of_not_lt hfull)] at hmeta
    simp [metaWrite, hwr] at hmeta
  · intro hstate hmeta
    rw [Fifo.empty_eq_true] at hmeta ⊢
    have hcount := hpaired.count
    cases hq : (machine.run inputs).filter_rdma_pkt_fifo.contents with
    | nil => rfl
    | cons b rest => simp [readMid, hstate, hmeta, hq, heads] at hcount

/-- A RoCE packet of two beats and a non-RoCE packet of one, with both ports
ready all the time. -/
def oneOfEach : List Input :=
  [⟨1#263, true, true, ⟨7, 0, 0, false⟩, true, true⟩, ⟨0#263, true, true, ⟨8, 0, 0, true⟩, true, true⟩,
    ⟨0#263, true, true, ⟨9, 0, 0, true⟩, true, true⟩, ⟨0#263, false, false, Beat.zero, true, true⟩]

theorem steering_exact_oneOfEach :
    (∀ c ∈ machine.trace oneOfEach, roceOverflow c = false ∧ nonRoceOverflow c = false) ∧
    roceTransfers (machine.trace oneOfEach) =
      [(⟨7, 0, 0, false⟩, some 1#263), (⟨8, 0, 0, true⟩, none)] ∧
    roceTransfers (machine.trace oneOfEach) <+:
      roceStream (inPackets (machine.trace oneOfEach)).packets :=
  ⟨by decide +kernel, by decide +kernel, (steering_exact oneOfEach (by decide +kernel)).1⟩

end reconic.packet_filter
