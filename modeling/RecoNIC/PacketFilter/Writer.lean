import RecoNIC.PacketFilter.Spec

open clocked

namespace reconic.packet_filter

/-- The words presented to the write ports of the three FIFOs so far, whether
or not there was room for them. -/
def roceWrites (h : List (Cycle Regs Input)) : List Beat :=
  h.flatMap fun c => rdmaWrite c.state c.input

def metaWrites (h : List (Cycle Regs Input)) : List Metadata :=
  h.flatMap fun c => metaWrite c.state c.input

def nonRoceWrites (h : List (Cycle Regs Input)) : List Beat :=
  h.flatMap fun c => nonRdmaWrite c.state c.input

/-- What the write FSM can do in a cycle: nothing without a valid beat, and
otherwise send the beat to one FIFO, the first of a RoCE packet with its
metadata, and follow `tlast`. -/
theorem writeControl_cases (s : Regs) (i : Input) :
    (i.s_axis_tvalid = false ∧ writeControl s i = ⟨false, false, false, s.filter_state⟩) ∨
    (i.s_axis_tvalid = true ∧ s.filter_state = .FILTER_IDLE ∧
      metadata_is_rdma i.metadata_in = true ∧ writeControl s i = ⟨true, true, false,
        if i.s_axis.tlast then .FILTER_IDLE else .FILTER_WR_ROCE⟩) ∨
    (i.s_axis_tvalid = true ∧ s.filter_state = .FILTER_IDLE ∧
      metadata_is_rdma i.metadata_in = false ∧ writeControl s i = ⟨false, false, true,
        if i.s_axis.tlast then .FILTER_IDLE else .FILTER_WR_NONROCE⟩) ∨
    (i.s_axis_tvalid = true ∧ s.filter_state = .FILTER_WR_ROCE ∧ writeControl s i =
      ⟨false, true, false, if i.s_axis.tlast then .FILTER_IDLE else .FILTER_WR_ROCE⟩) ∨
    (i.s_axis_tvalid = true ∧ s.filter_state = .FILTER_WR_NONROCE ∧ writeControl s i =
      ⟨false, false, true, if i.s_axis.tlast then .FILTER_IDLE else .FILTER_WR_NONROCE⟩) := by
  cases hvalid : i.s_axis_tvalid <;> cases hstate : s.filter_state <;>
    cases hclass : metadata_is_rdma i.metadata_in <;>
      simp [writeControl, hvalid, hstate, hclass]

/-- The state of the write FSM tells where in which packet the input stands. -/
def FilterState.Follows (state : FilterState) (current : List (Metadata × Beat)) : Prop :=
  match state with
  | .FILTER_IDLE => current = []
  | .FILTER_WR_ROCE => current ≠ [] ∧ isRoce current = true
  | .FILTER_WR_NONROCE => current ≠ [] ∧ isRoce current = false

/-- The write side at a point of a run, for the input packets `f` so far and the
words presented to the FIFOs: they are the stream of each class, and the RoCE
beats and the metadata words pair up. -/
structure WriterInv (f : Frames (Metadata × Beat)) (roceBeats : List Beat)
    (metas : List Metadata) (nonRoceBeats : List Beat) (state : FilterState) : Prop where
  follows : state.Follows f.current
  roce : roceStream f.packets = label false roceBeats metas
  nonRoce : nonRoceStream f.packets = nonRoceBeats
  paired : Pairing false roceBeats metas (decide (state = .FILTER_WR_ROCE))

/-- The position in the input stream after a beat of a packet of class `roce`. -/
theorem follows_push {f : Frames (Metadata × Beat)} (x : Metadata × Beat) (roce : Bool)
    (hclass : isRoce (f.current ++ [x]) = roce) :
    FilterState.Follows (if x.2.tlast then .FILTER_IDLE else
      if roce then .FILTER_WR_ROCE else .FILTER_WR_NONROCE)
      (f.push (fun y => y.2.tlast) x).current := by
  cases hlast : x.2.tlast <;> cases roce <;>
    simp [Frames.push, FilterState.Follows, hlast, hclass]

theorem WriterInv.roce_head {f : Frames (Metadata × Beat)} {roceBeats : List Beat}
    {metas : List Metadata} {nonRoceBeats : List Beat}
    (inv : WriterInv f roceBeats metas nonRoceBeats .FILTER_IDLE) (x : Metadata × Beat)
    (hclass : metadata_is_rdma x.1 = true) :
    WriterInv (f.push (fun y => y.2.tlast) x) (roceBeats ++ [x.2]) (metas ++ [x.1]) nonRoceBeats
      (if x.2.tlast then .FILTER_IDLE else .FILTER_WR_ROCE) := by
  obtain ⟨follows, roce, nonRoce, paired⟩ := inv
  have hcur : f.current = [] := follows
  refine ⟨follows_push x true (by simp [hcur, isRoce, hclass]), ?_, ?_, ?_⟩
  · rw [roceStream_push_head x hcur, label_snoc_head paired, roce]
    simp [hclass]
  · simp [nonRoceStream_push_head x hcur, hclass, nonRoce]
  · have hnext := paired.snoc_head x.2 x.1
    cases hlast : x.2.tlast <;> simpa [hlast] using hnext

theorem WriterInv.nonRoce_head {f : Frames (Metadata × Beat)} {roceBeats : List Beat}
    {metas : List Metadata} {nonRoceBeats : List Beat}
    (inv : WriterInv f roceBeats metas nonRoceBeats .FILTER_IDLE) (x : Metadata × Beat)
    (hclass : metadata_is_rdma x.1 = false) :
    WriterInv (f.push (fun y => y.2.tlast) x) roceBeats metas (nonRoceBeats ++ [x.2])
      (if x.2.tlast then .FILTER_IDLE else .FILTER_WR_NONROCE) := by
  obtain ⟨follows, roce, nonRoce, paired⟩ := inv
  have hcur : f.current = [] := follows
  refine ⟨follows_push x false (by simp [hcur, isRoce, hclass]), ?_, ?_, ?_⟩
  · simp [roceStream_push_head x hcur, hclass, roce]
  · simp [nonRoceStream_push_head x hcur, hclass, nonRoce]
  · cases hlast : x.2.tlast <;> simpa using paired

theorem WriterInv.roce_inside {f : Frames (Metadata × Beat)} {roceBeats : List Beat}
    {metas : List Metadata} {nonRoceBeats : List Beat}
    (inv : WriterInv f roceBeats metas nonRoceBeats .FILTER_WR_ROCE) (x : Metadata × Beat) :
    WriterInv (f.push (fun y => y.2.tlast) x) (roceBeats ++ [x.2]) metas nonRoceBeats
      (if x.2.tlast then .FILTER_IDLE else .FILTER_WR_ROCE) := by
  obtain ⟨follows, roce, nonRoce, paired⟩ := inv
  obtain ⟨hcur, hclass⟩ : f.current ≠ [] ∧ isRoce f.current = true := follows
  refine ⟨follows_push x true (by rw [isRoce_snoc x hcur, hclass]), ?_, ?_, ?_⟩
  · rw [roceStream_push_inside x hcur, label_snoc_inside paired, roce]
    simp [hclass]
  · simp [nonRoceStream_push_inside x hcur, hclass, nonRoce]
  · have hnext := paired.snoc_inside x.2
    cases hlast : x.2.tlast <;> simpa [hlast] using hnext

theorem WriterInv.nonRoce_inside {f : Frames (Metadata × Beat)} {roceBeats : List Beat}
    {metas : List Metadata} {nonRoceBeats : List Beat}
    (inv : WriterInv f roceBeats metas nonRoceBeats .FILTER_WR_NONROCE) (x : Metadata × Beat) :
    WriterInv (f.push (fun y => y.2.tlast) x) roceBeats metas (nonRoceBeats ++ [x.2])
      (if x.2.tlast then .FILTER_IDLE else .FILTER_WR_NONROCE) := by
  obtain ⟨follows, roce, nonRoce, paired⟩ := inv
  obtain ⟨hcur, hclass⟩ : f.current ≠ [] ∧ isRoce f.current = false := follows
  refine ⟨follows_push x false (by rw [isRoce_snoc x hcur, hclass]), ?_, ?_, ?_⟩
  · simp [roceStream_push_inside x hcur, hclass, roce]
  · simp [nonRoceStream_push_inside x hcur, hclass, nonRoce]
  · cases hlast : x.2.tlast <;> simpa using paired

/-- The write side keeps its invariant in every run, whatever the FIFOs do with
the words presented to them. -/
theorem writer_invariant (inputs : List Input) :
    WriterInv (inPackets (machine.trace inputs)) (roceWrites (machine.trace inputs))
      (metaWrites (machine.trace inputs)) (nonRoceWrites (machine.trace inputs))
      (machine.run inputs).filter_state := by
  apply machine.free_history_induction (fun h s =>
    WriterInv (inPackets h) (roceWrites h) (metaWrites h) (nonRoceWrites h) s.filter_state)
  · exact ⟨rfl, rfl, rfl, ⟨rfl, rfl⟩⟩
  · intro h s i inv
    have hroce : roceWrites (h ++ [⟨s, i⟩]) = roceWrites h ++ rdmaWrite s i := by simp [roceWrites]
    have hmeta : metaWrites (h ++ [⟨s, i⟩]) = metaWrites h ++ metaWrite s i := by simp [metaWrites]
    have hnon : nonRoceWrites (h ++ [⟨s, i⟩]) = nonRoceWrites h ++ nonRdmaWrite s i := by
      simp [nonRoceWrites]
    have hin : inPackets (h ++ [⟨s, i⟩]) = if i.s_axis_tvalid then
        (inPackets h).push (fun x => x.2.tlast) (i.metadata_in, i.s_axis) else inPackets h := by
      cases hvalid : i.s_axis_tvalid <;> simp [inPackets, inBeats, hvalid, s_axis_tready]
    rw [hin, hroce, hmeta, hnon]
    simp only [machine, rdmaWrite, metaWrite, nonRdmaWrite]
    obtain ⟨hvalid, hctl⟩ | ⟨hvalid, hstate, hclass, hctl⟩ |
      ⟨hvalid, hstate, hclass, hctl⟩ | ⟨hvalid, hstate, hctl⟩ | ⟨hvalid, hstate, hctl⟩ :=
      writeControl_cases s i
    · simpa [hvalid, hctl] using inv
    · rw [hstate] at inv
      simpa [hvalid, hctl] using inv.roce_head (i.metadata_in, i.s_axis) hclass
    · rw [hstate] at inv
      simpa [hvalid, hctl] using inv.nonRoce_head (i.metadata_in, i.s_axis) hclass
    · rw [hstate] at inv
      simpa [hvalid, hctl] using inv.roce_inside (i.metadata_in, i.s_axis)
    · rw [hstate] at inv
      simpa [hvalid, hctl] using inv.nonRoce_inside (i.metadata_in, i.s_axis)

end reconic.packet_filter
