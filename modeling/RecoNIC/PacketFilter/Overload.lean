import Mathlib.Data.List.Flatten
import RecoNIC.PacketFilter.Steering

open clocked

namespace reconic.packet_filter

/-- Cutting the stream of a class into packets at `tlast` gives back the input
packets of that class. -/
theorem frames_roceStream (l : List (Metadata × Beat)) :
    frames (fun x : Beat × Option Metadata => x.1.tlast)
        (roceStream (frames (fun x => x.2.tlast) l).packets) =
      ⟨((frames (fun x => x.2.tlast) l).complete.filter isRoce).map labelled,
        if isRoce (frames (fun x => x.2.tlast) l).current then
          labelled (frames (fun x => x.2.tlast) l).current else []⟩ := by
  induction l using List.reverseRecOn with
  | nil => rfl
  | append_singleton l x ih =>
    rw [frames_snoc]
    generalize frames (fun y : Metadata × Beat => y.2.tlast) l = f at ih ⊢
    by_cases hcur : f.current = []
    · rw [roceStream_push_head x hcur]
      cases hclass : metadata_is_rdma x.1 <;> cases hlast : x.2.tlast <;>
        simp [ih, Frames.push, hcur, hclass, hlast, isRoce, labelled]
    · rw [roceStream_push_inside x hcur]
      have hsnoc := isRoce_snoc x hcur
      cases hclass : isRoce f.current <;> cases hlast : x.2.tlast <;>
        simp [ih, Frames.push, hclass, hlast, hsnoc, labelled_snoc x hcur]

theorem frames_nonRoceStream (l : List (Metadata × Beat)) :
    frames Beat.tlast (nonRoceStream (frames (fun x => x.2.tlast) l).packets) =
      ⟨((frames (fun x => x.2.tlast) l).complete.filter fun p => !isRoce p).map (List.map Prod.snd),
        if isRoce (frames (fun x => x.2.tlast) l).current then []
        else (frames (fun x => x.2.tlast) l).current.map Prod.snd⟩ := by
  induction l using List.reverseRecOn with
  | nil => rfl
  | append_singleton l x ih =>
    rw [frames_snoc]
    generalize frames (fun y : Metadata × Beat => y.2.tlast) l = f at ih ⊢
    by_cases hcur : f.current = []
    · rw [nonRoceStream_push_head x hcur]
      cases hclass : metadata_is_rdma x.1 <;> cases hlast : x.2.tlast <;>
        simp [ih, Frames.push, hcur, hclass, hlast, isRoce]
    · rw [nonRoceStream_push_inside x hcur]
      have hsnoc := isRoce_snoc x hcur
      cases hclass : isRoce f.current <;> cases hlast : x.2.tlast <;>
        simp [ih, Frames.push, hclass, hlast, hsnoc]

/-- Packet-atomicity of what has been emitted: every packet on an output port is
one complete input packet of that class, on the RoCE port with the metadata of
that same packet. -/
def DropsAtomic (h : List (Cycle Regs Input)) : Prop :=
  (∀ p ∈ (frames (fun x => x.1.tlast) (roceTransfers h)).complete,
    ∃ q ∈ (inPackets h).complete, isRoce q = true ∧ p = labelled q) ∧
  (∀ p ∈ (frames Beat.tlast (nonRoceTransfers h)).complete,
    ∃ q ∈ (inPackets h).complete, isRoce q = false ∧ p = q.map Prod.snd)

/-- What is stored over a longer run begins with what was stored before. -/
theorem stored_append (before after : List Input) :
    (∃ more, roceStored (machine.trace (before ++ after)) =
      roceStored (machine.trace before) ++ more) ∧
    (∃ more, metaStored (machine.trace (before ++ after)) =
      metaStored (machine.trace before) ++ more) ∧
    (∃ more, nonRoceStored (machine.trace (before ++ after)) =
      nonRoceStored (machine.trace before) ++ more) := by
  simp only [machine.trace_append, roceStored, metaStored, nonRoceStored, List.flatMap_append]
  exact ⟨⟨_, rfl⟩, ⟨_, rfl⟩, ⟨_, rfl⟩⟩

/-- While the RoCE packet FIFO has not overflowed, the pairing of what it has
stored is the RoCE stream of the input. -/
theorem roceStream_eq_stored (inputs : List Input)
    (hfits : ∀ c ∈ machine.trace inputs, roceOverflow c = false) :
    roceStream (inPackets (machine.trace inputs)).packets =
        label false (roceStored (machine.trace inputs)) (metaStored (machine.trace inputs)) ∧
      roceStored (machine.trace inputs) =
        (roceStream (inPackets (machine.trace inputs)).packets).map Prod.fst := by
  have hwriter := writer_invariant inputs
  obtain ⟨⟨hbeats, hmetas⟩, _⟩ := roce_fits inputs hfits
  rw [hwriter.roce, hbeats, hmetas]
  exact ⟨rfl, (map_fst_label hwriter.paired).symm⟩

/-- Until the non-RoCE packet FIFO overflows it has stored the non-RoCE stream of the input. -/
theorem nonRoceStream_eq_stored (inputs : List Input)
    (hfits : ∀ c ∈ machine.trace inputs, nonRoceOverflow c = false) :
    nonRoceStream (inPackets (machine.trace inputs)).packets =
      nonRoceStored (machine.trace inputs) := by
  rw [(writer_invariant inputs).nonRoce, nonRoce_fits inputs hfits]

/-- However a run goes on after an initial segment without overflow of the RoCE
packet FIFO, the port first emits the RoCE stream of that segment. -/
theorem roceTransfers_take (before after : List Input)
    (hfits : ∀ c ∈ machine.trace before, roceOverflow c = false) :
    (roceTransfers (machine.trace (before ++ after))).take
        (roceStored (machine.trace before)).length <+:
      roceStream (inPackets (machine.trace before)).packets := by
  obtain ⟨hstream, hstored⟩ := roceStream_eq_stored before hfits
  have hlength := congrArg List.length hstored
  rw [List.length_map] at hlength
  obtain ⟨⟨beats, hbeats⟩, ⟨metas, hmetas⟩, _⟩ := stored_append before after
  have hout := roceTransfers_initial (before ++ after)
  rw [hbeats, hmetas] at hout
  have hin := label_initial false (roceStored (machine.trace before)) beats
    (metaStored (machine.trace before)) metas
  rw [← hstream] at hin
  apply List.prefix_of_prefix_length_le ((List.take_prefix _ _).trans hout) hin
  rw [← hlength]
  exact List.length_take_le _ _

theorem nonRoceTransfers_take (before after : List Input)
    (hfits : ∀ c ∈ machine.trace before, nonRoceOverflow c = false) :
    (nonRoceTransfers (machine.trace (before ++ after))).take
        (nonRoceStored (machine.trace before)).length <+:
      nonRoceStream (inPackets (machine.trace before)).packets := by
  have hstream := nonRoceStream_eq_stored before hfits
  obtain ⟨_, _, beats, hbeats⟩ := stored_append before after
  have hout := List.prefix_append (nonRoceTransfers (machine.trace (before ++ after)))
    (machine.run (before ++ after)).filter_non_rdma_pkt_fifo.contents
  rw [nonRoceTransfers_then_stored, hbeats] at hout
  rw [hstream]
  exact List.prefix_of_prefix_length_le ((List.take_prefix _ _).trans hout)
    (List.prefix_append _ _) (List.length_take_le _ _)

/-- The sticky error bits over whole runs: a FIFO that holds more than the
threshold has its bit set. -/
theorem pkt_filter_err_invariant (inputs : List Input) :
    (PROG_FULL_THRESH < (machine.run inputs).filter_rdma_pkt_fifo.contents.length →
      (machine.run inputs).pkt_filter_err.getLsbD 1 = true) ∧
    (PROG_FULL_THRESH < (machine.run inputs).filter_non_rdma_pkt_fifo.contents.length →
      (machine.run inputs).pkt_filter_err.getLsbD 0 = true) := by
  apply machine.free_history_induction (fun _ s =>
    (PROG_FULL_THRESH < s.filter_rdma_pkt_fifo.contents.length →
      s.pkt_filter_err.getLsbD 1 = true) ∧
    (PROG_FULL_THRESH < s.filter_non_rdma_pkt_fifo.contents.length →
      s.pkt_filter_err.getLsbD 0 = true))
  · simp [machine]
  · intro _ s i _
    have hrdma := s.filter_rdma_pkt_fifo.clock_length_le (rdmaWrite s i)
      (rdmaReadControl s i).rdma_pkt_rd_en
    have hnon := s.filter_non_rdma_pkt_fifo.clock_length_le (nonRdmaWrite s i)
      (nonrdmaReadControl s i).non_rdma_pkt_rd_en
    have hone : (rdmaWrite s i).length ≤ 1 ∧ (nonRdmaWrite s i).length ≤ 1 := by
      constructor <;> simp only [rdmaWrite, nonRdmaWrite] <;> split <;> simp
    refine ⟨fun hover => ?_, fun hover => ?_⟩
    · have hthresh : s.filter_rdma_pkt_fifo.prog_full PROG_FULL_THRESH = true := by
        simp only [machine] at hover
        simp only [Fifo.prog_full, decide_eq_true_eq]
        omega
      simp [machine, pkt_filter_err_next, hthresh]
    · have hthresh : s.filter_non_rdma_pkt_fifo.prog_full PROG_FULL_THRESH = true := by
        simp only [machine] at hover
        simp only [Fifo.prog_full, decide_eq_true_eq]
        omega
      simp [machine, pkt_filter_err_next, hthresh]

/-- In every run the beats emitted on a port are beats of that class, in order
and each at most once. -/
theorem transfers_sublist (inputs : List Input) :
    List.Sublist ((roceTransfers (machine.trace inputs)).map Prod.fst)
      ((roceStream (inPackets (machine.trace inputs)).packets).map Prod.fst) ∧
    List.Sublist (nonRoceTransfers (machine.trace inputs))
      (nonRoceStream (inPackets (machine.trace inputs)).packets) := by
  have hwriter := writer_invariant inputs
  constructor
  · rw [hwriter.roce, map_fst_label hwriter.paired]
    have hout := ((roceTransfers_initial inputs).map Prod.fst).trans (map_fst_label_initial _ _ _)
    refine hout.sublist.trans ?_
    exact List.Sublist.flatMap_right _ fun c _ =>
      (c.state.filter_rdma_pkt_fifo.accepted_initial _).sublist
  · rw [hwriter.nonRoce]
    have hout := List.prefix_append (nonRoceTransfers (machine.trace inputs))
      (machine.run inputs).filter_non_rdma_pkt_fifo.contents
    rw [nonRoceTransfers_then_stored] at hout
    refine hout.sublist.trans ?_
    exact List.Sublist.flatMap_right _ fun c _ =>
      (c.state.filter_non_rdma_pkt_fifo.accepted_initial _).sublist

/-- A discarded write finds the error bit of its FIFO already set. -/
theorem overflow_reported (inputs : List Input) : ∀ c ∈ machine.trace inputs,
    (roceOverflow c = true → c.state.pkt_filter_err.getLsbD 1 = true) ∧
    (nonRoceOverflow c = true → c.state.pkt_filter_err.getLsbD 0 = true) := by
  intro c hc
  obtain ⟨earlier, _, _, hstate⟩ := machine.mem_trace hc
  obtain ⟨hrdma, hnon⟩ := pkt_filter_err_invariant earlier
  rw [← hstate] at hrdma hnon
  have hdepth : PROG_FULL_THRESH < FIFO_WRITE_DEPTH := by decide
  constructor
  · intro hover
    simp only [roceOverflow, Bool.and_eq_true, Fifo.full_eq_true] at hover
    exact hrdma (Nat.lt_of_lt_of_le hdepth hover.2)
  · intro hover
    simp only [nonRoceOverflow, Bool.and_eq_true, Fifo.full_eq_true] at hover
    exact hnon (Nat.lt_of_lt_of_le hdepth hover.2)

/-- What overload leaves intact. A port first emits what its FIFO has stored before the
first write that finds it full. That is the stream of its class: all of it comes out, in
order, each beat once, a RoCE packet with its own metadata, and it is cut at whole packets.
In every run the emitted beats are beats of the class in order, so overload only removes
beats, and each removal is preceded by the sticky error bit of that FIFO. -/
theorem packets_whole_before_overflow (before after : List Input) :
    ((∀ c ∈ machine.trace before, roceOverflow c = false) →
      roceStored (machine.trace before) =
          (roceStream (inPackets (machine.trace before)).packets).map Prod.fst ∧
        (roceTransfers (machine.trace (before ++ after))).take
            (roceStored (machine.trace before)).length <+:
          roceStream (inPackets (machine.trace before)).packets ∧
        roceStored (machine.trace before) <+:
          (roceTransfers (machine.trace (before ++ after))).map Prod.fst ++
            (machine.run (before ++ after)).filter_rdma_pkt_fifo.contents ∧
        ∀ p ∈ (frames (fun x => x.1.tlast) ((roceTransfers (machine.trace (before ++ after))).take
            (roceStored (machine.trace before)).length)).complete,
          ∃ q ∈ (inPackets (machine.trace before)).complete, isRoce q = true ∧ p = labelled q) ∧
    ((∀ c ∈ machine.trace before, nonRoceOverflow c = false) →
      nonRoceStored (machine.trace before) =
          nonRoceStream (inPackets (machine.trace before)).packets ∧
        (nonRoceTransfers (machine.trace (before ++ after))).take
            (nonRoceStored (machine.trace before)).length <+:
          nonRoceStream (inPackets (machine.trace before)).packets ∧
        nonRoceStored (machine.trace before) <+:
          nonRoceTransfers (machine.trace (before ++ after)) ++
            (machine.run (before ++ after)).filter_non_rdma_pkt_fifo.contents ∧
        ∀ p ∈ (frames Beat.tlast ((nonRoceTransfers (machine.trace (before ++ after))).take
            (nonRoceStored (machine.trace before)).length)).complete,
          ∃ q ∈ (inPackets (machine.trace before)).complete,
            isRoce q = false ∧ p = q.map Prod.snd) ∧
    List.Sublist ((roceTransfers (machine.trace (before ++ after))).map Prod.fst)
      ((roceStream (inPackets (machine.trace (before ++ after))).packets).map Prod.fst) ∧
    List.Sublist (nonRoceTransfers (machine.trace (before ++ after)))
      (nonRoceStream (inPackets (machine.trace (before ++ after))).packets) ∧
    ∀ c ∈ machine.trace (before ++ after),
      (roceOverflow c = true → c.state.pkt_filter_err.getLsbD 1 = true) ∧
      (nonRoceOverflow c = true → c.state.pkt_filter_err.getLsbD 0 = true) := by
  obtain ⟨⟨beats, hbeats⟩, _, others, hothers⟩ := stored_append before after
  refine ⟨?_, ?_, (transfers_sublist _).1, (transfers_sublist _).2, overflow_reported _⟩
  · intro hfits
    have htake := roceTransfers_take before after hfits
    refine ⟨(roceStream_eq_stored before hfits).2, htake, ?_, ?_⟩
    · rw [roceTransfers_then_stored, hbeats]
      exact List.prefix_append _ _
    · intro p hp
      have hp := (frames_complete_initial (fun x : Beat × Option Metadata => x.1.tlast) htake).subset hp
      rw [inPackets, frames_roceStream, List.mem_map] at hp
      obtain ⟨q, hq, rfl⟩ := hp
      obtain ⟨hmem, hclass⟩ := List.mem_filter.mp hq
      exact ⟨q, hmem, hclass, rfl⟩
  · intro hfits
    have htake := nonRoceTransfers_take before after hfits
    refine ⟨(nonRoceStream_eq_stored before hfits).symm, htake, ?_, ?_⟩
    · rw [nonRoceTransfers_then_stored, hothers]
      exact List.prefix_append _ _
    · intro p hp
      have hp := (frames_complete_initial Beat.tlast htake).subset hp
      rw [inPackets, frames_nonRoceStream, List.mem_map] at hp
      obtain ⟨q, hq, rfl⟩ := hp
      obtain ⟨hmem, hclass⟩ := List.mem_filter.mp hq
      exact ⟨q, hmem, by simpa using hclass, rfl⟩

theorem nonRoceTransfers_append (first second : List (Cycle Regs Input)) :
    nonRoceTransfers (first ++ second) = nonRoceTransfers first ++ nonRoceTransfers second := by
  simp [nonRoceTransfers]

theorem nonRoceTransfers_cons (c : Cycle Regs Input) (h : List (Cycle Regs Input)) :
    nonRoceTransfers (c :: h) = (nonRoceTransfer c).toList ++ nonRoceTransfers h := by
  cases htransfer : nonRoceTransfer c <;> simp [nonRoceTransfers, htransfer]

theorem inBeats_append (first second : List (Cycle Regs Input)) :
    inBeats (first ++ second) = inBeats first ++ inBeats second := by
  simp [inBeats]

/-- With its output ready and no input, the module empties its non-RoCE FIFO. -/
theorem drain (i : Input) (hidle : i.s_axis_tvalid = false)
    (hready : i.m_axis_non_roce_tready = true) (cycles : Nat) (s : Regs)
    (h : s.filter_non_rdma_pkt_fifo.contents.length ≤ cycles) :
    nonRoceTransfers (machine.traceFrom s (List.replicate cycles i)) =
        s.filter_non_rdma_pkt_fifo.contents ∧
      ((List.replicate cycles i).foldl machine.step s).filter_non_rdma_pkt_fifo.contents = [] ∧
      ((List.replicate cycles i).foldl machine.step s).filter_state = s.filter_state ∧
      inBeats (machine.traceFrom s (List.replicate cycles i)) = [] := by
  induction cycles generalizing s with
  | zero =>
    have hempty : s.filter_non_rdma_pkt_fifo.contents = [] :=
      List.eq_nil_of_length_eq_zero (Nat.le_zero.mp h)
    simp [Machine.traceFrom, nonRoceTransfers, inBeats, hempty]
  | succ cycles ih =>
    have hwrite : writeControl s i = ⟨false, false, false, s.filter_state⟩ := by
      cases hstate : s.filter_state <;> simp [writeControl, hidle, hstate]
    have hnext : (machine.step s i).filter_non_rdma_pkt_fifo.contents =
        s.filter_non_rdma_pkt_fifo.contents.tail ∧
        (nonRoceTransfer ⟨s, i⟩) = s.filter_non_rdma_pkt_fifo.contents.head? := by
      cases hbeats : s.filter_non_rdma_pkt_fifo.contents <;>
        cases hstate : s.filter_rd_nonrdma_state <;>
          simp [machine, Fifo.clock_contents, nonRdmaWrite, hwrite, nonrdmaReadControl,
            nonRoceTransfer, m_axis_non_roce_tvalid, m_axis_non_roce, non_rdma_pkt_fifo_out,
            Fifo.empty, Fifo.dout, hready, hbeats, hstate]
    have hstate : (machine.step s i).filter_state = s.filter_state := by
      simp [machine, hwrite]
    obtain ⟨hout, hempty, hnextState, hin⟩ := ih (machine.step s i) (by
      rw [hnext.1, List.length_tail]
      omega)
    simp only [List.replicate_succ, Machine.traceFrom, List.foldl_cons]
    refine ⟨?_, hempty, hnextState.trans hstate, ?_⟩
    · rw [nonRoceTransfers_cons, hout, hnext.1, hnext.2]
      cases s.filter_non_rdma_pkt_fifo.contents <;> rfl
    · simpa [inBeats, hidle] using hin

/-- A non-RoCE beat while neither output is ready. -/
def stalled (b : Beat) : Input := ⟨0#263, true, true, b, false, false⟩

/-- No input while both outputs are ready. -/
def quiet : Input := ⟨0#263, false, false, Beat.zero, true, true⟩

theorem inBeats_cons_stalled (s : Regs) (b : Beat) (h : List (Cycle Regs Input)) :
    inBeats (⟨s, stalled b⟩ :: h) = (0#263, b) :: inBeats h := by
  simp [inBeats, stalled, s_axis_tready]

theorem stalled_step (s : Regs) (b : Beat) (hstate : s.filter_state ≠ .FILTER_WR_ROCE) :
    (machine.step s (stalled b)).filter_state =
        (if b.tlast then .FILTER_IDLE else .FILTER_WR_NONROCE) ∧
      (machine.step s (stalled b)).filter_non_rdma_pkt_fifo.contents =
        s.filter_non_rdma_pkt_fifo.contents ++ s.filter_non_rdma_pkt_fifo.accepted [b] ∧
      nonRoceTransfer ⟨s, stalled b⟩ = none := by
  have hwrite : writeControl s (stalled b) =
      ⟨false, false, true, if b.tlast then .FILTER_IDLE else .FILTER_WR_NONROCE⟩ := by
    cases hcase : s.filter_state <;> cases hlast : b.tlast <;>
      simp_all [writeControl, stalled, metadata_is_rdma]
  have hread : (nonrdmaReadControl s (stalled b)).non_rdma_pkt_rd_en = false := by
    cases hcase : s.filter_rd_nonrdma_state <;> simp [nonrdmaReadControl, stalled, hcase]
  refine ⟨by simp [machine, hwrite], ?_, by simp [nonRoceTransfer, m_axis_non_roce_tvalid, hread]⟩
  simp only [machine, Fifo.clock_contents, nonRdmaWrite, hwrite, hread, if_true, Fifo.kept_false]
  rfl

/-- Single-beat packets fill the non-RoCE FIFO while its port is stalled. -/
theorem fill (b : Beat) (hlast : b.tlast = true) (cycles : Nat) (h : cycles ≤ FIFO_WRITE_DEPTH) :
    (machine.run (List.replicate cycles (stalled b))).filter_state = .FILTER_IDLE ∧
      (machine.run (List.replicate cycles (stalled b))).filter_non_rdma_pkt_fifo.contents =
        List.replicate cycles b ∧
      nonRoceTransfers (machine.trace (List.replicate cycles (stalled b))) = [] ∧
      inBeats (machine.trace (List.replicate cycles (stalled b))) =
        List.replicate cycles (0#263, b) := by
  induction cycles with
  | zero => exact ⟨rfl, rfl, rfl, rfl⟩
  | succ cycles ih =>
    obtain ⟨hstate, hbeats, hout, hin⟩ := ih (by omega)
    rw [List.replicate_succ', machine.run_snoc, machine.trace_snoc]
    generalize machine.run (List.replicate cycles (stalled b)) = s at hstate hbeats ⊢
    generalize machine.trace (List.replicate cycles (stalled b)) = before at hout hin ⊢
    have hroom : s.filter_non_rdma_pkt_fifo.contents.length < FIFO_WRITE_DEPTH := by
      rw [hbeats, List.length_replicate]
      omega
    obtain ⟨hnext, hpush, htransfer⟩ := stalled_step s b (by simp [hstate])
    refine ⟨by simp [hnext, hlast], ?_, ?_, ?_⟩
    · rw [hpush, Fifo.accepted_of_not_full _ hroom, hbeats, List.replicate_succ']
    · simpa [nonRoceTransfers, htransfer] using hout
    · simpa [inBeats, stalled, s_axis_tready, List.replicate_succ'] using hin

private theorem frames_replicate {α : Type} (last : α → Bool) (a : α) (ha : last a = true)
    (n : Nat) : frames last (List.replicate n a) = ⟨List.replicate n [a], []⟩ := by
  induction n with
  | zero => rfl
  | succ n ih => simp [List.replicate_succ', ih, Frames.push, ha]

def single : Beat := ⟨0, 0, 0, true⟩

def opening : Beat := ⟨1, 0, 0, false⟩

def closing : Beat := ⟨2, 0, 0, true⟩

/-- The non-RoCE port stalls while 511 single-beat packets and a packet of two
beats arrive. The second beat of the last packet meets the full FIFO. Then the
port recovers and one more packet arrives. -/
def overloadRun : List Input :=
  List.replicate (FIFO_WRITE_DEPTH - 1) (stalled single) ++
    ([stalled opening, stalled closing] ++
      (List.replicate FIFO_WRITE_DEPTH quiet ++
        ([stalled single] ++ List.replicate FIFO_WRITE_DEPTH quiet)))

/-- The beats emitted and accepted in the overload run. -/
theorem overloadRun_streams :
    nonRoceTransfers (machine.trace overloadRun) =
        List.replicate (FIFO_WRITE_DEPTH - 1) single ++ [opening] ++ [single] ∧
      inBeats (machine.trace overloadRun) = List.replicate (FIFO_WRITE_DEPTH - 1) (0#263, single) ++
        [(0#263, opening), (0#263, closing), (0#263, single)] := by
  obtain ⟨hstate₁, hbeats₁, hout₁, hin₁⟩ := fill single rfl (FIFO_WRITE_DEPTH - 1) (by decide)
  rw [overloadRun, machine.trace_append, machine.traceFrom_append, machine.traceFrom_append,
    machine.traceFrom_append]
  generalize machine.run (List.replicate (FIFO_WRITE_DEPTH - 1) (stalled single)) = s₁
    at hstate₁ hbeats₁ ⊢
  generalize machine.trace (List.replicate (FIFO_WRITE_DEPTH - 1) (stalled single)) = filling
    at hout₁ hin₁ ⊢
  -- the first beat of the packet of two takes the last place, the second is discarded
  obtain ⟨hstate₂, hbeats₂, hnone₂⟩ := stalled_step s₁ opening (by simp [hstate₁])
  have hroom : s₁.filter_non_rdma_pkt_fifo.contents.length < FIFO_WRITE_DEPTH := by
    rw [hbeats₁, List.length_replicate]
    decide
  rw [Fifo.accepted_of_not_full _ hroom, hbeats₁] at hbeats₂
  generalize hs₂ : machine.step s₁ (stalled opening) = s₂ at hstate₂ hbeats₂
  obtain ⟨hstate₃, hbeats₃, hnone₃⟩ := stalled_step s₂ closing (by simp [hstate₂, opening])
  have hfull : FIFO_WRITE_DEPTH ≤ s₂.filter_non_rdma_pkt_fifo.contents.length := by
    rw [hbeats₂, List.length_append, List.length_replicate]
    decide
  rw [Fifo.accepted_of_full _ hfull, hbeats₂, List.append_nil] at hbeats₃
  generalize hs₃ : machine.step s₂ (stalled closing) = s₃ at hstate₃ hbeats₃
  -- the port recovers
  obtain ⟨hout₄, hbeats₄, hstate₄, hin₄⟩ := drain quiet rfl rfl FIFO_WRITE_DEPTH s₃ (by
    rw [hbeats₃, List.length_append, List.length_replicate]
    decide)
  generalize hs₄ : (List.replicate FIFO_WRITE_DEPTH quiet).foldl machine.step s₃ = s₄ at hbeats₄ hstate₄
  -- one more packet
  obtain ⟨hstate₅, hbeats₅, hnone₅⟩ := stalled_step s₄ single (by
    simp [hstate₄, hstate₃, closing])
  have hempty : s₄.filter_non_rdma_pkt_fifo.contents.length < FIFO_WRITE_DEPTH := by
    rw [hbeats₄]
    decide
  rw [Fifo.accepted_of_not_full _ hempty, hbeats₄] at hbeats₅
  generalize hs₅ : machine.step s₄ (stalled single) = s₅ at hstate₅ hbeats₅
  obtain ⟨hout₆, _, _, hin₆⟩ := drain quiet rfl rfl FIFO_WRITE_DEPTH s₅ (by
    rw [hbeats₅]
    decide)
  simp only [Machine.traceFrom, List.foldl_cons, List.foldl_nil, hs₂, hs₃, hs₄, hs₅]
  constructor
  · simp only [nonRoceTransfers_append, nonRoceTransfers_cons, hnone₂, hnone₃, hnone₅, hout₁, hout₄,
      hout₆, hbeats₃, hbeats₅]
    simp [nonRoceTransfers]
  · simp only [inBeats_append, inBeats_cons_stalled, hin₁, hin₄, hin₆]
    simp [inBeats]

/-- Drops are not packet-atomic: after the overload run the port has emitted a
packet that begins with the packet whose end was discarded and ends with the
next packet. -/
theorem drops_not_atomic : ¬ ∀ inputs, DropsAtomic (machine.trace inputs) := by
  intro hall
  obtain ⟨hout, hin⟩ := overloadRun_streams
  have hfused : (frames Beat.tlast (nonRoceTransfers (machine.trace overloadRun))).complete =
      List.replicate (FIFO_WRITE_DEPTH - 1) [single] ++ [[opening, single]] := by
    rw [hout, frames_snoc, frames_snoc, frames_replicate _ _ rfl]
    rfl
  have hpackets : (inPackets (machine.trace overloadRun)).complete =
      List.replicate (FIFO_WRITE_DEPTH - 1) [(0#263, single)] ++
        [[(0#263, opening), (0#263, closing)], [(0#263, single)]] := by
    rw [inPackets, hin, frames, List.foldl_append, ← frames, frames_replicate _ _ rfl]
    simp [Frames.push, opening, closing, single]
  obtain ⟨q, hq, _, heq⟩ := (hall overloadRun).2 [opening, single] (by simp [hfused])
  rw [hpackets, List.mem_append, List.mem_replicate] at hq
  obtain ⟨_, rfl⟩ | hq := hq
  · simp at heq
  · simp only [List.mem_cons, List.not_mem_nil, or_false] at hq
    obtain rfl | rfl := hq
    · simp [single, closing] at heq
    · simp at heq

end reconic.packet_filter
