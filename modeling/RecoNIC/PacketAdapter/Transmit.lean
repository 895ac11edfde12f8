import RecoNIC.PacketAdapter.Model
import RecoNIC.Clocked.Flow
import RecoNIC.Clocked.Frames

open clocked

namespace reconic.packet_adapter_tx

/-- A beat in the slice, with its bytes in the register beside it. -/
def ShellBeat.cut (b : ShellBeat) : SliceBeat × BitVec 64 :=
  (⟨b.tdata, b.tlast, b.tuser_size, b.tuser_src, b.tuser_dst⟩, b.cut_tkeep)

/-- The beat without what is for the adapter only. -/
def for_fifo (b : SliceBeat × BitVec 64) : FifoBeat := ⟨b.1.tdata, b.2, b.1.tlast⟩

/-- The destination of a packet is that of its first beat. -/
def to_port (CMAC_ID : Nat) (p : List (SliceBeat × BitVec 64)) : Bool :=
  p.head?.any fun b => decide (b.1.tuser_dst &&& (1#16 <<< (CMAC_ID + 6)) ≠ 0)

/-- The size of a packet is that of its last beat. -/
def size_of (p : List (SliceBeat × BitVec 64)) : BitVec 16 :=
  (p.getLast?.map fun b => b.1.tuser_size).getD 0

section Transmit

/-- The beats that the shell has handed over. -/
def taken (h : List (Cycle Regs Input)) : List ShellBeat :=
  h.flatMap fun c =>
    if c.input.s_axis_tx_tvalid && s_axis_tx_tready c.state c.input then [c.input.s_axis_tx] else []

/-- The beats that have left the slice. -/
def passed (h : List (Cycle Regs Input)) : List (SliceBeat × BitVec 64) :=
  h.flatMap fun c =>
    if c.state.slice.filled && c.input.axis_tx_tready then
      [(c.state.slice.axis, c.state.axis_tx_tkeep)]
    else []

def held (s : Regs) : List (SliceBeat × BitVec 64) := s.slice.held.map fun b => (b, s.axis_tx_tkeep)

def shell_frames (h : List (Cycle Regs Input)) : Frames (SliceBeat × BitVec 64) :=
  frames (fun b => b.1.tlast) (passed h)

variable (CMAC_ID : Nat)

/-- The beats that have been written to the packet FIFO. -/
def written (h : List (Cycle Regs Input)) : List FifoBeat :=
  h.flatMap fun c =>
    if fifo_tvalid CMAC_ID c.state c.input && c.input.axis_tx_tready then [fifo_beat c.state] else []

/-- The sizes that are reported with `tx_pkt_sent`. -/
def sent_sizes (h : List (Cycle Regs Input)) : List (BitVec 16) :=
  h.flatMap fun c => if tx_pkt_sent CMAC_ID c.state c.input then [tx_bytes c.state] else []

/-- The sizes that are reported with `tx_pkt_drop`. -/
def drop_sizes (h : List (Cycle Regs Input)) : List (BitVec 16) :=
  h.flatMap fun c => if tx_pkt_drop CMAC_ID c.state c.input then [tx_bytes c.state] else []

/-- The bytes of a beat stay beside it. -/
theorem passed_held (inputs : List Input) :
    let m := machine CMAC_ID
    passed (m.trace inputs) ++ held (m.run inputs) = (taken (m.trace inputs)).map ShellBeat.cut := by
  intro m
  rw [taken, List.map_flatMap]
  refine m.flow_law held _ _ (fun _ => True) trivial rfl (fun s i _ => ⟨trivial, ?_⟩) inputs
  obtain ⟨⟨axis, filled⟩, tkeep, started, more⟩ := s
  obtain ⟨tvalid, beat, tready⟩ := i
  cases filled <;> cases tvalid <;> cases tready <;>
    simp [held, m, machine, step, axi_stream_register_slice.ForwardRegs.held,
      axi_stream_register_slice.ForwardRegs.step, slice_pins, s_axis_tx_tready,
      axi_stream_register_slice.ForwardRegs.s_axis_tready, ShellBeat.cut]

theorem shell_frames_snoc (h : List (Cycle Regs Input)) (s : Regs) (i : Input) :
    shell_frames (h ++ [⟨s, i⟩]) =
      if s.slice.filled && i.axis_tx_tready then
        (shell_frames h).push (fun b => b.1.tlast) (s.slice.axis, s.axis_tx_tkeep)
      else shell_frames h := by
  have hpassed : passed (h ++ [⟨s, i⟩]) = passed h ++
      if s.slice.filled && i.axis_tx_tready then [(s.slice.axis, s.axis_tx_tkeep)] else [] := by
    simp [passed]
  rw [shell_frames, hpassed]
  split
  · rw [frames_snoc]
    rfl
  · rw [List.append_nil]
    rfl

/-- What the adapter knows of the packet that goes through it, and what it has made of the packets
so far. -/
structure Follows (h : List (Cycle Regs Input)) (s : Regs) : Prop where
  started : s.pkt_started = !(shell_frames h).current.isEmpty
  more : s.dropping_more = (!(shell_frames h).current.isEmpty &&
    !to_port CMAC_ID (shell_frames h).current)
  writes : written CMAC_ID h =
    (((shell_frames h).packets.filter (to_port CMAC_ID)).flatten).map for_fifo
  sends : sent_sizes CMAC_ID h = ((shell_frames h).complete.filter (to_port CMAC_ID)).map size_of
  drops : drop_sizes CMAC_ID h =
    ((shell_frames h).complete.filter fun p => !to_port CMAC_ID p).map size_of

variable {CMAC_ID}

theorem to_port_snoc (p : List (SliceBeat × BitVec 64)) (s : Regs) :
    to_port CMAC_ID (p ++ [(s.slice.axis, s.axis_tx_tkeep)]) =
      if p.isEmpty then !bad_dst CMAC_ID s else to_port CMAC_ID p := by
  cases p with
  | nil => simp [to_port, bad_dst]
  | cons b p => rfl

theorem size_of_snoc (p : List (SliceBeat × BitVec 64)) (b : SliceBeat × BitVec 64) :
    size_of (p ++ [b]) = b.1.tuser_size := by
  simp [size_of]

/-- The beats of a packet that goes on are written as long as it is for the port. -/
theorem filter_packets_push (f : Frames (SliceBeat × BitVec 64)) (s : Regs) :
    ((f.push (fun b => b.1.tlast) (s.slice.axis, s.axis_tx_tkeep)).packets.filter
        (to_port CMAC_ID)).flatten =
      (f.packets.filter (to_port CMAC_ID)).flatten ++
        if to_port CMAC_ID (f.current ++ [(s.slice.axis, s.axis_tx_tkeep)]) then
          [(s.slice.axis, s.axis_tx_tkeep)]
        else [] := by
  rw [Frames.packets_push, List.filter_append, List.flatten_append]
  by_cases hcurrent : f.current = []
  · rw [Frames.packets_of_boundary hcurrent, hcurrent, List.nil_append]
    cases hport : to_port CMAC_ID [(s.slice.axis, s.axis_tx_tkeep)] <;> simp [hport]
  · rw [Frames.packets_of_inside hcurrent, List.filter_append, List.flatten_append, List.append_assoc]
    have hsame : to_port CMAC_ID (f.current ++ [(s.slice.axis, s.axis_tx_tkeep)]) =
        to_port CMAC_ID f.current := by
      rw [to_port_snoc, if_neg (by simpa using hcurrent)]
    cases hport : to_port CMAC_ID f.current <;> simp [hsame, hport]

/-- A beat that leaves the slice is dropped when its packet is not for the port. -/
theorem Follows.dropping_eq {h : List (Cycle Regs Input)} {s : Regs} (hf : Follows CMAC_ID h s)
    {i : Input} (hfilled : s.slice.filled = true) (hready : i.axis_tx_tready = true) :
    dropping CMAC_ID s i =
      !to_port CMAC_ID ((shell_frames h).current ++ [(s.slice.axis, s.axis_tx_tkeep)]) := by
  rw [to_port_snoc, dropping, hf.started, hf.more, hfilled, hready]
  cases (shell_frames h).current.isEmpty <;> simp

/-- A cycle in which no beat leaves the slice. -/
theorem Follows.stays {h : List (Cycle Regs Input)} {s : Regs} (hf : Follows CMAC_ID h s) {i : Input}
    (hstays : (s.slice.filled && i.axis_tx_tready) = false) :
    Follows CMAC_ID (h ++ [⟨s, i⟩]) (step CMAC_ID s i) := by
  have hframes := shell_frames_snoc h s i
  rw [hstays, if_neg Bool.false_ne_true] at hframes
  refine ⟨?_, ?_, ?_, ?_, ?_⟩ <;> rw [hframes]
  · rw [← hf.started]
    rcases Bool.and_eq_false_iff.mp hstays with hnone | hnone <;> simp [step, hnone]
  · rw [← hf.more]
    rcases Bool.and_eq_false_iff.mp hstays with hnone | hnone <;> simp [step, hnone]
  · rw [← hf.writes]
    rcases Bool.and_eq_false_iff.mp hstays with hnone | hnone <;> simp [written, fifo_tvalid, hnone]
  · rw [← hf.sends]
    rcases Bool.and_eq_false_iff.mp hstays with hnone | hnone <;> simp [sent_sizes, tx_pkt_sent, hnone]
  · rw [← hf.drops]
    rcases Bool.and_eq_false_iff.mp hstays with hnone | hnone <;> simp [drop_sizes, tx_pkt_drop, hnone]

/-- A cycle in which a beat leaves the slice. -/
theorem Follows.passes {h : List (Cycle Regs Input)} {s : Regs} (hf : Follows CMAC_ID h s) {i : Input}
    (hfilled : s.slice.filled = true) (hready : i.axis_tx_tready = true) :
    Follows CMAC_ID (h ++ [⟨s, i⟩]) (step CMAC_ID s i) := by
  have hframes := shell_frames_snoc h s i
  rw [hfilled, hready, Bool.and_true, if_pos rfl] at hframes
  have hdropping := hf.dropping_eq hfilled hready
  have hport := @to_port_snoc CMAC_ID (shell_frames h).current s
  refine ⟨?_, ?_, ?_, ?_, ?_⟩
  · rw [hframes, Frames.push]
    cases hlast : s.slice.axis.tlast <;> cases hcurrent : (shell_frames h).current <;>
      simp [step, hfilled, hready, hlast, hf.started, hcurrent]
  · rw [hframes, Frames.push]
    cases hlast : s.slice.axis.tlast <;>
      cases hempty : (shell_frames h).current.isEmpty <;>
        simp [step, hfilled, hready, hlast, hf.started, hf.more, hempty, hport]
  · have hsnoc : written CMAC_ID (h ++ [⟨s, i⟩]) =
        written CMAC_ID h ++ if dropping CMAC_ID s i then [] else [fifo_beat s] := by
      cases hdrop : dropping CMAC_ID s i <;> simp [written, fifo_tvalid, hfilled, hready, hdrop]
    rw [hsnoc, hframes, filter_packets_push, List.map_append, ← hf.writes, hdropping]
    cases to_port CMAC_ID ((shell_frames h).current ++ [(s.slice.axis, s.axis_tx_tkeep)]) <;> rfl
  · have hsnoc : sent_sizes CMAC_ID (h ++ [⟨s, i⟩]) = sent_sizes CMAC_ID h ++
        if s.slice.axis.tlast && !dropping CMAC_ID s i then [tx_bytes s] else [] := by
      simp [sent_sizes, tx_pkt_sent, hfilled, hready]
    rw [hsnoc, hframes, hdropping, hf.sends, Frames.push]
    cases hlast : s.slice.axis.tlast with
    | false => simp
    | true =>
      cases hto : to_port CMAC_ID ((shell_frames h).current ++ [(s.slice.axis, s.axis_tx_tkeep)]) <;>
        simp [hto, size_of_snoc, tx_bytes]
  · have hsnoc : drop_sizes CMAC_ID (h ++ [⟨s, i⟩]) = drop_sizes CMAC_ID h ++
        if s.slice.axis.tlast && dropping CMAC_ID s i then [tx_bytes s] else [] := by
      simp [drop_sizes, tx_pkt_drop, hfilled, hready]
    rw [hsnoc, hframes, hdropping, hf.drops, Frames.push]
    cases hlast : s.slice.axis.tlast with
    | false => simp
    | true =>
      cases hto : to_port CMAC_ID ((shell_frames h).current ++ [(s.slice.axis, s.axis_tx_tkeep)]) <;>
        simp [hto, size_of_snoc, tx_bytes]

theorem run_follows (inputs : List Input) :
    Follows CMAC_ID ((machine CMAC_ID).trace inputs) ((machine CMAC_ID).run inputs) := by
  refine (machine CMAC_ID).free_history_induction (Follows CMAC_ID) ⟨rfl, rfl, rfl, rfl, rfl⟩
    (fun h s i hf => ?_) inputs
  cases hpasses : s.slice.filled && i.axis_tx_tready with
  | false => exact hf.stays hpasses
  | true =>
    rw [Bool.and_eq_true] at hpasses
    exact hf.passes hpasses.1 hpasses.2

variable (CMAC_ID)

/-- The packets from the shell whose first beat has this port among its destinations go to the packet
FIFO, whole and in order and with their last beats cut to size, and nothing of the others does. Each
packet is counted once with its size, as sent or as dropped. -/
theorem packets_for_port (inputs : List Input) :
    let m := machine CMAC_ID
    let h := m.trace inputs
    let f := shell_frames h
    passed h ++ held (m.run inputs) = (taken h).map ShellBeat.cut ∧
      written CMAC_ID h = ((f.packets.filter (to_port CMAC_ID)).flatten).map for_fifo ∧
      sent_sizes CMAC_ID h = (f.complete.filter (to_port CMAC_ID)).map size_of ∧
      drop_sizes CMAC_ID h = (f.complete.filter fun p => !to_port CMAC_ID p).map size_of := by
  intro m h f
  have hf : Follows CMAC_ID h (m.run inputs) := run_follows inputs
  exact ⟨passed_held CMAC_ID inputs, hf.writes, hf.sends, hf.drops⟩

end Transmit

end reconic.packet_adapter_tx
