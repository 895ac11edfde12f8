import RecoNIC.Clocked.Fifo
import RecoNIC.Clocked.Frames
import RecoNIC.PacketParser.Headers

open clocked
open reconic.packet_parser (PcMetadata)

namespace reconic.top.receive

def FIFO_WRITE_DEPTH : Nat := 512

/-- The 263 bits of the metadata, as the sum of the widths of its fields. -/
abbrev Metadata := BitVec (32 + 32 + 32 + 16 + 16 + 5 + 16 + 32 + 32 + 1 + 24 + 24 + 1)

/-- The pins of the stream into the packet classifier that carry a beat. -/
structure AxisBeat where
  tdata : BitVec 512
  tkeep : BitVec 64
  tlast : Bool
  deriving DecidableEq

/-- A beat from the MAC, as it is buffered. The index is there in a `DEBUG` build only. -/
structure RxBeat extends AxisBeat where
  tuser_size : BitVec 16
  tuser_idx : BitVec 32
  deriving DecidableEq

structure Input where
  s_axis_cmac_rx_tvalid : Bool
  s_axis_cmac_rx : RxBeat
  pc_in_tready : Bool

structure Regs where
  buffer_mac_rx_data : Fifo RxBeat FIFO_WRITE_DEPTH
  set_pc_in_metadata_valid_low : Bool

def s_axis_cmac_rx_tready (s : Regs) : Bool := !s.buffer_mac_rx_data.full

def wr_en (s : Regs) (i : Input) : Bool := s_axis_cmac_rx_tready s && i.s_axis_cmac_rx_tvalid

def rd_en (s : Regs) (i : Input) : Bool := i.pc_in_tready && !s.buffer_mac_rx_data.empty

/-- The output pins of the buffer. -/
def buffer_out (s : Regs) : RxBeat := s.buffer_mac_rx_data.dout.getD ⟨⟨0, 0, false⟩, 0, 0⟩

def pc_in_tvalid (s : Regs) (i : Input) : Bool := rd_en s i

def pc_in (s : Regs) (i : Input) : AxisBeat :=
  if rd_en s i then (buffer_out s).toAxisBeat else ⟨0, 0, false⟩

/-- The metadata given to the classifier. `DEBUG` is the build's macro. -/
def pc_in_metadata (DEBUG : Bool) (s : Regs) : Metadata :=
  let pc_in_index : BitVec 32 := if DEBUG then (buffer_out s).tuser_idx else 0#32
  let pc_in_ip_src := 0#32
  let pc_in_ip_dst := 0#32
  let pc_in_udp_sport := 0#16
  let pc_in_udp_dport := 0#16
  let pc_in_opcode := 0#5
  let pc_in_pktlen := (buffer_out s).tuser_size
  let pc_in_dma_length := 0#32
  let pc_in_r_key := 0#32
  let pc_in_se := 0#1
  let pc_in_psn := 0#24
  let pc_in_msn := 0#24
  let pc_in_is_rdma := 0#1
  pc_in_index ++ pc_in_ip_src ++ pc_in_ip_dst ++ pc_in_udp_sport ++ pc_in_udp_dport ++
    pc_in_opcode ++ pc_in_pktlen ++ pc_in_dma_length ++ pc_in_r_key ++ pc_in_se ++ pc_in_psn ++
    pc_in_msn ++ pc_in_is_rdma

def pc_in_metadata_valid (s : Regs) (i : Input) : Bool :=
  pc_in_tvalid s i && i.pc_in_tready && s.set_pc_in_metadata_valid_low

/-- The fields of the metadata, at the bits where the shell takes them out again. -/
def metadata_fields (metadata : Metadata) : PcMetadata where
  index := metadata.extractLsb 262 231
  ip_src := metadata.extractLsb 230 199
  ip_dst := metadata.extractLsb 198 167
  udp_sport := metadata.extractLsb 166 151
  udp_dport := metadata.extractLsb 150 135
  opcode := metadata.extractLsb 134 130
  pktlen := metadata.extractLsb 129 114
  dma_length := metadata.extractLsb 113 82
  r_key := metadata.extractLsb 81 50
  se := metadata.extractLsb 49 49
  psn := metadata.extractLsb 48 25
  msn := metadata.extractLsb 24 1
  is_rdma := metadata.extractLsb 0 0

/-- A beat goes over to the classifier. -/
def pc_in_transfer (s : Regs) (i : Input) : Bool := pc_in_tvalid s i && i.pc_in_tready

def step (s : Regs) (i : Input) : Regs where
  buffer_mac_rx_data :=
    s.buffer_mac_rx_data.clock (if wr_en s i then [i.s_axis_cmac_rx] else []) (rd_en s i)
  set_pc_in_metadata_valid_low :=
    if pc_in_transfer s i then (pc_in s i).tlast else s.set_pc_in_metadata_valid_low

def machine : Machine Regs Input where
  reset := { buffer_mac_rx_data := Fifo.clear RxBeat FIFO_WRITE_DEPTH
             set_pc_in_metadata_valid_low := true }
  step := step

/-- The beats that the MAC has handed over, in order. -/
def accepted (h : List (Cycle Regs Input)) : List RxBeat :=
  h.flatMap fun c => if wr_en c.state c.input then [c.input.s_axis_cmac_rx] else []

/-- The beats that the classifier has taken, in order. -/
def transferred (h : List (Cycle Regs Input)) : List AxisBeat :=
  h.flatMap fun c => if pc_in_transfer c.state c.input then [pc_in c.state c.input] else []

/-- Metadata of a packet before it is parsed. -/
def unparsed (index : BitVec 32) (pktlen : BitVec 16) : PcMetadata where
  index := index
  ip_src := 0
  ip_dst := 0
  udp_sport := 0
  udp_dport := 0
  opcode := 0
  pktlen := pktlen
  dma_length := 0
  r_key := 0
  se := 0
  psn := 0
  msn := 0
  is_rdma := 0

theorem metadata_fields_pc_in (DEBUG : Bool) (s : Regs) :
    metadata_fields (pc_in_metadata DEBUG s) =
      unparsed (if DEBUG then (buffer_out s).tuser_idx else 0) (buffer_out s).tuser_size := by
  simp only [metadata_fields, unparsed, pc_in_metadata, BitVec.extractLsb]
  simp (disch := decide) only [BitVec.extractLsb'_append_eq_of_le,
    BitVec.extractLsb'_append_eq_of_add_le]
  simp

theorem pc_in_transfer_eq (s : Regs) (i : Input) : pc_in_transfer s i = rd_en s i := by
  cases hready : i.pc_in_tready <;> simp [pc_in_transfer, pc_in_tvalid, rd_en, hready]

/-- A transfer takes the word on the output pins of the buffer. -/
theorem contents_of_transfer {s : Regs} {i : Input} (htransfer : pc_in_transfer s i = true) :
    s.buffer_mac_rx_data.contents = buffer_out s :: s.buffer_mac_rx_data.contents.tail := by
  rw [pc_in_transfer_eq, rd_en, Bool.and_eq_true, Bool.not_eq_true', Fifo.empty_eq_false] at htransfer
  cases hcontents : s.buffer_mac_rx_data.contents with
  | nil => exact absurd hcontents htransfer.2
  | cons beat rest => simp [buffer_out, Fifo.dout, hcontents]

theorem pc_in_of_transfer {s : Regs} {i : Input} (htransfer : pc_in_transfer s i = true) :
    pc_in s i = (buffer_out s).toAxisBeat := by
  rw [pc_in, ← pc_in_transfer_eq, htransfer, if_pos rfl]

/-- The beats as they leave the buffer, with their sizes. -/
def taken (h : List (Cycle Regs Input)) : List RxBeat :=
  h.flatMap fun c => if pc_in_transfer c.state c.input then [buffer_out c.state] else []

theorem popped_eq (s : Regs) (i : Input) :
    s.buffer_mac_rx_data.popped (rd_en s i) =
      if pc_in_transfer s i then [buffer_out s] else [] := by
  cases htransfer : pc_in_transfer s i with
  | false =>
    rw [← pc_in_transfer_eq, htransfer]
    rfl
  | true =>
    rw [← pc_in_transfer_eq, htransfer, Fifo.popped, if_pos rfl, contents_of_transfer htransfer]
    rfl

/-- The buffer is never written when it is full. -/
theorem accepted_eq (s : Regs) (i : Input) :
    s.buffer_mac_rx_data.accepted (if wr_en s i then [i.s_axis_cmac_rx] else []) =
      if wr_en s i then [i.s_axis_cmac_rx] else [] := by
  by_cases hwrite : wr_en s i = true
  · rw [if_pos hwrite]
    rw [wr_en, s_axis_cmac_rx_tready, Bool.and_eq_true, Bool.not_eq_true', Fifo.full_eq_false] at hwrite
    exact Fifo.accepted_of_not_full _ hwrite.1
  · rw [if_neg hwrite, Fifo.accepted_nil]

/-- What has been taken, followed by what is buffered, is what has been accepted. -/
theorem taken_buffered (inputs : List Input) :
    taken (machine.trace inputs) ++ (machine.run inputs).buffer_mac_rx_data.contents =
      accepted (machine.trace inputs) := by
  have hlaw := Fifo.stream_law machine (fun s => s.buffer_mac_rx_data)
    (fun c => if wr_en c.state c.input then [c.input.s_axis_cmac_rx] else [])
    (fun c => rd_en c.state c.input) rfl (fun _ _ => rfl) inputs
  simp only [popped_eq, accepted_eq] at hlaw
  exact hlaw

theorem transferred_eq (h : List (Cycle Regs Input)) :
    transferred h = (taken h).map RxBeat.toAxisBeat := by
  rw [transferred, taken, List.map_flatMap]
  apply List.flatMap_congr
  intro c _
  by_cases htransfer : pc_in_transfer c.state c.input = true
  · rw [if_pos htransfer, if_pos htransfer, pc_in_of_transfer htransfer]
    rfl
  · rw [if_neg htransfer, if_neg htransfer]
    rfl

/-- The flag is up exactly when the classifier has taken whole packets. -/
theorem set_pc_in_metadata_valid_low_eq (inputs : List Input) :
    (machine.run inputs).set_pc_in_metadata_valid_low =
      !midAfter AxisBeat.tlast false (transferred (machine.trace inputs)) := by
  apply machine.free_history_induction fun h s =>
    s.set_pc_in_metadata_valid_low = !midAfter AxisBeat.tlast false (transferred h)
  · rfl
  · intro h s i ih
    rw [transferred, List.flatMap_append, List.flatMap_singleton, ← transferred]
    by_cases htransfer : pc_in_transfer s i = true
    · rw [if_pos htransfer, midAfter_snoc, Bool.not_not]
      exact if_pos htransfer
    · rw [if_neg htransfer, List.append_nil, ← ih]
      exact if_neg htransfer

/-- In every run the classifier gets the accepted beats in order and the rest of them is buffered,
the metadata are valid exactly when the first beat of a packet goes over, and they then carry the
size that the MAC gave with this beat and nothing that the parser fills. -/
theorem receive_front_end (DEBUG : Bool) (inputs : List Input) (i : Input) :
    transferred (machine.trace inputs) <+:
        (accepted (machine.trace inputs)).map RxBeat.toAxisBeat ∧
      transferred (machine.trace inputs) ++
          (machine.run inputs).buffer_mac_rx_data.contents.map RxBeat.toAxisBeat =
        (accepted (machine.trace inputs)).map RxBeat.toAxisBeat ∧
      (pc_in_metadata_valid (machine.run inputs) i = true ↔
        pc_in_transfer (machine.run inputs) i = true ∧
          midAfter AxisBeat.tlast false (transferred (machine.trace inputs)) = false) ∧
      (pc_in_metadata_valid (machine.run inputs) i = true →
        ∃ beat, (accepted (machine.trace inputs))[(transferred (machine.trace inputs)).length]? =
            some beat ∧
          pc_in (machine.run inputs) i = beat.toAxisBeat ∧
          metadata_fields (pc_in_metadata DEBUG (machine.run inputs)) =
            unparsed (if DEBUG then beat.tuser_idx else 0) beat.tuser_size) := by
  have hstream := taken_buffered inputs
  have hvalid : pc_in_metadata_valid (machine.run inputs) i =
      (pc_in_transfer (machine.run inputs) i &&
        (machine.run inputs).set_pc_in_metadata_valid_low) := rfl
  have hconserved : transferred (machine.trace inputs) ++
        (machine.run inputs).buffer_mac_rx_data.contents.map RxBeat.toAxisBeat =
      (accepted (machine.trace inputs)).map RxBeat.toAxisBeat := by
    rw [transferred_eq, ← hstream, List.map_append]
  refine ⟨?_, hconserved, ?_, ?_⟩
  · rw [← hconserved]
    exact List.prefix_append ..
  · rw [hvalid, set_pc_in_metadata_valid_low_eq, Bool.and_eq_true, Bool.not_eq_true']
  · intro hfirst
    rw [hvalid, Bool.and_eq_true] at hfirst
    refine ⟨buffer_out (machine.run inputs), ?_, pc_in_of_transfer hfirst.1,
      metadata_fields_pc_in DEBUG _⟩
    rw [transferred_eq, List.length_map, ← hstream, contents_of_transfer hfirst.1]
    rw [List.getElem?_append_right (Nat.le_refl _), Nat.sub_self, List.getElem?_cons_zero]

end reconic.top.receive
