import RecoNIC.Clocked.Fifo
import RecoNIC.Clocked.Frames

open clocked

namespace reconic.axi_stream_size_counter

/-- The registers of a counter for beats of 64 bytes. -/
structure Regs where
  acc : BitVec 16
  size_valid : Bool
  size : BitVec 16

structure Input where
  p_axis_tvalid : Bool
  p_axis_tkeep : BitVec 64
  p_axis_tlast : Bool
  p_axis_tuser_mty : BitVec 6
  p_axis_tready : Bool

def C_SIZE : BitVec 16 := 64

def reset : Regs := ⟨0, false, 0⟩

/-- The loop over `p_axis_tkeep` stops at its first bit that is zero. -/
def first_empty (p_axis_tkeep : BitVec 64) : Option Nat :=
  (List.range 64).find? fun i => !p_axis_tkeep.getLsbD i

def step (s : Regs) (i : Input) : Regs where
  acc :=
    if i.p_axis_tvalid && i.p_axis_tready then (if i.p_axis_tlast then 0 else s.acc + C_SIZE)
    else s.acc
  size_valid := i.p_axis_tvalid && i.p_axis_tlast && i.p_axis_tready
  size :=
    if i.p_axis_tvalid && i.p_axis_tlast && i.p_axis_tready then
      if i.p_axis_tkeep = BitVec.allOnes 64 then s.acc + C_SIZE - i.p_axis_tuser_mty.setWidth 16
      else
        match first_empty i.p_axis_tkeep with
        | none => s.size
        | some k => s.acc + BitVec.ofNat 16 k
    else s.size

end reconic.axi_stream_size_counter

namespace reconic.axi_stream_packet_buffer

/-- The word that the RAM stores of a beat. -/
structure Beat where
  tdata : BitVec 512
  tkeep : BitVec 64
  tlast : Bool
  tid : BitVec 1
  tdest : BitVec 1
  tuser : BitVec 1
  deriving DecidableEq

def Beat.zero : Beat := ⟨0, 0, false, 0, 0, 0⟩

/-- Which of the two stages of output registers of the RAM have data, the first one first. -/
inductive RdState where
  | S_RD_P00
  | S_RD_P01
  | S_RD_P10
  | S_RD_P11
  deriving DecidableEq

structure Input where
  s_axis_tvalid : Bool
  s_axis : Beat
  drop : Bool
  axis_ram_tready : Bool

/-- The registers, with the RAM and its two stages of output registers, of which `ram_doutb` is
the second. The size FIFO holds up to `size_depth` words, its output registers included. -/
structure Regs (size_depth : Nat) where
  size_cnt : axi_stream_size_counter.Regs
  size_fifo : Fifo (BitVec 16) size_depth
  dropped : Bool
  ram : List Beat
  ram_stage : Beat
  ram_doutb : Beat
  ram_addra : Nat
  ram_addra_checkpoint : Nat
  ram_addrb : Nat
  ram_data_cnt : Nat
  partial_pkt_beats : Nat
  rd_state : RdState

section Buffer

variable (C_RAM_DEPTH : Nat) {size_depth : Nat}

def ram_full (s : Regs size_depth) : Bool := decide (s.ram_data_cnt = C_RAM_DEPTH)

def s_axis_tready (s : Regs size_depth) : Bool := !ram_full C_RAM_DEPTH s

def drop_busy (s : Regs size_depth) (i : Input) : Bool := i.drop || s.dropped

def ram_ena (s : Regs size_depth) (i : Input) : Bool :=
  i.s_axis_tvalid && s_axis_tready C_RAM_DEPTH s && !drop_busy s i

/-- How many beats of complete packets there are in the RAM. -/
def full_pkt_beats (s : Regs size_depth) : Nat :=
  if s.ram_addra_checkpoint = s.ram_addrb then (if ram_full C_RAM_DEPTH s then C_RAM_DEPTH else 0)
  else if s.ram_addra_checkpoint > s.ram_addrb then s.ram_addra_checkpoint - s.ram_addrb
  else C_RAM_DEPTH + s.ram_addra_checkpoint - s.ram_addrb

def axis_ram_tvalid (s : Regs size_depth) : Bool :=
  (decide (s.rd_state = .S_RD_P01) || decide (s.rd_state = .S_RD_P11)) && !s.size_fifo.empty

/-- A beat leaves the buffer. -/
def axis_ram_transfer (s : Regs size_depth) (i : Input) : Bool :=
  axis_ram_tvalid s && i.axis_ram_tready

/-- What the combinational block of the read FSM drives. The read address goes on with
`ram_enb`. -/
structure ReadControl where
  ram_enb : Bool
  ram_regceb : Bool
  next_rd_state : RdState

def readControl (s : Regs size_depth) (i : Input) : ReadControl :=
  let more := decide (full_pkt_beats C_RAM_DEPTH s > 0)
  match s.rd_state with
  | .S_RD_P00 => if more then ⟨true, false, .S_RD_P10⟩ else ⟨false, false, .S_RD_P00⟩
  | .S_RD_P10 => if more then ⟨true, true, .S_RD_P11⟩ else ⟨false, true, .S_RD_P01⟩
  | .S_RD_P01 =>
    if axis_ram_transfer s i then
      if more then ⟨true, false, .S_RD_P10⟩ else ⟨false, false, .S_RD_P00⟩
    else if more then ⟨true, false, .S_RD_P11⟩
    else ⟨false, false, .S_RD_P01⟩
  | .S_RD_P11 =>
    if axis_ram_transfer s i then
      if more then ⟨true, true, .S_RD_P11⟩ else ⟨false, true, .S_RD_P01⟩
    else ⟨false, false, .S_RD_P11⟩

def size_fifo_wr_en (s : Regs size_depth) : Bool := s.size_cnt.size_valid && !s.dropped

def size_fifo_rd_en (s : Regs size_depth) (i : Input) : Bool :=
  axis_ram_tvalid s && s.ram_doutb.tlast && i.axis_ram_tready

def size_fifo_dout (s : Regs size_depth) : BitVec 16 := s.size_fifo.dout.getD 0

def step (s : Regs size_depth) (i : Input) : Regs size_depth :=
  let tready := s_axis_tready C_RAM_DEPTH s
  let ena := ram_ena C_RAM_DEPTH s i
  let enb := (readControl C_RAM_DEPTH s i).ram_enb
  { size_cnt :=
      axi_stream_size_counter.step s.size_cnt
        ⟨i.s_axis_tvalid, i.s_axis.tkeep, i.s_axis.tlast, 0, tready⟩
    size_fifo :=
      s.size_fifo.clock (if size_fifo_wr_en s then [s.size_cnt.size] else []) (size_fifo_rd_en s i)
    dropped := i.s_axis_tvalid && i.s_axis.tlast && tready && i.drop
    ram := if ena then s.ram.set s.ram_addra i.s_axis else s.ram
    ram_stage := if enb then s.ram.getD s.ram_addrb Beat.zero else s.ram_stage
    ram_doutb := if (readControl C_RAM_DEPTH s i).ram_regceb then s.ram_stage else s.ram_doutb
    ram_addra :=
      if drop_busy s i then s.ram_addra_checkpoint
      else if i.s_axis_tvalid && tready then (s.ram_addra + 1) % C_RAM_DEPTH
      else s.ram_addra
    ram_addra_checkpoint :=
      if i.s_axis_tvalid && tready && i.s_axis.tlast && !drop_busy s i then
        (s.ram_addra + 1) % C_RAM_DEPTH
      else s.ram_addra_checkpoint
    ram_addrb := if enb then (s.ram_addrb + 1) % C_RAM_DEPTH else s.ram_addrb
    ram_data_cnt :=
      -- `ram_data_cnt` and `partial_pkt_beats` have one bit more than the addresses
      if drop_busy s i then
        if enb then (s.ram_data_cnt + 4 * C_RAM_DEPTH - s.partial_pkt_beats - 1) % (2 * C_RAM_DEPTH)
        else (s.ram_data_cnt + 4 * C_RAM_DEPTH - s.partial_pkt_beats) % (2 * C_RAM_DEPTH)
      else if ena && !enb then (s.ram_data_cnt + 1) % (2 * C_RAM_DEPTH)
      else if enb && !ena then (s.ram_data_cnt + 4 * C_RAM_DEPTH - 1) % (2 * C_RAM_DEPTH)
      else s.ram_data_cnt
    partial_pkt_beats :=
      if drop_busy s i then 0
      else if i.s_axis_tvalid && tready then
        (if i.s_axis.tlast then 0 else (s.partial_pkt_beats + 1) % (2 * C_RAM_DEPTH))
      else s.partial_pkt_beats
    rd_state := (readControl C_RAM_DEPTH s i).next_rd_state }

/-- The buffer out of reset, with a RAM of `C_RAM_DEPTH` words and addresses that go around it. -/
def machine (size_depth : Nat) : Machine (Regs size_depth) Input where
  reset :=
    { size_cnt := axi_stream_size_counter.reset
      size_fifo := Fifo.clear (BitVec 16) size_depth
      dropped := false
      ram := List.replicate C_RAM_DEPTH Beat.zero
      ram_stage := Beat.zero
      ram_doutb := Beat.zero
      ram_addra := 0
      ram_addra_checkpoint := 0
      ram_addrb := 0
      ram_data_cnt := 0
      partial_pkt_beats := 0
      rd_state := .S_RD_P00 }
  step := step C_RAM_DEPTH

end Buffer

end reconic.axi_stream_packet_buffer
