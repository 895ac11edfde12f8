import RecoNIC.Clocked.Fifo

open clocked

namespace reconic.packet_filter

/-- The 263 metadata bits of a packet. Bit 0 is `is_rdma`. -/
abbrev Metadata := BitVec 263

/-- One AXI-stream beat, the word both packet FIFOs store. -/
structure Beat where
  tdata : BitVec 512
  tkeep : BitVec 64
  tuser_size : BitVec 16
  tlast : Bool
  deriving DecidableEq

/-- The value of the output pins in a cycle without a transfer. -/
def Beat.zero : Beat := ⟨0, 0, 0, false⟩

def FIFO_WRITE_DEPTH : Nat := 512

def PROG_FULL_THRESH : Nat := FIFO_WRITE_DEPTH - 5

inductive FilterState where
  | FILTER_IDLE
  | FILTER_WR_ROCE
  | FILTER_WR_NONROCE
  deriving DecidableEq

inductive ReadRdmaState where
  | READ_RDMA_IDLE
  | READ_RDMA
  deriving DecidableEq

inductive ReadNonrdmaState where
  | READ_NONRDMA_IDLE
  | READ_NONRDMA
  deriving DecidableEq

structure Input where
  metadata_in : Metadata
  metadata_in_valid : Bool
  s_axis_tvalid : Bool
  s_axis : Beat
  m_axis_roce_tready : Bool
  m_axis_non_roce_tready : Bool

structure Regs where
  filter_state : FilterState
  filter_rd_rdma_state : ReadRdmaState
  filter_rd_nonrdma_state : ReadNonrdmaState
  filter_rdma_pkt_fifo : Fifo Beat FIFO_WRITE_DEPTH
  filter_metadata_fifo : Fifo Metadata FIFO_WRITE_DEPTH
  filter_non_rdma_pkt_fifo : Fifo Beat FIFO_WRITE_DEPTH
  pkt_filter_err : BitVec 2

/-- The module takes every beat it is offered. -/
def s_axis_tready : Bool := true

/-- What the combinational block of the write FSM drives. -/
structure WriteControl where
  meta_wr_en : Bool
  rdma_pkt_wr_en : Bool
  non_rdma_pkt_wr_en : Bool
  filter_nextstate : FilterState

def metadata_is_rdma (metadata : Metadata) : Bool := metadata.getLsbD 0

def writeControl (s : Regs) (i : Input) : WriteControl :=
  match s.filter_state with
  | .FILTER_IDLE =>
    if i.s_axis_tvalid then
      if metadata_is_rdma i.metadata_in then
        { meta_wr_en := true, rdma_pkt_wr_en := true, non_rdma_pkt_wr_en := false,
          filter_nextstate := if i.s_axis.tlast then .FILTER_IDLE else .FILTER_WR_ROCE }
      else
        { meta_wr_en := false, rdma_pkt_wr_en := false, non_rdma_pkt_wr_en := true,
          filter_nextstate := if i.s_axis.tlast then .FILTER_IDLE else .FILTER_WR_NONROCE }
    else ⟨false, false, false, .FILTER_IDLE⟩
  | .FILTER_WR_ROCE =>
    if i.s_axis_tvalid then
      { meta_wr_en := false, rdma_pkt_wr_en := true, non_rdma_pkt_wr_en := false,
        filter_nextstate := if i.s_axis.tlast then .FILTER_IDLE else .FILTER_WR_ROCE }
    else ⟨false, false, false, .FILTER_WR_ROCE⟩
  | .FILTER_WR_NONROCE =>
    if i.s_axis_tvalid then
      { meta_wr_en := false, rdma_pkt_wr_en := false, non_rdma_pkt_wr_en := true,
        filter_nextstate := if i.s_axis.tlast then .FILTER_IDLE else .FILTER_WR_NONROCE }
    else ⟨false, false, false, .FILTER_WR_NONROCE⟩

/-- What the combinational block of the RDMA read FSM drives. -/
structure RdmaReadControl where
  meta_rd_en : Bool
  rdma_pkt_rd_en : Bool
  filter_rd_rdma_nextstate : ReadRdmaState

def rdma_pkt_fifo_out (s : Regs) : Beat := s.filter_rdma_pkt_fifo.dout.getD Beat.zero

def meta_out (s : Regs) : Metadata := s.filter_metadata_fifo.dout.getD 0#263

def rdmaReadControl (s : Regs) (i : Input) : RdmaReadControl :=
  match s.filter_rd_rdma_state with
  | .READ_RDMA_IDLE =>
    if i.m_axis_roce_tready && !s.filter_metadata_fifo.empty && !s.filter_rdma_pkt_fifo.empty then
      ⟨true, true, if (rdma_pkt_fifo_out s).tlast then .READ_RDMA_IDLE else .READ_RDMA⟩
    else ⟨false, false, .READ_RDMA_IDLE⟩
  | .READ_RDMA =>
    if i.m_axis_roce_tready && !s.filter_rdma_pkt_fifo.empty then
      ⟨false, true, if (rdma_pkt_fifo_out s).tlast then .READ_RDMA_IDLE else .READ_RDMA⟩
    else ⟨false, false, .READ_RDMA⟩

def m_axis_roce_tvalid (s : Regs) (i : Input) : Bool := (rdmaReadControl s i).rdma_pkt_rd_en

def m_axis_roce (s : Regs) (i : Input) : Beat :=
  if (rdmaReadControl s i).rdma_pkt_rd_en then rdma_pkt_fifo_out s else Beat.zero

def metadata_out_valid (s : Regs) (i : Input) : Bool := (rdmaReadControl s i).meta_rd_en

def metadata_out (s : Regs) (i : Input) : Metadata :=
  if (rdmaReadControl s i).meta_rd_en then meta_out s else 0#263

/-- What the combinational block of the non-RDMA read FSM drives. -/
structure NonrdmaReadControl where
  non_rdma_pkt_rd_en : Bool
  filter_rd_nonrdma_nextstate : ReadNonrdmaState

def non_rdma_pkt_fifo_out (s : Regs) : Beat := s.filter_non_rdma_pkt_fifo.dout.getD Beat.zero

def nonrdmaReadControl (s : Regs) (i : Input) : NonrdmaReadControl :=
  match s.filter_rd_nonrdma_state with
  | .READ_NONRDMA_IDLE =>
    if i.m_axis_non_roce_tready && !s.filter_non_rdma_pkt_fifo.empty then
      ⟨true, if (non_rdma_pkt_fifo_out s).tlast then .READ_NONRDMA_IDLE else .READ_NONRDMA⟩
    else ⟨false, .READ_NONRDMA_IDLE⟩
  | .READ_NONRDMA =>
    if i.m_axis_non_roce_tready && !s.filter_non_rdma_pkt_fifo.empty then
      ⟨true, if (non_rdma_pkt_fifo_out s).tlast then .READ_NONRDMA_IDLE else .READ_NONRDMA⟩
    else ⟨false, .READ_NONRDMA⟩

def m_axis_non_roce_tvalid (s : Regs) (i : Input) : Bool :=
  (nonrdmaReadControl s i).non_rdma_pkt_rd_en

def m_axis_non_roce (s : Regs) (i : Input) : Beat :=
  if (nonrdmaReadControl s i).non_rdma_pkt_rd_en then non_rdma_pkt_fifo_out s else Beat.zero

/-- The words on the write ports of the three FIFOs. -/
def rdmaWrite (s : Regs) (i : Input) : List Beat :=
  if (writeControl s i).rdma_pkt_wr_en then [i.s_axis] else []

def metaWrite (s : Regs) (i : Input) : List Metadata :=
  if (writeControl s i).meta_wr_en then [i.metadata_in] else []

def nonRdmaWrite (s : Regs) (i : Input) : List Beat :=
  if (writeControl s i).non_rdma_pkt_wr_en then [i.s_axis] else []

/-- The sticky error bits. Bit 0 belongs to the non-RDMA FIFO, bit 1 to the RDMA
FIFO, and both are set only by the programmable full flags. -/
def pkt_filter_err_next (s : Regs) : BitVec 2 :=
  s.pkt_filter_err |||
    (if s.filter_non_rdma_pkt_fifo.prog_full PROG_FULL_THRESH then 1#2 else 0#2) |||
    (if s.filter_rdma_pkt_fifo.prog_full PROG_FULL_THRESH then 2#2 else 0#2)

/-- `packet_filter` out of reset: all registers and the three FIFOs. -/
def machine : Machine Regs Input where
  reset :=
    { filter_state := .FILTER_IDLE
      filter_rd_rdma_state := .READ_RDMA_IDLE
      filter_rd_nonrdma_state := .READ_NONRDMA_IDLE
      filter_rdma_pkt_fifo := Fifo.clear Beat FIFO_WRITE_DEPTH
      filter_metadata_fifo := Fifo.clear Metadata FIFO_WRITE_DEPTH
      filter_non_rdma_pkt_fifo := Fifo.clear Beat FIFO_WRITE_DEPTH
      pkt_filter_err := 0 }
  step s i :=
    { filter_state := (writeControl s i).filter_nextstate
      filter_rd_rdma_state := (rdmaReadControl s i).filter_rd_rdma_nextstate
      filter_rd_nonrdma_state := (nonrdmaReadControl s i).filter_rd_nonrdma_nextstate
      filter_rdma_pkt_fifo :=
        s.filter_rdma_pkt_fifo.clock (rdmaWrite s i) (rdmaReadControl s i).rdma_pkt_rd_en
      filter_metadata_fifo :=
        s.filter_metadata_fifo.clock (metaWrite s i) (rdmaReadControl s i).meta_rd_en
      filter_non_rdma_pkt_fifo :=
        s.filter_non_rdma_pkt_fifo.clock (nonRdmaWrite s i)
          (nonrdmaReadControl s i).non_rdma_pkt_rd_en
      pkt_filter_err := pkt_filter_err_next s }

end reconic.packet_filter
