import RecoNIC.HostPath.HeaderHash
import RecoNIC.HostPath.CardToHost

open clocked
open reconic.axi_stream_register_slice (FullRegs)

namespace reconic.qdma_subsystem_function

/-- The registers that the driver sets for the queues of a function. -/
structure RssConfig where
  q_base : BitVec 16
  indir_table : BitVec 7 → BitVec 16
  hash_key : BitVec 320

/-- A beat that comes from the card. -/
structure RxBeat where
  tdata : BitVec 512
  tlast : Bool
  tuser_size : BitVec 16
  deriving DecidableEq

structure RxInput where
  s_axis_c2h_tvalid : Bool
  s_axis_c2h : RxBeat
  m_axis_c2h_tready : Bool

/-- The registers, with the two FIFOs, of which the source sets both depths to 32. -/
structure RxRegs (qid_depth pkt_depth : Nat) where
  c2h_slice : FullRegs RxBeat
  hash : qdma_subsystem_hash.Regs
  qid_fifo_wr_en : Bool
  qid_fifo_din : BitVec 11
  qid_fifo : Fifo (BitVec 11) qid_depth
  buf_fifo : Fifo RxBeat pkt_depth

/-- The queue that the indirection table gives for a hash. -/
def hash_queue (config : RssConfig) (hash_result : BitVec 32) : BitVec 11 :=
  (config.indir_table (hash_result.setWidth 7) + config.q_base).setWidth 11

section Receive

variable {qid_depth pkt_depth : Nat} (s : RxRegs qid_depth pkt_depth) (i : RxInput)

def axis_c2h_tready : Bool := !s.buf_fifo.full

def hash_pins : qdma_subsystem_hash.Input where
  p_axis_tvalid := s.c2h_slice.m_axis_tvalid
  p_axis_tdata := s.c2h_slice.axis0.tdata
  p_axis_tlast := s.c2h_slice.axis0.tlast
  p_axis_tready := axis_c2h_tready s

def c2h_slice_pins : axi_stream_register_slice.Input RxBeat :=
  ⟨i.s_axis_c2h_tvalid, i.s_axis_c2h, axis_c2h_tready s⟩

/-- The pins `m_axis_c2h`, while `m_axis_c2h_tvalid`. -/
def m_axis_c2h : Option qdma_subsystem_c2h.Beat :=
  match s.buf_fifo.dout, s.qid_fifo.dout with
  | some b, some qid => some ⟨b.tdata, b.tlast, b.tuser_size, qid⟩
  | _, _ => none

def qid_fifo_rd_en : Bool :=
  match m_axis_c2h s with
  | none => false
  | some b => b.tlast && i.m_axis_c2h_tready

def axis_c2h_buf_tready : Bool := i.m_axis_c2h_tready && !s.qid_fifo.empty

def rx_step (config : RssConfig) : RxRegs qid_depth pkt_depth where
  c2h_slice := s.c2h_slice.step (c2h_slice_pins s i)
  hash := qdma_subsystem_hash.step config.hash_key s.hash (hash_pins s)
  qid_fifo_wr_en := s.hash.s3.hash_result_valid
  qid_fifo_din :=
    if s.hash.s3.hash_result_valid then hash_queue config (qdma_subsystem_hash.hash_result s.hash.s3)
    else s.qid_fifo_din
  qid_fifo :=
    s.qid_fifo.clock (if s.qid_fifo_wr_en then [s.qid_fifo_din] else []) (qid_fifo_rd_en s i)
  buf_fifo :=
    s.buf_fifo.clock (if s.c2h_slice.m_axis_tvalid then [s.c2h_slice.axis0] else [])
      (axis_c2h_buf_tready s i)

end Receive

def rx_machine (qid_depth pkt_depth : Nat) (config : RssConfig) :
    Machine (RxRegs qid_depth pkt_depth) RxInput where
  reset :=
    { c2h_slice := ⟨⟨0, false, 0⟩, ⟨0, false, 0⟩, 0⟩
      hash := qdma_subsystem_hash.reset
      qid_fifo_wr_en := false
      qid_fifo_din := 0
      qid_fifo := Fifo.clear _ _
      buf_fifo := Fifo.clear _ _ }
  step := fun s i => rx_step s i config

end reconic.qdma_subsystem_function
