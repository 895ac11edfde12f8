import RecoNIC.HostPath.Arbiter
import RecoNIC.HostPath.RegisterSlice
import RecoNIC.Clocked.Fifo

open clocked
open reconic.axi_stream_register_slice (ForwardRegs)

namespace reconic.qdma_subsystem_c2h

/-- A beat that a function sends. -/
structure Beat where
  tdata : BitVec 512
  tlast : Bool
  tuser_size : BitVec 16
  tuser_qid : BitVec 11
  deriving DecidableEq

def Beat.zero : Beat := ⟨0, false, 0, 0⟩

/-- A word of the completion FIFO. -/
structure Completion where
  qid : BitVec 11
  pkt_id : BitVec 16
  size : BitVec 16
  deriving DecidableEq

def CPL_FIFO_DEPTH : Nat := 512

/-- The pins of the functions, a vector of bits as the set of functions whose bit is set, and those
of the QDMA. -/
structure Input (NUM_PHYS_FUNC : Nat) where
  s_axis_c2h_tvalid : Finset (Fin NUM_PHYS_FUNC)
  s_axis_c2h : Fin NUM_PHYS_FUNC → Beat
  m_axis_qdma_c2h_tready : Bool
  m_axis_qdma_cpl_tready : Bool

structure Regs (NUM_PHYS_FUNC : Nat) where
  processing : Finset (Fin NUM_PHYS_FUNC)
  arb : rr_arbiter.Regs NUM_PHYS_FUNC
  slice : ForwardRegs Beat
  m_axis_qdma_c2h_mty : BitVec 6
  pkt_pld_id : BitVec 16
  cpl_fifo : Fifo Completion CPL_FIFO_DEPTH

section CardToHost

variable {NUM_PHYS_FUNC : Nat}

def arb_req (s : Regs NUM_PHYS_FUNC) (i : Input NUM_PHYS_FUNC) : Finset (Fin NUM_PHYS_FUNC) :=
  i.s_axis_c2h_tvalid ∪ s.processing

def axis_c2h_tready (s : Regs NUM_PHYS_FUNC) (i : Input NUM_PHYS_FUNC) : Bool :=
  s.slice.s_axis_tready i.m_axis_qdma_c2h_tready

def arb_ready (s : Regs NUM_PHYS_FUNC) (i : Input NUM_PHYS_FUNC) : Bool :=
  axis_c2h_tready s i && !s.cpl_fifo.full

/-- Access granted by the arbiter, which is also `s_axis_c2h_tready`. -/
def arb_grant (s : Regs NUM_PHYS_FUNC) (i : Input NUM_PHYS_FUNC) : Finset (Fin NUM_PHYS_FUNC) :=
  rr_arbiter.grant s.arb (arb_req s i) (arb_ready s i)

def arb_fin (s : Regs NUM_PHYS_FUNC) (i : Input NUM_PHYS_FUNC) : Finset (Fin NUM_PHYS_FUNC) :=
  (i.s_axis_c2h_tvalid ∩ arb_grant s i).filter fun k => (i.s_axis_c2h k).tlast

def arb_pins (s : Regs NUM_PHYS_FUNC) (i : Input NUM_PHYS_FUNC) : rr_arbiter.Input NUM_PHYS_FUNC :=
  ⟨arb_req s i, arb_fin s i, arb_ready s i⟩

/-- The function that the loops over `arb_grant` find. -/
def granted_func (s : Regs NUM_PHYS_FUNC) (i : Input NUM_PHYS_FUNC) : Option (Fin NUM_PHYS_FUNC) :=
  (List.finRange NUM_PHYS_FUNC).find? fun k => decide (k ∈ arb_grant s i)

def axis_c2h_tvalid (s : Regs NUM_PHYS_FUNC) (i : Input NUM_PHYS_FUNC) : Bool :=
  match granted_func s i with
  | none => false
  | some k => decide (k ∈ i.s_axis_c2h_tvalid)

def axis_c2h (s : Regs NUM_PHYS_FUNC) (i : Input NUM_PHYS_FUNC) : Beat :=
  match granted_func s i with
  | none => Beat.zero
  | some k => i.s_axis_c2h k

def slice_pins (s : Regs NUM_PHYS_FUNC) (i : Input NUM_PHYS_FUNC) :
    axi_stream_register_slice.Input Beat :=
  ⟨axis_c2h_tvalid s i, axis_c2h s i, i.m_axis_qdma_c2h_tready⟩

/-- The number of empty bytes in a beat. -/
def mty (b : Beat) : BitVec 6 :=
  if b.tlast then
    (if b.tuser_size.setWidth 6 = 0 then 0 else 64 - b.tuser_size.setWidth 6)
  else 0

/-- The last beat of a packet is handed over to the QDMA. -/
def cpl_fifo_wr_en (s : Regs NUM_PHYS_FUNC) (i : Input NUM_PHYS_FUNC) : Bool :=
  s.slice.filled && s.slice.axis.tlast && i.m_axis_qdma_c2h_tready

def cpl_fifo_din (s : Regs NUM_PHYS_FUNC) : Completion :=
  ⟨s.slice.axis.tuser_qid, s.pkt_pld_id + 1, s.slice.axis.tuser_size⟩

def cpl_fifo_rd_en (s : Regs NUM_PHYS_FUNC) (i : Input NUM_PHYS_FUNC) : Bool :=
  !s.cpl_fifo.empty && i.m_axis_qdma_cpl_tready

/-- The data of a completion. -/
def cpl_tdata (c : Completion) : BitVec 512 := (c.size.setWidth 512 <<< 4) ||| 0b1000#512

/-- The pins `c2h_status_func_id` and `c2h_status_bytes`, while `c2h_status_valid`. -/
def c2h_status (s : Regs NUM_PHYS_FUNC) (i : Input NUM_PHYS_FUNC) : Option (BitVec 2 × BitVec 16) :=
  if axis_c2h_tvalid s i && (axis_c2h s i).tlast && axis_c2h_tready s i then
    some (((granted_func s i).map fun k => BitVec.ofNat 2 k.val).getD 0, (axis_c2h s i).tuser_size)
  else none

def step (s : Regs NUM_PHYS_FUNC) (i : Input NUM_PHYS_FUNC) : Regs NUM_PHYS_FUNC where
  processing := (s.processing ∪ i.s_axis_c2h_tvalid) \ arb_fin s i
  arb := rr_arbiter.step s.arb (arb_pins s i)
  slice := s.slice.step (slice_pins s i)
  m_axis_qdma_c2h_mty :=
    if axis_c2h_tvalid s i && axis_c2h_tready s i then mty (axis_c2h s i) else s.m_axis_qdma_c2h_mty
  pkt_pld_id := if cpl_fifo_wr_en s i then s.pkt_pld_id + 1 else s.pkt_pld_id
  cpl_fifo :=
    s.cpl_fifo.clock (if cpl_fifo_wr_en s i then [cpl_fifo_din s] else []) (cpl_fifo_rd_en s i)

def machine (NUM_PHYS_FUNC : Nat) (unknown : Nat → Finset (Fin NUM_PHYS_FUNC)) :
    Machine (Regs NUM_PHYS_FUNC) (Input NUM_PHYS_FUNC) where
  reset :=
    { processing := ∅
      arb := (rr_arbiter.machine NUM_PHYS_FUNC unknown).reset
      slice := ⟨Beat.zero, false⟩
      m_axis_qdma_c2h_mty := 0
      pkt_pld_id := 0
      cpl_fifo := Fifo.clear Completion CPL_FIFO_DEPTH }
  step := step

end CardToHost

end reconic.qdma_subsystem_c2h
