import Mathlib
import RecoNIC.HostPath.RegisterSlice
import RecoNIC.PacketBuffer.Model

open clocked
open reconic.axi_stream_register_slice (ForwardRegs FullRegs)

namespace reconic.qdma_subsystem_h2c

/-- A beat from the QDMA. -/
structure QdmaBeat where
  tdata : BitVec 512
  tlast : Bool
  tuser_qid : BitVec 11
  tuser_mdata : BitVec 32
  tuser_mty : BitVec 6

/-- A beat in the register slice. -/
structure Beat where
  tdata : BitVec 512
  tlast : Bool
  tuser_size : BitVec 16
  tuser_mty : BitVec 6
  tuser_qid : BitVec 11
  deriving DecidableEq

/-- The upper half of `tuser_mdata` is the size of the packet. -/
def QdmaBeat.stored (b : QdmaBeat) : Beat :=
  ⟨b.tdata, b.tlast, b.tuser_mdata.extractLsb' 16 16, b.tuser_mty, b.tuser_qid⟩

end reconic.qdma_subsystem_h2c

namespace reconic.qdma_subsystem_function

open reconic.qdma_subsystem_h2c (Beat)

/-- The queue configuration register. -/
structure QueueConfig where
  q_base : BitVec 16
  num_q : BitVec 16

/-- A beat that a function sends to the card. -/
structure TxBeat where
  tdata : BitVec 512
  tkeep : BitVec 64
  tlast : Bool
  tuser_size : BitVec 16
  deriving DecidableEq

structure TxRegs where
  h2c_started : Bool
  h2c_matched : Bool
  h2c_slice : FullRegs TxBeat

structure TxInput where
  s_axis_h2c_tvalid : Bool
  s_axis_h2c : Beat
  m_axis_h2c_tready : Bool

/-- The sum has the 16 bits of its operands. -/
def h2c_q_in_range (config : QueueConfig) (s_axis_h2c_tuser_qid : BitVec 11) : Bool :=
  decide (config.q_base ≤ s_axis_h2c_tuser_qid.setWidth 16) &&
    decide (s_axis_h2c_tuser_qid.setWidth 16 < config.q_base + config.num_q)

section Transmit

variable (config : QueueConfig) (s : TxRegs) (i : TxInput)

def h2c_match : Bool :=
  (!s.h2c_started && i.s_axis_h2c_tvalid && h2c_q_in_range config i.s_axis_h2c.tuser_qid) ||
    (s.h2c_started && s.h2c_matched)

def axis_h2c_tvalid : Bool := i.s_axis_h2c_tvalid && h2c_match config s i

def s_axis_h2c_tready : Bool := s.h2c_slice.s_axis_tready && h2c_match config s i

def axis_h2c_tkeep : BitVec 64 :=
  BitVec.ofFnLE fun byte : Fin 64 =>
    if axis_h2c_tvalid config s i && s.h2c_slice.s_axis_tready && i.s_axis_h2c.tlast then
      decide (byte.val ≤ (i.s_axis_h2c.tuser_size.setWidth 6 - 1).toNat)
    else true

def h2c_slice_pins : axi_stream_register_slice.Input TxBeat :=
  ⟨axis_h2c_tvalid config s i,
    ⟨i.s_axis_h2c.tdata, axis_h2c_tkeep config s i, i.s_axis_h2c.tlast, i.s_axis_h2c.tuser_size⟩,
    i.m_axis_h2c_tready⟩

def tx_step : TxRegs where
  h2c_started :=
    if !s.h2c_started && i.s_axis_h2c_tvalid && s_axis_h2c_tready config s i then
      !i.s_axis_h2c.tlast
    else if i.s_axis_h2c_tvalid && i.s_axis_h2c.tlast && s_axis_h2c_tready config s i then false
    else s.h2c_started
  h2c_matched :=
    if !s.h2c_matched && i.s_axis_h2c_tvalid && !i.s_axis_h2c.tlast &&
        s_axis_h2c_tready config s i then
      h2c_q_in_range config i.s_axis_h2c.tuser_qid
    else if s.h2c_matched && i.s_axis_h2c_tvalid && i.s_axis_h2c.tlast &&
        s_axis_h2c_tready config s i then false
    else s.h2c_matched
  h2c_slice := s.h2c_slice.step (h2c_slice_pins config s i)

end Transmit

end reconic.qdma_subsystem_function

namespace reconic.qdma_subsystem_h2c

open reconic.qdma_subsystem_function (QueueConfig TxRegs TxInput TxBeat)

/-- The pins of the QDMA, and those of the functions on the side of the card, a vector of bits as
the set of functions whose bit is set. -/
structure Input (NUM_PHYS_FUNC : Nat) where
  s_axis_qdma_h2c_tvalid : Bool
  s_axis_qdma_h2c : QdmaBeat
  m_axis_h2c_tready : Finset (Fin NUM_PHYS_FUNC)

/-- The registers, with those of the functions that listen to the stream. -/
structure Regs (NUM_PHYS_FUNC : Nat) where
  slice : ForwardRegs Beat
  size_cnt : axi_stream_size_counter.Regs
  func : Fin NUM_PHYS_FUNC → TxRegs

section HostToCard

variable {NUM_PHYS_FUNC : Nat} (config : Fin NUM_PHYS_FUNC → QueueConfig)
  (s : Regs NUM_PHYS_FUNC) (i : Input NUM_PHYS_FUNC)

/-- What a function sees: every beat is shown to all of them. -/
def func_pins (k : Fin NUM_PHYS_FUNC) : TxInput :=
  ⟨s.slice.filled, s.slice.axis, decide (k ∈ i.m_axis_h2c_tready)⟩

/-- The functions that answer with `tready`. -/
def func_tready : Finset (Fin NUM_PHYS_FUNC) :=
  Finset.univ.filter fun k =>
    qdma_subsystem_function.s_axis_h2c_tready (config k) (s.func k) (func_pins s i k)

def axis_h2c_tready : Bool := decide (func_tready config s i ≠ ∅)

def slice_pins : axi_stream_register_slice.Input Beat :=
  ⟨i.s_axis_qdma_h2c_tvalid, i.s_axis_qdma_h2c.stored, axis_h2c_tready config s i⟩

def size_cnt_pins : axi_stream_size_counter.Input :=
  ⟨s.slice.filled, BitVec.allOnes 64, s.slice.axis.tlast, s.slice.axis.tuser_mty,
    axis_h2c_tready config s i⟩

/-- The pins `h2c_status_func_id` and `h2c_status_bytes`, while `h2c_status_valid`. -/
def h2c_status : Option (BitVec 2 × BitVec 16) :=
  if s.size_cnt.size_valid then
    some ((((List.finRange NUM_PHYS_FUNC).find? fun k => decide (k ∈ func_tready config s i)).map
      fun k => BitVec.ofNat 2 k.val).getD 0, s.size_cnt.size)
  else none

def step : Regs NUM_PHYS_FUNC where
  slice := s.slice.step (slice_pins config s i)
  size_cnt := axi_stream_size_counter.step s.size_cnt (size_cnt_pins config s i)
  func k := qdma_subsystem_function.tx_step (config k) (s.func k) (func_pins s i k)

def machine : Machine (Regs NUM_PHYS_FUNC) (Input NUM_PHYS_FUNC) where
  reset :=
    { slice := ⟨⟨0, false, 0, 0, 0⟩, false⟩
      size_cnt := axi_stream_size_counter.reset
      func := fun _ => ⟨false, false, ⟨⟨0, 0, false, 0⟩, ⟨0, 0, false, 0⟩, 0⟩⟩ }
  step := step config

end HostToCard

end reconic.qdma_subsystem_h2c
