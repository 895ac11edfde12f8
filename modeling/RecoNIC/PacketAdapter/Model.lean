import Mathlib
import RecoNIC.HostPath.RegisterSlice
import RecoNIC.PacketBuffer.Model

open clocked
open reconic.axi_stream_register_slice (ForwardRegs)

namespace reconic.packet_adapter_rx

/-- A beat from the CMAC, which does not wait for the card. -/
structure MacBeat where
  tdata : BitVec 512
  tkeep : BitVec 64
  tlast : Bool
  tuser_err : Bool
  deriving DecidableEq

/-- The word that goes to the packet buffer. -/
def MacBeat.stored (b : MacBeat) : axi_stream_packet_buffer.Beat :=
  ⟨b.tdata, b.tkeep, b.tlast, 0, 0, 0⟩

structure Input where
  s_axis_rx_tvalid : Bool
  s_axis_rx : MacBeat
  axis_ram_tready : Bool

structure Regs (size_depth : Nat) where
  input_slice : ForwardRegs MacBeat
  size_cnt : axi_stream_size_counter.Regs
  pkt_buf : axi_stream_packet_buffer.Regs size_depth

section Receive

variable (C_RAM_DEPTH : Nat) {size_depth : Nat} (s : Regs size_depth) (i : Input)

def axis_buf_tready : Bool := axi_stream_packet_buffer.s_axis_tready C_RAM_DEPTH s.pkt_buf

def drop : Bool :=
  (s.input_slice.filled && s.input_slice.axis.tlast && s.input_slice.axis.tuser_err) ||
    (s.input_slice.filled && !axis_buf_tready C_RAM_DEPTH s)

def pkt_buf_pins : axi_stream_packet_buffer.Input :=
  ⟨s.input_slice.filled, s.input_slice.axis.stored, drop C_RAM_DEPTH s, i.axis_ram_tready⟩

def drop_busy : Bool :=
  axi_stream_packet_buffer.drop_busy s.pkt_buf (pkt_buf_pins C_RAM_DEPTH s i)

def pkt_recv : Bool :=
  s.input_slice.filled && s.input_slice.axis.tlast && axis_buf_tready C_RAM_DEPTH s &&
    !drop_busy C_RAM_DEPTH s i

def pkt_drop : Bool :=
  s.input_slice.filled && s.input_slice.axis.tlast && axis_buf_tready C_RAM_DEPTH s &&
    drop_busy C_RAM_DEPTH s i

def pkt_err : Bool :=
  s.input_slice.filled && s.input_slice.axis.tlast && axis_buf_tready C_RAM_DEPTH s &&
    s.input_slice.axis.tuser_err

/-- The size that goes along with `pkt_recv`. -/
def pkt_size : BitVec 16 := s.size_cnt.size

def input_slice_pins : axi_stream_register_slice.Input MacBeat :=
  ⟨i.s_axis_rx_tvalid, i.s_axis_rx, true⟩

def size_cnt_pins : axi_stream_size_counter.Input :=
  ⟨s.input_slice.filled, s.input_slice.axis.tkeep, s.input_slice.axis.tlast, 0, true⟩

def step : Regs size_depth where
  input_slice := s.input_slice.step (input_slice_pins i)
  size_cnt := axi_stream_size_counter.step s.size_cnt (size_cnt_pins s)
  pkt_buf := axi_stream_packet_buffer.step C_RAM_DEPTH s.pkt_buf (pkt_buf_pins C_RAM_DEPTH s i)

/-- The adapter in the clock of the CMAC, up to the beats that leave the RAM of the buffer. -/
def machine (size_depth : Nat) : Machine (Regs size_depth) Input where
  reset :=
    { input_slice := ⟨⟨0, 0, false, false⟩, false⟩
      size_cnt := axi_stream_size_counter.reset
      pkt_buf := (axi_stream_packet_buffer.machine C_RAM_DEPTH size_depth).reset }
  step := step C_RAM_DEPTH

end Receive

end reconic.packet_adapter_rx

namespace reconic.packet_adapter_tx

/-- A beat from the shell. -/
structure ShellBeat where
  tdata : BitVec 512
  tkeep : BitVec 64
  tlast : Bool
  tuser_size : BitVec 16
  tuser_src : BitVec 16
  tuser_dst : BitVec 16
  deriving DecidableEq

/-- A beat in the register slice, in which all bits of `tkeep` are set. -/
structure SliceBeat where
  tdata : BitVec 512
  tlast : Bool
  tuser_size : BitVec 16
  tuser_src : BitVec 16
  tuser_dst : BitVec 16
  deriving DecidableEq

/-- A beat that goes to the packet FIFO. -/
structure FifoBeat where
  tdata : BitVec 512
  tkeep : BitVec 64
  tlast : Bool
  deriving DecidableEq

/-- `axis_tx_tready` is the answer of the packet FIFO. -/
structure Input where
  s_axis_tx_tvalid : Bool
  s_axis_tx : ShellBeat
  axis_tx_tready : Bool

structure Regs where
  slice : ForwardRegs SliceBeat
  axis_tx_tkeep : BitVec 64
  pkt_started : Bool
  dropping_more : Bool

section Transmit

variable (CMAC_ID : Nat) (s : Regs) (i : Input)

def s_axis_tx_tready : Bool := s.slice.s_axis_tready i.axis_tx_tready

def slice_pins : axi_stream_register_slice.Input SliceBeat :=
  ⟨i.s_axis_tx_tvalid, ⟨i.s_axis_tx.tdata, i.s_axis_tx.tlast, i.s_axis_tx.tuser_size,
    i.s_axis_tx.tuser_src, i.s_axis_tx.tuser_dst⟩, i.axis_tx_tready⟩

/-- The bytes of a beat, which the last beat of a packet has from the size of the packet. -/
def ShellBeat.cut_tkeep (b : ShellBeat) : BitVec 64 :=
  BitVec.ofFnLE fun byte : Fin 64 =>
    if b.tlast && decide (b.tuser_size.setWidth 6 ≠ 0) then
      decide ((b.tuser_size.setWidth 6).toNat > byte.val)
    else b.tkeep.getLsbD byte.val

/-- The destination has no bit for this port. -/
def bad_dst : Bool := decide (s.slice.axis.tuser_dst &&& (1#16 <<< (CMAC_ID + 6)) = 0)

def dropping : Bool :=
  (!s.pkt_started && s.slice.filled && i.axis_tx_tready && bad_dst CMAC_ID s) || s.dropping_more

def tx_pkt_sent : Bool :=
  s.slice.filled && s.slice.axis.tlast && i.axis_tx_tready && !dropping CMAC_ID s i

def tx_pkt_drop : Bool :=
  s.slice.filled && s.slice.axis.tlast && i.axis_tx_tready && dropping CMAC_ID s i

def tx_bytes : BitVec 16 := s.slice.axis.tuser_size

/-- The pin `s_axis_tvalid` of the packet FIFO. -/
def fifo_tvalid : Bool := s.slice.filled && !dropping CMAC_ID s i

/-- The beat that the packet FIFO sees. -/
def fifo_beat : FifoBeat := ⟨s.slice.axis.tdata, s.axis_tx_tkeep, s.slice.axis.tlast⟩

def step : Regs where
  slice := s.slice.step (slice_pins i)
  axis_tx_tkeep :=
    if i.s_axis_tx_tvalid && s_axis_tx_tready s i then i.s_axis_tx.cut_tkeep else s.axis_tx_tkeep
  pkt_started :=
    if !s.pkt_started && s.slice.filled && i.axis_tx_tready then !s.slice.axis.tlast
    else if s.slice.filled && s.slice.axis.tlast && i.axis_tx_tready then false
    else s.pkt_started
  dropping_more :=
    if !s.pkt_started && s.slice.filled && i.axis_tx_tready then
      (if s.slice.axis.tlast then false else bad_dst CMAC_ID s)
    else if s.slice.filled && s.slice.axis.tlast && i.axis_tx_tready then false
    else s.dropping_more

/-- The adapter in the clock of the shell, up to the packet FIFO. -/
def machine : Machine Regs Input where
  reset := ⟨⟨⟨0, false, 0, 0, 0⟩, false⟩, 0, false, false⟩
  step := step CMAC_ID

end Transmit

end reconic.packet_adapter_tx
