import RecoNIC.Clocked.Crossing
import RecoNIC.Clocked.Progress
import RecoNIC.PacketFilter.Model
import RecoNIC.Registers.ReadToClear

open clocked

namespace reconic.top

/-- The number of synchroniser stages of every clock crossing. -/
def DEST_SYNC_FF : Nat := 4

def roce_pkt_recved_at_axis_clk (c : Cycle packet_filter.Regs packet_filter.Input) : Bool :=
  packet_filter.metadata_out_valid c.state c.input

def non_roce_pkt_recved_at_axis_clk (c : Cycle packet_filter.Regs packet_filter.Input) : Bool :=
  c.input.m_axis_non_roce_tready && packet_filter.m_axis_non_roce_tvalid c.state c.input &&
    (packet_filter.m_axis_non_roce c.state c.input).tlast

/-- The register input `fatal_err`: 31 bits are assigned to 32. -/
def fatal_err (packet_filter_err : Bool) : BitVec 32 :=
  (0#27 ++ 0#3 ++ BitVec.ofBool packet_filter_err).setWidth 32

/-- A run of the shell: its two clocks, the pins of the packet filter in each cycle of
`axis_aclk`, and those of the register interface in each cycle of `axil_aclk`. -/
structure Shell where
  clocks : Sampling
  axis : Nat → packet_filter.Input
  axil : Nat → rn_reg_control.Input

def Shell.filter_cycle (shell : Shell) (j : Nat) : Cycle packet_filter.Regs packet_filter.Input :=
  packet_filter.machine.cycleAt shell.axis j

def Shell.roce_pkt_recved (shell : Shell) (m : Nat) : Bool :=
  shell.clocks.synchronised DEST_SYNC_FF false
    (fun j => roce_pkt_recved_at_axis_clk (shell.filter_cycle j)) m

def Shell.non_roce_pkt_recved (shell : Shell) (m : Nat) : Bool :=
  shell.clocks.synchronised DEST_SYNC_FF false
    (fun j => non_roce_pkt_recved_at_axis_clk (shell.filter_cycle j)) m

/-- The wire behind the crossing of `pkt_filter_err`. It is declared one bit wide, so it
takes bit 0 of the two bits that come out. -/
def Shell.packet_filter_err (shell : Shell) (m : Nat) : Bool :=
  (shell.clocks.synchronised DEST_SYNC_FF 0#2
    (fun j => (shell.filter_cycle j).state.pkt_filter_err) m).getLsbD 0

/-- The pins of the register module: the register interface and the wires of the shell. -/
def Shell.reg_input (shell : Shell) (m : Nat) : rn_reg_control.Input :=
  { shell.axil m with
    roce_pkt_recved := shell.roce_pkt_recved m
    non_roce_pkt_recved := shell.non_roce_pkt_recved m
    fatal_err := fatal_err (shell.packet_filter_err m) }

/-- The registers in a cycle of `axil_aclk`. -/
def Shell.regs (shell : Shell) (m : Nat) : rn_reg_control.Regs :=
  rn_reg_control.machine.stateAt shell.reg_input m

theorem Shell.regs_succ (shell : Shell) (m : Nat) :
    shell.regs (m + 1) = rn_reg_control.machine.step (shell.regs m) (shell.reg_input m) :=
  rn_reg_control.machine.stateAt_succ shell.reg_input m

end reconic.top
