import RecoNIC.Clocked.Machine

open clocked

namespace reconic.rn_reg_control

def RN_VERSION : BitVec 12 := 0x000

def FATAL_ERR : BitVec 12 := 0x004

def TRROCE_HIGH_REG : BitVec 12 := 0x008

def TRROCE_LOW_REG : BitVec 12 := 0x00C

def TRROCE_NO_RESET_HIGH_REG : BitVec 12 := 0x010

def TRROCE_NO_RESET_LOW_REG : BitVec 12 := 0x014

def TRNONROCE_HIGH_REG : BitVec 12 := 0x018

def TRNONROCE_LOW_REG : BitVec 12 := 0x01C

def TRNONROCE_NO_RESET_HIGH_REG : BitVec 12 := 0x020

def TRNONROCE_NO_RESET_LOW_REG : BitVec 12 := 0x024

def RN_TIMER_HIGH_REG : BitVec 12 := 0x028

def RN_TIMER_LOW_REG : BitVec 12 := 0x02C

def TEMPLATE_REG : BitVec 12 := 512

def DEFAULT_VALUE : BitVec 32 := 0xDEEDBEEF

inductive AxilWriteState where
  | AXIL_WRITE_IDLE
  | AXIL_WRITE_WREADY
  | AXIL_WRITE_RESP
  deriving DecidableEq

inductive AxilReadState where
  | AXIL_READ_IDLE
  | AXIL_READ_RESP
  deriving DecidableEq

/-- The low register of a packet counter, the copy of its top bit before the latest
packet, and its carry bit. -/
structure CounterLow where
  low_reg : BitVec 32
  msb_low : Bool
  carry_bit : Bool
  deriving DecidableEq

/-- The high register of a packet counter and its overflow bit. -/
structure CounterHigh where
  high_reg : BitVec 32
  overflow_bit : Bool
  deriving DecidableEq

structure Counter where
  low : CounterLow
  high : CounterHigh
  deriving DecidableEq

def Counter.zero : Counter := ⟨⟨0, false, false⟩, ⟨0, false⟩⟩

/-- The low register stops when the counter has overflown, and starts again when it has
been read. -/
def CounterLow.clock (low : CounterLow) (overflow_bit cleared pkt_recved : Bool) : CounterLow :=
  if !overflow_bit then
    if cleared then ⟨if pkt_recved then 1#32 else 0#32, false, false⟩
    else if pkt_recved then
      { low_reg := low.low_reg + 1#32
        msb_low := low.low_reg.msb
        carry_bit := low.msb_low && !low.low_reg.msb }
    else { low with carry_bit := false }
  else { low with low_reg := 0, carry_bit := false }

def CounterHigh.clock (high : CounterHigh) (cleared carry_bit : Bool) : CounterHigh :=
  if !high.overflow_bit then
    if cleared then { high with high_reg := 0 }
    else
      { high_reg := if carry_bit then high.high_reg + 1#32 else high.high_reg
        overflow_bit := high.high_reg.msb }
  else high

/-- Both registers of a counter, given which of them are read. -/
def Counter.clock (c : Counter) (low_read high_read pkt_recved : Bool) : Counter where
  low := c.low.clock c.high.overflow_bit low_read pkt_recved
  high := c.high.clock high_read c.low.carry_bit

/-- The input pins. -/
structure Input where
  s_axil_reg_awvalid : Bool
  s_axil_reg_awaddr : BitVec 12
  s_axil_reg_wvalid : Bool
  s_axil_reg_wdata : BitVec 32
  s_axil_reg_bready : Bool
  s_axil_reg_arvalid : Bool
  s_axil_reg_araddr : BitVec 12
  s_axil_reg_rready : Bool
  roce_pkt_recved : Bool
  non_roce_pkt_recved : Bool
  fatal_err : BitVec 32
  deriving DecidableEq

/-- The registers of the write channels. -/
structure WriteRegs where
  s_axil_reg_awready : Bool
  s_axil_reg_wready : Bool
  s_axil_reg_bvalid : Bool
  s_axil_reg_bresp : BitVec 2
  awaddr : BitVec 12
  template_reg : BitVec 32
  axil_write_state : AxilWriteState
  deriving DecidableEq

/-- The registers of the read channels. -/
structure ReadRegs where
  s_axil_reg_arready : Bool
  s_axil_reg_rvalid : Bool
  s_axil_reg_rdata : BitVec 32
  s_axil_reg_rresp : BitVec 2
  araddr : BitVec 12
  axil_read_state : AxilReadState
  deriving DecidableEq

structure Regs where
  write : WriteRegs
  read : ReadRegs
  rn_version_reg : BitVec 32
  fatal_err_reg : BitVec 32
  trroce : Counter
  trroce_no_reset : Counter
  trnonroce : Counter
  trnonroce_no_reset : Counter
  rn_reg_ctl_timer : BitVec 64
  deriving DecidableEq

/-- A write to the template register, the only one that can be written. -/
def template_next (template_reg : BitVec 32) (awaddr : BitVec 12) (wdata : BitVec 32) : BitVec 32 :=
  if awaddr = TEMPLATE_REG then wdata else template_reg

def WriteRegs.clock (s : WriteRegs) (i : Input) : WriteRegs :=
  match s.axil_write_state with
  | .AXIL_WRITE_IDLE =>
    if i.s_axil_reg_awvalid && s.s_axil_reg_awready then
      { s with
        s_axil_reg_wready := true
        s_axil_reg_awready := false
        awaddr := i.s_axil_reg_awaddr
        template_reg :=
          if i.s_axil_reg_wvalid then
            template_next s.template_reg i.s_axil_reg_awaddr i.s_axil_reg_wdata
          else s.template_reg
        axil_write_state := if i.s_axil_reg_wvalid then .AXIL_WRITE_RESP else .AXIL_WRITE_WREADY }
    else s
  | .AXIL_WRITE_WREADY =>
    if i.s_axil_reg_wvalid then
      { s with
        template_reg := template_next s.template_reg s.awaddr i.s_axil_reg_wdata
        s_axil_reg_wready := false
        s_axil_reg_bvalid := s.s_axil_reg_bvalid || s.s_axil_reg_wready
        axil_write_state := .AXIL_WRITE_RESP }
    else s
  | .AXIL_WRITE_RESP =>
    let s' :=
      if s.s_axil_reg_wready && i.s_axil_reg_wvalid then
        { s with s_axil_reg_wready := false, s_axil_reg_bvalid := true }
      else s
    if i.s_axil_reg_bready && s.s_axil_reg_bvalid then
      { s' with
        s_axil_reg_bresp := 0
        s_axil_reg_bvalid := false
        s_axil_reg_awready := true
        awaddr := 0
        axil_write_state := .AXIL_WRITE_IDLE }
    else s'

/-- The register that a read address selects. -/
def read_data (s : Regs) (araddr : BitVec 12) : BitVec 32 :=
  if araddr = RN_VERSION then s.rn_version_reg
  else if araddr = FATAL_ERR then s.fatal_err_reg
  else if araddr = TRROCE_HIGH_REG then s.trroce.high.high_reg
  else if araddr = TRROCE_LOW_REG then s.trroce.low.low_reg
  else if araddr = TRROCE_NO_RESET_HIGH_REG then s.trroce_no_reset.high.high_reg
  else if araddr = TRROCE_NO_RESET_LOW_REG then s.trroce_no_reset.low.low_reg
  else if araddr = TRNONROCE_HIGH_REG then s.trnonroce.high.high_reg
  else if araddr = TRNONROCE_LOW_REG then s.trnonroce.low.low_reg
  else if araddr = TRNONROCE_NO_RESET_HIGH_REG then s.trnonroce_no_reset.high.high_reg
  else if araddr = TRNONROCE_NO_RESET_LOW_REG then s.trnonroce_no_reset.low.low_reg
  else if araddr = RN_TIMER_HIGH_REG then s.rn_reg_ctl_timer.extractLsb' 32 32
  else if araddr = RN_TIMER_LOW_REG then s.rn_reg_ctl_timer.extractLsb' 0 32
  else if araddr = TEMPLATE_REG then s.write.template_reg
  else DEFAULT_VALUE

def read_clock (s : Regs) (i : Input) : ReadRegs :=
  match s.read.axil_read_state with
  | .AXIL_READ_IDLE =>
    if s.read.s_axil_reg_arready && i.s_axil_reg_arvalid then
      { s_axil_reg_arready := false
        s_axil_reg_rvalid := true
        s_axil_reg_rdata := read_data s i.s_axil_reg_araddr
        s_axil_reg_rresp := 0
        araddr := i.s_axil_reg_araddr
        axil_read_state := .AXIL_READ_RESP }
    else s.read
  | .AXIL_READ_RESP =>
    if i.s_axil_reg_rready && s.read.s_axil_reg_rvalid then
      { s.read with
        s_axil_reg_rvalid := false
        s_axil_reg_arready := true
        axil_read_state := .AXIL_READ_IDLE }
    else s.read

/-- The register at the given address is being read. -/
def being_read (s : Regs) (address : BitVec 12) : Bool :=
  s.read.s_axil_reg_rvalid && s.read.araddr == address

/-- `rn_reg_control` out of reset. The counters whose registers have no reset are never
cleared by a read. -/
def machine : Machine Regs Input where
  reset :=
    { write := ⟨true, false, false, 0, 0, 0, .AXIL_WRITE_IDLE⟩
      read := ⟨true, false, 0, 0, 0, .AXIL_READ_IDLE⟩
      rn_version_reg := 0x11082022
      fatal_err_reg := 0
      trroce := .zero
      trroce_no_reset := .zero
      trnonroce := .zero
      trnonroce_no_reset := .zero
      rn_reg_ctl_timer := 0 }
  step s i :=
    { write := s.write.clock i
      read := read_clock s i
      rn_version_reg := s.rn_version_reg
      fatal_err_reg := 0#22 ++ BitVec.ofBool s.trnonroce_no_reset.high.overflow_bit ++
        BitVec.ofBool s.trroce_no_reset.high.overflow_bit ++
        BitVec.ofBool s.trnonroce.high.overflow_bit ++ BitVec.ofBool s.trroce.high.overflow_bit ++
        i.fatal_err.extractLsb' 0 6
      trroce := s.trroce.clock (being_read s TRROCE_LOW_REG) (being_read s TRROCE_HIGH_REG)
        i.roce_pkt_recved
      trroce_no_reset := s.trroce_no_reset.clock false false i.roce_pkt_recved
      trnonroce := s.trnonroce.clock (being_read s TRNONROCE_LOW_REG)
        (being_read s TRNONROCE_HIGH_REG) i.non_roce_pkt_recved
      trnonroce_no_reset := s.trnonroce_no_reset.clock false false i.non_roce_pkt_recved
      rn_reg_ctl_timer := s.rn_reg_ctl_timer + 1 }

end reconic.rn_reg_control
