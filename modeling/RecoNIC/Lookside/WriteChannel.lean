import RecoNIC.Clocked.AxiLite
import RecoNIC.Clocked.Machine

open clocked clocked.axi_lite

namespace reconic.control_command_processor

def CTL_CMD : BitVec 12 := 0x000
def TEMPLATE_REG : BitVec 12 := 512

inductive WriteState where
  | AXIL_WRITE_IDLE
  | AXIL_WRITE_WREADY
  | AXIL_WRITE_WAIT
  | AXIL_WRITE_RESP
  deriving DecidableEq

/-- The registers of the AXI-Lite write process. -/
structure WriteRegs where
  s_axil_awready : Bool
  s_axil_wready : Bool
  s_axil_bvalid : Bool
  s_axil_bresp : BitVec 2
  awaddr : BitVec 12
  template_reg : BitVec 32
  ctl_cmd_data : BitVec 32
  ctl_cmd_wr_en : Bool
  axil_write_state : WriteState
  deriving DecidableEq

/-- What the write process samples: the master's side of the write channels and
the write side flags of the command FIFO. -/
structure WriteInput where
  s_axil_awvalid : Bool
  s_axil_awaddr : BitVec 12
  s_axil_wvalid : Bool
  s_axil_wdata : BitVec 32
  s_axil_bready : Bool
  ctl_cmd_afifo_full : Bool
  ctl_cmd_wr_rst_busy : Bool
  deriving DecidableEq

def write_reset : WriteRegs where
  s_axil_awready := true
  s_axil_wready := false
  s_axil_bvalid := false
  s_axil_bresp := 0
  awaddr := 0
  template_reg := 0
  ctl_cmd_data := 0
  ctl_cmd_wr_en := false
  axil_write_state := .AXIL_WRITE_IDLE

/-- One edge of `axil_aclk`. The tests read `r`, the registers before the edge;
`next` collects the assignments, of which the last one to a register counts. -/
def write_step (r : WriteRegs) (i : WriteInput) : WriteRegs :=
  let next := { r with ctl_cmd_wr_en := false }
  match r.axil_write_state with
  | .AXIL_WRITE_IDLE =>
    let next := { next with s_axil_bvalid := false }
    if i.s_axil_awvalid && r.s_axil_awready then
      let next := { next with
        s_axil_wready := true
        s_axil_awready := false
        awaddr := i.s_axil_awaddr }
      if i.s_axil_wvalid then
        let next := { next with axil_write_state := .AXIL_WRITE_RESP }
        if i.s_axil_awaddr = CTL_CMD then
          let next := { next with ctl_cmd_data := i.s_axil_wdata }
          let next :=
            if i.ctl_cmd_afifo_full || i.ctl_cmd_wr_rst_busy then
              { next with ctl_cmd_wr_en := false, axil_write_state := .AXIL_WRITE_WAIT }
            else { next with ctl_cmd_wr_en := true }
          if r.s_axil_wready then { next with s_axil_wready := false } else next
        else if i.s_axil_awaddr = TEMPLATE_REG then { next with template_reg := i.s_axil_wdata }
        else next
      else { next with axil_write_state := .AXIL_WRITE_WREADY }
    else next
  | .AXIL_WRITE_WREADY =>
    if i.s_axil_wvalid then
      let next := { next with axil_write_state := .AXIL_WRITE_RESP }
      let next := if r.s_axil_wready then { next with s_axil_wready := false } else next
      if r.awaddr = CTL_CMD then
        let next := { next with ctl_cmd_data := i.s_axil_wdata }
        if i.ctl_cmd_afifo_full then
          { next with ctl_cmd_wr_en := false, axil_write_state := .AXIL_WRITE_WAIT }
        else { next with ctl_cmd_wr_en := true }
      else if r.awaddr = TEMPLATE_REG then { next with template_reg := i.s_axil_wdata }
      else next
    else next
  | .AXIL_WRITE_WAIT =>
    if !i.ctl_cmd_afifo_full && !i.ctl_cmd_wr_rst_busy then
      { next with
        s_axil_bresp := 0
        ctl_cmd_wr_en := true
        s_axil_bvalid := true
        axil_write_state := .AXIL_WRITE_RESP }
    else next
  | .AXIL_WRITE_RESP =>
    { next with
      s_axil_bresp := 0
      s_axil_bvalid := true
      awaddr := 0
      s_axil_awready := true
      s_axil_wready := false
      ctl_cmd_wr_en := false
      axil_write_state := if i.s_axil_bready then .AXIL_WRITE_IDLE else .AXIL_WRITE_RESP }

def writeMachine : Machine WriteRegs WriteInput where
  reset := write_reset
  step := write_step

/-- The write channels of the interface during a cycle. -/
@[simps]
def write_pins (c : Cycle WriteRegs WriteInput) : WritePins (BitVec 12) (BitVec 32) where
  awvalid := c.input.s_axil_awvalid
  awready := c.state.s_axil_awready
  awaddr := c.input.s_axil_awaddr
  wvalid := c.input.s_axil_wvalid
  wready := c.state.s_axil_wready
  wdata := c.input.s_axil_wdata
  bvalid := c.state.s_axil_bvalid
  bready := c.input.s_axil_bready

@[simp] theorem write_pins_aw_taken (c : Cycle WriteRegs WriteInput) :
    (write_pins c).aw_taken = (c.input.s_axil_awvalid && c.state.s_axil_awready) := rfl

@[simp] theorem write_pins_w_taken (c : Cycle WriteRegs WriteInput) :
    (write_pins c).w_taken = (c.input.s_axil_wvalid && c.state.s_axil_wready) := rfl

@[simp] theorem write_pins_b_taken (c : Cycle WriteRegs WriteInput) :
    (write_pins c).b_taken = (c.state.s_axil_bvalid && c.input.s_axil_bready) := rfl

/-- The word `ctl_cmd_afifo` is asked to store in a cycle. -/
def presented (c : Cycle WriteRegs WriteInput) : List (BitVec 32) :=
  if c.state.ctl_cmd_wr_en then [c.state.ctl_cmd_data] else []

/-- The word `ctl_cmd_afifo` stores in a cycle. It discards what is presented while
it is full or in reset. -/
def stored (c : Cycle WriteRegs WriteInput) : List (BitVec 32) :=
  if c.input.ctl_cmd_afifo_full || c.input.ctl_cmd_wr_rst_busy then [] else presented c

/-- The FIFO can store a word in a cycle. -/
def fifo_open (c : Cycle WriteRegs WriteInput) : Prop :=
  c.input.ctl_cmd_afifo_full = false ∧ c.input.ctl_cmd_wr_rst_busy = false

instance (c : Cycle WriteRegs WriteInput) : Decidable (fifo_open c) :=
  inferInstanceAs (Decidable (_ ∧ _))

theorem stored_of_open {c : Cycle WriteRegs WriteInput}
    (h : c.state.ctl_cmd_wr_en = true → fifo_open c) : stored c = presented c := by
  unfold stored presented
  cases hwren : c.state.ctl_cmd_wr_en with
  | false => simp
  | true =>
    obtain ⟨hfull, hbusy⟩ := h hwren
    simp [hfull, hbusy]

/-- The write whose data the process takes in a cycle, with the address it
decodes. -/
def write_taken (c : Cycle WriteRegs WriteInput) : Option (BitVec 12 × BitVec 32) :=
  match c.state.axil_write_state with
  | .AXIL_WRITE_IDLE =>
    if c.input.s_axil_awvalid && c.state.s_axil_awready && c.input.s_axil_wvalid then
      some (c.input.s_axil_awaddr, c.input.s_axil_wdata)
    else none
  | .AXIL_WRITE_WREADY =>
    if c.input.s_axil_wvalid then some (c.state.awaddr, c.input.s_axil_wdata) else none
  | .AXIL_WRITE_WAIT => none
  | .AXIL_WRITE_RESP => none

/-- What software can observe of its writes: the test register and the words
pushed into the command FIFO. -/
@[ext] structure Effects where
  template_reg : BitVec 32
  ctl_cmds : List (BitVec 32)

/-- The effect a single write is meant to have. -/
def Effects.write (e : Effects) (w : BitVec 12 × BitVec 32) : Effects :=
  if w.1 = CTL_CMD then { e with ctl_cmds := e.ctl_cmds ++ [w.2] }
  else if w.1 = TEMPLATE_REG then { e with template_reg := w.2 }
  else e

/-- The effect of a list of writes, from reset. -/
def effects_of (writes : List (BitVec 12 × BitVec 32)) : Effects :=
  writes.foldl Effects.write ⟨0, []⟩

/-- The data words of the writes to the command FIFO's address. -/
def ctl_cmd_words (writes : List (BitVec 12 × BitVec 32)) : List (BitVec 32) :=
  writes.filterMap fun w => if w.1 = CTL_CMD then some w.2 else none

/-- A word that has been taken and is still to be presented. -/
def WriteRegs.held_word (r : WriteRegs) : List (BitVec 32) :=
  if r.ctl_cmd_wr_en then [r.ctl_cmd_data]
  else if r.axil_write_state = .AXIL_WRITE_WAIT then [r.ctl_cmd_data]
  else []

/-- The process takes a write: it is carried out, or it waits because the
command FIFO cannot store its word. -/
def WriteRegs.take (r : WriteRegs) (addr : BitVec 12) (data : BitVec 32) (blocked : Bool) :
    WriteRegs :=
  if addr = CTL_CMD then
    { r with
      ctl_cmd_data := data
      ctl_cmd_wr_en := !blocked
      axil_write_state := if blocked then .AXIL_WRITE_WAIT else .AXIL_WRITE_RESP }
  else if addr = TEMPLATE_REG then
    { r with template_reg := data, axil_write_state := .AXIL_WRITE_RESP }
  else { r with axil_write_state := .AXIL_WRITE_RESP }

/-- The handshake registers in each state that does not answer. -/
def WriteRegs.Settled (r : WriteRegs) : Prop :=
  match r.axil_write_state with
  | .AXIL_WRITE_IDLE =>
    r.s_axil_awready = true ∧ r.s_axil_wready = false ∧ r.ctl_cmd_wr_en = false
  | .AXIL_WRITE_WREADY =>
    r.s_axil_awready = false ∧ r.s_axil_wready = true ∧ r.s_axil_bvalid = false ∧
      r.ctl_cmd_wr_en = false
  | .AXIL_WRITE_WAIT =>
    r.s_axil_awready = false ∧ r.s_axil_bvalid = false ∧ r.ctl_cmd_wr_en = false
  | .AXIL_WRITE_RESP => True

/-- Everything an edge can do to settled registers. -/
inductive WriteEdge (r : WriteRegs) (i : WriteInput) : WriteRegs → Prop where
  | quiet (hstate : r.axil_write_state = .AXIL_WRITE_IDLE) (hawready : r.s_axil_awready = true)
      (hwready : r.s_axil_wready = false) (hwren : r.ctl_cmd_wr_en = false)
      (haw : i.s_axil_awvalid = false) :
      WriteEdge r i { r with s_axil_bvalid := false }
  | address (hstate : r.axil_write_state = .AXIL_WRITE_IDLE) (hawready : r.s_axil_awready = true)
      (hwready : r.s_axil_wready = false) (hwren : r.ctl_cmd_wr_en = false)
      (haw : i.s_axil_awvalid = true) (hw : i.s_axil_wvalid = false) :
      WriteEdge r i { r with
        s_axil_bvalid := false
        s_axil_wready := true
        s_axil_awready := false
        awaddr := i.s_axil_awaddr
        axil_write_state := .AXIL_WRITE_WREADY }
  | write (hstate : r.axil_write_state = .AXIL_WRITE_IDLE) (hawready : r.s_axil_awready = true)
      (hwready : r.s_axil_wready = false) (hwren : r.ctl_cmd_wr_en = false)
      (haw : i.s_axil_awvalid = true) (hw : i.s_axil_wvalid = true) :
      WriteEdge r i (({ r with
        s_axil_bvalid := false
        s_axil_wready := true
        s_axil_awready := false
        awaddr := i.s_axil_awaddr } : WriteRegs).take i.s_axil_awaddr i.s_axil_wdata
          (i.ctl_cmd_afifo_full || i.ctl_cmd_wr_rst_busy))
  | no_word (hstate : r.axil_write_state = .AXIL_WRITE_WREADY) (hawready : r.s_axil_awready = false)
      (hwready : r.s_axil_wready = true) (hbvalid : r.s_axil_bvalid = false)
      (hwren : r.ctl_cmd_wr_en = false) (hw : i.s_axil_wvalid = false) : WriteEdge r i r
  | word (hstate : r.axil_write_state = .AXIL_WRITE_WREADY) (hawready : r.s_axil_awready = false)
      (hwready : r.s_axil_wready = true) (hbvalid : r.s_axil_bvalid = false)
      (hwren : r.ctl_cmd_wr_en = false) (hw : i.s_axil_wvalid = true) :
      WriteEdge r i (({ r with s_axil_wready := false } : WriteRegs).take r.awaddr i.s_axil_wdata
        i.ctl_cmd_afifo_full)
  | blocked (hstate : r.axil_write_state = .AXIL_WRITE_WAIT) (hawready : r.s_axil_awready = false)
      (hbvalid : r.s_axil_bvalid = false) (hwren : r.ctl_cmd_wr_en = false)
      (hflags : (i.ctl_cmd_afifo_full || i.ctl_cmd_wr_rst_busy) = true) : WriteEdge r i r
  | unblocked (hstate : r.axil_write_state = .AXIL_WRITE_WAIT)
      (hawready : r.s_axil_awready = false) (hbvalid : r.s_axil_bvalid = false)
      (hwren : r.ctl_cmd_wr_en = false)
      (hflags : (i.ctl_cmd_afifo_full || i.ctl_cmd_wr_rst_busy) = false) :
      WriteEdge r i { r with
        s_axil_bresp := 0
        ctl_cmd_wr_en := true
        s_axil_bvalid := true
        axil_write_state := .AXIL_WRITE_RESP }
  | respond (hstate : r.axil_write_state = .AXIL_WRITE_RESP) :
      WriteEdge r i { r with
        s_axil_bresp := 0
        s_axil_bvalid := true
        awaddr := 0
        s_axil_awready := true
        s_axil_wready := false
        ctl_cmd_wr_en := false
        axil_write_state := if i.s_axil_bready then .AXIL_WRITE_IDLE else .AXIL_WRITE_RESP }

/-- A step of settled registers is one of the edges. -/
theorem write_edge {r : WriteRegs} (hsettled : r.Settled) (i : WriteInput) :
    WriteEdge r i (write_step r i) := by
  obtain ⟨awready, wready, bvalid, bresp, awaddr, template, data, wren, state⟩ := r
  cases state with
  | AXIL_WRITE_IDLE =>
    obtain ⟨rfl, rfl, rfl⟩ := hsettled
    cases haw : i.s_axil_awvalid with
    | false => simpa [write_step, haw] using WriteEdge.quiet rfl rfl rfl rfl haw
    | true =>
      cases hw : i.s_axil_wvalid with
      | false => simpa [write_step, haw, hw] using WriteEdge.address rfl rfl rfl rfl haw hw
      | true =>
        have hedge : WriteEdge ⟨true, false, bvalid, bresp, awaddr, template, data, false,
          .AXIL_WRITE_IDLE⟩ i _ := .write rfl rfl rfl rfl haw hw
        convert hedge using 1
        cases hflags : i.ctl_cmd_afifo_full || i.ctl_cmd_wr_rst_busy <;>
          simp [write_step, WriteRegs.take, haw, hw, hflags]
  | AXIL_WRITE_WREADY =>
    obtain ⟨rfl, rfl, rfl, rfl⟩ := hsettled
    cases hw : i.s_axil_wvalid with
    | false => simpa [write_step, hw] using WriteEdge.no_word rfl rfl rfl rfl rfl hw
    | true =>
      have hedge : WriteEdge ⟨false, true, false, bresp, awaddr, template, data, false,
        .AXIL_WRITE_WREADY⟩ i _ := .word rfl rfl rfl rfl rfl hw
      convert hedge using 1
      cases hfull : i.ctl_cmd_afifo_full <;> simp [write_step, WriteRegs.take, hw, hfull]
  | AXIL_WRITE_WAIT =>
    obtain ⟨rfl, rfl, rfl⟩ := hsettled
    cases hflags : i.ctl_cmd_afifo_full || i.ctl_cmd_wr_rst_busy with
    | false =>
      have hedge : WriteEdge ⟨false, wready, false, bresp, awaddr, template, data, false,
        .AXIL_WRITE_WAIT⟩ i _ := .unblocked rfl rfl rfl rfl hflags
      convert hedge using 1
      simp only [Bool.or_eq_false_iff] at hflags
      simp [write_step, hflags]
    | true =>
      have hedge : WriteEdge ⟨false, wready, false, bresp, awaddr, template, data, false,
        .AXIL_WRITE_WAIT⟩ i _ := .blocked rfl rfl rfl rfl hflags
      convert hedge using 1
      cases hfull : i.ctl_cmd_afifo_full <;> simp_all [write_step]
  | AXIL_WRITE_RESP => exact .respond rfl

/-- Taking a write leaves the handshake registers alone, and the process waits for
the FIFO or responds next. -/
theorem take_frame (r : WriteRegs) (addr : BitVec 12) (data : BitVec 32) (blocked : Bool) :
    (r.take addr data blocked).s_axil_awready = r.s_axil_awready ∧
      (r.take addr data blocked).s_axil_wready = r.s_axil_wready ∧
      (r.take addr data blocked).s_axil_bvalid = r.s_axil_bvalid ∧
      ((r.take addr data blocked).axil_write_state = .AXIL_WRITE_WAIT ∨
        (r.take addr data blocked).axil_write_state = .AXIL_WRITE_RESP) := by
  unfold WriteRegs.take
  by_cases hcmd : addr = CTL_CMD
  · cases blocked <;> simp [hcmd]
  · rw [if_neg hcmd]
    by_cases hreg : addr = TEMPLATE_REG <;> simp [hreg]

/-- Taking a write presents a word next exactly when it is one for a FIFO with room. -/
theorem take_wr_en {r : WriteRegs} (addr : BitVec 12) (data : BitVec 32) (blocked : Bool)
    (hwren : r.ctl_cmd_wr_en = false) :
    (r.take addr data blocked).ctl_cmd_wr_en = (decide (addr = CTL_CMD) && !blocked) := by
  unfold WriteRegs.take
  by_cases hcmd : addr = CTL_CMD
  · simp [hcmd]
  · rw [if_neg hcmd, decide_eq_false hcmd]
    by_cases hreg : addr = TEMPLATE_REG <;> simp [hreg, hwren]

/-- A process that waits for the FIFO is not presenting a word. -/
theorem take_wait_quiet {r : WriteRegs} (addr : BitVec 12) (data : BitVec 32) (blocked : Bool)
    (hwait : (r.take addr data blocked).axil_write_state = .AXIL_WRITE_WAIT) :
    (r.take addr data blocked).ctl_cmd_wr_en = false := by
  revert hwait
  unfold WriteRegs.take
  by_cases hcmd : addr = CTL_CMD
  · cases blocked <;> simp [hcmd]
  · rw [if_neg hcmd]
    by_cases hreg : addr = TEMPLATE_REG <;> simp [hreg]

theorem take_settled {r : WriteRegs} (addr : BitVec 12) (data : BitVec 32) (blocked : Bool)
    (hawready : r.s_axil_awready = false) (hbvalid : r.s_axil_bvalid = false) :
    (r.take addr data blocked).Settled := by
  obtain ⟨hawready', _, hbvalid', hwait | hresp⟩ := take_frame r addr data blocked
  · simp only [WriteRegs.Settled, hwait]
    exact ⟨hawready'.trans hawready, hbvalid'.trans hbvalid, take_wait_quiet addr data blocked hwait⟩
  · simp only [WriteRegs.Settled, hresp]

/-- Taking a write leaves its word to be presented, or changes the test register. -/
theorem take_effects {r : WriteRegs} (l : List (BitVec 32)) (addr : BitVec 12) (data : BitVec 32)
    (blocked : Bool) (hwren : r.ctl_cmd_wr_en = false) :
    (⟨(r.take addr data blocked).template_reg, l ++ (r.take addr data blocked).held_word⟩ : Effects) =
      Effects.write ⟨r.template_reg, l⟩ (addr, data) := by
  unfold WriteRegs.take Effects.write
  by_cases hcmd : addr = CTL_CMD
  · cases blocked <;> simp [hcmd, WriteRegs.held_word]
  · rw [if_neg hcmd, if_neg hcmd]
    by_cases hreg : addr = TEMPLATE_REG <;> simp [hreg, WriteRegs.held_word, hwren]

/-- The writes the process has taken in the cycles of a history. -/
def taken (h : List (Cycle WriteRegs WriteInput)) : List (BitVec 12 × BitVec 32) :=
  h.flatMap fun c => (write_taken c).toList

@[simp] theorem taken_snoc (h : List (Cycle WriteRegs WriteInput)) (c : Cycle WriteRegs WriteInput) :
    taken (h ++ [c]) = taken h ++ (write_taken c).toList := by
  simp [taken]

theorem WriteEdge.settled {r r' : WriteRegs} {i : WriteInput} (hedge : WriteEdge r i r') :
    r'.Settled := by
  cases hedge with
  | quiet hstate hawready hwready hwren haw => simp [WriteRegs.Settled, hstate, hawready, hwready, hwren]
  | address hstate hawready hwready hwren haw hw => simp [WriteRegs.Settled, hwren]
  | write hstate hawready hwready hwren haw hw => exact take_settled _ _ _ rfl rfl
  | no_word hstate hawready hwready hbvalid hwren hw =>
    simp [WriteRegs.Settled, hstate, hawready, hwready, hbvalid, hwren]
  | word hstate hawready hwready hbvalid hwren hw => exact take_settled _ _ _ hawready hbvalid
  | blocked hstate hawready hbvalid hwren hflags =>
    simp [WriteRegs.Settled, hstate, hawready, hbvalid, hwren]
  | unblocked hstate hawready hbvalid hwren hflags => simp [WriteRegs.Settled]
  | respond hstate => cases i.s_axil_bready <;> simp [WriteRegs.Settled]

/-- An edge presents the word that was held, and takes over the write it takes. -/
theorem WriteEdge.effects {r r' : WriteRegs} {i : WriteInput} (hedge : WriteEdge r i r')
    (l : List (BitVec 32)) :
    (⟨r'.template_reg, l ++ presented ⟨r, i⟩ ++ r'.held_word⟩ : Effects) =
      (write_taken ⟨r, i⟩).toList.foldl Effects.write ⟨r.template_reg, l ++ r.held_word⟩ := by
  cases hedge with
  | quiet hstate hawready hwready hwren haw =>
    simp [presented, write_taken, WriteRegs.held_word, hstate, hwren, haw]
  | address hstate hawready hwready hwren haw hw =>
    simp [presented, write_taken, WriteRegs.held_word, hstate, hwren, hw]
  | write hstate hawready hwready hwren haw hw =>
    rw [take_effects]
    · simp [presented, write_taken, WriteRegs.held_word, hstate, hwren, haw, hawready, hw]
    · exact hwren
  | no_word hstate hawready hwready hbvalid hwren hw =>
    simp [presented, write_taken, WriteRegs.held_word, hstate, hwren, hw]
  | word hstate hawready hwready hbvalid hwren hw =>
    rw [take_effects]
    · simp [presented, write_taken, WriteRegs.held_word, hstate, hwren, hw]
    · exact hwren
  | blocked hstate hawready hbvalid hwren hflags =>
    simp [presented, write_taken, WriteRegs.held_word, hstate, hwren]
  | unblocked hstate hawready hbvalid hwren hflags =>
    simp [presented, write_taken, WriteRegs.held_word, hstate, hwren]
  | respond hstate =>
    cases hwren : r.ctl_cmd_wr_en <;> cases hbready : i.s_axil_bready <;>
      simp [presented, write_taken, WriteRegs.held_word, hstate, hwren]

/-- Over a run of any inputs the registers stay settled, and what software can
observe is the effect of the writes the process has taken, one of which may still
be on its way to the FIFO. -/
theorem run_effects (inputs : List WriteInput) :
    (writeMachine.run inputs).Settled ∧
      (⟨(writeMachine.run inputs).template_reg,
        (writeMachine.trace inputs).flatMap presented ++ (writeMachine.run inputs).held_word⟩ :
          Effects) = effects_of (taken (writeMachine.trace inputs)) := by
  apply writeMachine.free_history_induction (fun h r =>
    r.Settled ∧ (⟨r.template_reg, h.flatMap presented ++ r.held_word⟩ : Effects) =
      effects_of (taken h))
  · exact ⟨⟨rfl, rfl, rfl⟩, rfl⟩
  · intro h r i ⟨hsettled, heffects⟩
    have hedge := write_edge hsettled i
    refine ⟨hedge.settled, ?_⟩
    have hstep := hedge.effects (h.flatMap presented)
    rw [heffects] at hstep
    simp only [List.flatMap_append, List.flatMap_singleton, taken_snoc, effects_of, List.foldl_append]
    exact hstep

end reconic.control_command_processor
