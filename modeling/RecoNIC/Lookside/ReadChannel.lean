import RecoNIC.Lookside.WriteChannel
import RecoNIC.Clocked.Fifo

open clocked clocked.axi_lite

namespace reconic.control_command_processor

def DEFAULT_VALUE : BitVec 32 := 0xdeadbeef
def KER_STS : BitVec 12 := 0x004
def JOB_SUBMITTED : BitVec 12 := 0x008
def JOB_COMPLETED_NOT_READ : BitVec 12 := 0x00C

/-- The states of the read process. Its register has two bits, of which two
encodings are not named in the source. -/
inductive ReadState where
  | AXIL_READ_IDLE
  | AXIL_READ_RESP
  | unnamed
  deriving DecidableEq

/-- The registers of the AXI-Lite read process. -/
structure ReadRegs where
  s_axil_arready : Bool
  s_axil_rvalid : Bool
  s_axil_rdata : BitVec 32
  s_axil_rresp : BitVec 2
  araddr : BitVec 12
  ker_status_rd_en : Bool
  axil_read_state : ReadState
  deriving DecidableEq

/-- The status FIFO and the process on its read side. -/
structure ReadSide where
  regs : ReadRegs
  ker_status_afifo : Fifo (BitVec 32) 2048

/-- What the read process samples: the master's side of the read channels, the
words the kernel writes before the next edge of `axil_aclk`, and the registers
and counts that other processes own. -/
structure ReadInput where
  s_axil_arvalid : Bool
  s_axil_araddr : BitVec 12
  s_axil_rready : Bool
  ker_status_data : List (BitVec 32)
  template_reg : BitVec 32
  ctl_cmd_afifo_wr_data_count : BitVec 12
  ker_status_afifo_rd_data_count : BitVec 12

def read_reset : ReadSide where
  regs :=
    { s_axil_arready := true
      s_axil_rvalid := false
      s_axil_rdata := 0
      s_axil_rresp := 0
      araddr := 0
      ker_status_rd_en := false
      axil_read_state := .AXIL_READ_IDLE }
  ker_status_afifo := Fifo.clear _ _

/-- The word an accepted read loads into `s_axil_rdata`. -/
def answer (c : Cycle ReadSide ReadInput) : BitVec 32 :=
  if c.input.s_axil_araddr = KER_STS then c.state.ker_status_afifo.dout.getD DEFAULT_VALUE
  else if c.input.s_axil_araddr = JOB_SUBMITTED then
    c.input.ctl_cmd_afifo_wr_data_count.setWidth 32
  else if c.input.s_axil_araddr = JOB_COMPLETED_NOT_READ then
    c.input.ker_status_afifo_rd_data_count.setWidth 32
  else if c.input.s_axil_araddr = TEMPLATE_REG then c.input.template_reg
  else DEFAULT_VALUE

/-- One edge of `axil_aclk` for the read process. -/
def read_regs_step (s : ReadSide) (i : ReadInput) : ReadRegs :=
  let r := s.regs
  let next := { r with ker_status_rd_en := false }
  match r.axil_read_state with
  | .AXIL_READ_IDLE =>
    if r.s_axil_arready && i.s_axil_arvalid then
      { next with
        s_axil_arready := false
        s_axil_rvalid := true
        s_axil_rresp := 0
        araddr := i.s_axil_araddr
        s_axil_rdata := answer ⟨s, i⟩
        ker_status_rd_en := decide (i.s_axil_araddr = KER_STS) && !s.ker_status_afifo.empty
        axil_read_state := .AXIL_READ_RESP }
    else next
  | .AXIL_READ_RESP =>
    if i.s_axil_rready && r.s_axil_rvalid then
      { next with
        s_axil_rvalid := false
        s_axil_arready := true
        axil_read_state := .AXIL_READ_IDLE }
    else next
  | .unnamed =>
    { next with
      s_axil_arready := true
      s_axil_rvalid := false
      s_axil_rdata := 0
      s_axil_rresp := 0
      axil_read_state := .AXIL_READ_IDLE }

/-- One edge of `axil_aclk`. The pop request is a register, so the FIFO sees it a
cycle after the read process has sampled the head. -/
def read_step (s : ReadSide) (i : ReadInput) : ReadSide where
  regs := read_regs_step s i
  ker_status_afifo := s.ker_status_afifo.clock i.ker_status_data s.regs.ker_status_rd_en

def readMachine : Machine ReadSide ReadInput where
  reset := read_reset
  step := read_step

/-- The read channels of the interface during a cycle. -/
@[simps]
def read_pins (c : Cycle ReadSide ReadInput) : ReadPins (BitVec 12) (BitVec 32) where
  arvalid := c.input.s_axil_arvalid
  arready := c.state.regs.s_axil_arready
  araddr := c.input.s_axil_araddr
  rvalid := c.state.regs.s_axil_rvalid
  rready := c.input.s_axil_rready
  rdata := c.state.regs.s_axil_rdata

@[simp] theorem read_pins_ar_taken (c : Cycle ReadSide ReadInput) :
    (read_pins c).ar_taken = (c.input.s_axil_arvalid && c.state.regs.s_axil_arready) := rfl

@[simp] theorem read_pins_r_taken (c : Cycle ReadSide ReadInput) :
    (read_pins c).r_taken = (c.state.regs.s_axil_rvalid && c.input.s_axil_rready) := rfl

/-- The cycles in which a read is accepted. -/
def reads (h : List (Cycle ReadSide ReadInput)) : List (Cycle ReadSide ReadInput) :=
  h.filter fun c => (read_pins c).ar_taken

/-- The words the kernel has pushed while the FIFO was not full. -/
def pushed (h : List (Cycle ReadSide ReadInput)) : List (BitVec 32) :=
  h.flatMap fun c => c.state.ker_status_afifo.accepted c.input.ker_status_data

/-- The words that have been removed from the FIFO. -/
def removed (h : List (Cycle ReadSide ReadInput)) : List (BitVec 32) :=
  h.flatMap fun c => c.state.ker_status_afifo.popped c.state.regs.ker_status_rd_en

/-- The word at the head of the FIFO, for a read of the status register that is
accepted while there is one. -/
def status_word (c : Cycle ReadSide ReadInput) : List (BitVec 32) :=
  if c.input.s_axil_araddr = KER_STS then c.state.ker_status_afifo.dout.toList else []

/-- The data word of a read, when it is one of the status register that was
accepted while the FIFO was not empty. -/
def status_value (read : Cycle ReadSide ReadInput × BitVec 32) : List (BitVec 32) :=
  if read.1.input.s_axil_araddr = KER_STS ∧ read.1.state.ker_status_afifo.empty = false then
    [read.2]
  else []

/-- The data words the master has received for such reads. Responses come in the
order of the accepted reads. -/
def status_values (h : List (Cycle ReadSide ReadInput)) : List (BitVec 32) :=
  ((reads h).zip (results (h.map read_pins))).flatMap status_value

/-- What the status read path owes its master in the state a history has led to. -/
structure StatusDelivered (h : List (Cycle ReadSide ReadInput)) (s : ReadSide) : Prop where
  in_order : status_values h <+: pushed h
  only_reads_remove : removed h ++ s.ker_status_afifo.popped s.regs.ker_status_rd_en =
    (reads h).flatMap status_word
  one_response : (results (h.map read_pins)).length + s.regs.s_axil_rvalid.toNat = (reads h).length
  data_stable : ∀ c ∈ h, c.state.regs.s_axil_rvalid = true → c.input.s_axil_rready = false →
    (read_step c.state c.input).regs.s_axil_rvalid = true ∧
      (read_step c.state c.input).regs.s_axil_rdata = c.state.regs.s_axil_rdata

/-- The handshake registers in each state the process can be in. -/
def ReadRegs.Settled (r : ReadRegs) : Prop :=
  match r.axil_read_state with
  | .AXIL_READ_IDLE =>
    r.s_axil_arready = true ∧ r.s_axil_rvalid = false ∧ r.ker_status_rd_en = false
  | .AXIL_READ_RESP => r.s_axil_arready = false ∧ r.s_axil_rvalid = true
  | .unnamed => False

/-- Everything an edge can do to settled registers of the read process. -/
inductive ReadEdge (s : ReadSide) (i : ReadInput) : ReadRegs → Prop where
  | quiet (hstate : s.regs.axil_read_state = .AXIL_READ_IDLE)
      (harready : s.regs.s_axil_arready = true) (hrvalid : s.regs.s_axil_rvalid = false)
      (hrden : s.regs.ker_status_rd_en = false) (har : i.s_axil_arvalid = false) :
      ReadEdge s i s.regs
  | request (hstate : s.regs.axil_read_state = .AXIL_READ_IDLE)
      (harready : s.regs.s_axil_arready = true) (hrvalid : s.regs.s_axil_rvalid = false)
      (hrden : s.regs.ker_status_rd_en = false) (har : i.s_axil_arvalid = true) :
      ReadEdge s i { s.regs with
        s_axil_arready := false
        s_axil_rvalid := true
        s_axil_rresp := 0
        araddr := i.s_axil_araddr
        s_axil_rdata := answer ⟨s, i⟩
        ker_status_rd_en := decide (i.s_axil_araddr = KER_STS) && !s.ker_status_afifo.empty
        axil_read_state := .AXIL_READ_RESP }
  | hold (hstate : s.regs.axil_read_state = .AXIL_READ_RESP)
      (harready : s.regs.s_axil_arready = false) (hrvalid : s.regs.s_axil_rvalid = true)
      (hr : i.s_axil_rready = false) :
      ReadEdge s i { s.regs with ker_status_rd_en := false }
  | deliver (hstate : s.regs.axil_read_state = .AXIL_READ_RESP)
      (harready : s.regs.s_axil_arready = false) (hrvalid : s.regs.s_axil_rvalid = true)
      (hr : i.s_axil_rready = true) :
      ReadEdge s i { s.regs with
        ker_status_rd_en := false
        s_axil_rvalid := false
        s_axil_arready := true
        axil_read_state := .AXIL_READ_IDLE }

/-- A step of settled registers is one of the edges. -/
theorem read_edge {s : ReadSide} (hsettled : s.regs.Settled) (i : ReadInput) :
    ReadEdge s i (read_step s i).regs := by
  change ReadEdge s i (read_regs_step s i)
  cases hstate : s.regs.axil_read_state with
  | AXIL_READ_IDLE =>
    simp only [ReadRegs.Settled, hstate] at hsettled
    obtain ⟨harready, hrvalid, hrden⟩ := hsettled
    cases har : i.s_axil_arvalid with
    | false =>
      convert ReadEdge.quiet hstate harready hrvalid hrden har using 1
      simp only [read_regs_step, hstate, har, Bool.and_false, Bool.false_eq_true, if_false]
      rw [← hrden, ← hstate]
    | true =>
      convert ReadEdge.request hstate harready hrvalid hrden har using 1
      simp [read_regs_step, hstate, harready, har]
  | AXIL_READ_RESP =>
    simp only [ReadRegs.Settled, hstate] at hsettled
    obtain ⟨harready, hrvalid⟩ := hsettled
    cases hr : i.s_axil_rready with
    | false =>
      convert ReadEdge.hold hstate harready hrvalid hr using 1
      simp [read_regs_step, hstate, hr]
    | true =>
      convert ReadEdge.deliver hstate harready hrvalid hr using 1
      simp [read_regs_step, hstate, hr, hrvalid]
  | unnamed =>
    simp only [ReadRegs.Settled, hstate] at hsettled

theorem ReadEdge.settled {s : ReadSide} {i : ReadInput} {r : ReadRegs} (hedge : ReadEdge s i r) :
    r.Settled := by
  cases hedge with
  | quiet hstate harready hrvalid hrden har =>
    simp only [ReadRegs.Settled, hstate]
    exact ⟨harready, hrvalid, hrden⟩
  | request hstate harready hrvalid hrden har => exact ⟨rfl, rfl⟩
  | hold hstate harready hrvalid hr =>
    simp only [ReadRegs.Settled, hstate]
    exact ⟨harready, hrvalid⟩
  | deliver hstate harready hrvalid hr => exact ⟨rfl, rfl, rfl⟩

theorem reads_snoc (h : List (Cycle ReadSide ReadInput)) (c : Cycle ReadSide ReadInput) :
    reads (h ++ [c]) = reads h ++ if (read_pins c).ar_taken then [c] else [] := by
  simp [reads, List.filter_cons]

/-- Every accepted read is answered once: the data received, and the data on
offer, are the answers to the accepted reads. -/
def Answered (h : List (Cycle ReadSide ReadInput)) (s : ReadSide) : Prop :=
  results (h.map read_pins) ++ (if s.regs.s_axil_rvalid then [s.regs.s_axil_rdata] else []) =
    (reads h).map answer

/-- The words removed, and the word whose removal has been requested, are the
heads that status reads have seen. -/
def RemovedByReads (h : List (Cycle ReadSide ReadInput)) (s : ReadSide) : Prop :=
  removed h ++ s.ker_status_afifo.popped s.regs.ker_status_rd_en = (reads h).flatMap status_word

theorem Answered.step {h : List (Cycle ReadSide ReadInput)} {s s' : ReadSide} {i : ReadInput}
    (hanswered : Answered h s) (hedge : ReadEdge s i s'.regs) : Answered (h ++ [⟨s, i⟩]) s' := by
  unfold Answered at hanswered ⊢
  rw [List.map_append, List.map_singleton, results_snoc, reads_snoc, List.map_append, ← hanswered]
  generalize s'.regs = r at hedge ⊢
  cases hedge with
  | quiet hstate harready hrvalid hrden har =>
    simp [hrvalid, har]
  | request hstate harready hrvalid hrden har =>
    simp [hrvalid, har, harready]
  | hold hstate harready hrvalid hr =>
    simp [hrvalid, harready, hr]
  | deliver hstate harready hrvalid hr =>
    simp [hrvalid, harready, hr]

/-- The pop requested for a status read removes the word the read has seen, even
though the FIFO is written at the same edge. -/
theorem popped_after_request (s : ReadSide) (i : ReadInput) :
    (s.ker_status_afifo.clock i.ker_status_data false).popped
        (decide (i.s_axil_araddr = KER_STS) && !s.ker_status_afifo.empty) =
      status_word ⟨s, i⟩ := by
  unfold status_word
  by_cases haddr : i.s_axil_araddr = KER_STS
  · cases hcontents : s.ker_status_afifo.contents with
    | nil => simp [haddr, Fifo.empty, Fifo.dout, hcontents]
    | cons word rest => simp [haddr, Fifo.empty, Fifo.dout, Fifo.popped, Fifo.clock_contents, hcontents]
  · simp [haddr]

theorem RemovedByReads.step {h : List (Cycle ReadSide ReadInput)} {s : ReadSide} {i : ReadInput}
    (hremoved : RemovedByReads h s) (hedge : ReadEdge s i (read_step s i).regs) :
    RemovedByReads (h ++ [⟨s, i⟩]) (read_step s i) := by
  unfold RemovedByReads at hremoved ⊢
  rw [reads_snoc, List.flatMap_append, ← hremoved]
  have hfifo : (read_step s i).ker_status_afifo =
      s.ker_status_afifo.clock i.ker_status_data s.regs.ker_status_rd_en := rfl
  rw [hfifo]
  generalize (read_step s i).regs = r at hedge ⊢
  simp only [removed, List.flatMap_append, List.flatMap_singleton, List.append_assoc]
  cases hedge with
  | quiet hstate harready hrvalid hrden har =>
    simp [har, hrden]
  | request hstate harready hrvalid hrden har =>
    simp only [hrden]
    rw [popped_after_request]
    simp [har, harready]
  | hold hstate harready hrvalid hr =>
    simp [harready]
  | deliver hstate harready hrvalid hr =>
    simp [harready]

/-- The invariant of the read side, in every run. -/
structure ReadInv (h : List (Cycle ReadSide ReadInput)) (s : ReadSide) : Prop where
  settled : s.regs.Settled
  answered : Answered h s
  removed_by_reads : RemovedByReads h s

theorem read_inv (inputs : List ReadInput) :
    ReadInv (readMachine.trace inputs) (readMachine.run inputs) := by
  apply readMachine.free_history_induction ReadInv
  · exact ⟨⟨rfl, rfl, rfl⟩, rfl, rfl⟩
  · intro h s i ⟨hsettled, hanswered, hremoved⟩
    have hedge := read_edge hsettled i
    exact ⟨hedge.settled, hanswered.step hedge, hremoved.step hedge⟩

/-- The answer to a status read of a non-empty FIFO is the word at its head. -/
theorem status_value_answer (c : Cycle ReadSide ReadInput) :
    status_value (c, answer c) = status_word c := by
  unfold status_value status_word answer
  by_cases haddr : c.input.s_axil_araddr = KER_STS
  · cases hcontents : c.state.ker_status_afifo.contents with
    | nil => simp [haddr, Fifo.dout, hcontents]
    | cons word rest => simp [haddr, Fifo.dout, hcontents]
  · simp [haddr]

/-- The data received so far for status reads are the heads seen by the first
status reads. -/
theorem status_values_initial {cycles : List (Cycle ReadSide ReadInput)} {datas : List (BitVec 32)}
    (hdatas : datas <+: cycles.map answer) :
    (cycles.zip datas).flatMap status_value <+: cycles.flatMap status_word := by
  induction cycles generalizing datas with
  | nil => simp
  | cons c cycles ih =>
    cases datas with
    | nil => simp
    | cons data datas =>
      rw [List.map_cons, List.cons_prefix_cons] at hdatas
      obtain ⟨rfl, hrest⟩ := hdatas
      rw [List.zip_cons_cons, List.flatMap_cons, List.flatMap_cons, status_value_answer,
        List.prefix_append_right_inj]
      exact ih hrest

/-- The status read path. After any run, the values received from the status
register are the first of the words pushed, in order; nothing else removes a
word; every accepted read has had its one response or is having it; and a
response stays as it is until it is accepted. -/
theorem status_delivered (inputs : List ReadInput) :
    StatusDelivered (readMachine.trace inputs) (readMachine.run inputs) := by
  obtain ⟨hsettled, hanswered, hremoved⟩ := read_inv inputs
  have hstream : removed (readMachine.trace inputs) ++
      (readMachine.run inputs).ker_status_afifo.contents = pushed (readMachine.trace inputs) :=
    Fifo.stream_law readMachine ReadSide.ker_status_afifo (fun c => c.input.ker_status_data)
      (fun c => c.state.regs.ker_status_rd_en) rfl (fun _ _ => rfl) inputs
  refine ⟨?_, hremoved, ?_, ?_⟩
  · have hreceived : status_values (readMachine.trace inputs) <+:
        (reads (readMachine.trace inputs)).flatMap status_word := by
      apply status_values_initial
      rw [← hanswered]
      exact List.prefix_append _ _
    refine hreceived.trans ?_
    rw [← hremoved, ← hstream, List.prefix_append_right_inj]
    exact Fifo.popped_initial _ _
  · have hlength := congrArg List.length hanswered
    rw [List.length_map, List.length_append] at hlength
    rw [← hlength]
    cases (readMachine.run inputs).regs.s_axil_rvalid <;> rfl
  · intro c hc hrvalid hrready
    obtain ⟨earlier, _, _, hstate⟩ := readMachine.mem_trace hc
    have hsettled := hstate ▸ (read_inv earlier).settled
    have hedge := read_edge hsettled c.input
    generalize (read_step c.state c.input).regs = r at hedge ⊢
    cases hedge with
    | quiet _ _ hidle => rw [hidle] at hrvalid; cases hrvalid
    | request _ _ hidle => rw [hidle] at hrvalid; cases hrvalid
    | hold => exact ⟨hrvalid, rfl⟩
    | deliver _ _ _ hr => rw [hr] at hrready; cases hrready

end reconic.control_command_processor
