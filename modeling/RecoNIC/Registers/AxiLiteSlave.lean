import RecoNIC.Registers.ReadToClear

open clocked clocked.axi_lite

namespace reconic.rn_reg_control

/-- The write channels of the register interface during one cycle. -/
@[simps]
def write_pins (c : Cycle Regs Input) : WritePins (BitVec 12) (BitVec 32) where
  awvalid := c.input.s_axil_reg_awvalid
  awready := c.state.write.s_axil_reg_awready
  awaddr := c.input.s_axil_reg_awaddr
  wvalid := c.input.s_axil_reg_wvalid
  wready := c.state.write.s_axil_reg_wready
  wdata := c.input.s_axil_reg_wdata
  bvalid := c.state.write.s_axil_reg_bvalid
  bready := c.input.s_axil_reg_bready

@[simp] theorem write_pins_aw_taken (c : Cycle Regs Input) :
    (write_pins c).aw_taken =
      (c.input.s_axil_reg_awvalid && c.state.write.s_axil_reg_awready) := rfl

@[simp] theorem write_pins_w_taken (c : Cycle Regs Input) :
    (write_pins c).w_taken = (c.input.s_axil_reg_wvalid && c.state.write.s_axil_reg_wready) := rfl

@[simp] theorem write_pins_b_taken (c : Cycle Regs Input) :
    (write_pins c).b_taken = (c.state.write.s_axil_reg_bvalid && c.input.s_axil_reg_bready) := rfl

def write_history (h : List (Cycle Regs Input)) : List (WritePins (BitVec 12) (BitVec 32)) :=
  h.map write_pins

/-- The reads that have been accepted. -/
def reads (h : List (Cycle Regs Input)) : Nat := h.countP fun c => (read_pins c).ar_taken

/-- The data of the last write to the template register, 0 when there is none. -/
def last_template (writes : List (BitVec 12 × BitVec 32)) : BitVec 32 :=
  ((writes.filter fun w => w.1 == TEMPLATE_REG).getLast?.map Prod.snd).getD 0

/-- The write whose address was accepted in the latest cycle while its word was on offer
but not accepted yet. -/
def begun_with_word (h : List (WritePins (BitVec 12) (BitVec 32))) :
    List (BitVec 12 × BitVec 32) :=
  match h.getLast? with
  | some p => if p.aw_taken && p.wvalid && !p.wready then [(p.awaddr, p.wdata)] else []
  | none => []

@[simp] theorem write_history_snoc (h : List (Cycle Regs Input)) (c : Cycle Regs Input) :
    write_history (h ++ [c]) = write_history h ++ [write_pins c] := by
  rw [write_history, List.map_append]
  rfl

@[simp] theorem begun_with_word_snoc (h : List (WritePins (BitVec 12) (BitVec 32)))
    (p : WritePins (BitVec 12) (BitVec 32)) :
    begun_with_word (h ++ [p]) =
      if p.aw_taken && p.wvalid && !p.wready then [(p.awaddr, p.wdata)] else [] := by
  rw [begun_with_word, List.getLast?_concat]

/-- The register is updated as the last of the writes asks for. -/
theorem last_template_snoc (writes : List (BitVec 12 × BitVec 32)) (awaddr : BitVec 12)
    (wdata : BitVec 32) : last_template (writes ++ [(awaddr, wdata)]) =
      template_next (last_template writes) awaddr wdata := by
  rw [last_template, template_next, List.filter_append]
  by_cases htemplate : awaddr = TEMPLATE_REG
  · simp [htemplate]
  · simp [htemplate, last_template]

theorem reads_snoc (h : List (Cycle Regs Input)) (c : Cycle Regs Input) :
    reads (h ++ [c]) = reads h + (read_pins c).ar_taken.toNat := by
  rw [reads, List.countP_append, List.countP_singleton, reads]
  cases (read_pins c).ar_taken <;> rfl

/-- How far the latest write has come, and what has been made of the writes so far. -/
inductive WriteProgress (h : List (WritePins (BitVec 12) (BitVec 32))) (r : WriteRegs) : Prop where
  | idle (state : r.axil_write_state = .AXIL_WRITE_IDLE)
      (awready : r.s_axil_reg_awready = true) (wready : r.s_axil_reg_wready = false)
      (bvalid : r.s_axil_reg_bvalid = false)
      (even : (addresses h).length = (words h).length)
      (answered : responses h = (words h).length)
      (template : r.template_reg = last_template ((addresses h).zip (words h)))
      (begun : begun_with_word h = [])
  | address (addrs : List (BitVec 12)) (state : r.axil_write_state = .AXIL_WRITE_WREADY)
      (awready : r.s_axil_reg_awready = false) (wready : r.s_axil_reg_wready = true)
      (bvalid : r.s_axil_reg_bvalid = false)
      (pending : addresses h = addrs ++ [r.awaddr])
      (even : addrs.length = (words h).length)
      (answered : responses h = (words h).length)
      (template : r.template_reg = last_template (addrs.zip (words h)))
      (begun : begun_with_word h = [])
  | word_on_offer (addrs : List (BitVec 12)) (awaddr : BitVec 12) (wdata : BitVec 32)
      (state : r.axil_write_state = .AXIL_WRITE_RESP)
      (awready : r.s_axil_reg_awready = false) (wready : r.s_axil_reg_wready = true)
      (bvalid : r.s_axil_reg_bvalid = false)
      (pending : addresses h = addrs ++ [awaddr])
      (even : addrs.length = (words h).length)
      (answered : responses h = (words h).length)
      (template : r.template_reg = last_template (addrs.zip (words h) ++ [(awaddr, wdata)]))
      (begun : begun_with_word h = [(awaddr, wdata)])
      (waiting : waiting_word h = some wdata)
  | response (state : r.axil_write_state = .AXIL_WRITE_RESP)
      (awready : r.s_axil_reg_awready = false) (wready : r.s_axil_reg_wready = false)
      (bvalid : r.s_axil_reg_bvalid = true)
      (even : (addresses h).length = (words h).length)
      (unanswered : responses h + 1 = (words h).length)
      (template : r.template_reg = last_template ((addresses h).zip (words h)))
      (begun : begun_with_word h = [])

theorem WriteProgress.step {h : List (Cycle Regs Input)} {s : Regs} (i : Input)
    (hprogress : WriteProgress (write_history h) s.write)
    (hmaster : WriteMaster (write_history (h ++ [⟨s, i⟩]))) :
    WriteProgress (write_history (h ++ [⟨s, i⟩])) (s.write.clock i) := by
  rw [write_history_snoc] at hmaster ⊢
  cases hprogress with
  | idle hstate hawready hwready hbvalid heven hanswered htemplate hbegun =>
    cases haw : i.s_axil_reg_awvalid with
    | false =>
      have hsame : s.write.clock i = s.write := by simp [WriteRegs.clock, hstate, haw]
      rw [hsame]
      apply WriteProgress.idle hstate hawready hwready hbvalid <;>
        simp [haw, hwready, hbvalid, heven, hanswered, htemplate]
    | true =>
      cases hw : i.s_axil_reg_wvalid with
      | false =>
        apply WriteProgress.address (addresses (write_history h)) <;>
          simp [WriteRegs.clock, hstate, haw, hawready, hw, hbvalid, heven, hanswered, htemplate]
      | true =>
        apply WriteProgress.word_on_offer (addresses (write_history h)) i.s_axil_reg_awaddr
            i.s_axil_reg_wdata <;>
          simp [WriteRegs.clock, hstate, haw, hawready, hw, hwready, last_template_snoc, hbvalid,
            heven, hanswered, htemplate]
  | address addrs hstate hawready hwready hbvalid hpending heven hanswered htemplate hbegun =>
    cases hw : i.s_axil_reg_wvalid with
    | false =>
      have hsame : s.write.clock i = s.write := by simp [WriteRegs.clock, hstate, hw]
      rw [hsame]
      apply WriteProgress.address addrs hstate hawready hwready hbvalid <;>
        simp [hawready, hw, hbvalid, hpending, heven, hanswered, htemplate]
    | true =>
      apply WriteProgress.response <;>
        simp [WriteRegs.clock, hstate, hw, hawready, hwready, hbvalid, last_template_snoc, hpending,
          heven, hanswered, htemplate, List.zip_append]
  | word_on_offer addrs awaddr wdata hstate hawready hwready hbvalid hpending heven hanswered
      htemplate hbegun hwaiting =>
    obtain ⟨hw, hdata⟩ := hmaster.word_held hwaiting
    replace hw : i.s_axil_reg_wvalid = true := hw
    replace hdata : i.s_axil_reg_wdata = wdata := hdata
    apply WriteProgress.response <;>
      simp [WriteRegs.clock, hstate, hw, hdata, hawready, hwready, hbvalid, hpending, heven,
        hanswered, htemplate, List.zip_append]
  | response hstate hawready hwready hbvalid heven hunanswered htemplate hbegun =>
    cases hb : i.s_axil_reg_bready with
    | false =>
      have hsame : s.write.clock i = s.write := by simp [WriteRegs.clock, hstate, hwready, hb]
      rw [hsame]
      apply WriteProgress.response hstate hawready hwready hbvalid <;>
        simp [hawready, hwready, hb, heven, hunanswered, htemplate]
    | true =>
      apply WriteProgress.idle <;>
        simp [WriteRegs.clock, hstate, hwready, hbvalid, hb, hawready, heven, hunanswered,
          htemplate]

theorem write_progress (inputs : List Input)
    (hmaster : WriteMaster (write_history (machine.trace inputs))) :
    WriteProgress (write_history (machine.trace inputs)) (machine.run inputs).write := by
  apply machine.history_induction (fun h => WriteMaster (write_history h))
    (fun h s => WriteProgress (write_history h) s.write)
  · intro h c hmaster
    rw [write_history_snoc] at hmaster
    exact hmaster.initial
  · exact .idle rfl rfl rfl rfl rfl rfl rfl rfl
  · intro h s i hmaster hprogress
    exact hprogress.step i hmaster
  · exact hmaster

/-- Both halves of every write but the latest have been handed over, and every write of
which both have been is answered or has its response on offer. -/
theorem WriteProgress.counts {h : List (WritePins (BitVec 12) (BitVec 32))} {r : WriteRegs}
    (hprogress : WriteProgress h r) :
    (words h).length ≤ (addresses h).length ∧ (addresses h).length ≤ (words h).length + 1 ∧
      responses h + r.s_axil_reg_bvalid.toNat = (completed h).length := by
  rw [completed_length]
  cases hprogress with
  | idle hstate hawready hwready hbvalid heven hanswered htemplate hbegun =>
    rw [hbvalid, Bool.toNat_false]
    omega
  | address addrs hstate hawready hwready hbvalid hpending heven hanswered htemplate hbegun =>
    rw [hbvalid, Bool.toNat_false, hpending, List.length_append, List.length_singleton]
    omega
  | word_on_offer addrs awaddr wdata hstate hawready hwready hbvalid hpending heven hanswered =>
    rw [hbvalid, Bool.toNat_false, hpending, List.length_append, List.length_singleton]
    omega
  | response hstate hawready hwready hbvalid heven hunanswered htemplate hbegun =>
    rw [hbvalid, Bool.toNat_true]
    omega

/-- An address without its word does not change what is complete. -/
theorem zip_pending {addrs : List (BitVec 12)} {datas : List (BitVec 32)} (awaddr : BitVec 12)
    (heven : addrs.length = datas.length) : (addrs ++ [awaddr]).zip datas = addrs.zip datas := by
  have hzip : (addrs ++ [awaddr]).zip (datas ++ []) = addrs.zip datas ++ [awaddr].zip [] :=
    List.zip_append heven
  simpa using hzip

theorem WriteProgress.template_eq {h : List (WritePins (BitVec 12) (BitVec 32))} {r : WriteRegs}
    (hprogress : WriteProgress h r) :
    r.template_reg = last_template (completed h ++ begun_with_word h) := by
  rw [completed]
  cases hprogress with
  | idle hstate hawready hwready hbvalid heven hanswered htemplate hbegun =>
    rw [hbegun, List.append_nil, htemplate]
  | address addrs hstate hawready hwready hbvalid hpending heven hanswered htemplate hbegun =>
    rw [hbegun, List.append_nil, hpending, zip_pending _ heven, htemplate]
  | word_on_offer addrs awaddr wdata hstate hawready hwready hbvalid hpending heven hanswered
      htemplate hbegun =>
    rw [hbegun, hpending, zip_pending _ heven, htemplate]
  | response hstate hawready hwready hbvalid heven hunanswered htemplate hbegun =>
    rw [hbegun, List.append_nil, htemplate]

/-- A write that was begun with its word on offer is completed by the next cycle. -/
theorem WriteProgress.begun_completed {h : List (Cycle Regs Input)} {s : Regs}
    (hprogress : WriteProgress (write_history h) s.write) {i : Input}
    (hmaster : WriteMaster (write_history (h ++ [⟨s, i⟩])))
    (hbegun : begun_with_word (write_history h) ≠ []) :
    completed (write_history (h ++ [⟨s, i⟩])) =
      completed (write_history h) ++ begun_with_word (write_history h) := by
  rw [write_history_snoc] at hmaster ⊢
  cases hprogress with
  | word_on_offer addrs awaddr wdata hstate hawready hwready hbvalid hpending heven hanswered
      htemplate hoffer hwaiting =>
    obtain ⟨hw, hdata⟩ := hmaster.word_held hwaiting
    have htaken : (write_pins ⟨s, i⟩).w_taken = true := by
      simp only [WritePins.w_taken, hw, Bool.true_and]
      exact hwready
    have hclosed : (write_pins ⟨s, i⟩).aw_taken = false := by
      simp [hawready]
    rw [completed, completed, addresses_snoc, words_snoc, htaken, hclosed, hdata, hpending, hoffer,
      zip_pending _ heven]
    simp [List.zip_append, heven]
  | idle hstate hawready hwready hbvalid heven hanswered htemplate hnone => exact absurd hnone hbegun
  | address addrs hstate hawready hwready hbvalid hpending heven hanswered htemplate hnone =>
    exact absurd hnone hbegun
  | response hstate hawready hwready hbvalid heven hunanswered htemplate hnone =>
    exact absurd hnone hbegun

/-- What the read channels have done in a run. -/
structure ReadInv (h : List (Cycle Regs Input)) (s : Regs) : Prop where
  consistent : ReadConsistent s
  one_result : (results (h.map read_pins)).length + s.read.s_axil_reg_rvalid.toNat = reads h
  stable : ∀ c ∈ h, c.state.read.s_axil_reg_rvalid = true → c.input.s_axil_reg_rready = false →
    (machine.step c.state c.input).read = c.state.read

theorem ReadInv.step {h : List (Cycle Regs Input)} {s : Regs} (hinv : ReadInv h s) (i : Input) :
    ReadInv (h ++ [⟨s, i⟩]) (machine.step s i) := by
  obtain ⟨hconsistent, hcount, hstable⟩ := hinv
  have hread : (machine.step s i).read = read_clock s i := rfl
  refine ⟨hconsistent.step i, ?_, ?_⟩
  · rw [List.map_append, List.map_singleton, results_snoc, reads_snoc, ← hcount, hread]
    cases hconsistent with
    | idle hstate harready hrvalid =>
      cases harvalid : i.s_axil_reg_arvalid <;>
        simp [read_clock, hstate, harready, hrvalid, harvalid]
    | resp hstate harready hrvalid =>
      cases hrready : i.s_axil_reg_rready <;>
        simp [read_clock, hstate, harready, hrvalid, hrready]
  · intro c hc hvalid hwait
    obtain hc | hc := List.mem_append.mp hc
    · exact hstable c hc hvalid hwait
    · obtain rfl := List.mem_singleton.mp hc
      simp only at hvalid hwait
      rw [hread]
      cases hconsistent with
      | idle hstate harready hrvalid => simp [hrvalid] at hvalid
      | resp hstate harready hrvalid => simp [read_clock, hstate, hwait]

theorem read_inv (inputs : List Input) : ReadInv (machine.trace inputs) (machine.run inputs) :=
  machine.free_history_induction ReadInv
    ⟨.idle rfl rfl rfl, rfl, fun _ hc => absurd hc List.not_mem_nil⟩
    (fun _ _ i hinv => hinv.step i) inputs

/-- What the slave owes its master after a history: no handshake without its counterpart
but for the latest address, a response on offer or accepted for every write of which both
halves have been handed over and for no other, a result for every accepted read, kept
until it is accepted, and the template register. -/
structure SlaveCorrect (h : List (Cycle Regs Input)) (s : Regs) : Prop where
  none_ignored : (words (write_history h)).length ≤ (addresses (write_history h)).length ∧
    (addresses (write_history h)).length ≤ (words (write_history h)).length + 1
  one_response : responses (write_history h) + s.write.s_axil_reg_bvalid.toNat =
    (completed (write_history h)).length
  template : s.write.template_reg =
    last_template (completed (write_history h) ++ begun_with_word (write_history h))
  begun_completed : ∀ i, WriteMaster (write_history (h ++ [⟨s, i⟩])) →
    begun_with_word (write_history h) ≠ [] →
      completed (write_history (h ++ [⟨s, i⟩])) =
        completed (write_history h) ++ begun_with_word (write_history h)
  one_result : (results (h.map read_pins)).length + s.read.s_axil_reg_rvalid.toNat = reads h
  result_stable : ∀ c ∈ h, c.state.read.s_axil_reg_rvalid = true →
    c.input.s_axil_reg_rready = false →
      (machine.step c.state c.input).read.s_axil_reg_rvalid = true ∧
        (machine.step c.state c.input).read.s_axil_reg_rdata = c.state.read.s_axil_reg_rdata

/-- The slave is correct after every run of a conforming master. The template register
is one cycle ahead of a write whose address is accepted with its word on offer. -/
theorem slave_correct (inputs : List Input)
    (hmaster : WriteMaster (write_history (machine.trace inputs))) :
    SlaveCorrect (machine.trace inputs) (machine.run inputs) := by
  have hprogress := write_progress inputs hmaster
  obtain ⟨hmore, hless, hresponses⟩ := hprogress.counts
  obtain ⟨-, hresults, hstable⟩ := read_inv inputs
  refine ⟨⟨hmore, hless⟩, hresponses, hprogress.template_eq, ?_, hresults, ?_⟩
  · intro i hnext hbegun
    exact hprogress.begun_completed hnext hbegun
  · intro c hc hvalid hwait
    rw [hstable c hc hvalid hwait]
    exact ⟨hvalid, rfl⟩

/-- The pins of a cycle in which nothing but a write happens. -/
def write_input (awvalid : Bool) (awaddr : BitVec 12) (wvalid : Bool) (wdata : BitVec 32)
    (bready : Bool) : Input where
  s_axil_reg_awvalid := awvalid
  s_axil_reg_awaddr := awaddr
  s_axil_reg_wvalid := wvalid
  s_axil_reg_wdata := wdata
  s_axil_reg_bready := bready
  s_axil_reg_arvalid := false
  s_axil_reg_araddr := 0
  s_axil_reg_rready := false
  roce_pkt_recved := false
  non_roce_pkt_recved := false
  fatal_err := 0

/-- A write whose word comes after its address, and its response. -/
def late_word : List Input :=
  [write_input true TEMPLATE_REG false 0 false, write_input false 0 true 5 false,
    write_input false 0 false 0 true]

theorem slave_correct_late_word :
    SlaveCorrect (machine.trace late_word) (machine.run late_word) :=
  slave_correct late_word (by decide)

/-- An address accepted with its word on offer: the register has the new data, while the
word has not been handed over and the write is not complete. -/
theorem template_ahead_of_write :
    WriteMaster (write_history (machine.trace [write_input true TEMPLATE_REG true 5 true])) ∧
      completed (write_history (machine.trace [write_input true TEMPLATE_REG true 5 true])) = [] ∧
      (machine.run [write_input true TEMPLATE_REG true 5 true]).write.template_reg ≠
        last_template
          (completed (write_history (machine.trace [write_input true TEMPLATE_REG true 5 true]))) := by
  decide

end reconic.rn_reg_control
