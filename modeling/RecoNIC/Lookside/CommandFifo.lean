import RecoNIC.Lookside.WriteOrder

open clocked clocked.axi_lite

namespace reconic.control_command_processor

/-- The cycle in which the process decides to present a word to the command FIFO,
on each of its three paths. -/
def commits (c : Cycle WriteRegs WriteInput) : Bool :=
  match c.state.axil_write_state with
  | .AXIL_WRITE_IDLE =>
    c.input.s_axil_awvalid && c.state.s_axil_awready && c.input.s_axil_wvalid &&
      decide (c.input.s_axil_awaddr = CTL_CMD) &&
      !(c.input.ctl_cmd_afifo_full || c.input.ctl_cmd_wr_rst_busy)
  | .AXIL_WRITE_WREADY =>
    c.input.s_axil_wvalid && decide (c.state.awaddr = CTL_CMD) && !c.input.ctl_cmd_afifo_full
  | .AXIL_WRITE_WAIT => !(c.input.ctl_cmd_afifo_full || c.input.ctl_cmd_wr_rst_busy)
  | .AXIL_WRITE_RESP => false

/-- The flags are low in the cycle after every decision to present a word. -/
def OpenAfterCommit (h : List (Cycle WriteRegs WriteInput)) : Prop :=
  List.IsChain (fun c d => commits c = true → fifo_open d) h

instance (h : List (Cycle WriteRegs WriteInput)) : Decidable (OpenAfterCommit h) :=
  inferInstanceAs (Decidable (List.IsChain _ h))

/-- How far the master has got with its write in each state of the process. -/
def OneWrite (h : List (Cycle WriteRegs WriteInput)) (r : WriteRegs) : Prop :=
  match r.axil_write_state with
  | .AXIL_WRITE_IDLE =>
    outstanding (history_pins h) = .none ∨
      outstanding (history_pins h) = ⟨true, true⟩ ∧ r.s_axil_bvalid = true
  | .AXIL_WRITE_WREADY => outstanding (history_pins h) = ⟨true, false⟩
  | .AXIL_WRITE_WAIT =>
    (outstanding (history_pins h)).aw_done = true ∧
      ((outstanding (history_pins h)).w_done = true ↔
        (words (history_pins h)).length = (addresses (history_pins h)).length)
  | .AXIL_WRITE_RESP =>
    (outstanding (history_pins h)).aw_done = true ∧
      ((outstanding (history_pins h)).w_done = true ↔
        (words (history_pins h)).length = (addresses (history_pins h)).length) ∧
      (r.s_axil_bvalid = true → (outstanding (history_pins h)).w_done = true)

/-- An edge presents a word next exactly when the cycle commits one. -/
theorem WriteEdge.presents {r r' : WriteRegs} {i : WriteInput} (hedge : WriteEdge r i r') :
    r'.ctl_cmd_wr_en = commits ⟨r, i⟩ := by
  cases hedge with
  | quiet hstate hawready hwready hwren haw => simp [commits, hstate, haw, hwren]
  | address hstate hawready hwready hwren haw hw => simp [commits, hstate, hw, hwren]
  | write hstate hawready hwready hwren haw hw =>
    rw [take_wr_en]
    · simp [commits, hstate, haw, hawready, hw]
    · exact hwren
  | no_word hstate hawready hwready hbvalid hwren hw => simp [commits, hstate, hw, hwren]
  | word hstate hawready hwready hbvalid hwren hw =>
    rw [take_wr_en]
    · simp [commits, hstate, hw]
    · exact hwren
  | blocked hstate hawready hbvalid hwren hflags => simp [commits, hstate, hwren, hflags]
  | unblocked hstate hawready hbvalid hwren hflags => simp [commits, hstate, hflags]
  | respond hstate => simp [commits, hstate]

/-- A single master hands over no word beyond that of the write in progress. -/
theorem OneWrite.orderly {h : List (Cycle WriteRegs WriteInput)} {r : WriteRegs} {i : WriteInput}
    (hone : OneWrite h r) (hpaired : Paired h r)
    (hmaster : SingleWriteMaster (history_pins (h ++ [⟨r, i⟩]))) : Orderly h ⟨r, i⟩ := by
  obtain ⟨_, hno_word, hready⟩ := (history_pins_snoc h ⟨r, i⟩ ▸ hmaster).last
  refine ⟨hmaster.conforming, fun _ => hready, ?_⟩
  intro hbusy heven
  have hquiet : (outstanding (history_pins h)).w_done = true →
      (write_pins ⟨r, i⟩).w_taken = false := by
    intro hdone
    rw [WritePins.w_taken, hno_word hdone, Bool.false_and]
  cases hstate : r.axil_write_state with
  | AXIL_WRITE_IDLE => exact absurd hstate hbusy
  | AXIL_WRITE_WREADY =>
    have hmissing := hpaired.word_missing hstate
    omega
  | AXIL_WRITE_WAIT =>
    simp only [OneWrite, hstate] at hone
    exact hquiet (hone.2.mpr heven)
  | AXIL_WRITE_RESP =>
    simp only [OneWrite, hstate] at hone
    exact hquiet (hone.2.1.mpr heven)

/-- After a cycle in which the process waits or responds, the master's word has
been accepted. -/
theorem word_accepted {h : List (Cycle WriteRegs WriteInput)} {r : WriteRegs} {i : WriteInput}
    (hdue : WordDue h r) (hstate : r.axil_write_state ≠ .AXIL_WRITE_IDLE)
    (horderly : Orderly h ⟨r, i⟩)
    (hdone : (outstanding (history_pins h)).w_done = true ↔
      (words (history_pins h)).length = (addresses (history_pins h)).length) :
    ((outstanding (history_pins h)).w_done || (write_pins ⟨r, i⟩).w_taken) = true ∧
      (words (history_pins (h ++ [⟨r, i⟩]))).length =
        (addresses (history_pins (h ++ [⟨r, i⟩]))).length := by
  obtain ⟨addrs, addr, datas, data, haddresses, hlength, _, hwords⟩ :=
    hdue.handed_over hstate horderly
  have heven : (words (history_pins (h ++ [⟨r, i⟩]))).length =
      (addresses (history_pins (h ++ [⟨r, i⟩]))).length := by
    rw [haddresses, hwords]
    simp [hlength]
  refine ⟨?_, heven⟩
  cases hbefore : (outstanding (history_pins h)).w_done with
  | true => rfl
  | false =>
    -- No address is accepted in this cycle, so the words can only catch up by a handshake.
    rw [hbefore] at hdone
    obtain ⟨_, _, _, _, _, _, _, hawready, _⟩ := hdue
    have hno_address : (write_pins ⟨r, i⟩).aw_taken = false := by
      simp [hawready]
    rw [history_pins_snoc, words_snoc, addresses_snoc, hno_address] at heven
    cases htaken : (write_pins ⟨r, i⟩).w_taken with
    | true => rfl
    | false =>
      rw [htaken] at heven
      exact absurd (hdone.mpr (by simpa using heven)) (by simp)

theorem take_one_write {h : List (Cycle WriteRegs WriteInput)} {r : WriteRegs} (addr : BitVec 12)
    (data : BitVec 32) (blocked : Bool) (hbvalid : r.s_axil_bvalid = false)
    (haw : (outstanding (history_pins h)).aw_done = true)
    (hdone : (outstanding (history_pins h)).w_done = true ↔
      (words (history_pins h)).length = (addresses (history_pins h)).length) :
    OneWrite h (r.take addr data blocked) := by
  obtain ⟨_, _, hbvalid', hwait | hresp⟩ := take_frame r addr data blocked
  · simp only [OneWrite, hwait]
    exact ⟨haw, hdone⟩
  · simp only [OneWrite, hresp, hbvalid', hbvalid]
    exact ⟨haw, hdone, by simp⟩

/-- The progress of the master's write goes on through every cycle. -/
theorem OneWrite.step {h : List (Cycle WriteRegs WriteInput)} {r r' : WriteRegs} {i : WriteInput}
    (hone : OneWrite h r) (hpaired : Paired h r) (hedge : WriteEdge r i r')
    (hmaster : SingleWriteMaster (history_pins (h ++ [⟨r, i⟩]))) :
    OneWrite (h ++ [⟨r, i⟩]) r' := by
  have horderly := hone.orderly hpaired hmaster
  obtain ⟨hno_address, _, hready⟩ := (history_pins_snoc h ⟨r, i⟩ ▸ hmaster).last
  have hnext : outstanding (history_pins (h ++ [⟨r, i⟩])) =
      (outstanding (history_pins h)).next (write_pins ⟨r, i⟩) := by
    rw [history_pins_snoc, outstanding_snoc]
  have hanswer : (write_pins ⟨r, i⟩).b_taken = r.s_axil_bvalid := by
    rw [WritePins.b_taken, hready, Bool.and_true]
    rfl
  -- An address that is offered in the idle state begins a write.
  have hfresh : r.axil_write_state = .AXIL_WRITE_IDLE → i.s_axil_awvalid = true →
      outstanding (history_pins h) = .none := by
    intro hstate haw
    simp only [OneWrite, hstate] at hone
    obtain hnone | ⟨hboth, _⟩ := hone
    · exact hnone
    · have hquiet : i.s_axil_awvalid = false := hno_address (by rw [hboth])
      rw [haw] at hquiet
      cases hquiet
  cases hedge with
  | quiet hstate hawready hwready hwren haw =>
    simp only [OneWrite, hstate] at hone ⊢
    refine Or.inl ?_
    rw [hnext]
    obtain hnone | ⟨hboth, hbvalid⟩ := hone
    · rw [hnone, Outstanding.next_unfinished rfl]
      simp [haw, hwready, Outstanding.none]
    · rw [hboth, Outstanding.next_answered (hanswer.trans hbvalid)]
  | address hstate hawready hwready hwren haw hw =>
    simp only [OneWrite]
    rw [hnext, hfresh hstate haw, Outstanding.next_unfinished rfl]
    simp [haw, hawready, hwready]
  | write hstate hawready hwready hwren haw hw =>
    simp only [Paired, hstate] at hpaired
    have hstarted : outstanding (history_pins (h ++ [⟨r, i⟩])) = ⟨true, false⟩ := by
      rw [hnext, hfresh hstate haw, Outstanding.next_unfinished rfl]
      simp [haw, hawready, hwready]
    apply take_one_write
    · rfl
    · rw [hstarted]
    · rw [hstarted, history_pins_snoc, words_snoc, addresses_snoc]
      simp [haw, hawready, hwready, hpaired.1]
  | no_word hstate hawready hwready hbvalid hwren hw =>
    simp only [OneWrite, hstate] at hone ⊢
    rw [hnext, hone, Outstanding.next_unfinished rfl]
    simp [hw]
  | word hstate hawready hwready hbvalid hwren hw =>
    simp only [OneWrite, hstate] at hone
    simp only [Paired, hstate] at hpaired
    obtain ⟨addrs, haddresses, hlength, _⟩ := hpaired
    have hboth : outstanding (history_pins (h ++ [⟨r, i⟩])) = ⟨true, true⟩ := by
      rw [hnext, hone, Outstanding.next_unfinished rfl]
      simp [hw, hwready]
    apply take_one_write
    · exact hbvalid
    · rw [hboth]
    · rw [hboth, history_pins_snoc, words_snoc, addresses_snoc, haddresses]
      simp [hawready, hw, hwready, hlength]
  | blocked hstate hawready hbvalid hwren hflags =>
    simp only [OneWrite, Paired, hstate] at hone hpaired ⊢
    obtain ⟨hdone, heven⟩ := word_accepted hpaired (by simp [hstate]) horderly hone.2
    rw [hnext, Outstanding.next_unanswered (hanswer.trans hbvalid)]
    exact ⟨by simp [hone.1], fun _ => heven, fun _ => hdone⟩
  | unblocked hstate hawready hbvalid hwren hflags =>
    simp only [OneWrite, Paired, hstate] at hone hpaired ⊢
    obtain ⟨hdone, heven⟩ := word_accepted hpaired (by simp [hstate]) horderly hone.2
    rw [hnext, Outstanding.next_unanswered (hanswer.trans hbvalid)]
    exact ⟨by simp [hone.1], ⟨fun _ => heven, fun _ => hdone⟩, fun _ => hdone⟩
  | respond hstate =>
    have hbready : i.s_axil_bready = true := hready
    simp only [OneWrite, Paired, hstate] at hone hpaired
    simp only [OneWrite, hbready, if_true]
    obtain ⟨haw, hiff, hlate⟩ := hone
    rw [hnext]
    cases hbvalid : r.s_axil_bvalid with
    | true =>
      -- The response after a wait, which comes a second time in the next cycle.
      have hboth : outstanding (history_pins h) = ⟨true, true⟩ :=
        Outstanding.ext haw (hlate hbvalid)
      rw [hboth, Outstanding.next_answered (hanswer.trans hbvalid)]
      exact Or.inl rfl
    | false =>
      obtain ⟨hdone, _⟩ := word_accepted hpaired (by simp [hstate]) horderly hiff
      rw [Outstanding.next_unanswered (hanswer.trans hbvalid), haw, hdone]
      exact Or.inr ⟨rfl, trivial⟩

/-- The invariant of the runs of a master with one write outstanding. -/
structure SingleInv (h : List (Cycle WriteRegs WriteInput)) (r : WriteRegs) : Prop where
  settled : r.Settled
  paired : Paired h r
  one_write : OneWrite h r

theorem single_inv (inputs : List WriteInput)
    (hmaster : SingleWriteMaster (history_pins (writeMachine.trace inputs))) :
    SingleInv (writeMachine.trace inputs) (writeMachine.run inputs) := by
  apply writeMachine.history_induction (fun h => SingleWriteMaster (history_pins h)) SingleInv
  · intro h c hmaster
    rw [history_pins_snoc] at hmaster
    exact hmaster.initial
  · exact ⟨⟨rfl, rfl, rfl⟩, ⟨rfl, rfl⟩, Or.inl rfl⟩
  · intro h r i hmaster ⟨hsettled, hpaired, hone⟩
    have hedge := write_edge hsettled i
    have horderly := hone.orderly hpaired hmaster
    exact ⟨hedge.settled, hpaired.step hedge horderly, hone.step hpaired hedge hmaster⟩
  · exact hmaster

theorem effects_of_ctl_cmds (writes : List (BitVec 12 × BitVec 32)) :
    (effects_of writes).ctl_cmds = ctl_cmd_words writes := by
  induction writes using List.reverseRecOn with
  | nil => rfl
  | append_singleton writes w ih =>
    rw [effects_of, List.foldl_append, List.foldl_cons, List.foldl_nil, ← effects_of, ctl_cmd_words,
      List.filterMap_append]
    unfold Effects.write
    by_cases hcmd : w.1 = CTL_CMD
    · simp [hcmd, ih, ctl_cmd_words]
    · rw [if_neg hcmd]
      by_cases hreg : w.1 = TEMPLATE_REG
      · rw [if_pos hreg]
        simp [hcmd, ih, ctl_cmd_words]
      · rw [if_neg hreg]
        simp [hcmd, ih, ctl_cmd_words]

/-- With no write outstanding, the words presented to the FIFO are those of the
completed writes to its address. -/
theorem presented_exact (inputs : List WriteInput)
    (hmaster : SingleWriteMaster (history_pins (writeMachine.trace inputs)))
    (hidle : outstanding (history_pins (writeMachine.trace inputs)) = .none) :
    (writeMachine.trace inputs).flatMap presented =
      ctl_cmd_words (completed (history_pins (writeMachine.trace inputs))) := by
  obtain ⟨hsettled, hpaired, hone⟩ := single_inv inputs hmaster
  have hstate : (writeMachine.run inputs).axil_write_state = .AXIL_WRITE_IDLE := by
    cases hstate : (writeMachine.run inputs).axil_write_state with
    | AXIL_WRITE_IDLE => rfl
    | AXIL_WRITE_WREADY => simp [OneWrite, hstate, hidle, Outstanding.none] at hone
    | AXIL_WRITE_WAIT => simp [OneWrite, hstate, hidle, Outstanding.none] at hone
    | AXIL_WRITE_RESP => simp [OneWrite, hstate, hidle, Outstanding.none] at hone
  obtain ⟨_, heffects⟩ := run_effects inputs
  simp only [Paired, hstate] at hpaired
  simp only [WriteRegs.Settled, hstate] at hsettled
  have hcmds := congrArg Effects.ctl_cmds heffects
  rw [effects_of_ctl_cmds, hpaired.2] at hcmds
  simpa [WriteRegs.held_word, hstate, hsettled.2.2] using hcmds

theorem stored_of_closed {c : Cycle WriteRegs WriteInput} (h : ¬fifo_open c) : stored c = [] := by
  unfold stored
  apply if_pos
  simp only [fifo_open, not_and_or, Bool.not_eq_false] at h
  simpa using h

/-- The FIFO stores no more than it is presented. -/
theorem stored_length_le (h : List (Cycle WriteRegs WriteInput)) :
    (h.flatMap stored).length ≤ (h.flatMap presented).length := by
  induction h with
  | nil => simp
  | cons c rest ih =>
    simp only [List.flatMap_cons, List.length_append]
    by_cases hopen : fifo_open c
    · rw [stored_of_open fun _ => hopen]
      omega
    · rw [stored_of_closed hopen, List.length_nil]
      omega

/-- Nothing is lost exactly when the FIFO is open in every cycle that presents a word. -/
theorem stored_eq_presented_iff (h : List (Cycle WriteRegs WriteInput)) :
    h.flatMap stored = h.flatMap presented ↔
      ∀ c ∈ h, c.state.ctl_cmd_wr_en = true → fifo_open c := by
  induction h with
  | nil => simp
  | cons c rest ih =>
    rw [List.flatMap_cons, List.flatMap_cons, List.forall_mem_cons]
    by_cases hkept : c.state.ctl_cmd_wr_en = true → fifo_open c
    · rw [stored_of_open hkept, List.append_cancel_left_eq, ih]
      exact ⟨fun hrest => ⟨hkept, hrest⟩, fun hall => hall.2⟩
    · -- The word of this cycle is lost, and no later one can make up for it.
      rw [Classical.not_imp] at hkept
      obtain ⟨hwren, hclosed⟩ := hkept
      constructor
      · intro heq
        have hlength := congrArg List.length heq
        have hle := stored_length_le rest
        rw [stored_of_closed hclosed, presented, if_pos hwren] at hlength
        simp only [List.nil_append, List.cons_append, List.length_cons] at hlength
        omega
      · intro hall
        exact absurd (hall.1 hwren) hclosed

/-- The FIFO is open in every cycle that presents a word exactly when it is open
in the cycle after every commitment. -/
theorem open_after_commit_iff (inputs : List WriteInput) :
    (∀ c ∈ writeMachine.trace inputs, c.state.ctl_cmd_wr_en = true → fifo_open c) ↔
      OpenAfterCommit (writeMachine.trace inputs) := by
  have hinv : (writeMachine.run inputs).Settled ∧
      (writeMachine.run inputs).ctl_cmd_wr_en =
        ((writeMachine.trace inputs).getLast?.map commits).getD false ∧
      ((∀ c ∈ writeMachine.trace inputs, c.state.ctl_cmd_wr_en = true → fifo_open c) ↔
        OpenAfterCommit (writeMachine.trace inputs)) := by
    apply writeMachine.free_history_induction (fun h r =>
      r.Settled ∧ r.ctl_cmd_wr_en = (h.getLast?.map commits).getD false ∧
        ((∀ c ∈ h, c.state.ctl_cmd_wr_en = true → fifo_open c) ↔ OpenAfterCommit h))
    · exact ⟨⟨rfl, rfl, rfl⟩, rfl, by simp [OpenAfterCommit]⟩
    · intro h r i ⟨hsettled, hwren, hiff⟩
      have hedge := write_edge hsettled i
      refine ⟨hedge.settled, ?_, ?_⟩
      · rw [List.getLast?_append]
        exact hedge.presents
      · rw [OpenAfterCommit, List.isChain_append, List.forall_mem_append, hiff]
        cases hlast : h.getLast? with
        | none => simp [hwren, hlast, OpenAfterCommit]
        | some c => simp [hwren, hlast, OpenAfterCommit]
  exact hinv.2.2

/-- The command FIFO's law. For a master that keeps one write outstanding, when
none is, the FIFO has accepted exactly the words written to its address if and
only if its flags were low in the cycle after every decision to present a word. -/
theorem command_fifo_exact_iff (inputs : List WriteInput)
    (hmaster : SingleWriteMaster (history_pins (writeMachine.trace inputs)))
    (hidle : outstanding (history_pins (writeMachine.trace inputs)) = .none) :
    (writeMachine.trace inputs).flatMap stored =
        ctl_cmd_words (completed (history_pins (writeMachine.trace inputs))) ↔
      OpenAfterCommit (writeMachine.trace inputs) := by
  rw [← presented_exact inputs hmaster hidle, stored_eq_presented_iff, open_after_commit_iff]

/-- Two command words, the second of which waits for a full FIFO. -/
def two_words : List WriteInput :=
  [⟨true, CTL_CMD, false, 0, true, false, true⟩,
    ⟨false, 0, true, 7, true, false, true⟩,
    ⟨false, 0, false, 0, true, false, false⟩,
    ⟨false, 0, false, 0, true, false, false⟩,
    ⟨true, CTL_CMD, true, 8, true, true, false⟩,
    ⟨false, 0, true, 8, true, true, false⟩,
    ⟨false, 0, false, 0, true, false, false⟩,
    ⟨false, 0, false, 0, true, false, false⟩]

theorem command_fifo_exact_two_words :
    (writeMachine.trace two_words).flatMap stored =
      ctl_cmd_words (completed (history_pins (writeMachine.trace two_words))) :=
  (command_fifo_exact_iff two_words ⟨by decide, by decide⟩ (by decide)).mpr (by decide)

/-- A command word that follows its address while the FIFO's write side is still
in reset. -/
def word_in_reset : List WriteInput :=
  [⟨true, CTL_CMD, false, 0, true, false, true⟩,
    ⟨false, 0, true, 7, true, false, true⟩,
    ⟨false, 0, false, 0, true, false, true⟩,
    ⟨false, 0, false, 0, true, false, true⟩]

/-- The word is answered and lost. -/
theorem word_in_reset_lost :
    SingleWriteMaster (history_pins (writeMachine.trace word_in_reset)) ∧
      outstanding (history_pins (writeMachine.trace word_in_reset)) = .none ∧
      (writeMachine.trace word_in_reset).flatMap stored ≠
        ctl_cmd_words (completed (history_pins (writeMachine.trace word_in_reset))) :=
  ⟨⟨by decide, by decide⟩, by decide, by decide⟩

end reconic.control_command_processor
