import RecoNIC.Lookside.WriteOrder

open clocked clocked.axi_lite

namespace reconic.control_command_processor

/-- What the interface owes its master in the state a history has led to. -/
structure WritesAnswered (h : List (Cycle WriteRegs WriteInput)) (r : WriteRegs) : Prop where
  no_early_response : responses (history_pins h) ≤ (completed (history_pins h)).length
  all_answered : r.axil_write_state = .AXIL_WRITE_IDLE → r.s_axil_bvalid = false →
    responses (history_pins h) = (completed (history_pins h)).length
  response_held : ∀ c ∈ h, c.state.s_axil_bvalid = true → c.input.s_axil_bready = false →
    (write_step c.state c.input).s_axil_bvalid = true
  none_ignored : r.axil_write_state = .AXIL_WRITE_IDLE →
    (addresses (history_pins h)).length = (words (history_pins h)).length ∧
      (⟨r.template_reg, h.flatMap stored⟩ : Effects) = effects_of (completed (history_pins h))

/-- A cycle that keeps off the paths on which the response is duplicated: the
master is ready for it when it is being prepared or given, no word waits for the
FIFO, and the FIFO takes what it is presented. -/
structure Prompt (c : Cycle WriteRegs WriteInput) : Prop where
  ready_for_response :
    c.state.axil_write_state = .AXIL_WRITE_RESP ∨ c.state.s_axil_bvalid = true →
      c.input.s_axil_bready = true
  no_wait : c.state.axil_write_state ≠ .AXIL_WRITE_WAIT
  fifo_ready : c.state.ctl_cmd_wr_en = true → fifo_open c

instance (c : Cycle WriteRegs WriteInput) : Decidable (Prompt c) :=
  decidable_of_iff
    ((c.state.axil_write_state = .AXIL_WRITE_RESP ∨ c.state.s_axil_bvalid = true →
        c.input.s_axil_bready = true) ∧
      c.state.axil_write_state ≠ .AXIL_WRITE_WAIT ∧
      (c.state.ctl_cmd_wr_en = true → fifo_open c))
    ⟨fun ⟨hready, hwait, hfifo⟩ => ⟨hready, hwait, hfifo⟩,
      fun ⟨hready, hwait, hfifo⟩ => ⟨hready, hwait, hfifo⟩⟩

/-- The responses given and the one being prepared are those the accepted
addresses call for. -/
def ResponsesOwed (h : List (Cycle WriteRegs WriteInput)) (r : WriteRegs) : Prop :=
  match r.axil_write_state with
  | .AXIL_WRITE_IDLE =>
    responses (history_pins h) + r.s_axil_bvalid.toNat = (addresses (history_pins h)).length
  | .AXIL_WRITE_WREADY => responses (history_pins h) + 1 = (addresses (history_pins h)).length
  | .AXIL_WRITE_WAIT => responses (history_pins h) + 1 = (addresses (history_pins h)).length
  | .AXIL_WRITE_RESP =>
    responses (history_pins h) + 1 = (addresses (history_pins h)).length ∧
      r.s_axil_bvalid = false ∧
      (r.s_axil_wready = true → (words (history_pins h)).length < (addresses (history_pins h)).length)

/-- At most the last accepted address is still without its word. -/
theorem Paired.lengths {h : List (Cycle WriteRegs WriteInput)} {r : WriteRegs} (hpaired : Paired h r) :
    (words (history_pins h)).length ≤ (addresses (history_pins h)).length ∧
      (addresses (history_pins h)).length ≤ (words (history_pins h)).length + 1 := by
  have hdue : WordDue h r →
      (words (history_pins h)).length ≤ (addresses (history_pins h)).length ∧
        (addresses (history_pins h)).length ≤ (words (history_pins h)).length + 1 := by
    intro ⟨addrs, addr, datas, data, haddresses, hlength, _, _, hword⟩
    obtain ⟨hwords, _, _⟩ | hwords := hword <;> rw [haddresses, hwords] <;> simp <;> omega
  cases hstate : r.axil_write_state with
  | AXIL_WRITE_IDLE =>
    simp only [Paired, hstate] at hpaired
    omega
  | AXIL_WRITE_WREADY =>
    simp only [Paired, hstate] at hpaired
    obtain ⟨addrs, haddresses, hlength, _⟩ := hpaired
    rw [haddresses, List.length_append, List.length_singleton]
    omega
  | AXIL_WRITE_WAIT =>
    simp only [Paired, hstate] at hpaired
    exact hdue hpaired
  | AXIL_WRITE_RESP =>
    simp only [Paired, hstate] at hpaired
    exact hdue hpaired

/-- A prompt cycle hands over no word beyond that of the write in progress. -/
theorem Prompt.orderly {h : List (Cycle WriteRegs WriteInput)} {c : Cycle WriteRegs WriteInput}
    (hprompt : Prompt c) (hmaster : WriteMaster (history_pins (h ++ [c])))
    (hpaired : Paired h c.state) (howed : ResponsesOwed h c.state) : Orderly h c where
  conforming := hmaster
  answered := fun hstate => hprompt.ready_for_response (Or.inl hstate)
  one_word := by
    intro hbusy heven
    cases hstate : c.state.axil_write_state with
    | AXIL_WRITE_IDLE => exact absurd hstate hbusy
    | AXIL_WRITE_WREADY =>
      have hmissing := hpaired.word_missing hstate
      omega
    | AXIL_WRITE_WAIT => exact absurd hstate hprompt.no_wait
    | AXIL_WRITE_RESP =>
      simp only [ResponsesOwed, hstate] at howed
      cases hwready : c.state.s_axil_wready with
      | false => simp [hwready]
      | true =>
        have hshort := howed.2.2 hwready
        omega

theorem take_owed {h : List (Cycle WriteRegs WriteInput)} {r : WriteRegs} (addr : BitVec 12)
    (data : BitVec 32) (blocked : Bool)
    (howed : responses (history_pins h) + 1 = (addresses (history_pins h)).length)
    (hbvalid : r.s_axil_bvalid = false)
    (hword : r.s_axil_wready = true →
      (words (history_pins h)).length < (addresses (history_pins h)).length) :
    ResponsesOwed h (r.take addr data blocked) := by
  obtain ⟨_, hwready', hbvalid', hwait | hresp⟩ := take_frame r addr data blocked
  · simpa only [ResponsesOwed, hwait] using howed
  · simp only [ResponsesOwed, hresp, hbvalid', hwready']
    exact ⟨howed, hbvalid, hword⟩

/-- The accounting goes on through a prompt cycle. -/
theorem ResponsesOwed.step {h : List (Cycle WriteRegs WriteInput)} {r r' : WriteRegs}
    {i : WriteInput} (howed : ResponsesOwed h r) (hpaired : Paired h r) (hedge : WriteEdge r i r')
    (hprompt : Prompt ⟨r, i⟩) : ResponsesOwed (h ++ [⟨r, i⟩]) r' := by
  -- In a prompt cycle a response that is given is accepted.
  have hresponses : responses (history_pins (h ++ [⟨r, i⟩])) =
      responses (history_pins h) + r.s_axil_bvalid.toNat := by
    rw [history_pins_snoc, responses_snoc]
    cases hbvalid : r.s_axil_bvalid with
    | false => simp [hbvalid]
    | true =>
      have hbready : i.s_axil_bready = true := hprompt.ready_for_response (Or.inr hbvalid)
      simp [hbvalid, hbready]
  have haddresses : (addresses (history_pins (h ++ [⟨r, i⟩]))).length =
      (addresses (history_pins h)).length + (i.s_axil_awvalid && r.s_axil_awready).toNat := by
    rw [history_pins_snoc, addresses_snoc]
    cases htaken : i.s_axil_awvalid && r.s_axil_awready <;>
      simp [htaken]
  cases hedge with
  | quiet hstate hawready hwready hwren haw =>
    simp only [ResponsesOwed, hstate] at howed ⊢
    rw [hresponses, haddresses, haw]
    exact howed
  | address hstate hawready hwready hwren haw hw =>
    simp only [ResponsesOwed, hstate] at howed ⊢
    rw [hresponses, haddresses, haw, hawready, howed]
    rfl
  | write hstate hawready hwready hwren haw hw =>
    simp only [ResponsesOwed, hstate] at howed
    simp only [Paired, hstate] at hpaired
    have hwords : words (history_pins (h ++ [⟨r, i⟩])) = words (history_pins h) := by
      simp [hwready]
    apply take_owed
    · rw [hresponses, haddresses, haw, hawready, howed]
      rfl
    · rfl
    · rw [hwords, haddresses, haw, hawready, hpaired.1]
      simp
  | no_word hstate hawready hwready hbvalid hwren hw =>
    simp only [ResponsesOwed, hstate] at howed ⊢
    rw [hresponses, haddresses, hbvalid, hawready, Bool.and_false]
    exact howed
  | word hstate hawready hwready hbvalid hwren hw =>
    simp only [ResponsesOwed, hstate] at howed
    apply take_owed
    · rw [hresponses, haddresses, hbvalid, hawready, Bool.and_false]
      exact howed
    · exact hbvalid
    · simp
  | blocked hstate => exact absurd hstate hprompt.no_wait
  | unblocked hstate => exact absurd hstate hprompt.no_wait
  | respond hstate =>
    have hbready : i.s_axil_bready = true := hprompt.ready_for_response (Or.inl hstate)
    simp only [ResponsesOwed, hstate] at howed
    simp only [Paired, hstate] at hpaired
    obtain ⟨hcount, hbvalid, _⟩ := howed
    obtain ⟨_, _, _, _, _, _, _, hawready, _⟩ := hpaired
    simp only [ResponsesOwed, hbready, if_true]
    rw [hresponses, haddresses, hbvalid, hawready, Bool.and_false]
    exact hcount

/-- The invariant of prompt runs of a conforming master. -/
structure PromptInv (h : List (Cycle WriteRegs WriteInput)) (r : WriteRegs) : Prop where
  settled : r.Settled
  paired : Paired h r
  owed : ResponsesOwed h r

theorem prompt_inv (inputs : List WriteInput)
    (hmaster : WriteMaster (history_pins (writeMachine.trace inputs)))
    (hprompt : ∀ c ∈ writeMachine.trace inputs, Prompt c) :
    PromptInv (writeMachine.trace inputs) (writeMachine.run inputs) := by
  apply writeMachine.history_induction
    (fun h => WriteMaster (history_pins h) ∧ ∀ c ∈ h, Prompt c) PromptInv
  · intro h c ⟨hmaster, hprompt⟩
    rw [history_pins_snoc] at hmaster
    exact ⟨hmaster.initial, fun d hd => hprompt d (List.mem_append_left _ hd)⟩
  · exact ⟨⟨rfl, rfl, rfl⟩, ⟨rfl, rfl⟩, rfl⟩
  · intro h r i ⟨hmaster, hprompt⟩ ⟨hsettled, hpaired, howed⟩
    have hcycle := hprompt ⟨r, i⟩ (by simp)
    have hedge := write_edge hsettled i
    have horderly := hcycle.orderly hmaster hpaired howed
    exact ⟨hedge.settled, hpaired.step hedge horderly, howed.step hpaired hedge hcycle⟩
  · exact ⟨hmaster, hprompt⟩

/-- In prompt cycles everything presented to the FIFO is stored. -/
theorem stored_of_prompt {h : List (Cycle WriteRegs WriteInput)} (hprompt : ∀ c ∈ h, Prompt c) :
    h.flatMap stored = h.flatMap presented := by
  apply List.flatMap_congr
  intro c hc
  exact stored_of_open (hprompt c hc).fifo_ready

/-- In a run of a conforming master in which every cycle is prompt, every state
reached has given no response too many and none too few, has held its responses,
and has carried out every accepted write. -/
theorem writes_answered_of_prompt (inputs : List WriteInput)
    (hmaster : WriteMaster (history_pins (writeMachine.trace inputs)))
    (hprompt : ∀ c ∈ writeMachine.trace inputs, Prompt c) :
    WritesAnswered (writeMachine.trace inputs) (writeMachine.run inputs) := by
  obtain ⟨hsettled, hpaired, howed⟩ := prompt_inv inputs hmaster hprompt
  obtain ⟨hshort, hlong⟩ := hpaired.lengths
  refine ⟨?_, ?_, ?_, ?_⟩
  · rw [completed_length]
    cases hstate : (writeMachine.run inputs).axil_write_state with
    | AXIL_WRITE_IDLE =>
      simp only [Paired, hstate] at hpaired
      simp only [ResponsesOwed, hstate] at howed
      omega
    | AXIL_WRITE_WREADY =>
      simp only [ResponsesOwed, hstate] at howed
      omega
    | AXIL_WRITE_WAIT =>
      simp only [ResponsesOwed, hstate] at howed
      omega
    | AXIL_WRITE_RESP =>
      simp only [ResponsesOwed, hstate] at howed
      omega
  · intro hstate hbvalid
    simp only [Paired, hstate] at hpaired
    simp only [ResponsesOwed, hstate, hbvalid, Bool.toNat_false, Nat.add_zero] at howed
    rw [completed_length, howed, ← hpaired.1, Nat.min_self]
  · intro c hc hbvalid hbready
    have hready := (hprompt c hc).ready_for_response (Or.inr hbvalid)
    rw [hbready] at hready
    cases hready
  · intro hstate
    obtain ⟨_, heffects⟩ := run_effects inputs
    simp only [Paired, hstate] at hpaired
    simp only [WriteRegs.Settled, hstate] at hsettled
    refine ⟨hpaired.1, ?_⟩
    rw [stored_of_prompt hprompt, ← hpaired.2, ← heffects]
    simp [WriteRegs.held_word, hstate, hsettled.2.2]

/-- A write to the test register with address and word together, and a write of
a command word whose address comes first. -/
def two_writes : List WriteInput :=
  [⟨true, TEMPLATE_REG, true, 5, true, false, false⟩,
    ⟨false, 0, true, 5, true, false, false⟩,
    ⟨true, CTL_CMD, false, 0, true, false, false⟩,
    ⟨false, 0, true, 6, true, false, false⟩,
    ⟨false, 0, false, 0, true, false, false⟩,
    ⟨false, 0, false, 0, true, false, false⟩]

theorem writes_answered_two_writes :
    WritesAnswered (writeMachine.trace two_writes) (writeMachine.run two_writes) :=
  writes_answered_of_prompt two_writes (by decide) (by decide)

/-- A write whose response has to wait a cycle, and a second address offered as
soon as `s_axil_awready` is seen high. -/
def late_response : List WriteInput :=
  [⟨true, TEMPLATE_REG, true, 5, false, false, false⟩,
    ⟨false, 0, true, 5, false, false, false⟩,
    ⟨true, TEMPLATE_REG, true, 6, true, false, false⟩,
    ⟨false, 0, true, 6, true, false, false⟩]

/-- The late response is given twice, and the second address is lost. -/
theorem late_response_given_twice :
    WriteMaster (history_pins (writeMachine.trace late_response)) ∧
      ¬WritesAnswered (writeMachine.trace late_response) (writeMachine.run late_response) := by
  refine ⟨by decide, ?_⟩
  intro hanswered
  have htoo_many := hanswered.no_early_response
  revert htoo_many
  decide

end reconic.control_command_processor
