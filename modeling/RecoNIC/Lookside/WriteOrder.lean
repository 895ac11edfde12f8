import RecoNIC.Lookside.WriteChannel

open clocked clocked.axi_lite

namespace reconic.control_command_processor

/-- The pins of the write channels over a history. -/
def history_pins (h : List (Cycle WriteRegs WriteInput)) :
    List (WritePins (BitVec 12) (BitVec 32)) :=
  h.map write_pins

@[simp] theorem history_pins_nil : history_pins [] = [] := rfl

@[simp] theorem history_pins_snoc (h : List (Cycle WriteRegs WriteInput))
    (c : Cycle WriteRegs WriteInput) : history_pins (h ++ [c]) = history_pins h ++ [write_pins c] := by
  simp [history_pins]

/-- The write in progress: its address was accepted last, its word has been taken
by the process, and the word's handshake has happened or is about to. -/
def WordDue (h : List (Cycle WriteRegs WriteInput)) (r : WriteRegs) : Prop :=
  ∃ addrs addr datas data, addresses (history_pins h) = addrs ++ [addr] ∧
    addrs.length = datas.length ∧ taken h = addrs.zip datas ++ [(addr, data)] ∧
    r.s_axil_awready = false ∧
    (words (history_pins h) = datas ∧ r.s_axil_wready = true ∧
        waiting_word (history_pins h) = some data ∨
      words (history_pins h) = datas ++ [data])

/-- The writes the process has taken are the pairs of accepted addresses and
words, up to the write in progress. -/
def Paired (h : List (Cycle WriteRegs WriteInput)) (r : WriteRegs) : Prop :=
  match r.axil_write_state with
  | .AXIL_WRITE_IDLE =>
    (addresses (history_pins h)).length = (words (history_pins h)).length ∧
      taken h = completed (history_pins h)
  | .AXIL_WRITE_WREADY =>
    ∃ addrs, addresses (history_pins h) = addrs ++ [r.awaddr] ∧
      addrs.length = (words (history_pins h)).length ∧ taken h = addrs.zip (words (history_pins h))
  | .AXIL_WRITE_WAIT => WordDue h r
  | .AXIL_WRITE_RESP => WordDue h r

/-- A word is missing while the process waits for one. -/
theorem Paired.word_missing {h : List (Cycle WriteRegs WriteInput)} {r : WriteRegs}
    (hpaired : Paired h r) (hstate : r.axil_write_state = .AXIL_WRITE_WREADY) :
    (addresses (history_pins h)).length = (words (history_pins h)).length + 1 := by
  simp only [Paired, hstate] at hpaired
  obtain ⟨addrs, haddresses, hlength, -⟩ := hpaired
  rw [haddresses, List.length_append, List.length_singleton, hlength]

/-- What a cycle must satisfy for the pairing to go on: a response is accepted at
once, and no word is handed over beyond that of the write in progress. -/
structure Orderly (h : List (Cycle WriteRegs WriteInput)) (c : Cycle WriteRegs WriteInput) :
    Prop where
  conforming : WriteMaster (history_pins (h ++ [c]))
  answered : c.state.axil_write_state = .AXIL_WRITE_RESP → c.input.s_axil_bready = true
  one_word : c.state.axil_write_state ≠ .AXIL_WRITE_IDLE →
    (words (history_pins h)).length = (addresses (history_pins h)).length →
    (write_pins c).w_taken = false

/-- A cycle after which the word of the write in progress has been handed over. -/
theorem WordDue.handed_over {h : List (Cycle WriteRegs WriteInput)} {r : WriteRegs} {i : WriteInput}
    (hdue : WordDue h r) (hstate : r.axil_write_state ≠ .AXIL_WRITE_IDLE)
    (horderly : Orderly h ⟨r, i⟩) :
    ∃ addrs addr datas data, addresses (history_pins (h ++ [⟨r, i⟩])) = addrs ++ [addr] ∧
      addrs.length = datas.length ∧ taken h = addrs.zip datas ++ [(addr, data)] ∧
      words (history_pins (h ++ [⟨r, i⟩])) = datas ++ [data] := by
  obtain ⟨addrs, addr, datas, data, haddresses, hlength, htaken, hawready, hword⟩ := hdue
  refine ⟨addrs, addr, datas, data, ?_, hlength, htaken, ?_⟩
  · rw [history_pins_snoc, addresses_snoc, haddresses]
    simp [hawready]
  · rw [history_pins_snoc, words_snoc]
    obtain ⟨hwords, hwready, hwaiting⟩ | hwords := hword
    · have hmaster := horderly.conforming
      rw [history_pins_snoc] at hmaster
      obtain ⟨hvalid, hdata⟩ := hmaster.word_held hwaiting
      have hhandshake : (write_pins ⟨r, i⟩).w_taken = true := by
        simp only [WritePins.w_taken, hvalid, Bool.true_and]
        exact hwready
      rw [if_pos hhandshake, hwords, hdata]
    · have hquiet := horderly.one_word hstate (by simp [hwords, haddresses, hlength])
      rw [hquiet, hwords]
      simp

/-- The process takes a write whose word has already been handed over or is the
one on offer. -/
theorem take_word_due {h : List (Cycle WriteRegs WriteInput)} {r : WriteRegs} (addr : BitVec 12)
    (data : BitVec 32) (blocked : Bool) (hdue : WordDue h r) :
    Paired h (r.take addr data blocked) := by
  obtain ⟨hawready, hwready, _, hstate⟩ := take_frame r addr data blocked
  have htake : WordDue h (r.take addr data blocked) := by
    unfold WordDue
    rw [hawready, hwready]
    exact hdue
  obtain hwait | hresp := hstate
  · simpa only [Paired, hwait] using htake
  · simpa only [Paired, hresp] using htake

/-- The pairing goes on through an orderly cycle. -/
theorem Paired.step {h : List (Cycle WriteRegs WriteInput)} {r r' : WriteRegs} {i : WriteInput}
    (hpaired : Paired h r) (hedge : WriteEdge r i r') (horderly : Orderly h ⟨r, i⟩) :
    Paired (h ++ [⟨r, i⟩]) r' := by
  cases hedge with
  | quiet hstate hawready hwready hwren haw =>
    simp only [Paired, hstate] at hpaired ⊢
    simpa [completed, write_taken, hstate, hwready, haw] using hpaired
  | address hstate hawready hwready hwren haw hw =>
    simp only [Paired, hstate] at hpaired ⊢
    refine ⟨addresses (history_pins h), ?_, ?_, ?_⟩
    · simp [haw, hawready]
    · simpa [hw] using hpaired.1
    · simpa [write_taken, hstate, hw, completed] using hpaired.2
  | write hstate hawready hwready hwren haw hw =>
    simp only [Paired, hstate] at hpaired
    apply take_word_due
    refine ⟨addresses (history_pins h), i.s_axil_awaddr, words (history_pins h), i.s_axil_wdata,
      ?_, hpaired.1, ?_, rfl, Or.inl ⟨?_, rfl, ?_⟩⟩
    · simp [haw, hawready]
    · simp [write_taken, hstate, haw, hawready, hw, hpaired.2, completed]
    · simp [hwready]
    · simp [hw, hwready]
  | no_word hstate hawready hwready hbvalid hwren hw =>
    simp only [Paired, hstate] at hpaired ⊢
    simpa [write_taken, hstate, hw, hawready] using hpaired
  | word hstate hawready hwready hbvalid hwren hw =>
    simp only [Paired, hstate] at hpaired
    obtain ⟨addrs, haddresses, hlength, htaken⟩ := hpaired
    apply take_word_due
    refine ⟨addrs, r.awaddr, words (history_pins h), i.s_axil_wdata, ?_, hlength, ?_, hawready,
      Or.inr ?_⟩
    · simp [hawready, haddresses]
    · simp [write_taken, hstate, hw, htaken]
    · simp [hw, hwready]
  | blocked hstate hawready hbvalid hwren hflags
  | unblocked hstate hawready hbvalid hwren hflags =>
    simp only [Paired, hstate] at hpaired ⊢
    obtain ⟨addrs, addr, datas, data, haddresses, hlength, htaken, hwords⟩ :=
      hpaired.handed_over (by simp [hstate]) horderly
    exact ⟨addrs, addr, datas, data, haddresses, hlength, by simp [write_taken, hstate, htaken],
      hawready, Or.inr hwords⟩
  | respond hstate =>
    have hbready : i.s_axil_bready = true := horderly.answered hstate
    simp only [Paired, hstate] at hpaired
    simp only [Paired, hbready, if_true]
    obtain ⟨addrs, addr, datas, data, haddresses, hlength, htaken, hwords⟩ :=
      hpaired.handed_over (by simp [hstate]) horderly
    refine ⟨by rw [haddresses, hwords]; simp [hlength], ?_⟩
    rw [taken_snoc, htaken, completed, haddresses, hwords, List.zip_append hlength]
    simp [write_taken, hstate]

end reconic.control_command_processor
