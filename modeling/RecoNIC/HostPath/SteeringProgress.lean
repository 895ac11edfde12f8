import RecoNIC.HostPath.Steering

open clocked
open reconic.axi_stream_register_slice (FullRegs)

namespace reconic.qdma_subsystem_function

/-- No beat comes from the card, and those that go out are taken. -/
def RxDrains (i : RxInput) : Prop := i.s_axis_c2h_tvalid = false ∧ i.m_axis_c2h_tready = true

section Progress

variable {qid_depth pkt_depth : Nat} {config : RssConfig} {s : RxRegs qid_depth pkt_depth} {i : RxInput}
  {h : List (Cycle (RxRegs qid_depth pkt_depth) RxInput)}

/-- How many cycles it takes until there is a queue in the FIFO. -/
def delay (s : RxRegs qid_depth pkt_depth) : Nat :=
  if s.qid_fifo.contents ≠ [] then 0
  else if s.qid_fifo_wr_en then 1
  else if s.hash.s3.hash_result_valid then 2
  else if s.hash.s2.ip4_payload_valid then 3
  else if s.hash.s1.eth_payload_valid then 4
  else 5

/-- The beats that are not sent, those in the slice counted twice, each with the time for its queue. -/
def rank (s : RxRegs qid_depth pkt_depth) : Nat :=
  12 * s.c2h_slice.held.length + 6 * s.buf_fifo.contents.length + delay s

theorem delay_le (s : RxRegs qid_depth pkt_depth) : delay s ≤ 5 := by
  unfold delay
  repeat' split
  all_goals omega

/-- A queue on its way comes nearer to the FIFO in every cycle. -/
theorem Steering.delay_next (hst : Steering config h s) (hdepth : max 1 pkt_depth ≤ qid_depth) (i : RxInput)
    (hempty : s.qid_fifo.contents = []) (hbuf : s.buf_fifo.contents ≠ []) :
    delay (rx_step s i config) + 1 ≤ delay s := by
  have hfifo : (rx_step s i config).qid_fifo.contents =
      s.qid_fifo.kept (qid_fifo_rd_en s i) ++
        s.qid_fifo.accepted (if s.qid_fifo_wr_en then [s.qid_fifo_din] else []) := rfl
  have hwr : (rx_step s i config).qid_fifo_wr_en = s.hash.s3.hash_result_valid := rfl
  have hresult : (rx_step s i config).hash.s3.hash_result_valid = s.hash.s2.ip4_payload_valid :=
    qdma_subsystem_hash.Stage3.step_valid ..
  have hfields : (rx_step s i config).hash.s2.ip4_payload_valid = s.hash.s1.eth_payload_valid :=
    qdma_subsystem_hash.Stage2.step_valid ..
  have hlength := hst.queues_length
  have hsome := @countP_add_first_pos _ RxBeat.tlast ((rx_sent h).map unsteered) _ hbuf
  rw [← hst.buffered, ← hlength] at hsome
  rw [delay, delay, if_neg (not_not.mpr hempty)]
  cases hwr_en : s.qid_fifo_wr_en with
  | true =>
    have hstored : (rx_step s i config).qid_fifo.contents ≠ [] := by
      rw [hfifo, hwr_en, if_pos rfl, Fifo.accepted_of_not_full _ (hst.room hdepth hwr_en)]
      simp
    rw [if_pos hstored]
    simp
  | false =>
    rw [hwr, hresult, hfields]
    cases hresult_valid : s.hash.s3.hash_result_valid with
    | true => split <;> simp
    | false =>
      cases hip4_valid : s.hash.s2.ip4_payload_valid with
      | true => split <;> simp
      | false =>
        cases heth_valid : s.hash.s1.eth_payload_valid with
        | true => split <;> simp
        | false =>
          -- Nothing is in the stages, so the hash unit waits for a second beat.
          have hmore : s.hash.s1.s1_state = .S_S1_MORE := by
            by_contra hnot
            simp [pipe, pending, hempty, hwr_en, hresult_valid, hip4_valid, heth_valid, hnot] at hsome
          have heth : (rx_step s i config).hash.s1.eth_payload_valid = true := by
            change (s.hash.s1.step (hash_pins s)).eth_payload_valid = true
            rw [qdma_subsystem_hash.Stage1.step, hmore]
          rw [heth]
          split <;> simp

/-- When nothing comes in, the slice only gives its beats to the buffer. -/
theorem Steering.slice_moves (hst : Steering config h s) (hdrains : RxDrains i) :
    s.c2h_slice.held = moved s ++ (rx_step s i config).c2h_slice.held := by
  have hmoves := (FullRegs.step_moves hst.ordered (c2h_slice_pins s i)).2
  have htaken : s.c2h_slice.taken (c2h_slice_pins s i) = [] := by
    simp [FullRegs.taken, c2h_slice_pins, hdrains.1]
  rwa [htaken, List.append_nil] at hmoves

/-- What the buffer holds and is given is what it gives and holds. -/
theorem buf_moves (s : RxRegs qid_depth pkt_depth) (i : RxInput) :
    s.buf_fifo.contents ++ moved s =
      s.buf_fifo.popped (axis_c2h_buf_tready s i) ++ (rx_step s i config).buf_fifo.contents := by
  have hconserves := s.buf_fifo.clock_conserves
    (if s.c2h_slice.m_axis_tvalid then [s.c2h_slice.axis0] else []) (axis_c2h_buf_tready s i)
  rwa [buf_accepted] at hconserves

/-- A cycle brings the beats nearer to the output. -/
theorem Steering.rank_next (hst : Steering config h s) (hdepth : max 1 pkt_depth ≤ qid_depth)
    (hpkt : 0 < pkt_depth) (hdrains : RxDrains i)
    (hheld : s.c2h_slice.held ≠ [] ∨ s.buf_fifo.contents ≠ []) :
    rank (rx_step s i config) + 1 ≤ rank s := by
  have hslice := congrArg List.length (hst.slice_moves hdrains)
  have hbuf := congrArg List.length (@buf_moves qid_depth pkt_depth config s i)
  rw [List.length_append] at hslice
  rw [List.length_append, List.length_append] at hbuf
  have hnow := delay_le s
  have hlater := delay_le (rx_step s i config)
  unfold rank
  by_cases hempty : s.buf_fifo.contents = []
  · have hmoved : (moved s).length = 1 := by
      have hheld' := hheld.resolve_right (not_not.mpr hempty)
      have hvalid : s.c2h_slice.m_axis_tvalid = true := FullRegs.valid_of_held hst.ordered hheld'
      have hready : axis_c2h_tready s = true := by
        rw [axis_c2h_tready, Bool.not_eq_true', Fifo.full_eq_false, hempty]
        exact hpkt
      rw [moved, hvalid, hready]
      rfl
    omega
  · by_cases hqid : s.qid_fifo.contents = []
    · have hdelay := hst.delay_next hdepth i hqid hempty
      have hstay : s.buf_fifo.popped (axis_c2h_buf_tready s i) = [] := by
        simp [axis_c2h_buf_tready, Fifo.empty, hqid]
      rw [hstay, List.length_nil] at hbuf
      omega
    · have hleaves : (s.buf_fifo.popped (axis_c2h_buf_tready s i)).length = 1 := by
        obtain ⟨b, bs, hb⟩ := List.exists_cons_of_ne_nil hempty
        simp [Fifo.popped, axis_c2h_buf_tready, hdrains.2, Fifo.empty, hqid, hb]
      omega

/-- No beat is in the slice or in the buffer. -/
def Cleared (s : RxRegs qid_depth pkt_depth) : Prop :=
  s.c2h_slice.held = [] ∧ s.buf_fifo.contents = []

theorem Steering.cleared_next (hst : Steering config h s) (hdrains : RxDrains i) (hcleared : Cleared s) :
    Cleared (rx_step s i config) := by
  obtain ⟨hheld, hbuf⟩ := hcleared
  have hslice := hst.slice_moves hdrains
  rw [hheld] at hslice
  obtain ⟨hmoved, hheld'⟩ := List.append_eq_nil_iff.mp hslice.symm
  have hmoves := @buf_moves qid_depth pkt_depth config s i
  rw [hmoved, hbuf] at hmoves
  exact ⟨hheld', (List.append_eq_nil_iff.mp hmoves.symm).2⟩

theorem rank_le (s : RxRegs qid_depth pkt_depth) : rank s ≤ 6 * pkt_depth + 29 := by
  have hslice : s.c2h_slice.held.length ≤ 2 := by
    rw [FullRegs.held]
    split
    · simp
    · split <;> simp
  have hbuf := s.buf_fifo.bounded
  have hdelay := delay_le s
  unfold rank
  omega

/-- While the path drains, either all beats have gone or they come nearer to the output. -/
theorem drains (hdepth : max 1 pkt_depth ≤ qid_depth) (hpkt : 0 < pkt_depth)
    (inputs rest : List RxInput) (hrest : ∀ i ∈ rest, RxDrains i)
    (horderly : Orderly ((rx_machine qid_depth pkt_depth config).trace (inputs ++ rest))) :
    Cleared ((rx_machine qid_depth pkt_depth config).run (inputs ++ rest)) ∨
      rank ((rx_machine qid_depth pkt_depth config).run (inputs ++ rest)) + rest.length ≤
        6 * pkt_depth + 29 := by
  induction rest using List.reverseRecOn with
  | nil => exact .inr (rank_le _)
  | append_singleton rest i ih =>
    have hdrains := hrest i (by simp)
    rw [← List.append_assoc, (rx_machine qid_depth pkt_depth config).trace_snoc] at horderly
    have hst := run_steering hdepth (inputs ++ rest) horderly.initial
    have hbefore := ih (fun j hj => hrest j (List.mem_append_left _ hj)) horderly.initial
    rw [← List.append_assoc, (rx_machine qid_depth pkt_depth config).run_snoc, List.length_append,
      List.length_singleton]
    by_cases hcleared : Cleared ((rx_machine qid_depth pkt_depth config).run (inputs ++ rest))
    · exact .inl (hst.cleared_next hdrains hcleared)
    · have hrank := hst.rank_next hdepth hpkt hdrains (not_and_or.mp hcleared)
      have hlater := hbefore.resolve_left hcleared
      refine .inr ?_
      change rank (rx_step _ i config) + (rest.length + 1) ≤ _
      omega

/-- When nothing more comes in and what goes out is taken, everything has gone out with its queue
within six cycles for each beat that the buffer can hold, and 29 more. -/
theorem all_steered (hdepth : max 1 pkt_depth ≤ qid_depth) (hpkt : 0 < pkt_depth)
    (inputs rest : List RxInput) (hrest : ∀ i ∈ rest, RxDrains i) (hlen : 6 * pkt_depth + 29 ≤ rest.length)
    (horderly : Orderly ((rx_machine qid_depth pkt_depth config).trace (inputs ++ rest))) :
    let h := (rx_machine qid_depth pkt_depth config).trace (inputs ++ rest)
    rx_sent h = (with_first RxBeat.tlast none (rx_received h)).map (steered config) := by
  intro h
  have hst := run_steering hdepth (inputs ++ rest) horderly
  have hcleared : Cleared ((rx_machine qid_depth pkt_depth config).run (inputs ++ rest)) := by
    obtain hcleared | hrank := drains hdepth hpkt inputs rest hrest horderly
    · exact hcleared
    · have hzero : rank ((rx_machine qid_depth pkt_depth config).run (inputs ++ rest)) = 0 := by omega
      unfold rank at hzero
      exact ⟨List.length_eq_zero_iff.mp (by omega), List.length_eq_zero_iff.mp (by omega)⟩
  have hbuffered := hst.buffered
  rw [hcleared.2, List.append_nil] at hbuffered
  rw [hst.stored, hcleared.1, List.append_nil]
  refine hst.steered.eq_of_length ?_
  rw [List.length_map, with_first_length]
  exact (congrArg List.length hbuffered).trans (List.length_map _) |>.symm

theorem all_steered_two :
    let h := (rx_machine 32 32 example_rss).trace (two_arrivals ++ List.replicate 221 ⟨false, ⟨0, false, 0⟩, true⟩)
    rx_sent h = (with_first RxBeat.tlast none (rx_received h)).map (steered example_rss) :=
  all_steered (by decide) (by decide) two_arrivals _
    (fun i hi => by rw [List.eq_of_mem_replicate hi]; exact ⟨rfl, rfl⟩) (List.length_replicate ▸ by decide)
    ⟨by decide +kernel, by decide +kernel⟩

end Progress

end reconic.qdma_subsystem_function
