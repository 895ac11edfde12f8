import RecoNIC.HostPath.FunctionReceive
import RecoNIC.HostPath.FlowHash
import RecoNIC.Clocked.Heads

open clocked
open reconic.axi_stream_register_slice (FullRegs)
open reconic.qdma_subsystem_hash (Flow Supported Stage1 Stage2 Stage3 Untagged Holds)

namespace reconic.axi_stream_register_slice

/-- A slice that becomes empty still shows the beat that has left. -/
theorem FullRegs.step_stale {α : Type} {s : FullRegs α} {i : Input α} (hordered : s.Ordered)
    (hvalid : s.m_axis_tvalid = true) (hleaves : i.m_axis_tready = true)
    (hempty : (s.step i).m_axis_tvalid = false) : (s.step i).axis0 = s.axis0 := by
  obtain ⟨axis0, axis1, filled⟩ := s
  obtain ⟨tvalid, beat, tready⟩ := i
  subst hleaves
  obtain rfl | rfl | rfl : filled = 0b00#2 ∨ filled = 0b01#2 ∨ filled = 0b11#2 :=
    hordered.filled_cases
  · simp [m_axis_tvalid] at hvalid
  all_goals cases tvalid <;> simp [step, m_axis_tvalid] at hempty ⊢

theorem FullRegs.valid_of_held {α : Type} {s : FullRegs α} (hordered : s.Ordered) (hheld : s.held ≠ []) :
    s.m_axis_tvalid = true := by
  rcases hordered.filled_cases with hfilled | hfilled | hfilled
  · exact absurd (by simp [held, hfilled]) hheld
  · simp [m_axis_tvalid, hfilled]
  · simp [m_axis_tvalid, hfilled]

end reconic.axi_stream_register_slice

namespace reconic.qdma_subsystem_function

/-- The queue of a packet with this first beat. -/
def packet_queue (config : RssConfig) (b : RxBeat) : BitVec 11 :=
  hash_queue config ((Flow.of_packet b.tdata).hash config.hash_key)

/-- A beat, with the queue of its packet. -/
def steered (config : RssConfig) (x : RxBeat × RxBeat) : qdma_subsystem_c2h.Beat :=
  ⟨x.2.tdata, x.2.tlast, x.2.tuser_size, packet_queue config x.1⟩

/-- A beat without its queue. -/
def unsteered (b : qdma_subsystem_c2h.Beat) : RxBeat := ⟨b.tdata, b.tlast, b.tuser_size⟩

section Steering

variable {qid_depth pkt_depth : Nat}

/-- The beats that come in from the card. -/
def rx_received (h : List (Cycle (RxRegs qid_depth pkt_depth) RxInput)) : List RxBeat :=
  h.flatMap fun c => c.state.c2h_slice.taken (c2h_slice_pins c.state c.input)

/-- The beat that goes from the slice into the buffer. -/
def moved (s : RxRegs qid_depth pkt_depth) : List RxBeat :=
  if s.c2h_slice.m_axis_tvalid && axis_c2h_tready s then [s.c2h_slice.axis0] else []

/-- The beats that go into the buffer. -/
def rx_buffered (h : List (Cycle (RxRegs qid_depth pkt_depth) RxInput)) : List RxBeat :=
  h.flatMap fun c => moved c.state

/-- The beat that goes out in a cycle. -/
def rx_sent_beat (s : RxRegs qid_depth pkt_depth) (i : RxInput) : List qdma_subsystem_c2h.Beat :=
  if i.m_axis_c2h_tready then (m_axis_c2h s).toList else []

/-- The beats that go out, with their queues. -/
def rx_sent (h : List (Cycle (RxRegs qid_depth pkt_depth) RxInput)) : List qdma_subsystem_c2h.Beat :=
  h.flatMap fun c => rx_sent_beat c.state c.input

/-- The last beat of a packet does not wait for room when it comes right after the first one. -/
def Unhindered (c : Cycle (RxRegs qid_depth pkt_depth) RxInput) : Prop :=
  c.state.hash.s1.s1_state = .S_S1_MORE → c.state.c2h_slice.m_axis_tvalid = true →
    c.state.c2h_slice.axis0.tlast = true → axis_c2h_tready c.state = true

instance (c : Cycle (RxRegs qid_depth pkt_depth) RxInput) : Decidable (Unhindered c) :=
  inferInstanceAs (Decidable (_ → _ → _ → _))

/-- The queues on their way: those in the FIFO, and those of the stages of the hash computation. -/
def pipe (config : RssConfig) (s : RxRegs qid_depth pkt_depth) : List (BitVec 11) :=
  s.qid_fifo.contents ++ (if s.qid_fifo_wr_en then [s.qid_fifo_din] else []) ++
    (if s.hash.s3.hash_result_valid then
      [hash_queue config (qdma_subsystem_hash.hash_result s.hash.s3)] else []) ++
    (if s.hash.s2.ip4_payload_valid then
      [hash_queue config (s.hash.s2.flow.hash config.hash_key)] else []) ++
    if s.hash.s1.eth_payload_valid then
      [hash_queue config (s.hash.s1.flow.hash config.hash_key)] else []

/-- The queue of a packet of which only the first beat has been seen. -/
def pending (config : RssConfig) (s : RxRegs qid_depth pkt_depth) : List (BitVec 11) :=
  if s.hash.s1.s1_state = .S_S1_MORE then
    [hash_queue config (s.hash.s1.flow.hash config.hash_key)] else []

/-- What the hash unit knows about the packet that goes on. -/
def Follows (first : Option RxBeat) (s : RxRegs qid_depth pkt_depth) : Prop :=
  match s.hash.s1.s1_state with
  | .S_S1_IDLE => first = none
  | .S_S1_MORE => ∃ b, first = some b ∧ Holds b.tdata s.hash.s1 ∧
    (s.c2h_slice.m_axis_tvalid = false → s.c2h_slice.axis0.tlast = false)
  | .S_S1_PASS => ∃ b, first = some b

variable {config : RssConfig} {s : RxRegs qid_depth pkt_depth} {i : RxInput}

/-- Queues move on by one stage in a cycle. -/
theorem pipe_step (config : RssConfig) (s : RxRegs qid_depth pkt_depth) (i : RxInput)
    (huntagged : Untagged s.hash.s1)
    (hroom : s.qid_fifo_wr_en = true → s.qid_fifo.contents.length < qid_depth) :
    s.qid_fifo.popped (qid_fifo_rd_en s i) ++ pipe config (rx_step s i config) =
      pipe config s ++ if (rx_step s i config).hash.s1.eth_payload_valid then
        [hash_queue config ((rx_step s i config).hash.s1.flow.hash config.hash_key)] else [] := by
  have haccepted : s.qid_fifo.accepted (if s.qid_fifo_wr_en then [s.qid_fifo_din] else []) =
      if s.qid_fifo_wr_en then [s.qid_fifo_din] else [] := by
    split
    · next hwr => exact Fifo.accepted_of_not_full _ (hroom hwr)
    · exact Fifo.accepted_nil _
  have hfifo := s.qid_fifo.clock_conserves (if s.qid_fifo_wr_en then [s.qid_fifo_din] else [])
    (qid_fifo_rd_en s i)
  rw [haccepted] at hfifo
  have hwrite : (if (rx_step s i config).qid_fifo_wr_en then [(rx_step s i config).qid_fifo_din] else []) =
      if s.hash.s3.hash_result_valid then
        [hash_queue config (qdma_subsystem_hash.hash_result s.hash.s3)] else [] := by
    simp only [rx_step]
    split <;> rfl
  have hresult : (if (rx_step s i config).hash.s3.hash_result_valid then
        [hash_queue config (qdma_subsystem_hash.hash_result (rx_step s i config).hash.s3)] else []) =
      if s.hash.s2.ip4_payload_valid then
        [hash_queue config (s.hash.s2.flow.hash config.hash_key)] else [] := by
    change (if (s.hash.s3.step s.hash.s1 s.hash.s2 config.hash_key).hash_result_valid = true then
      [hash_queue config (qdma_subsystem_hash.hash_result
        (s.hash.s3.step s.hash.s1 s.hash.s2 config.hash_key))] else []) = _
    rw [Stage3.step_valid]
    split
    · next hvalid => rw [Stage3.step_result _ _ hvalid huntagged.2]
    · rfl
  have hfields : (if (rx_step s i config).hash.s2.ip4_payload_valid then
        [hash_queue config ((rx_step s i config).hash.s2.flow.hash config.hash_key)] else []) =
      if s.hash.s1.eth_payload_valid then
        [hash_queue config (s.hash.s1.flow.hash config.hash_key)] else [] := by
    change (if (s.hash.s2.step s.hash.s1).ip4_payload_valid = true then
      [hash_queue config ((s.hash.s2.step s.hash.s1).flow.hash config.hash_key)] else []) = _
    rw [Stage2.step_valid]
    split
    · next hvalid => rw [Stage2.step_flow _ hvalid]
    · rfl
  rw [pipe, pipe, hwrite, hresult, hfields, ← List.append_assoc, ← List.append_assoc, ← List.append_assoc,
    ← List.append_assoc, hfifo]
  rfl

/-- The queue that the first stage hands on. -/
def emitted (config : RssConfig) (s : RxRegs qid_depth pkt_depth) : List (BitVec 11) :=
  if s.hash.s1.eth_payload_valid then
    [hash_queue config (s.hash.s1.flow.hash config.hash_key)] else []

theorem moved_firsts (b : RxBeat) (s : RxRegs qid_depth pkt_depth) :
    firsts RxBeat.tlast (some b) (moved s) = [] := by
  rw [moved]
  split <;> rfl

/-- One cycle of the hash unit: the queue of each packet is handed on once, and belongs to its first
beat. -/
theorem Follows.next {first : Option RxBeat} (hfollows : Follows first s) (config : RssConfig) (i : RxInput)
    (hordered : s.c2h_slice.Ordered) (huntagged : Untagged s.hash.s1) (hunhindered : Unhindered ⟨s, i⟩)
    (hsupported : ∀ b ∈ firsts RxBeat.tlast first (moved s), Supported b.tdata) :
    Untagged (rx_step s i config).hash.s1 ∧
      Follows (first_after RxBeat.tlast first (moved s)) (rx_step s i config) ∧
      emitted config (rx_step s i config) ++ pending config (rx_step s i config) =
        pending config s ++ (firsts RxBeat.tlast first (moved s)).map (packet_queue config) := by
  have hs1 : (rx_step s i config).hash.s1 = s.hash.s1.step (hash_pins s) := rfl
  rw [emitted, pending, pending]
  unfold Follows at hfollows ⊢
  rw [hs1]
  cases hstate : s.hash.s1.s1_state with
  | S_S1_IDLE =>
    rw [hstate] at hfollows
    obtain rfl := hfollows
    cases hfire : s.c2h_slice.m_axis_tvalid && axis_c2h_tready s with
    | false =>
      have hmoved : moved s = [] := by rw [moved, hfire]; rfl
      obtain ⟨huntagged', hvalid, hnext⟩ :=
        Stage1.step_waiting (s := s.hash.s1) (i := hash_pins s) hstate hfire
      rw [hvalid, hnext, hmoved]
      exact ⟨huntagged', rfl, by simp [firsts]⟩
    | true =>
      have hmoved : moved s = [s.c2h_slice.axis0] := by rw [moved, hfire]; rfl
      have hsupported' : Supported (hash_pins s).p_axis_tdata :=
        hsupported s.c2h_slice.axis0 (by rw [hmoved]; exact List.mem_singleton_self _)
      obtain ⟨huntagged', hholds, hvalid, hnext⟩ :=
        Stage1.step_first (s := s.hash.s1) (i := hash_pins s) hstate hfire huntagged hsupported'
      have hqueue : hash_queue config ((s.hash.s1.step (hash_pins s)).flow.hash config.hash_key) =
          packet_queue config s.c2h_slice.axis0 := by
        rw [hholds.flow]
        rfl
      have hvalid : (s.hash.s1.step (hash_pins s)).eth_payload_valid = s.c2h_slice.axis0.tlast := hvalid
      have hnext : (s.hash.s1.step (hash_pins s)).s1_state =
          if s.c2h_slice.axis0.tlast then .S_S1_IDLE else .S_S1_MORE := hnext
      rw [hvalid, hnext, hqueue, hmoved]
      refine ⟨huntagged', ?_⟩
      cases hlast : s.c2h_slice.axis0.tlast with
      | true => exact ⟨by simp [first_after, first_next, hlast], by simp [firsts]⟩
      | false =>
        refine ⟨⟨s.c2h_slice.axis0, by simp [first_after, first_next, hlast], hholds, fun hempty => ?_⟩,
          by simp [firsts]⟩
        have hstale := FullRegs.step_stale hordered (i := c2h_slice_pins s i)
          (Bool.and_eq_true _ _ ▸ hfire).1 (Bool.and_eq_true _ _ ▸ hfire).2 hempty
        exact (congrArg RxBeat.tlast hstale).trans hlast
  | S_S1_MORE =>
    rw [hstate] at hfollows
    obtain ⟨b, rfl, hholds, hstale⟩ := hfollows
    obtain ⟨huntagged', hholds', hvalid, hnext⟩ := Stage1.step_more hstate huntagged hholds (hash_pins s)
    have hnext : (s.hash.s1.step (hash_pins s)).s1_state =
        if s.c2h_slice.axis0.tlast then .S_S1_IDLE else .S_S1_PASS := hnext
    rw [hvalid, hnext, moved_firsts, hholds'.flow, hholds.flow]
    refine ⟨huntagged', ?_⟩
    cases hlast : s.c2h_slice.axis0.tlast with
    | true =>
      have hvalid' : s.c2h_slice.m_axis_tvalid = true := by
        by_contra hnot
        rw [hstale (Bool.eq_false_iff.mpr hnot)] at hlast
        cases hlast
      have hready := hunhindered hstate hvalid' hlast
      have hmoved : moved s = [s.c2h_slice.axis0] := by rw [moved, hvalid', hready]; rfl
      rw [hmoved]
      exact ⟨by simp [first_after, first_next, hlast], by simp⟩
    | false =>
      refine ⟨⟨b, ?_⟩, by simp⟩
      rw [moved]
      split <;> simp [first_after, first_next, hlast]
  | S_S1_PASS =>
    rw [hstate] at hfollows
    obtain ⟨b, rfl⟩ := hfollows
    obtain ⟨huntagged', hvalid, hnext⟩ := Stage1.step_pass (s := s.hash.s1) hstate (hash_pins s)
    have hnext : (s.hash.s1.step (hash_pins s)).s1_state =
        if s.c2h_slice.m_axis_tvalid && s.c2h_slice.axis0.tlast && axis_c2h_tready s then .S_S1_IDLE
        else .S_S1_PASS := hnext
    rw [hvalid, hnext, moved_firsts]
    refine ⟨huntagged', ?_⟩
    rw [moved, Bool.and_right_comm]
    cases hfire : s.c2h_slice.m_axis_tvalid && axis_c2h_tready s <;>
      cases hlast : s.c2h_slice.axis0.tlast <;> simp [first_after, first_next, hlast]

/-- In a cycle either nothing goes out, or the first beat of the buffer with the first queue. -/
theorem out_cases (s : RxRegs qid_depth pkt_depth) (i : RxInput) :
    (rx_sent_beat s i = [] ∧ s.buf_fifo.popped (axis_c2h_buf_tready s i) = [] ∧
        s.qid_fifo.popped (qid_fifo_rd_en s i) = []) ∨
      ∃ b bs qid qids, s.buf_fifo.contents = b :: bs ∧ s.qid_fifo.contents = qid :: qids ∧
        rx_sent_beat s i = [⟨b.tdata, b.tlast, b.tuser_size, qid⟩] ∧
        s.buf_fifo.popped (axis_c2h_buf_tready s i) = [b] ∧
        s.qid_fifo.popped (qid_fifo_rd_en s i) = if b.tlast then [qid] else [] := by
  cases hready : i.m_axis_c2h_tready with
  | false =>
    refine .inl ⟨by simp [rx_sent_beat, hready], by simp [axis_c2h_buf_tready, hready], ?_⟩
    rw [qid_fifo_rd_en]
    split <;> simp [hready]
  | true =>
    cases hbuf : s.buf_fifo.contents with
    | nil =>
      have hnone : m_axis_c2h s = none := by simp [m_axis_c2h, Fifo.dout, hbuf]
      exact .inl ⟨by simp [rx_sent_beat, hnone], by simp [Fifo.popped, hbuf],
        by simp [qid_fifo_rd_en, hnone]⟩
    | cons b bs =>
      cases hqid : s.qid_fifo.contents with
      | nil =>
        have hnone : m_axis_c2h s = none := by simp [m_axis_c2h, Fifo.dout, hbuf, hqid]
        exact .inl ⟨by simp [rx_sent_beat, hnone],
          by simp [axis_c2h_buf_tready, Fifo.empty, hqid], by simp [qid_fifo_rd_en, hnone]⟩
      | cons qid qids =>
        have hout : m_axis_c2h s = some ⟨b.tdata, b.tlast, b.tuser_size, qid⟩ := by
          simp [m_axis_c2h, Fifo.dout, hbuf, hqid]
        refine .inr ⟨b, bs, qid, qids, rfl, rfl, by simp [rx_sent_beat, hready, hout], ?_, ?_⟩
        · simp [Fifo.popped, axis_c2h_buf_tready, hready, Fifo.empty, hqid, hbuf]
        · rw [qid_fifo_rd_en, hout]
          cases b.tlast <;> simp [Fifo.popped, hready, hqid]

/-- What has come in is on its way to where it goes out with its queue. -/
structure Steering (config : RssConfig) (h : List (Cycle (RxRegs qid_depth pkt_depth) RxInput))
    (s : RxRegs qid_depth pkt_depth) : Prop where
  ordered : s.c2h_slice.Ordered
  stored : rx_received h = rx_buffered h ++ s.c2h_slice.held
  buffered : rx_buffered h = (rx_sent h).map unsteered ++ s.buf_fifo.contents
  follows : Follows (first_after RxBeat.tlast none (rx_buffered h)) s
  untagged : Untagged s.hash.s1
  queues : pipe config s ++ pending config s =
    ((firsts RxBeat.tlast none (rx_buffered h)).drop
      ((rx_sent h).countP qdma_subsystem_c2h.Beat.tlast)).map (packet_queue config)
  steered : rx_sent h <+: (with_first RxBeat.tlast none (rx_buffered h)).map (steered config)

variable {h : List (Cycle (RxRegs qid_depth pkt_depth) RxInput)}

theorem rx_buffered_snoc (h : List (Cycle (RxRegs qid_depth pkt_depth) RxInput))
    (s : RxRegs qid_depth pkt_depth) (i : RxInput) :
    rx_buffered (h ++ [⟨s, i⟩]) = rx_buffered h ++ moved s := by
  simp [rx_buffered]

theorem rx_sent_snoc (h : List (Cycle (RxRegs qid_depth pkt_depth) RxInput))
    (s : RxRegs qid_depth pkt_depth) (i : RxInput) :
    rx_sent (h ++ [⟨s, i⟩]) = rx_sent h ++ rx_sent_beat s i := by
  simp [rx_sent]

theorem countP_unsteered (bs : List qdma_subsystem_c2h.Beat) :
    (bs.map unsteered).countP RxBeat.tlast = bs.countP qdma_subsystem_c2h.Beat.tlast := by
  rw [List.countP_map]
  rfl

/-- As many packets have begun and are not sent completely as there are queues on their way. -/
theorem Steering.queues_length (hst : Steering config h s) :
    (pipe config s).length + (pending config s).length =
      s.buf_fifo.contents.countP RxBeat.tlast +
        (first_after RxBeat.tlast none (rx_buffered h)).toList.length := by
  have hlength := congrArg List.length hst.queues
  have hfirsts := @firsts_length _ RxBeat.tlast none (rx_buffered h)
  have hcount := congrArg (List.countP RxBeat.tlast) hst.buffered
  rw [List.countP_append, countP_unsteered] at hcount
  rw [List.length_append, List.length_map, List.length_drop] at hlength
  simp only [Option.toList_none, List.nil_append] at hfirsts
  omega

/-- The FIFO has room for the queue that is written to it. -/
theorem Steering.room (hst : Steering config h s) (hdepth : max 1 pkt_depth ≤ qid_depth)
    (hwr : s.qid_fifo_wr_en = true) : s.qid_fifo.contents.length < qid_depth := by
  have hlength := hst.queues_length
  have hbound := @countP_add_first_le _ RxBeat.tlast ((rx_sent h).map unsteered)
    s.buf_fifo.contents
  rw [← hst.buffered] at hbound
  have hstored := s.buf_fifo.bounded
  have hpipe : s.qid_fifo.contents.length + 1 ≤ (pipe config s).length := by
    simp only [pipe, hwr, if_true, List.length_append, List.length_singleton]
    omega
  omega

theorem prefix_snoc {α : Type} {l l' : List α} {a : α} (h : l <+: l') (ha : l'[l.length]? = some a) :
    l ++ [a] <+: l' := by
  obtain ⟨rest, rfl⟩ := h
  cases rest with
  | nil => simp at ha
  | cons b rest =>
    have hb : b = a := by simpa using ha
    exact ⟨rest, by simp [hb]⟩

/-- The beat that goes out has the queue of its packet. -/
theorem Steering.sent_next (hst : Steering config h s) (i : RxInput) :
    rx_sent (h ++ [⟨s, i⟩]) <+:
      (with_first RxBeat.tlast none (rx_buffered h)).map (qdma_subsystem_function.steered config) := by
  rw [rx_sent_snoc]
  rcases out_cases s i with ⟨hnone, -⟩ | ⟨b, bs, qid, qids, hbuf, hqid, hsent, -⟩
  · rw [hnone, List.append_nil]
    exact hst.steered
  · have hlt : (rx_sent h).length < (rx_buffered h).length := by
      rw [hst.buffered, List.length_append, List.length_map, hbuf, List.length_cons]
      omega
    have htake : (rx_buffered h).take (rx_sent h).length = (rx_sent h).map unsteered := by
      rw [hst.buffered, List.take_left' (List.length_map _)]
    have hbeat : (rx_buffered h)[(rx_sent h).length]? = some b := by
      rw [hst.buffered, List.getElem?_append_right (by simp), List.length_map, Nat.sub_self, hbuf]
      rfl
    obtain ⟨⟨f, b'⟩, hx⟩ : ∃ x, (with_first RxBeat.tlast none (rx_buffered h))[(rx_sent h).length]? =
        some x := ⟨_, List.getElem?_eq_getElem (by rwa [with_first_length])⟩
    have hb' : b' = b := by
      have hsnd := congrArg (fun l : List RxBeat => l[(rx_sent h).length]?)
        (@with_first_map_snd _ RxBeat.tlast none (rx_buffered h))
      simp only [List.getElem?_map, hx, hbeat] at hsnd
      simpa using hsnd
    have hfirst := @with_first_getElem? _ RxBeat.tlast none _ _ hlt
    rw [htake, countP_unsteered, hx] at hfirst
    have hqueue : (pipe config s ++ pending config s)[0]? = some qid := by
      simp [pipe, hqid]
    rw [hst.queues, List.getElem?_map, List.getElem?_drop, Nat.add_zero] at hqueue
    have hf : packet_queue config f = qid := by
      have hfirst' : (firsts RxBeat.tlast none (rx_buffered h))[(rx_sent h).countP
          qdma_subsystem_c2h.Beat.tlast]? = some f := hfirst
      rw [hfirst'] at hqueue
      simpa using hqueue
    rw [hsent]
    refine prefix_snoc hst.steered ?_
    rw [List.getElem?_map, hx, hb', Option.map_some, qdma_subsystem_function.steered, hf]

/-- What goes out is what leaves the FIFOs. -/
theorem out_popped (s : RxRegs qid_depth pkt_depth) (i : RxInput) :
    (rx_sent_beat s i).map unsteered = s.buf_fifo.popped (axis_c2h_buf_tready s i) ∧
      (rx_sent_beat s i).countP qdma_subsystem_c2h.Beat.tlast =
        (s.qid_fifo.popped (qid_fifo_rd_en s i)).length := by
  rcases out_cases s i with ⟨hnone, hbuf, hqid⟩ | ⟨b, _, qid, _, -, -, hsent, hbuf, hqid⟩
  · rw [hnone, hbuf, hqid]
    exact ⟨rfl, rfl⟩
  · rw [hsent, hbuf, hqid]
    refine ⟨rfl, ?_⟩
    cases b.tlast <;> simp

theorem buf_accepted (s : RxRegs qid_depth pkt_depth) :
    s.buf_fifo.accepted (if s.c2h_slice.m_axis_tvalid then [s.c2h_slice.axis0] else []) = moved s := by
  rw [moved, axis_c2h_tready]
  cases hfull : s.buf_fifo.full with
  | true =>
    rw [Fifo.accepted_of_full _ (s.buf_fifo.full_eq_true.mp hfull)]
    simp
  | false =>
    cases s.c2h_slice.m_axis_tvalid with
    | false => simp
    | true => simpa using Fifo.accepted_of_not_full _ (s.buf_fifo.full_eq_false.mp hfull)

theorem Steering.next (hst : Steering config h s) (hdepth : max 1 pkt_depth ≤ qid_depth) (i : RxInput)
    (hunhindered : Unhindered ⟨s, i⟩)
    (hsupported : ∀ b ∈ firsts RxBeat.tlast none (rx_buffered (h ++ [⟨s, i⟩])), Supported b.tdata) :
    Steering config (h ++ [⟨s, i⟩]) (rx_step s i config) := by
  have hbuffered := rx_buffered_snoc h s i
  have hafter : first_after RxBeat.tlast none (rx_buffered (h ++ [⟨s, i⟩])) =
      first_after RxBeat.tlast (first_after RxBeat.tlast none (rx_buffered h)) (moved s) := by
    rw [hbuffered, first_after, List.foldl_append]
    rfl
  have hfirsts : firsts RxBeat.tlast none (rx_buffered (h ++ [⟨s, i⟩])) =
      firsts RxBeat.tlast none (rx_buffered h) ++
        firsts RxBeat.tlast (first_after RxBeat.tlast none (rx_buffered h)) (moved s) := by
    rw [hbuffered, firsts_append]
  obtain ⟨huntagged, hfollows, hstage⟩ := hst.follows.next config i hst.ordered hst.untagged hunhindered
    fun b hb => hsupported b (hfirsts ▸ List.mem_append_right _ hb)
  obtain ⟨hordered, hmoves⟩ := FullRegs.step_moves hst.ordered (c2h_slice_pins s i)
  obtain ⟨hpopped, hcount⟩ := out_popped s i
  have hconserves := s.buf_fifo.clock_conserves
    (if s.c2h_slice.m_axis_tvalid then [s.c2h_slice.axis0] else []) (axis_c2h_buf_tready s i)
  rw [buf_accepted] at hconserves
  refine ⟨hordered, ?_, ?_, hafter ▸ hfollows, huntagged, ?_, ?_⟩
  · rw [rx_received, List.flatMap_append, List.flatMap_singleton, ← rx_received, hst.stored, hbuffered,
      List.append_assoc, List.append_assoc, hmoves]
    rfl
  · rw [hbuffered, hst.buffered, rx_sent_snoc, List.map_append, List.append_assoc, hconserves, hpopped,
      List.append_assoc]
    rfl
  · have hpipe := pipe_step config s i hst.untagged (hst.room hdepth)
    have hall : s.qid_fifo.popped (qid_fifo_rd_en s i) ++
        (pipe config (rx_step s i config) ++ pending config (rx_step s i config)) =
          ((firsts RxBeat.tlast none (rx_buffered (h ++ [⟨s, i⟩]))).drop
            ((rx_sent h).countP qdma_subsystem_c2h.Beat.tlast)).map (packet_queue config) := by
      have hle : (rx_sent h).countP qdma_subsystem_c2h.Beat.tlast ≤
          (firsts RxBeat.tlast none (rx_buffered h)).length := by
        have hlength := @firsts_length _ RxBeat.tlast none (rx_buffered h)
        have hcounts := congrArg (List.countP RxBeat.tlast) hst.buffered
        rw [List.countP_append, countP_unsteered] at hcounts
        simp only [Option.toList_none, List.nil_append] at hlength
        omega
      rw [← List.append_assoc, hpipe, List.append_assoc]
      change pipe config s ++ (emitted config (rx_step s i config) ++ _) = _
      rw [hstage, ← List.append_assoc, hst.queues, hfirsts, List.drop_append_of_le_length hle,
        List.map_append]
    rw [rx_sent_snoc, List.countP_append, hcount, ← List.drop_drop, List.map_drop, ← hall,
      List.drop_left]
  · refine (hst.sent_next i).trans ?_
    rw [hbuffered, with_first_append, List.map_append]
    exact List.prefix_append _ _

theorem reset_steering (config : RssConfig) :
    Steering config [] (rx_machine qid_depth pkt_depth config).reset where
  ordered := by simp [rx_machine, FullRegs.Ordered]
  stored := rfl
  buffered := rfl
  follows := rfl
  untagged := ⟨rfl, rfl⟩
  queues := rfl
  steered := List.nil_prefix

/-- What a function needs of its packets: no VLAN tag, the IPv4 header with the ports in the first
beat, and a last beat right after the first one not held up. -/
structure Orderly (h : List (Cycle (RxRegs qid_depth pkt_depth) RxInput)) : Prop where
  supported : ∀ b ∈ firsts RxBeat.tlast none (rx_received h), Supported b.tdata
  unhindered : ∀ c ∈ h, Unhindered c

theorem Orderly.initial {c : Cycle (RxRegs qid_depth pkt_depth) RxInput} (horderly : Orderly (h ++ [c])) :
    Orderly h := by
  refine ⟨fun b hb => horderly.supported b ?_, fun d hd => horderly.unhindered d (List.mem_append_left _ hd)⟩
  rw [rx_received, List.flatMap_append, firsts_append]
  exact List.mem_append_left _ hb

theorem run_steering (hdepth : max 1 pkt_depth ≤ qid_depth) (inputs : List RxInput)
    (horderly : Orderly ((rx_machine qid_depth pkt_depth config).trace inputs)) :
    Steering config ((rx_machine qid_depth pkt_depth config).trace inputs)
      ((rx_machine qid_depth pkt_depth config).run inputs) := by
  refine (rx_machine qid_depth pkt_depth config).history_induction Orderly (Steering config)
    (fun h c horderly => horderly.initial) (reset_steering config) (fun h s i horderly hst => ?_) inputs
    horderly
  refine hst.next hdepth i (horderly.unhindered _ (by simp)) fun b hb => horderly.supported b ?_
  have hmoves := (FullRegs.step_moves hst.ordered (c2h_slice_pins s i)).2
  have hreceived : rx_received (h ++ [⟨s, i⟩]) =
      rx_buffered (h ++ [⟨s, i⟩]) ++ (s.c2h_slice.step (c2h_slice_pins s i)).held := by
    rw [rx_received, List.flatMap_append, List.flatMap_singleton, ← rx_received, hst.stored,
      rx_buffered_snoc, List.append_assoc, List.append_assoc, hmoves]
    rfl
  rw [hreceived, firsts_append]
  exact List.mem_append_left _ hb

/-- Queues from 4 on, taken in turn by the table, with the key after reset. -/
def example_rss : RssConfig where
  q_base := 4
  indir_table := fun k => k.setWidth 16 &&& 3
  hash_key := 0x7C9C37DE18DC4386D9270F6F260374B8BFD0404B7872E224DC1B91BB011BA7A6376CC87ED6E31417

/-- A UDP packet of two beats, a short packet that is not of IPv4, and a pause at the output. -/
def two_arrivals : List RxInput :=
  let udp : BitVec 512 := (0x0008#512 <<< 96) ||| (0x45#512 <<< 112) ||| (0x11#512 <<< 184) |||
    (0x0100A8C0#512 <<< 208) ||| (0x0200A8C0#512 <<< 240) ||| (0x35003412#512 <<< 272)
  let first : RxBeat := ⟨udp, false, 100⟩
  let second : RxBeat := ⟨7, true, 100⟩
  let short : RxBeat := ⟨3, true, 60⟩
  [⟨true, first, true⟩, ⟨true, second, false⟩, ⟨true, short, true⟩] ++
    List.replicate 8 ⟨false, short, true⟩

/-- Every beat that comes in goes out in order and once, and with the queue that the indirection table
gives for the hash of its packet's flow. -/
theorem packets_steered (hdepth : max 1 pkt_depth ≤ qid_depth) (inputs : List RxInput)
    (horderly : Orderly ((rx_machine qid_depth pkt_depth config).trace inputs)) :
    let h := (rx_machine qid_depth pkt_depth config).trace inputs
    let s := (rx_machine qid_depth pkt_depth config).run inputs
    (rx_sent h).map unsteered ++ s.buf_fifo.contents ++ s.c2h_slice.held = rx_received h ∧
      rx_sent h <+: (with_first RxBeat.tlast none (rx_received h)).map (steered config) := by
  intro h s
  have hst := run_steering hdepth inputs horderly
  refine ⟨by rw [← hst.buffered, ← hst.stored], hst.steered.trans ?_⟩
  rw [hst.stored, with_first_append, List.map_append]
  exact List.prefix_append _ _

theorem packets_steered_two :
    let h := (rx_machine 32 32 example_rss).trace two_arrivals
    let s := (rx_machine 32 32 example_rss).run two_arrivals
    (rx_sent h).map unsteered ++ s.buf_fifo.contents ++ s.c2h_slice.held = rx_received h ∧
      rx_sent h <+: (with_first RxBeat.tlast none (rx_received h)).map (steered example_rss) :=
  packets_steered (by decide) two_arrivals ⟨by decide +kernel, by decide +kernel⟩

end Steering

end reconic.qdma_subsystem_function
