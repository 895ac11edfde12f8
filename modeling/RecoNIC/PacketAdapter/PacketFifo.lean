import RecoNIC.PacketAdapter.Model
import RecoNIC.Clocked.Packets

open clocked

namespace reconic.axi_stream_packet_fifo

/-- A rising edge of one of the two clocks, with the pins on its side. What has been written or read
on the other side shows when it has crossed between the clocks, which takes a while. Until then a FIFO
looks empty to its reader that is not, or full to its writer. -/
inductive Edge (α : Type) where
  | s_aclk (s_axis_tvalid : Bool) (s_axis : α) (room_shows enq_pkt_room_shows : Bool)
  | m_aclk (m_axis_tready : Bool) (beat_shows enq_pkt_shows : Bool)

/-- The beats in the FIFO for the data, how many notices of packets there are in the FIFO between the
clocks, and the register that counts packets. -/
structure Regs (α : Type) where
  fifo : List α
  enq_pkt_fifo : Nat
  pkt_cnt : Nat

section PacketFifo

variable {α : Type} (last : α → Bool) (capacity enq_capacity FIFO_DEPTH : Nat)

def s_axis_tready (s : Regs α) (room_shows : Bool) : Bool :=
  decide (s.fifo.length < capacity) && room_shows

def enq_pkt (s : Regs α) (s_axis_tvalid : Bool) (s_axis : α) (room_shows : Bool) : Bool :=
  s_axis_tvalid && last s_axis && s_axis_tready capacity s room_shows

/-- The FIFO between the clocks takes a notice. -/
def enq_pkt_fifo_room (s : Regs α) (enq_pkt_room_shows : Bool) : Bool :=
  decide (s.enq_pkt_fifo < enq_capacity) && enq_pkt_room_shows

/-- Nothing is shown to the other side until a whole packet has arrived. -/
def m_axis_tvalid (s : Regs α) (beat_shows : Bool) : Bool :=
  if s.pkt_cnt > 0 then !s.fifo.isEmpty && beat_shows else false

def deq_pkt (s : Regs α) (m_axis_tready beat_shows : Bool) : Bool :=
  m_axis_tvalid s beat_shows && s.fifo.head?.any last && m_axis_tready

def enq_pkt_sync (s : Regs α) (enq_pkt_shows : Bool) : Bool :=
  decide (s.enq_pkt_fifo > 0) && enq_pkt_shows

def step (s : Regs α) : Edge α → Regs α
  | .s_aclk s_axis_tvalid s_axis room_shows enq_pkt_room_shows =>
    { s with
      fifo :=
        if s_axis_tvalid && s_axis_tready capacity s room_shows then s.fifo ++ [s_axis] else s.fifo
      -- `enq_pkt_fifo_wr_en` does not look whether the FIFO is full
      enq_pkt_fifo :=
        if enq_pkt last capacity s s_axis_tvalid s_axis room_shows &&
            enq_pkt_fifo_room enq_capacity s enq_pkt_room_shows then
          s.enq_pkt_fifo + 1
        else s.enq_pkt_fifo }
  | .m_aclk m_axis_tready beat_shows enq_pkt_shows =>
    let sync := enq_pkt_sync s enq_pkt_shows
    let deq := deq_pkt last s m_axis_tready beat_shows
    { fifo := if m_axis_tvalid s beat_shows && m_axis_tready then s.fifo.tail else s.fifo
      enq_pkt_fifo := if sync then s.enq_pkt_fifo - 1 else s.enq_pkt_fifo
      -- the register has one bit more than the addresses of the FIFO
      pkt_cnt :=
        if sync && !deq then (s.pkt_cnt + 1) % 2 ^ (Nat.clog 2 FIFO_DEPTH + 1)
        else if deq && !sync then
          (s.pkt_cnt + 2 ^ (Nat.clog 2 FIFO_DEPTH + 1) - 1) % 2 ^ (Nat.clog 2 FIFO_DEPTH + 1)
        else s.pkt_cnt }

/-- The FIFO out of reset, whose two clocks tick in any order. -/
def machine : Machine (Regs α) (Edge α) where
  reset := ⟨[], 0, 0⟩
  step := step last capacity enq_capacity FIFO_DEPTH

/-- The beat that an edge writes. -/
def writes (c : Cycle (Regs α) (Edge α)) : List α :=
  match c.input with
  | .s_aclk s_axis_tvalid s_axis room_shows _ =>
    if s_axis_tvalid && s_axis_tready capacity c.state room_shows then [s_axis] else []
  | .m_aclk .. => []

/-- The beat that is taken on the other side. -/
def sends (c : Cycle (Regs α) (Edge α)) : List α :=
  match c.input with
  | .s_aclk .. => []
  | .m_aclk m_axis_tready beat_shows _ =>
    if m_axis_tvalid c.state beat_shows && m_axis_tready then c.state.fifo.head?.toList else []

/-- The notice of a packet finds the FIFO between the clocks full, as it looks from its side. -/
def notice_lost (c : Cycle (Regs α) (Edge α)) : Bool :=
  match c.input with
  | .s_aclk s_axis_tvalid s_axis room_shows enq_pkt_room_shows =>
    enq_pkt last capacity c.state s_axis_tvalid s_axis room_shows &&
      !enq_pkt_fifo_room enq_capacity c.state enq_pkt_room_shows
  | .m_aclk .. => false

def written (h : List (Cycle (Regs α) (Edge α))) : List α := h.flatMap (writes capacity)

def sent (h : List (Cycle (Regs α) (Edge α))) : List α := h.flatMap sends

def notices_lost (h : List (Cycle (Regs α) (Edge α))) : Nat :=
  h.countP (notice_lost last capacity enq_capacity)

/-- The packets in the FIFO are counted, noticed, or their notices are lost. -/
structure Counts (h : List (Cycle (Regs α) (Edge α))) (s : Regs α) : Prop where
  flow : sent h ++ s.fifo = written capacity h
  room : s.fifo.length ≤ capacity
  count : s.pkt_cnt + s.enq_pkt_fifo + notices_lost last capacity enq_capacity h = s.fifo.countP last
  whole : sent h <+: (frames last (written capacity h)).complete.flatten

variable {last capacity enq_capacity FIFO_DEPTH} {h : List (Cycle (Regs α) (Edge α))} {s : Regs α}

theorem enq_pkt_eq (tvalid : Bool) (b : α) (shows : Bool) :
    enq_pkt last capacity s tvalid b shows =
      (tvalid && s_axis_tready capacity s shows && last b) := by
  rw [enq_pkt, Bool.and_assoc, Bool.and_comm (last b), ← Bool.and_assoc]

theorem deq_pkt_eq (tready beat_shows : Bool) :
    deq_pkt last s tready beat_shows =
      (m_axis_tvalid s beat_shows && tready && s.fifo.head?.any last) := by
  rw [deq_pkt, Bool.and_assoc, Bool.and_comm (Option.any _ _), ← Bool.and_assoc]

theorem enq_pkt_sync_pos {enq_shows : Bool} (hsync : enq_pkt_sync s enq_shows = true) :
    0 < s.enq_pkt_fifo := by
  rw [enq_pkt_sync, Bool.and_eq_true, decide_eq_true_eq] at hsync
  exact hsync.1

/-- A beat that is written may end a packet, whose notice is then stored or lost. -/
theorem Counts.s_edge (hc : Counts last capacity enq_capacity h s) (tvalid : Bool) (b : α)
    (shows enq_shows : Bool) :
    Counts last capacity enq_capacity (h ++ [⟨s, .s_aclk tvalid b shows enq_shows⟩])
      (step last capacity enq_capacity FIFO_DEPTH s (.s_aclk tvalid b shows enq_shows)) := by
  generalize he : Edge.s_aclk tvalid b shows enq_shows = e
  have hwritten : written capacity (h ++ [⟨s, e⟩]) =
      written capacity h ++ if tvalid && s_axis_tready capacity s shows then [b] else [] := by
    simp [written, writes, ← he]
  have hsent : sent (h ++ [⟨s, e⟩]) = sent h := by simp [sent, sends, ← he]
  have hlost : notices_lost last capacity enq_capacity (h ++ [⟨s, e⟩]) =
      notices_lost last capacity enq_capacity h +
        if enq_pkt last capacity s tvalid b shows && !enq_pkt_fifo_room enq_capacity s enq_shows
        then 1 else 0 := by
    simp [notices_lost, notice_lost, List.countP_append, List.countP_cons, ← he]
  subst he
  have hcount := hc.count
  refine ⟨?_, ?_, ?_, ?_⟩
  · rw [hsent, hwritten, ← hc.flow]
    simp only [step]
    split <;> simp
  · simp only [step]
    split
    · next htaken =>
      have hroom := (Bool.and_eq_true _ _ ▸ htaken).2
      rw [s_axis_tready, Bool.and_eq_true, decide_eq_true_eq] at hroom
      rw [List.length_append, List.length_singleton]
      exact hroom.1
    · exact hc.room
  · rw [hlost]
    cases htaken : tvalid && s_axis_tready capacity s shows with
    | false =>
      have henq : enq_pkt last capacity s tvalid b shows = false := by
        rw [enq_pkt_eq, htaken, Bool.false_and]
      simpa [step, htaken, henq] using hcount
    | true =>
      have henq : enq_pkt last capacity s tvalid b shows = last b := by
        rw [enq_pkt_eq, htaken, Bool.true_and]
      cases hroom : enq_pkt_fifo_room enq_capacity s enq_shows <;> cases hl : last b <;>
        simp [step, htaken, henq, hl, hroom] <;> omega
  · rw [hsent, hwritten]
    obtain ⟨rest, hrest⟩ := frames_complete_initial last (List.prefix_append (written capacity h)
      (if tvalid && s_axis_tready capacity s shows then [b] else []))
    refine hc.whole.trans ?_
    rw [← hrest, List.flatten_append]
    exact List.prefix_append _ _

/-- A beat is only sent when a packet is counted. -/
theorem transfer_head {tready beat_shows : Bool}
    (htransfer : (m_axis_tvalid s beat_shows && tready) = true) :
    0 < s.pkt_cnt ∧ ∃ b rest, s.fifo = b :: rest := by
  rw [Bool.and_eq_true, m_axis_tvalid] at htransfer
  obtain ⟨hvalid, -⟩ := htransfer
  split at hvalid
  · next hcnt =>
    rw [Bool.and_eq_true, Bool.not_eq_true', List.isEmpty_eq_false_iff] at hvalid
    exact ⟨hcnt, List.exists_cons_of_ne_nil hvalid.1⟩
  · cases hvalid

/-- The counter does not leave its range. -/
theorem count_down {n width : Nat} (hpos : 0 < n) (hn : n < width) :
    (n + width - 1) % width = n - 1 := by
  rw [show n + width - 1 = n - 1 + width by omega, Nat.add_mod_right, Nat.mod_eq_of_lt (by omega)]

/-- A notice that has crossed is counted, and a packet that has been taken is counted no more. -/
theorem pkt_cnt_step {tready beat_shows enq_shows : Bool}
    (hcnt : deq_pkt last s tready beat_shows = true → 0 < s.pkt_cnt)
    (hwidth : s.pkt_cnt + s.enq_pkt_fifo < 2 ^ (Nat.clog 2 FIFO_DEPTH + 1)) :
    let s' := step last capacity enq_capacity FIFO_DEPTH s (.m_aclk tready beat_shows enq_shows)
    s'.pkt_cnt + s'.enq_pkt_fifo + (if deq_pkt last s tready beat_shows then 1 else 0) =
      s.pkt_cnt + s.enq_pkt_fifo := by
  intro s'
  simp only [s', step]
  cases hsync : enq_pkt_sync s enq_shows with
  | false =>
    cases hdeq : deq_pkt last s tready beat_shows with
    | false => rfl
    | true =>
      have hpos := hcnt hdeq
      simp only [Bool.not_true, Bool.and_false, Bool.false_eq_true, if_false, Bool.not_false,
        Bool.and_true, if_true]
      rw [count_down hpos (by omega)]
      omega
  | true =>
    have hpos := enq_pkt_sync_pos hsync
    cases hdeq : deq_pkt last s tready beat_shows with
    | false =>
      simp only [Bool.not_false, Bool.and_true, Bool.false_eq_true, if_false, if_true]
      rw [Nat.mod_eq_of_lt (by omega)]
      omega
    | true =>
      simp only [Bool.not_true, Bool.and_false, Bool.false_eq_true, if_false, if_true]
      omega

/-- A beat that is sent belongs to a packet that has been written to its end. -/
theorem Counts.m_edge (hc : Counts last capacity enq_capacity h s)
    (hwidth : capacity < 2 ^ (Nat.clog 2 FIFO_DEPTH + 1)) (tready beat_shows enq_shows : Bool) :
    Counts last capacity enq_capacity (h ++ [⟨s, .m_aclk tready beat_shows enq_shows⟩])
      (step last capacity enq_capacity FIFO_DEPTH s (.m_aclk tready beat_shows enq_shows)) := by
  generalize he : Edge.m_aclk tready beat_shows enq_shows = e
  have hwritten : written capacity (h ++ [⟨s, e⟩]) = written capacity h := by
    simp [written, writes, ← he]
  have hlost : notices_lost last capacity enq_capacity (h ++ [⟨s, e⟩]) =
      notices_lost last capacity enq_capacity h := by
    simp [notices_lost, notice_lost, List.countP_append, ← he]
  have hsent : sent (h ++ [⟨s, e⟩]) = sent h ++
      if m_axis_tvalid s beat_shows && tready then s.fifo.head?.toList else [] := by
    simp [sent, sends, ← he]
  subst he
  have hcount := hc.count
  have hroom := hc.room
  have hle : s.fifo.countP last ≤ s.fifo.length := List.countP_le_length
  have hdeq := @deq_pkt_eq α last s tready beat_shows
  have hpkts := @pkt_cnt_step α last capacity enq_capacity FIFO_DEPTH s tready beat_shows enq_shows
    (fun htaken => (transfer_head (Bool.and_eq_true _ _ ▸ hdeq ▸ htaken).1).1) (by omega)
  dsimp only at hpkts
  cases htransfer : m_axis_tvalid s beat_shows && tready with
  | false =>
    rw [htransfer, if_neg Bool.false_ne_true, List.append_nil] at hsent
    rw [htransfer, Bool.false_and] at hdeq
    rw [hdeq, if_neg Bool.false_ne_true, Nat.add_zero] at hpkts
    have hfifo : (step last capacity enq_capacity FIFO_DEPTH s
        (.m_aclk tready beat_shows enq_shows)).fifo = s.fifo := by simp [step, htransfer]
    refine ⟨?_, ?_, ?_, ?_⟩
    · rw [hsent, hwritten, hfifo]
      exact hc.flow
    · rw [hfifo]
      exact hroom
    · rw [hlost, hfifo, hpkts]
      exact hcount
    · rw [hsent, hwritten]
      exact hc.whole
  | true =>
    obtain ⟨hcnt, b, rest, hhead⟩ := transfer_head htransfer
    have hflow := hc.flow
    rw [htransfer, if_pos rfl, hhead] at hsent
    rw [htransfer, Bool.true_and, hhead, List.head?_cons, Option.any_some] at hdeq
    rw [hhead] at hcount hroom hle hflow
    rw [List.countP_cons] at hcount hle
    rw [hdeq] at hpkts
    have hfifo : (step last capacity enq_capacity FIFO_DEPTH s
        (.m_aclk tready beat_shows enq_shows)).fifo = rest := by simp [step, htransfer, hhead]
    refine ⟨?_, ?_, ?_, ?_⟩
    · rw [hsent, hwritten, hfifo, ← hflow]
      simp
    · rw [List.length_cons] at hroom
      rw [hfifo]
      omega
    · rw [hlost, hfifo]
      omega
    · rw [hsent, hwritten, ← hflow]
      exact initial_of_ended (by rw [List.countP_cons]; omega)

/-- In every run the packets are accounted for. -/
theorem run_counts (hwidth : capacity < 2 ^ (Nat.clog 2 FIFO_DEPTH + 1)) (edges : List (Edge α)) :
    Counts last capacity enq_capacity ((machine last capacity enq_capacity FIFO_DEPTH).trace edges)
      ((machine last capacity enq_capacity FIFO_DEPTH).run edges) := by
  refine (machine last capacity enq_capacity FIFO_DEPTH).free_history_induction
    (Counts last capacity enq_capacity) ⟨rfl, Nat.zero_le _, rfl, List.nil_prefix⟩
    (fun h s e hc => ?_) edges
  cases e with
  | s_aclk tvalid b shows enq_shows =>
    exact @Counts.s_edge α last capacity enq_capacity FIFO_DEPTH h s hc tvalid b shows enq_shows
  | m_aclk tready beat_shows enq_shows => exact hc.m_edge hwidth tready beat_shows enq_shows

/-- Two packets, the second of which begins before the first one is taken. In one cycle the FIFO
looks full. -/
def two_clocks : List (Edge packet_adapter_tx.FifoBeat) :=
  [.s_aclk true ⟨1, BitVec.allOnes 64, false⟩ true true, .m_aclk true true true,
    .s_aclk true ⟨2, 3, true⟩ false true, .s_aclk true ⟨2, 3, true⟩ true true,
    .s_aclk true ⟨3, BitVec.allOnes 64, false⟩ true true, .m_aclk true true true,
    .m_aclk true true false, .m_aclk true false false, .m_aclk true true true,
    .m_aclk true true true, .s_aclk true ⟨4, 7, true⟩ true true]

/-- Whatever the order of the edges of the two clocks and however long things take to cross, the CMAC
gets the beats that have been written, in order and each once, and never one of a packet of which the
end has not been written yet. -/
theorem packets_stored_first (hwidth : capacity < 2 ^ (Nat.clog 2 FIFO_DEPTH + 1))
    (edges : List (Edge α)) :
    let m := machine last capacity enq_capacity FIFO_DEPTH
    let h := m.trace edges
    sent h ++ (m.run edges).fifo = written capacity h ∧
      sent h <+: (frames last (written capacity h)).complete.flatten := by
  intro m h
  have hc : Counts last capacity enq_capacity h (m.run edges) := run_counts hwidth edges
  exact ⟨hc.flow, hc.whole⟩

theorem packets_stored_first_two :
    let m := machine packet_adapter_tx.FifoBeat.tlast 64 16 64
    let h := m.trace two_clocks
    sent h ++ (m.run two_clocks).fifo = written 64 h ∧
      sent h <+: (frames packet_adapter_tx.FifoBeat.tlast (written 64 h)).complete.flatten :=
  packets_stored_first (by decide) two_clocks

/-- An edge of the clock of the CMAC, which takes what there is, when everything has crossed. -/
def drain : Edge α := .m_aclk true true true

/-- How many such edges the FIFO needs. -/
def drain_time (s : Regs α) : Nat := s.fifo.length + s.enq_pkt_fifo

/-- No packet is counted or noticed. -/
def Idle (s : Regs α) : Prop := s.pkt_cnt = 0 ∧ s.enq_pkt_fifo = 0

theorem Idle.drain (hidle : Idle s) : step last capacity enq_capacity FIFO_DEPTH s drain = s := by
  obtain ⟨fifo, enq_pkt_fifo, pkt_cnt⟩ := s
  obtain ⟨rfl, rfl⟩ : pkt_cnt = 0 ∧ enq_pkt_fifo = 0 := hidle
  simp [step, axi_stream_packet_fifo.drain, m_axis_tvalid, deq_pkt, enq_pkt_sync]

/-- Each edge takes a beat or a notice. -/
theorem Counts.drain_nearer (hc : Counts last capacity enq_capacity h s) (hbusy : ¬Idle s) :
    drain_time (step last capacity enq_capacity FIFO_DEPTH s drain) < drain_time s := by
  have hcount := hc.count
  have hle : s.fifo.countP last ≤ s.fifo.length := List.countP_le_length
  simp only [drain_time, step, drain, m_axis_tvalid, enq_pkt_sync, Bool.and_true]
  by_cases hcnt : 0 < s.pkt_cnt
  · have hfifo : s.fifo ≠ [] := by
      rintro hnil
      rw [hnil, List.countP_nil] at hcount
      omega
    have := List.length_pos_of_ne_nil hfifo
    simp [hcnt, hfifo]
    split <;> omega
  · have henq : 0 < s.enq_pkt_fifo := by
      unfold Idle at hbusy
      omega
    simp [hcnt, henq]

theorem drained (hwidth : capacity < 2 ^ (Nat.clog 2 FIFO_DEPTH + 1)) (k : Nat)
    {edges : List (Edge α)}
    (hk : Idle ((machine last capacity enq_capacity FIFO_DEPTH).run edges) ∨
      drain_time ((machine last capacity enq_capacity FIFO_DEPTH).run edges) ≤ k) :
    Idle ((machine last capacity enq_capacity FIFO_DEPTH).run (edges ++ List.replicate k drain)) := by
  induction k generalizing edges with
  | zero =>
    rw [List.replicate_zero, List.append_nil]
    refine hk.elim id fun hzero => ?_
    have hcount := (@run_counts α last capacity enq_capacity FIFO_DEPTH hwidth edges).count
    have hle := List.countP_le_length (p := last)
      (l := ((machine last capacity enq_capacity FIFO_DEPTH).run edges).fifo)
    unfold drain_time at hzero
    exact ⟨by omega, by omega⟩
  | succ k ih =>
    rw [List.replicate_succ, ← List.singleton_append, ← List.append_assoc]
    refine ih ?_
    rw [Machine.run_snoc]
    by_cases hidle : Idle ((machine last capacity enq_capacity FIFO_DEPTH).run edges)
    · have hsame : (machine last capacity enq_capacity FIFO_DEPTH).step
          ((machine last capacity enq_capacity FIFO_DEPTH).run edges) drain =
          (machine last capacity enq_capacity FIFO_DEPTH).run edges :=
        @Idle.drain α last capacity enq_capacity FIFO_DEPTH _ hidle
      rw [hsame]
      exact Or.inl hidle
    · have hc := @run_counts α last capacity enq_capacity FIFO_DEPTH hwidth edges
      have hnearer : drain_time ((machine last capacity enq_capacity FIFO_DEPTH).step
          ((machine last capacity enq_capacity FIFO_DEPTH).run edges) drain) < _ :=
        hc.drain_nearer hidle
      exact Or.inr (Nat.le_of_lt_succ (Nat.lt_of_lt_of_le hnearer (hk.resolve_left hidle)))

/-- When the CMAC takes what there is, it gets everything but as many packets as notices have found
the FIFO between the clocks full, as it looks from their side: all packets, if that has never
happened. -/
theorem packets_left_behind (hwidth : capacity < 2 ^ (Nat.clog 2 FIFO_DEPTH + 1))
    (edges : List (Edge α)) :
    let m := machine last capacity enq_capacity FIFO_DEPTH
    let later := edges ++ List.replicate (drain_time (m.run edges)) drain
    let h := m.trace later
    (m.run later).fifo.countP last = notices_lost last capacity enq_capacity h ∧
      (notices_lost last capacity enq_capacity h = 0 →
        sent h = (frames last (written capacity h)).complete.flatten) := by
  intro m later h
  have hc : Counts last capacity enq_capacity h (m.run later) := run_counts hwidth later
  obtain ⟨hcnt, henq⟩ : Idle (m.run later) := drained hwidth _ (Or.inr (Nat.le_refl _))
  have hcount := hc.count
  have hleft : (m.run later).fifo.countP last = notices_lost last capacity enq_capacity h := by omega
  refine ⟨hleft, fun hnone => ?_⟩
  obtain ⟨more, hmore⟩ := hc.whole
  have helements := frames_elements last (written capacity h)
  have hframed := frames_framed last (written capacity h)
  generalize frames last (written capacity h) = f at *
  rw [← hc.flow, ← hmore, List.append_assoc] at helements
  have hfifo := congrArg (List.countP last) (List.append_cancel_left helements)
  rw [hleft, hnone, List.countP_append] at hfifo
  have hempty := flatten_ends hframed.complete hmore.symm (Nat.eq_zero_of_add_eq_zero_right hfifo)
  rw [← hmore, hempty, List.append_nil]

/-- Seventeen packets of one beat, before any notice has crossed. -/
def seventeen_packets : List (Edge packet_adapter_tx.FifoBeat) :=
  List.replicate 17 (.s_aclk true ⟨1, 1, true⟩ true true)

/-- The last of them is left behind, as there is room for sixteen notices. -/
theorem packets_left_behind_seventeen :
    let m := machine packet_adapter_tx.FifoBeat.tlast 64 16 64
    let later := seventeen_packets ++ List.replicate (drain_time (m.run seventeen_packets)) drain
    (m.run later).fifo.countP packet_adapter_tx.FifoBeat.tlast = 1 :=
  (packets_left_behind (by decide) seventeen_packets).1.trans (by decide)

end PacketFifo

end reconic.axi_stream_packet_fifo
