import RecoNIC.PacketAdapter.Receive

open clocked

namespace reconic.packet_adapter_rx

/-- The last beat of a packet finds the RAM full. -/
def ends_full (p : List Arrival) : Bool := (p.getLast?.map Arrival.full).getD false

/-- The size of a packet as the CMAC has sent it. -/
def mac_size (p : List Arrival) : BitVec 16 :=
  axi_stream_packet_buffer.packet_size (p.map fun a => a.beat.stored)

/-- The sizes of the packets before each of the packets, zero before the first one. -/
def sizes_before (ps : List (List Arrival)) : List (BitVec 16) := (0 :: ps.map mac_size).dropLast

/-- The packets that go on, each reported with the size of the packet before it. -/
def reported (ps : List (List Arrival)) : List (BitVec 16) :=
  ((ps.zip (sizes_before ps)).filter fun x => goes_on x.1).map Prod.snd

section Accounting

variable (C_RAM_DEPTH : Nat) {size_depth : Nat}

/-- The sizes that come along with `pkt_recv`. -/
def recv_sizes (h : List (Cycle (Regs size_depth) Input)) : List (BitVec 16) :=
  h.flatMap fun c => if pkt_recv C_RAM_DEPTH c.state c.input then [pkt_size c.state] else []

def pkts_recv (h : List (Cycle (Regs size_depth) Input)) : Nat :=
  h.countP fun c => pkt_recv C_RAM_DEPTH c.state c.input

def pkts_drop (h : List (Cycle (Regs size_depth) Input)) : Nat :=
  h.countP fun c => pkt_drop C_RAM_DEPTH c.state c.input

def pkts_err (h : List (Cycle (Regs size_depth) Input)) : Nat :=
  h.countP fun c => pkt_err C_RAM_DEPTH c.state

theorem ends_full_snoc (p : List Arrival) (a : Arrival) : ends_full (p ++ [a]) = a.full := by
  simp [ends_full]

theorem marked_snoc (p : List Arrival) (a : Arrival) : marked (p ++ [a]) = a.beat.tuser_err := by
  simp [marked]

/-- A packet goes on only if its last beat is not lost. -/
theorem ends_full_of_goes_on {p : List Arrival} (hp : goes_on p = true) : ends_full p = false := by
  rcases List.eq_nil_or_concat' p with rfl | ⟨init, a, rfl⟩
  · rfl
  · rw [goes_on_snoc, Arrival.lost] at hp
    rw [ends_full_snoc]
    cases hfull : a.full
    · rfl
    · simp [hfull] at hp

theorem mac_size_snoc (p : List Arrival) (a : Arrival) :
    mac_size (p ++ [a]) =
      axi_stream_packet_buffer.packet_size ((p.map fun a => a.beat.stored) ++ [a.beat.stored]) := by
  simp [mac_size]

theorem sizes_before_snoc (ps : List (List Arrival)) (p : List Arrival) :
    sizes_before (ps ++ [p]) = sizes_before ps ++ [(ps.getLast?.map mac_size).getD 0] := by
  have hlast : (0 :: ps.map mac_size).getLast (by simp) = (ps.getLast?.map mac_size).getD 0 := by
    rcases List.eq_nil_or_concat' ps with rfl | ⟨init, q, rfl⟩
    · rfl
    · simp
  rw [sizes_before, List.map_append, List.map_singleton, ← List.cons_append, List.dropLast_concat,
    ← hlast]
  exact (List.dropLast_append_getLast _).symm

theorem sizes_before_length (ps : List (List Arrival)) : (sizes_before ps).length = ps.length := by
  simp [sizes_before]

theorem reported_snoc (ps : List (List Arrival)) (p : List Arrival) :
    reported (ps ++ [p]) =
      reported ps ++ if goes_on p then [(ps.getLast?.map mac_size).getD 0] else [] := by
  rw [reported, sizes_before_snoc, List.zip_append (sizes_before_length ps).symm, List.filter_append,
    List.map_append, ← reported]
  cases hp : goes_on p <;> simp [hp]

/-- What the pulses and the size counter say of the packets from the CMAC. -/
structure Accounts (h : List (Cycle (Regs size_depth) Input)) (s : Regs size_depth) : Prop where
  acc : s.size_cnt.acc = BitVec.ofNat 16 (64 * (mac_frames C_RAM_DEPTH h).current.length)
  size : s.size_cnt.size = ((mac_frames C_RAM_DEPTH h).complete.getLast?.map mac_size).getD 0
  recv : pkts_recv C_RAM_DEPTH h = (mac_frames C_RAM_DEPTH h).complete.countP goes_on
  total : pkts_recv C_RAM_DEPTH h + pkts_drop C_RAM_DEPTH h +
    (mac_frames C_RAM_DEPTH h).complete.countP ends_full = (mac_frames C_RAM_DEPTH h).complete.length
  err : pkts_err C_RAM_DEPTH h =
    (mac_frames C_RAM_DEPTH h).complete.countP fun p => marked p && !ends_full p
  sizes : recv_sizes C_RAM_DEPTH h = reported (mac_frames C_RAM_DEPTH h).complete

variable {C_RAM_DEPTH}

/-- Between the last beats of packets there are no pulses. -/
theorem no_pulses {s : Regs size_depth} (i : Input)
    (hends : (s.input_slice.filled && s.input_slice.axis.tlast) = false) :
    pkt_recv C_RAM_DEPTH s i = false ∧ pkt_drop C_RAM_DEPTH s i = false ∧
      pkt_err C_RAM_DEPTH s = false := by
  simp [pkt_recv, pkt_drop, pkt_err, hends]

/-- The last beat of a packet is received or dropped, unless it finds the RAM full. -/
theorem pulses_of_last {s : Regs size_depth} (i : Input) (p : List Arrival)
    (hfilled : s.input_slice.filled = true) (hlast : s.input_slice.axis.tlast = true) :
    let q := p ++ [arrival C_RAM_DEPTH s]
    pkt_recv C_RAM_DEPTH s i = goes_on q ∧
      pkt_drop C_RAM_DEPTH s i = (!goes_on q && !ends_full q) ∧
      pkt_err C_RAM_DEPTH s = (marked q && !ends_full q) := by
  intro q
  have hbusy : drop_busy C_RAM_DEPTH s i = (drop C_RAM_DEPTH s || s.pkt_buf.dropped) := rfl
  rw [goes_on_snoc, ends_full_snoc, marked_snoc]
  simp only [pkt_recv, pkt_drop, pkt_err, hbusy, drop, arrival, Arrival.lost, hfilled, hlast]
  cases axis_buf_tready C_RAM_DEPTH s <;> cases s.pkt_buf.dropped <;>
    cases s.input_slice.axis.tuser_err <;> exact ⟨rfl, rfl, rfl⟩

theorem pulses_snoc (h : List (Cycle (Regs size_depth) Input)) (s : Regs size_depth) (i : Input) :
    pkts_recv C_RAM_DEPTH (h ++ [⟨s, i⟩]) =
        pkts_recv C_RAM_DEPTH h + (if pkt_recv C_RAM_DEPTH s i then 1 else 0) ∧
      pkts_drop C_RAM_DEPTH (h ++ [⟨s, i⟩]) =
        pkts_drop C_RAM_DEPTH h + (if pkt_drop C_RAM_DEPTH s i then 1 else 0) ∧
      pkts_err C_RAM_DEPTH (h ++ [⟨s, i⟩]) =
        pkts_err C_RAM_DEPTH h + (if pkt_err C_RAM_DEPTH s then 1 else 0) ∧
      recv_sizes C_RAM_DEPTH (h ++ [⟨s, i⟩]) =
        recv_sizes C_RAM_DEPTH h ++ if pkt_recv C_RAM_DEPTH s i then [pkt_size s] else [] := by
  simp [pkts_recv, pkts_drop, pkts_err, recv_sizes, List.countP_append, List.countP_cons]

/-- A cycle in which no packet ends. -/
theorem Accounts.inside {h : List (Cycle (Regs size_depth) Input)} {s : Regs size_depth}
    (hacc : Accounts C_RAM_DEPTH h s) (i : Input)
    (hends : (s.input_slice.filled && s.input_slice.axis.tlast) = false) :
    Accounts C_RAM_DEPTH (h ++ [⟨s, i⟩]) (step C_RAM_DEPTH s i) := by
  obtain ⟨hrecv, hdrop, herr⟩ := @no_pulses C_RAM_DEPTH size_depth s i hends
  obtain ⟨hnrecv, hndrop, hnerr, hnsizes⟩ := @pulses_snoc C_RAM_DEPTH size_depth h s i
  rw [hrecv] at hnrecv hnsizes
  rw [hdrop] at hndrop
  rw [herr] at hnerr
  have hsize : (step C_RAM_DEPTH s i).size_cnt.size = s.size_cnt.size := by
    simp [step, axi_stream_size_counter.step, size_cnt_pins, hends]
  have hcomplete : (mac_frames C_RAM_DEPTH (h ++ [⟨s, i⟩])).complete =
      (mac_frames C_RAM_DEPTH h).complete := by
    rw [mac_frames_snoc]
    split
    · next hfilled =>
      rw [hfilled, Bool.true_and] at hends
      simp [Frames.push, arrival, Arrival.tlast, hends]
    · rfl
  refine ⟨?_, ?_, ?_, ?_, ?_, ?_⟩
  · rw [mac_frames_snoc]
    cases hfilled : s.input_slice.filled with
    | false => simpa [step, axi_stream_size_counter.step, size_cnt_pins, hfilled] using hacc.acc
    | true =>
      rw [hfilled, Bool.true_and] at hends
      simp [step, axi_stream_size_counter.step, size_cnt_pins, hfilled, hends, Frames.push, arrival,
        Arrival.tlast, hacc.acc, Nat.mul_add, BitVec.ofNat_add, axi_stream_size_counter.C_SIZE]
  · rw [hsize, hcomplete, hacc.size]
  · rw [hcomplete, hnrecv, hacc.recv]
    rfl
  · rw [hcomplete, hnrecv, hndrop]
    exact hacc.total
  · rw [hcomplete, hnerr, hacc.err]
    rfl
  · rw [hcomplete, hnsizes, hacc.sizes]
    exact List.append_nil _

/-- A cycle in which a packet ends. -/
theorem Accounts.last {h : List (Cycle (Regs size_depth) Input)} {s : Regs size_depth}
    (hacc : Accounts C_RAM_DEPTH h s) (i : Input) (hfilled : s.input_slice.filled = true)
    (hlast : s.input_slice.axis.tlast = true) :
    Accounts C_RAM_DEPTH (h ++ [⟨s, i⟩]) (step C_RAM_DEPTH s i) := by
  obtain ⟨hrecv, hdrop, herr⟩ := @pulses_of_last C_RAM_DEPTH size_depth s i
    (mac_frames C_RAM_DEPTH h).current hfilled hlast
  obtain ⟨hnrecv, hndrop, hnerr, hnsizes⟩ := @pulses_snoc C_RAM_DEPTH size_depth h s i
  rw [hrecv] at hnrecv hnsizes
  rw [hdrop] at hndrop
  rw [herr] at hnerr
  have hframes : mac_frames C_RAM_DEPTH (h ++ [⟨s, i⟩]) =
      ⟨(mac_frames C_RAM_DEPTH h).complete ++
        [(mac_frames C_RAM_DEPTH h).current ++ [arrival C_RAM_DEPTH s]], []⟩ := by
    have htlast : (arrival C_RAM_DEPTH s).tlast = true := hlast
    rw [mac_frames_snoc, if_pos hfilled, Frames.push, if_pos htlast]
  have hsize : (step C_RAM_DEPTH s i).size_cnt.size =
      mac_size ((mac_frames C_RAM_DEPTH h).current ++ [arrival C_RAM_DEPTH s]) := by
    rw [mac_size_snoc]
    refine axi_stream_packet_buffer.counted_size (b := s.input_slice.axis.stored) ?_ ?_
    · rw [List.length_map]
      exact hacc.acc
    · simp [hfilled, MacBeat.stored, hlast]
  generalize (mac_frames C_RAM_DEPTH h).current ++ [arrival C_RAM_DEPTH s] = q at *
  have hfull := @ends_full_of_goes_on q
  refine ⟨?_, ?_, ?_, ?_, ?_, ?_⟩
  · rw [hframes]
    simp [step, axi_stream_size_counter.step, size_cnt_pins, hfilled, hlast]
  · rw [hsize, hframes, List.getLast?_concat]
    rfl
  · rw [hframes, hnrecv, hacc.recv, List.countP_append, List.countP_singleton]
  · have htotal := hacc.total
    rw [hframes, hnrecv, hndrop, List.countP_append, List.countP_singleton, List.length_append,
      List.length_singleton]
    cases hgoes : goes_on q <;> cases hends : ends_full q <;> simp_all <;> omega
  · rw [hframes, hnerr, hacc.err, List.countP_append, List.countP_singleton]
  · rw [hframes, hnsizes, hacc.sizes, reported_snoc, pkt_size, hacc.size]

theorem run_accounts (inputs : List Input) :
    Accounts C_RAM_DEPTH ((machine C_RAM_DEPTH size_depth).trace inputs)
      ((machine C_RAM_DEPTH size_depth).run inputs) := by
  refine (machine C_RAM_DEPTH size_depth).free_history_induction (Accounts C_RAM_DEPTH)
    ⟨rfl, rfl, rfl, rfl, rfl, rfl⟩ (fun h s i hacc => ?_) inputs
  cases hends : s.input_slice.filled && s.input_slice.axis.tlast with
  | false => exact hacc.inside i hends
  | true =>
    rw [Bool.and_eq_true] at hends
    exact hacc.last i hends.1 hends.2

variable (C_RAM_DEPTH size_depth)

/-- Every packet from the CMAC is counted once, as received when it goes on and as dropped when it
does not, unless its last beat finds the RAM full: then it is not counted at all, so the counts make
up the packets from the CMAC only as long as that does not happen. A packet that is received is
reported with the size of the packet before it, and the first one with zero. -/
theorem packets_accounted (inputs : List Input) :
    let h := (machine C_RAM_DEPTH size_depth).trace inputs
    let ps := (mac_frames C_RAM_DEPTH h).complete
    pkts_recv C_RAM_DEPTH h = (handed_on ps).length ∧
      pkts_recv C_RAM_DEPTH h + pkts_drop C_RAM_DEPTH h + ps.countP ends_full = ps.length ∧
      (pkts_recv C_RAM_DEPTH h + pkts_drop C_RAM_DEPTH h = ps.length ↔
        ∀ p ∈ ps, ends_full p = false) ∧
      pkts_err C_RAM_DEPTH h = ps.countP (fun p => marked p && !ends_full p) ∧
      recv_sizes C_RAM_DEPTH h = reported ps := by
  intro h ps
  have hacc : Accounts C_RAM_DEPTH h _ := run_accounts inputs
  have htotal := hacc.total
  have hnone : ps.countP ends_full = 0 ↔ ∀ p ∈ ps, ends_full p = false := by
    simp [List.countP_eq_zero]
  refine ⟨?_, htotal, ?_, hacc.err, hacc.sizes⟩
  · rw [hacc.recv, handed_on, List.length_map, List.countP_eq_length_filter]
  · rw [← hnone]
    change _ + ps.countP ends_full = ps.length at htotal
    omega

end Accounting

end reconic.packet_adapter_rx
