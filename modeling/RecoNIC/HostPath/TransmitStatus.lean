import RecoNIC.HostPath.Routing

open clocked
open reconic.qdma_subsystem_function (QueueConfig h2c_q_in_range)

namespace reconic.qdma_subsystem_h2c

/-- The bytes of a packet: those of its beats, but for the empty ones of the last. -/
def packet_bytes {NUM_PHYS_FUNC : Nat} (p : List (Fin NUM_PHYS_FUNC × Beat)) : Nat :=
  64 * p.length - (p.getLast?.map fun x => x.2.tuser_mty.toNat).getD 0

section Status

variable {NUM_PHYS_FUNC : Nat} (config : Fin NUM_PHYS_FUNC → QueueConfig)

/-- The pulses of `h2c_status`. -/
def reports (h : List (Cycle (Regs NUM_PHYS_FUNC) (Input NUM_PHYS_FUNC))) :
    List (BitVec 2 × BitVec 16) :=
  h.flatMap fun c => (h2c_status config c.state c.input).toList

/-- The size that the next pulse shows. -/
def pending (s : Regs NUM_PHYS_FUNC) : List (BitVec 16) :=
  if s.size_cnt.size_valid then [s.size_cnt.size] else []

/-- What the size counter knows about the packets. -/
structure Counting (h : List (Cycle (Regs NUM_PHYS_FUNC) (Input NUM_PHYS_FUNC)))
    (s : Regs NUM_PHYS_FUNC) : Prop where
  acc : s.size_cnt.acc = BitVec.ofNat 16 (64 * (packets config h).current.length)
  outside : s.size_cnt.size_valid = true → (packets config h).current = []
  sizes : (reports config h).map Prod.snd ++ pending s =
    (packets config h).complete.map fun p => BitVec.ofNat 16 (packet_bytes p)

variable {config} {h : List (Cycle (Regs NUM_PHYS_FUNC) (Input NUM_PHYS_FUNC))}
  {s : Regs NUM_PHYS_FUNC} {i : Input NUM_PHYS_FUNC}

theorem reports_snoc (h : List (Cycle (Regs NUM_PHYS_FUNC) (Input NUM_PHYS_FUNC)))
    (s : Regs NUM_PHYS_FUNC) (i : Input NUM_PHYS_FUNC) :
    (reports config (h ++ [⟨s, i⟩])).map Prod.snd = (reports config h).map Prod.snd ++ pending s := by
  simp only [reports, List.flatMap_append, List.flatMap_singleton, List.map_append, h2c_status, pending]
  split <;> rfl

theorem packet_bytes_snoc (p : List (Fin NUM_PHYS_FUNC × Beat)) (x : Fin NUM_PHYS_FUNC × Beat) :
    BitVec.ofNat 16 (64 * p.length) + 64 - x.2.tuser_mty.setWidth 16 =
      BitVec.ofNat 16 (packet_bytes (p ++ [x])) := by
  have hmty := x.2.tuser_mty.isLt
  have hbeat : BitVec.toNat (64 : BitVec 16) = 64 := rfl
  have hbytes : packet_bytes (p ++ [x]) = 64 * p.length + (64 - x.2.tuser_mty.toNat) := by
    simp only [packet_bytes, List.length_append, List.length_singleton, List.getLast?_append,
      List.getLast?_singleton, Option.some_or, Option.map_some, Option.getD_some]
    omega
  rw [hbytes]
  apply BitVec.eq_of_toNat_eq
  simp only [BitVec.toNat_sub, BitVec.toNat_add, BitVec.toNat_ofNat, BitVec.toNat_setWidth,
    hbeat]
  omega

theorem Counting.next (hcount : Counting config h s) (hr : Routing config h s)
    (hdisjoint : DisjointRanges config) (hchain : (received config h).IsChain OneQueue)
    (i : Input NUM_PHYS_FUNC) : Counting config (h ++ [⟨s, i⟩]) (step config s i) := by
  have hpackets : packets config (h ++ [⟨s, i⟩]) =
      (passed_beats config s i).foldl (Frames.push fun x => x.2.tlast) (packets config h) := by
    simp [packets, passed_snoc, frames]
  have hcnt : (step config s i).size_cnt =
      axi_stream_size_counter.step s.size_cnt (size_cnt_pins config s i) := rfl
  have hsizes := hcount.sizes
  rcases hr.cycle_cases hdisjoint hchain i with ⟨hnone, hleaves⟩ | ⟨k, hone, hfilled, -, hready, -⟩
  · have hacc : (step config s i).size_cnt.acc = s.size_cnt.acc := by
      simp only [hcnt, axi_stream_size_counter.step, size_cnt_pins, hleaves, Bool.false_eq_true, if_false]
    have hvalid : (step config s i).size_cnt.size_valid = false := by
      simp only [hcnt, axi_stream_size_counter.step, size_cnt_pins]
      rw [Bool.and_right_comm, hleaves, Bool.false_and]
    rw [hnone, List.foldl_nil] at hpackets
    refine ⟨by rw [hacc, hpackets, hcount.acc], fun hv => (by rw [hvalid] at hv; cases hv), ?_⟩
    rw [reports_snoc, hsizes, hpackets, pending, hvalid]
    exact List.append_nil _
  · rw [hone, List.foldl_cons, List.foldl_nil, Frames.push] at hpackets
    have hvalid : (step config s i).size_cnt.size_valid = s.slice.axis.tlast := by
      simp only [hcnt, axi_stream_size_counter.step, size_cnt_pins, hfilled, hready]
      simp
    have hacc : (step config s i).size_cnt.acc =
        if s.slice.axis.tlast then 0 else s.size_cnt.acc + 64 := by
      simp only [hcnt, axi_stream_size_counter.step, size_cnt_pins, hfilled, hready]
      rfl
    cases hlast : s.slice.axis.tlast with
    | false =>
      simp only [hlast, Bool.false_eq_true, if_false] at hpackets hacc hvalid
      refine ⟨?_, fun hv => (by rw [hvalid] at hv; cases hv), ?_⟩
      · rw [hacc, hpackets, hcount.acc, List.length_append, List.length_singleton, Nat.mul_add]
        exact (BitVec.ofNat_add _ _).symm
      · rw [reports_snoc, hsizes, hpackets, pending, hvalid]
        exact List.append_nil _
    | true =>
      have hsize : (step config s i).size_cnt.size =
          s.size_cnt.acc + 64 - s.slice.axis.tuser_mty.setWidth 16 := by
        simp only [hcnt, axi_stream_size_counter.step, size_cnt_pins, hfilled, hready, hlast]
        rfl
      simp only [hlast, if_true] at hpackets hacc hvalid
      refine ⟨by rw [hacc, hpackets]; rfl, fun _ => by rw [hpackets], ?_⟩
      rw [reports_snoc, hsizes, hpackets, pending, hvalid, if_pos rfl, hsize, hcount.acc,
        packet_bytes_snoc _ (k, s.slice.axis), List.map_append, List.map_singleton]

theorem reset_counting (config : Fin NUM_PHYS_FUNC → QueueConfig) :
    Counting config [] (machine config).reset where
  acc := rfl
  outside := fun _ => rfl
  sizes := rfl

theorem run_counting (hdisjoint : DisjointRanges config) (inputs : List (Input NUM_PHYS_FUNC))
    (hchain : (received config ((machine config).trace inputs)).IsChain OneQueue) :
    Counting config ((machine config).trace inputs) ((machine config).run inputs) := by
  induction inputs using List.reverseRecOn with
  | nil => exact reset_counting config
  | append_singleton inputs i ih =>
    rw [(machine config).trace_snoc, received_snoc] at hchain
    have hbefore := hchain.left_of_append
    rw [(machine config).trace_snoc, (machine config).run_snoc]
    exact (ih hbefore).next (run_routing hdisjoint inputs hbefore) hdisjoint hbefore i

/-- When no function is inside a packet, the first one that is ready takes the beat in the slice. -/
theorem func_id_eq (houtside : ∀ k, (s.func k).h2c_started = false) (i : Input NUM_PHYS_FUNC) :
    ((List.finRange NUM_PHYS_FUNC).find? fun k => decide (k ∈ func_tready config s i)) =
      (passed_beats config s i).head?.map Prod.fst := by
  rw [passed_beats]
  cases hfilled : s.slice.filled with
  | true =>
    rw [if_pos rfl, List.head?_map, Option.map_map, List.head?_filter]
    exact Option.map_id'.symm
  | false =>
    have hnone : ∀ k, decide (k ∈ func_tready config s i) = false := by
      intro k
      simp [decide_func_tready, qdma_subsystem_function.s_axis_h2c_tready,
        qdma_subsystem_function.h2c_match, func_pins, hfilled, houtside k]
    simp [hnone]

/-- The sizes of all packets are reported, in order and each once. But a packet is reported a cycle
after its last beat, with the function that then takes the first beat of the packet behind it, or
with the first function when none does. -/
theorem status_of_next (hdisjoint : DisjointRanges config) (inputs : List (Input NUM_PHYS_FUNC))
    (hqueue : (received config ((machine config).trace inputs)).IsChain OneQueue) :
    let h := (machine config).trace inputs
    (reports config h).map Prod.snd ++ pending ((machine config).run inputs) =
        (packets config h).complete.map (fun p => BitVec.ofNat 16 (packet_bytes p)) ∧
      ∀ earlier i, earlier ++ [i] <+: inputs → ∀ func_id bytes,
        h2c_status config ((machine config).run earlier) i = some (func_id, bytes) →
          (packets config ((machine config).trace earlier)).current = [] ∧
            func_id = ((passed_beats config ((machine config).run earlier) i).head?.map fun x =>
              BitVec.ofNat 2 x.1.val).getD 0 := by
  intro h
  refine ⟨(run_counting hdisjoint inputs hqueue).sizes, fun earlier i hinitial func_id bytes hreport => ?_⟩
  have hbefore : (received config ((machine config).trace earlier)).IsChain OneQueue := by
    obtain ⟨later, rfl⟩ := (List.prefix_append earlier [i]).trans hinitial
    rw [(machine config).trace_append, received, List.flatMap_append] at hqueue
    exact hqueue.left_of_append
  have hcount := run_counting hdisjoint earlier hbefore
  have hr := run_routing hdisjoint earlier hbefore
  rw [h2c_status] at hreport
  split at hreport
  · next hvalid =>
    have hcurrent := hcount.outside hvalid
    have houtside : ∀ k, (((machine config).run earlier).func k).h2c_started = false := fun k => by
      rw [Bool.eq_false_iff, ne_eq, hr.started k, hcurrent]
      simp
    refine ⟨hcurrent, ?_⟩
    rw [func_id_eq houtside i, Option.map_map, Option.some.injEq, Prod.mk.injEq] at hreport
    exact hreport.1.symm
  · cases hreport

theorem status_of_next_two :
    let h := (machine two_ranges).trace two_packets
    (reports two_ranges h).map Prod.snd ++ pending ((machine two_ranges).run two_packets) =
        (packets two_ranges h).complete.map (fun p => BitVec.ofNat 16 (packet_bytes p)) ∧
      ∀ earlier i, earlier ++ [i] <+: two_packets → ∀ func_id bytes,
        h2c_status two_ranges ((machine two_ranges).run earlier) i = some (func_id, bytes) →
          (packets two_ranges ((machine two_ranges).trace earlier)).current = [] ∧
            func_id = ((passed_beats two_ranges ((machine two_ranges).run earlier) i).head?.map fun x =>
              BitVec.ofNat 2 x.1.val).getD 0 :=
  status_of_next two_ranges_disjoint two_packets (by decide +kernel)

end Status

end reconic.qdma_subsystem_h2c
