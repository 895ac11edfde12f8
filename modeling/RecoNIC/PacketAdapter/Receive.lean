import RecoNIC.PacketAdapter.Model
import RecoNIC.PacketBuffer.Delivery
import RecoNIC.Clocked.Flow

open clocked
open reconic.axi_stream_packet_buffer (Beat stage staged)

namespace reconic.packet_adapter_rx

/-- A beat from the CMAC at the packet buffer. It finds the RAM full, or comes right behind a packet
that has been dropped. -/
structure Arrival where
  beat : MacBeat
  full : Bool
  behind_drop : Bool

def Arrival.tlast (a : Arrival) : Bool := a.beat.tlast

/-- The buffer does not store the beat, and gives up what it has of the packet. -/
def Arrival.lost (a : Arrival) : Bool := a.full || a.behind_drop

/-- What is kept of the beats of a packet so far: those behind the last lost one. -/
def kept (p : List Arrival) : List Beat :=
  (p.rtakeWhile fun a => !a.lost).map fun a => a.beat.stored

/-- The last beat decides whether a packet goes on. -/
def goes_on (p : List Arrival) : Bool :=
  (p.getLast?.map fun a => !a.lost && !a.beat.tuser_err).getD false

/-- The last beat of a packet is marked with an error. -/
def marked (p : List Arrival) : Bool := (p.getLast?.map fun a => a.beat.tuser_err).getD false

/-- What the buffer hands on of packets from the CMAC. -/
def handed_on (ps : List (List Arrival)) : List (List Beat) := (ps.filter goes_on).map kept

/-- The beats that the CMAC has sent. -/
def mac_beats (inputs : List Input) : List MacBeat :=
  inputs.flatMap fun i => if i.s_axis_rx_tvalid then [i.s_axis_rx] else []

section Receive

variable (C_RAM_DEPTH : Nat) {size_depth : Nat}

/-- The beat that is at the packet buffer. -/
def arrival (s : Regs size_depth) : Arrival :=
  ⟨s.input_slice.axis, !axis_buf_tready C_RAM_DEPTH s, s.pkt_buf.dropped⟩

/-- The beats that have come to the packet buffer. -/
def arrivals (h : List (Cycle (Regs size_depth) Input)) : List Arrival :=
  h.flatMap fun c => if c.state.input_slice.filled then [arrival C_RAM_DEPTH c.state] else []

def mac_frames (h : List (Cycle (Regs size_depth) Input)) : Frames Arrival :=
  frames Arrival.tlast (arrivals C_RAM_DEPTH h)

/-- What the packet buffer sees of the cycles. -/
def pkt_buf_cycles (h : List (Cycle (Regs size_depth) Input)) :
    List (Cycle (axi_stream_packet_buffer.Regs size_depth) axi_stream_packet_buffer.Input) :=
  h.map (Cycle.of_part Regs.pkt_buf (pkt_buf_pins C_RAM_DEPTH))

/-- The beats of a packet before its last one never fill the RAM. -/
def Short (h : List (Cycle (Regs size_depth) Input)) : Prop :=
  ∀ earlier, earlier <+: h → (mac_frames C_RAM_DEPTH earlier).current.length < C_RAM_DEPTH

instance (h : List (Cycle (Regs size_depth) Input)) : Decidable (Short C_RAM_DEPTH h) :=
  decidable_of_iff
    (∀ earlier ∈ h.inits, (mac_frames C_RAM_DEPTH earlier).current.length < C_RAM_DEPTH)
    (by simp [Short, List.mem_inits])

theorem kept_snoc (p : List Arrival) (a : Arrival) :
    kept (p ++ [a]) = if a.lost then [] else kept p ++ [a.beat.stored] := by
  rw [kept, List.rtakeWhile_concat]
  cases a.lost <;> simp [kept]

theorem kept_length_le (p : List Arrival) : (kept p).length ≤ p.length := by
  rw [kept, List.length_map]
  exact (List.rtakeWhile_suffix _ _).length_le

theorem goes_on_snoc (p : List Arrival) (a : Arrival) :
    goes_on (p ++ [a]) = (!a.lost && !a.beat.tuser_err) := by
  simp [goes_on]

theorem handed_on_snoc (ps : List (List Arrival)) (p : List Arrival) :
    handed_on (ps ++ [p]) = handed_on ps ++ if goes_on p then [kept p] else [] := by
  cases hp : goes_on p <;> simp [handed_on, hp]

theorem mac_frames_snoc (h : List (Cycle (Regs size_depth) Input)) (s : Regs size_depth) (i : Input) :
    mac_frames C_RAM_DEPTH (h ++ [⟨s, i⟩]) =
      if s.input_slice.filled then
        (mac_frames C_RAM_DEPTH h).push Arrival.tlast (arrival C_RAM_DEPTH s)
      else mac_frames C_RAM_DEPTH h := by
  cases hfilled : s.input_slice.filled <;> simp [mac_frames, arrivals, hfilled]

variable {C_RAM_DEPTH}

/-- One cycle of the packet buffer, on what it has kept of the packets from the CMAC. -/
theorem stage_eq (s : Regs size_depth) (i : Input) (f : Frames Arrival)
    (hdropped : s.pkt_buf.dropped = true → f.current = []) :
    let f' := if s.input_slice.filled then f.push Arrival.tlast (arrival C_RAM_DEPTH s) else f
    stage C_RAM_DEPTH ⟨handed_on f.complete, kept f.current⟩
        (Cycle.of_part Regs.pkt_buf (pkt_buf_pins C_RAM_DEPTH) ⟨s, i⟩) =
      ⟨handed_on f'.complete, kept f'.current⟩ := by
  intro f'
  have hbusy : axi_stream_packet_buffer.drop_busy s.pkt_buf (pkt_buf_pins C_RAM_DEPTH s i) =
      (drop C_RAM_DEPTH s || s.pkt_buf.dropped) := rfl
  have hready : axi_stream_packet_buffer.s_axis_tready C_RAM_DEPTH s.pkt_buf =
      axis_buf_tready C_RAM_DEPTH s := rfl
  simp only [stage, Cycle.of_part, hbusy, hready]
  cases hfilled : s.input_slice.filled with
  | false =>
    have hf' : f' = f := by simp [f', hfilled]
    rw [hf']
    cases hd : s.pkt_buf.dropped with
    | false => simp [drop, hfilled, pkt_buf_pins]
    | true => simp [drop, hfilled, Frames.abort, hdropped hd, kept]
  | true =>
    have hf' : f' = f.push Arrival.tlast (arrival C_RAM_DEPTH s) := by simp [f', hfilled]
    rw [hf']
    -- an unfinished packet that is lost has nothing left, one that ends is handed on or not
    cases hr : axis_buf_tready C_RAM_DEPTH s <;> cases hd : s.pkt_buf.dropped <;>
      cases hl : s.input_slice.axis.tlast <;> cases he : s.input_slice.axis.tuser_err <;>
      simp [drop, hfilled, hr, hd, hl, he, Frames.abort, Frames.push, arrival, Arrival.tlast,
        Arrival.lost, handed_on_snoc, goes_on_snoc, kept_snoc, pkt_buf_pins, MacBeat.stored,
        show kept [] = [] from rfl]

/-- What the packet buffer has been given is what it keeps of the packets from the CMAC. -/
theorem staged_eq (inputs : List Input) :
    let h := (machine C_RAM_DEPTH size_depth).trace inputs
    staged C_RAM_DEPTH (pkt_buf_cycles C_RAM_DEPTH h) =
        ⟨handed_on (mac_frames C_RAM_DEPTH h).complete, kept (mac_frames C_RAM_DEPTH h).current⟩ ∧
      (((machine C_RAM_DEPTH size_depth).run inputs).pkt_buf.dropped = true →
        (mac_frames C_RAM_DEPTH h).current = []) := by
  refine (machine C_RAM_DEPTH size_depth).free_history_induction (fun h s =>
    staged C_RAM_DEPTH (pkt_buf_cycles C_RAM_DEPTH h) =
        ⟨handed_on (mac_frames C_RAM_DEPTH h).complete, kept (mac_frames C_RAM_DEPTH h).current⟩ ∧
      (s.pkt_buf.dropped = true → (mac_frames C_RAM_DEPTH h).current = [])) ⟨rfl, fun _ => rfl⟩ ?_
    inputs
  intro h s i ⟨hstaged, hdropped⟩
  rw [mac_frames_snoc]
  refine ⟨?_, fun hnext => ?_⟩
  · rw [pkt_buf_cycles, List.map_append, List.map_singleton, axi_stream_packet_buffer.staged_snoc,
      ← pkt_buf_cycles, hstaged]
    exact stage_eq s i _ hdropped
  · have hends : (s.input_slice.filled && s.input_slice.axis.tlast && axis_buf_tready C_RAM_DEPTH s &&
        drop C_RAM_DEPTH s) = true := hnext
    simp only [Bool.and_eq_true] at hends
    simp [hends, Frames.push, arrival, Arrival.tlast]

/-- The packet buffer inside the adapter, when packets are not too long for it. -/
theorem pkt_buf_run (inputs : List Input)
    (hshort : Short C_RAM_DEPTH ((machine C_RAM_DEPTH size_depth).trace inputs)) :
    let m := machine C_RAM_DEPTH size_depth
    let h := pkt_buf_cycles C_RAM_DEPTH (m.trace inputs)
    ∃ pins, h = (axi_stream_packet_buffer.machine C_RAM_DEPTH size_depth).trace pins ∧
      (m.run inputs).pkt_buf = (axi_stream_packet_buffer.machine C_RAM_DEPTH size_depth).run pins ∧
      axi_stream_packet_buffer.Fits C_RAM_DEPTH h := by
  intro m h
  obtain ⟨htrace, hrun⟩ := m.part_run (axi_stream_packet_buffer.machine C_RAM_DEPTH size_depth)
    Regs.pkt_buf (pkt_buf_pins C_RAM_DEPTH) rfl (fun _ _ => rfl) inputs
  refine ⟨_, htrace, hrun, fun earlier hearlier => ?_⟩
  obtain ⟨later, hlater⟩ := hearlier
  obtain ⟨first, rest, hsplit, rfl, -⟩ := List.map_eq_append_iff.mp hlater.symm
  have hfirst : first <+: m.trace inputs := ⟨rest, hsplit.symm⟩
  obtain ⟨pins, -, rfl⟩ := m.initial_trace hfirst
  have hbound := hshort _ hfirst
  have hkept := kept_length_le (mac_frames C_RAM_DEPTH (m.trace pins)).current
  rw [← pkt_buf_cycles, (staged_eq pins).1]
  exact Nat.lt_of_le_of_lt hkept hbound

/-- The beats at the packet buffer are those from the CMAC, but for the one that is in the slice. -/
theorem arrivals_eq (inputs : List Input) :
    let m := machine C_RAM_DEPTH size_depth
    (arrivals C_RAM_DEPTH (m.trace inputs)).map Arrival.beat ++ (m.run inputs).input_slice.held =
      mac_beats inputs := by
  intro m
  have hlaw := axi_stream_register_slice.ForwardRegs.stream_law m Regs.input_slice
    (fun _ i => input_slice_pins i) rfl (fun _ _ => rfl) inputs
  have hsent : (arrivals C_RAM_DEPTH (m.trace inputs)).map Arrival.beat =
      (m.trace inputs).flatMap fun c => c.state.input_slice.sent (input_slice_pins c.input) := by
    rw [arrivals, List.map_flatMap]
    refine List.flatMap_congr fun c _ => ?_
    cases hfilled : c.state.input_slice.filled <;>
      simp [axi_stream_register_slice.ForwardRegs.sent, input_slice_pins, hfilled, arrival]
  have htaken : mac_beats inputs =
      (m.trace inputs).flatMap fun c => c.state.input_slice.taken (input_slice_pins c.input) := by
    conv_lhs => rw [mac_beats, ← m.trace_inputs inputs, List.flatMap_map]
    refine List.flatMap_congr fun c _ => ?_
    simp [axi_stream_register_slice.ForwardRegs.taken, input_slice_pins,
      axi_stream_register_slice.ForwardRegs.s_axis_tready]
  rw [hsent, htaken]
  exact hlaw

/-- A packet, one with an error, and another one right behind it. -/
def back_to_back : List Input :=
  let word (n : Nat) (tlast tuser_err : Bool) : Input :=
    ⟨true, ⟨BitVec.ofNat 512 n, BitVec.allOnes 64, tlast, tuser_err⟩, false⟩
  [word 1 false false, word 2 true false, word 3 true true, word 4 false false, word 5 true false]

/-- Whatever comes from the CMAC, the user box gets of each packet the beats behind the last one that
was lost, when the last beat is neither lost nor marked with an error, and nothing else of it. -/
theorem packets_cut (hdepth : 0 < C_RAM_DEPTH) (inputs : List Input)
    (hshort : Short C_RAM_DEPTH ((machine C_RAM_DEPTH size_depth).trace inputs)) :
    let m := machine C_RAM_DEPTH size_depth
    let h := m.trace inputs
    (arrivals C_RAM_DEPTH h).map Arrival.beat ++ (m.run inputs).input_slice.held = mac_beats inputs ∧
      axi_stream_packet_buffer.sent (pkt_buf_cycles C_RAM_DEPTH h) ++
          axi_stream_packet_buffer.stored C_RAM_DEPTH (m.run inputs).pkt_buf =
        (handed_on (mac_frames C_RAM_DEPTH h).complete).flatten := by
  intro m h
  refine ⟨arrivals_eq inputs, ?_⟩
  obtain ⟨pins, htrace, hrun, hfits⟩ := pkt_buf_run inputs hshort
  have hstaged := (@staged_eq C_RAM_DEPTH size_depth inputs).1
  rw [htrace] at hfits hstaged
  obtain ⟨hsent, hstores⟩ := axi_stream_packet_buffer.run_stores hdepth pins hfits
  rw [hrun, hstores.stored_eq, htrace]
  conv_lhs => lhs; rw [hsent]
  rw [List.take_append_drop, hstaged]

theorem packets_cut_four :
    let m := machine 4 8
    let h := m.trace back_to_back
    (arrivals 4 h).map Arrival.beat ++ (m.run back_to_back).input_slice.held = mac_beats back_to_back ∧
      axi_stream_packet_buffer.sent (pkt_buf_cycles 4 h) ++
          axi_stream_packet_buffer.stored 4 (m.run back_to_back).pkt_buf =
        (handed_on (mac_frames 4 h).complete).flatten :=
  packets_cut (by decide) back_to_back (by decide)

theorem kept_of_not_lost {p : List Arrival} (hp : ∀ a ∈ p, a.lost = false) :
    kept p = p.map fun a => a.beat.stored := by
  rw [kept, List.rtakeWhile_eq_self_iff.mpr fun a ha => by simp [hp a ha]]

theorem goes_on_of_not_lost {p : List Arrival} (hne : p ≠ []) (hp : ∀ a ∈ p, a.lost = false) :
    goes_on p = !marked p := by
  obtain ⟨init, a, rfl⟩ := (List.eq_nil_or_concat' p).resolve_left hne
  simp [goes_on_snoc, marked, hp a (by simp)]

/-- Packets of which no beat is lost go on whole, but for those that are marked with an error. -/
theorem handed_on_of_not_lost {ps : List (List Arrival)} (hne : ∀ p ∈ ps, p ≠ [])
    (hps : ∀ p ∈ ps, ∀ a ∈ p, a.lost = false) :
    handed_on ps = (ps.filter fun p => !marked p).map fun p => p.map fun a => a.beat.stored := by
  rw [handed_on, List.filter_congr fun p hp => goes_on_of_not_lost (hne p hp) (hps p hp)]
  exact List.map_congr_left fun p hp => kept_of_not_lost (hps p (List.mem_of_mem_filter hp))

/-- When no beat is lost, packets are dropped with their last beats only. -/
theorem drops_clean {h : List (Cycle (Regs size_depth) Input)}
    (hlost : ∀ a ∈ arrivals C_RAM_DEPTH h, a.lost = false) :
    ∀ c ∈ pkt_buf_cycles C_RAM_DEPTH h, axi_stream_packet_buffer.CleanDrop C_RAM_DEPTH c := by
  intro c hc
  obtain ⟨⟨s, i⟩, hmem, rfl⟩ := List.mem_map.mp hc
  have harrival : s.input_slice.filled = true →
      axis_buf_tready C_RAM_DEPTH s = true ∧ s.pkt_buf.dropped = false := by
    intro hfilled
    have := hlost (arrival C_RAM_DEPTH s) (List.mem_flatMap.mpr ⟨⟨s, i⟩, hmem, by simp [hfilled]⟩)
    simpa [Arrival.lost, arrival] using this
  have hready : axi_stream_packet_buffer.s_axis_tready C_RAM_DEPTH s.pkt_buf =
      axis_buf_tready C_RAM_DEPTH s := rfl
  refine ⟨fun hdrop => ?_, fun hdropped => ?_⟩
  · simp only [Cycle.of_part, pkt_buf_pins, hready, drop] at hdrop ⊢
    cases hfilled : s.input_slice.filled with
    | false => simp [hfilled] at hdrop
    | true =>
      rw [hfilled, (harrival hfilled).1] at hdrop
      simp at hdrop
      simp [hdrop.1, (harrival hfilled).1, MacBeat.stored]
  · simp only [Cycle.of_part, pkt_buf_pins] at hdropped ⊢
    by_contra hfilled
    rw [Bool.not_eq_false] at hfilled
    rw [(harrival hfilled).2] at hdropped
    cases hdropped

/-- A packet, one with an error, and another one after a pause. -/
def after_a_pause : List Input :=
  back_to_back.take 3 ++ [⟨false, ⟨0, 0, false, false⟩, true⟩] ++ back_to_back.drop 3

/-- When no beat is lost, the user box gets the packets without an error whole and in order, and each
of their beats with the size of its packet. What it has not got of them is in the buffer. -/
theorem good_packets_whole (hdepth : 0 < C_RAM_DEPTH) (hsizes : C_RAM_DEPTH + 2 ≤ size_depth)
    (inputs : List Input)
    (hshort : Short C_RAM_DEPTH ((machine C_RAM_DEPTH size_depth).trace inputs))
    (hlost : ∀ a ∈ arrivals C_RAM_DEPTH ((machine C_RAM_DEPTH size_depth).trace inputs),
      a.lost = false) :
    let m := machine C_RAM_DEPTH size_depth
    let h := m.trace inputs
    let ps := ((mac_frames C_RAM_DEPTH h).complete.filter fun p => !marked p).map
      fun p => p.map fun a => a.beat.stored
    axi_stream_packet_buffer.sent_sized (pkt_buf_cycles C_RAM_DEPTH h) <+:
        axi_stream_packet_buffer.with_sizes ps ∧
      (axi_stream_packet_buffer.sent_sized (pkt_buf_cycles C_RAM_DEPTH h)).map Prod.fst ++
          axi_stream_packet_buffer.stored C_RAM_DEPTH (m.run inputs).pkt_buf = ps.flatten := by
  intro m h ps
  obtain ⟨pins, htrace, hrun, hfits⟩ := pkt_buf_run inputs hshort
  have hclean := drops_clean hlost
  have hstaged := (@staged_eq C_RAM_DEPTH size_depth inputs).1
  rw [htrace] at hfits hstaged hclean
  obtain ⟨hsent, hstores, -⟩ := axi_stream_packet_buffer.run_sized hdepth hsizes pins ⟨hfits, hclean⟩
  have hframed := frames_framed Arrival.tlast (arrivals C_RAM_DEPTH h)
  have helements := frames_elements Arrival.tlast (arrivals C_RAM_DEPTH h)
  have hwhole := @handed_on_of_not_lost (mac_frames C_RAM_DEPTH h).complete
    (fun p hp => (hframed.complete p hp).ne_nil) (fun p hp a ha => hlost a (by
      rw [← helements]
      exact List.mem_append_left _ (List.mem_flatten.mpr ⟨p, hp, ha⟩)))
  have hcomplete := congrArg Frames.complete hstaged
  dsimp only at hcomplete
  rw [hwhole] at hcomplete
  rw [htrace]
  constructor
  · rw [hsent, hcomplete]
    exact (List.take_prefix _ _).map _
  · rw [hrun, hstores.stored_eq, hcomplete]
    conv_lhs => lhs; rw [hsent, hcomplete, List.map_map]
    rw [← tagged_map_snd, List.map_take]
    exact List.take_append_drop _ _

theorem good_packets_whole_two :
    let m := machine 4 8
    let h := m.trace after_a_pause
    let ps := ((mac_frames 4 h).complete.filter fun p => !marked p).map
      fun p => p.map fun a => a.beat.stored
    axi_stream_packet_buffer.sent_sized (pkt_buf_cycles 4 h) <+:
        axi_stream_packet_buffer.with_sizes ps ∧
      (axi_stream_packet_buffer.sent_sized (pkt_buf_cycles 4 h)).map Prod.fst ++
          axi_stream_packet_buffer.stored 4 (m.run after_a_pause).pkt_buf = ps.flatten :=
  good_packets_whole (by decide) (by decide) after_a_pause (by decide) (by decide)

end Receive

end reconic.packet_adapter_rx
