import RecoNIC.HostPath.Routing

open clocked
open reconic.axi_stream_register_slice (ForwardRegs FullRegs)
open reconic.qdma_subsystem_function (QueueConfig TxBeat TxRegs TxInput h2c_q_in_range)

namespace reconic.axi_stream_register_slice

variable {α : Type} {s : FullRegs α} {i : Input α}

/-- A slice whose beat leaves has room in the next cycle. -/
theorem FullRegs.step_ready (hordered : s.Ordered) (hleaves : i.m_axis_tready = true) :
    (s.step i).s_axis_tready = true := by
  obtain ⟨axis0, axis1, filled⟩ := s
  obtain ⟨tvalid, beat, tready⟩ := i
  subst hleaves
  obtain rfl | rfl | rfl : filled = 0b00#2 ∨ filled = 0b01#2 ∨ filled = 0b11#2 :=
    hordered.filled_cases
  all_goals cases tvalid <;> simp [step, s_axis_tready]

/-- A slice with room whose beat leaves is empty afterwards when no beat comes. -/
theorem FullRegs.step_empty (hordered : s.Ordered) (hready : s.s_axis_tready = true)
    (hnone : i.s_axis_tvalid = false) (hleaves : i.m_axis_tready = true) : (s.step i).held = [] := by
  obtain ⟨axis0, axis1, filled⟩ := s
  obtain ⟨tvalid, beat, tready⟩ := i
  subst hnone hleaves
  obtain rfl | rfl | rfl : filled = 0b00#2 ∨ filled = 0b01#2 ∨ filled = 0b11#2 :=
    hordered.filled_cases
  · simp [step, held]
  · simp [step, held]
  · simp [s_axis_tready] at hready

end reconic.axi_stream_register_slice

namespace reconic.qdma_subsystem_h2c

/-- No beat comes from the QDMA, and the card takes what the functions send. -/
def Drains {NUM_PHYS_FUNC : Nat} (i : Input NUM_PHYS_FUNC) : Prop :=
  i.s_axis_qdma_h2c_tvalid = false ∧ i.m_axis_h2c_tready = Finset.univ

section Progress

variable {NUM_PHYS_FUNC : Nat} {config : Fin NUM_PHYS_FUNC → QueueConfig}
  {h : List (Cycle (Regs NUM_PHYS_FUNC) (Input NUM_PHYS_FUNC))} {s : Regs NUM_PHYS_FUNC}
  {i : Input NUM_PHYS_FUNC}

/-- The slices of the functions are filled in order. -/
def FuncOrdered (s : Regs NUM_PHYS_FUNC) : Prop := ∀ k, (s.func k).h2c_slice.Ordered

theorem FuncOrdered.next (hordered : FuncOrdered s) (config : Fin NUM_PHYS_FUNC → QueueConfig)
    (i : Input NUM_PHYS_FUNC) : FuncOrdered (step config s i) :=
  fun k => (FullRegs.step_moves (hordered k) _).1

theorem run_ordered (config : Fin NUM_PHYS_FUNC → QueueConfig) (inputs : List (Input NUM_PHYS_FUNC)) :
    FuncOrdered ((machine config).run inputs) :=
  (machine config).free_history_induction (fun _ s => FuncOrdered s)
    (fun k => by simp [machine, FullRegs.Ordered]) (fun _ _ i hordered => hordered.next config i) inputs

/-- The functions have room for a beat. -/
def FuncReady (s : Regs NUM_PHYS_FUNC) : Prop := ∀ k, (s.func k).h2c_slice.s_axis_tready = true

theorem Drains.func_ready (hdrains : Drains i) (hordered : FuncOrdered s)
    (config : Fin NUM_PHYS_FUNC → QueueConfig) : FuncReady (step config s i) := fun k =>
  FullRegs.step_ready (hordered k) (by
    simp [qdma_subsystem_function.h2c_slice_pins, func_pins, hdrains.2])

/-- When the functions have room and the beat in the slice is for one of them, it leaves. -/
theorem Drains.slice_empty (hdrains : Drains i) (hr : Routing config h s)
    (hchain : (received config h).IsChain OneQueue) (hready : FuncReady s)
    (howned : ∀ b ∈ received config h, ∃ k, h2c_q_in_range (config k) b.tuser_qid = true) :
    (step config s i).slice.filled = false := by
  have hstep : (step config s i).slice = ⟨s.slice.axis, s.slice.filled && !axis_h2c_tready config s i⟩ := by
    have hnone : (slice_pins config s i).s_axis_tvalid = false := hdrains.1
    rw [step, ForwardRegs.step_eq, hnone]
    rfl
  rw [hstep]
  cases hfilled : s.slice.filled with
  | false => rfl
  | true =>
    obtain ⟨k, hk⟩ := howned s.slice.axis (by
      rw [hr.stored, ForwardRegs.held, if_pos hfilled]
      exact List.mem_append_right _ (List.mem_singleton_self _))
    have hmem : k ∈ func_tready config s i := by
      rw [← decide_eq_true_iff (p := k ∈ func_tready config s i), decide_func_tready,
        qdma_subsystem_function.s_axis_h2c_tready, hr.match_eq hchain hfilled, hk, hready k]
      rfl
    have hleaves : axis_h2c_tready config s i = true :=
      decide_eq_true (Finset.ne_empty_of_mem hmem)
    simp [hleaves]

/-- When the slice is empty, those of the functions are in the next cycle. -/
theorem Drains.func_empty (hdrains : Drains i) (hordered : FuncOrdered s) (hready : FuncReady s)
    (hslice : s.slice.filled = false) (k : Fin NUM_PHYS_FUNC) :
    ((step config s i).func k).h2c_slice.held = [] :=
  FullRegs.step_empty (hordered k) (hready k)
    (by simp [qdma_subsystem_function.h2c_slice_pins, qdma_subsystem_function.axis_h2c_tvalid,
      func_pins, hslice])
    (by simp [qdma_subsystem_function.h2c_slice_pins, func_pins, hdrains.2])

/-- A cycle without a beat from the QDMA. -/
theorem Drains.received_eq (hdrains : Drains i) :
    received config (h ++ [⟨s, i⟩]) = received config h := by
  rw [received_snoc, ForwardRegs.taken, slice_pins, hdrains.1]
  exact List.append_nil _

/-- How far the path is drained after some cycles. -/
theorem drained (hdisjoint : DisjointRanges config) (inputs rest : List (Input NUM_PHYS_FUNC))
    (hrest : ∀ i ∈ rest, Drains i)
    (hchain : (received config ((machine config).trace (inputs ++ rest))).IsChain OneQueue)
    (howned : ∀ b ∈ received config ((machine config).trace (inputs ++ rest)),
      ∃ k, h2c_q_in_range (config k) b.tuser_qid = true) :
    (1 ≤ rest.length → FuncReady ((machine config).run (inputs ++ rest))) ∧
      (2 ≤ rest.length → ((machine config).run (inputs ++ rest)).slice.filled = false) ∧
      (3 ≤ rest.length → ∀ k, (((machine config).run (inputs ++ rest)).func k).h2c_slice.held = []) := by
  induction rest using List.reverseRecOn with
  | nil => simp
  | append_singleton rest i ih =>
    have hdrains := hrest i (by simp)
    have hordered := run_ordered config (inputs ++ rest)
    rw [← List.append_assoc, (machine config).trace_snoc, hdrains.received_eq] at hchain howned
    obtain ⟨hready, hslice, -⟩ := ih (fun j hj => hrest j (List.mem_append_left _ hj)) hchain howned
    have hr := run_routing hdisjoint (inputs ++ rest) hchain
    rw [← List.append_assoc, (machine config).run_snoc, List.length_append, List.length_singleton]
    refine ⟨fun _ => hdrains.func_ready hordered config, fun hlen => ?_, fun hlen k => ?_⟩
    · exact hdrains.slice_empty hr hchain (hready (by omega)) howned
    · exact hdrains.func_empty hordered (hready (by omega)) (hslice (by omega)) k

/-- The beats that a function takes are those for its queues. -/
theorem Routing.taken_eq (hr : Routing config h s) (hdisjoint : DisjointRanges config)
    (k : Fin NUM_PHYS_FUNC) :
    taken config k h =
      ((passed config h).map Prod.snd).filter fun b => h2c_q_in_range (config k) b.tuser_qid := by
  rw [taken, List.filter_map]
  congr 1
  refine List.filter_congr fun x hx => ?_
  have howned := hr.owned x hx
  by_cases hk : x.1 = k
  · subst hk
    simpa using howned.symm
  · have hother : ¬ h2c_q_in_range (config k) x.2.tuser_qid = true :=
      fun hrange => hk (hdisjoint _ _ _ howned hrange)
    simp [hk, hother]

/-- Three cycles after the last beat everything has been delivered, each packet by the function for
whose queues it is, if and only if every packet is for a queue of some function. -/
theorem delivered_iff_owned (hdisjoint : DisjointRanges config)
    (inputs rest : List (Input NUM_PHYS_FUNC))
    (hqueue : (received config ((machine config).trace inputs)).IsChain OneQueue)
    (hrest : ∀ i ∈ rest, Drains i) (hlen : 3 ≤ rest.length) :
    let h := (machine config).trace (inputs ++ rest)
    ((passed config h).map Prod.snd = received config h ∧
      ∀ k, sent k h = ((received config h).filter fun b =>
        h2c_q_in_range (config k) b.tuser_qid).map Beat.tx) ↔
      ∀ b ∈ received config h, ∃ k, h2c_q_in_range (config k) b.tuser_qid = true := by
  intro h
  have hreceived : received config h = received config ((machine config).trace inputs) := by
    clear hlen hqueue
    induction rest using List.reverseRecOn with
    | nil => rw [← List.append_nil inputs]
    | append_singleton rest i ih =>
      have hdrains := hrest i (by simp)
      have hlast : h = (machine config).trace (inputs ++ rest) ++ [⟨(machine config).run (inputs ++ rest), i⟩] := by
        rw [← (machine config).trace_snoc, List.append_assoc]
      rw [hlast, hdrains.received_eq]
      exact ih fun j hj => hrest j (List.mem_append_left _ hj)
  have hchain : (received config h).IsChain OneQueue := hreceived ▸ hqueue
  have hr := run_routing hdisjoint (inputs ++ rest) hchain
  constructor
  · rintro ⟨hall, -⟩ b hb
    rw [← hall] at hb
    obtain ⟨x, hx, rfl⟩ := List.mem_map.mp hb
    exact ⟨x.1, hr.owned x hx⟩
  · intro howned
    obtain ⟨-, hslice, hfunc⟩ := drained hdisjoint inputs rest hrest hchain howned
    have hall : (passed config h).map Prod.snd = received config h := by
      rw [hr.stored, ForwardRegs.held, hslice (by omega)]
      exact (List.append_nil _).symm
    refine ⟨hall, fun k => ?_⟩
    have hsent := sent_taken config (inputs ++ rest) k
    rw [hfunc hlen k, List.append_nil, hr.taken_eq hdisjoint, hall] at hsent
    exact hsent

theorem delivered_iff_owned_two :
    let rest : List (Input 2) := List.replicate 3 ⟨false, ⟨0, false, 0, 0, 0⟩, Finset.univ⟩
    let h := (machine two_ranges).trace (two_packets ++ rest)
    ((passed two_ranges h).map Prod.snd = received two_ranges h ∧
      ∀ k, sent k h = ((received two_ranges h).filter fun b =>
        h2c_q_in_range (two_ranges k) b.tuser_qid).map Beat.tx) ↔
      ∀ b ∈ received two_ranges h, ∃ k, h2c_q_in_range (two_ranges k) b.tuser_qid = true :=
  delivered_iff_owned two_ranges_disjoint two_packets _ (by decide +kernel)
    (fun i hi => by rw [List.eq_of_mem_replicate hi]; exact ⟨rfl, rfl⟩) (by decide)

/-- The slice holds a beat for a queue of no function, and no function is inside a packet. -/
structure Stuck (config : Fin NUM_PHYS_FUNC → QueueConfig) (s : Regs NUM_PHYS_FUNC) : Prop where
  filled : s.slice.filled = true
  unowned : ∀ k, h2c_q_in_range (config k) s.slice.axis.tuser_qid = false
  outside : ∀ k, (s.func k).h2c_started = false

theorem Routing.stuck (hr : Routing config h s) (hchain : (received config h).IsChain OneQueue)
    (hfilled : s.slice.filled = true)
    (hnone : ∀ k, h2c_q_in_range (config k) s.slice.axis.tuser_qid = false) : Stuck config s := by
  refine ⟨hfilled, hnone, fun k => Bool.eq_false_iff.mpr fun hstarted => ?_⟩
  obtain ⟨x, hx, rfl⟩ := (hr.started k).mp hstarted
  have howned := hr.owned x (mem_current_passed hx)
  rw [hr.current_queue hchain hfilled hx, hnone] at howned
  cases howned

theorem Stuck.step (hstuck : Stuck config s) (i : Input NUM_PHYS_FUNC) :
    Stuck config (step config s i) ∧ passed_beats config s i = [] ∧
      s.slice.taken (slice_pins config s i) = [] := by
  have hnone : func_tready config s i = ∅ := by
    refine Finset.filter_eq_empty_iff.mpr fun k _ => ?_
    simp [qdma_subsystem_function.s_axis_h2c_tready, qdma_subsystem_function.h2c_match, func_pins,
      hstuck.outside k, hstuck.unowned k]
  have hready : axis_h2c_tready config s i = false := by simp [axis_h2c_tready, hnone]
  have htaken : s.slice.taken (slice_pins config s i) = [] := by
    simp [ForwardRegs.taken, ForwardRegs.s_axis_tready, slice_pins, hstuck.filled, hready]
  have hslice : (qdma_subsystem_h2c.step config s i).slice = s.slice := by
    rw [qdma_subsystem_h2c.step, ForwardRegs.step_eq]
    simp [ForwardRegs.s_axis_tready, slice_pins, hstuck.filled, hready]
    rw [← hstuck.filled]
  refine ⟨⟨hslice ▸ hstuck.filled, fun k => hslice ▸ hstuck.unowned k, fun k => ?_⟩, ?_, htaken⟩
  · rw [step_started, hnone]
    simpa using hstuck.outside k
  · simp [passed_beats, hnone]

/-- A packet for a queue of no function stops the path for good: from the cycle on in which its first
beat is in the slice nothing is passed on to any function, and nothing received. -/
theorem unowned_blocks (hdisjoint : DisjointRanges config) (earlier later : List (Input NUM_PHYS_FUNC))
    (hqueue : (received config ((machine config).trace earlier)).IsChain OneQueue)
    (hheld : ((machine config).run earlier).slice.filled = true)
    (hnone : ∀ k, h2c_q_in_range (config k) ((machine config).run earlier).slice.axis.tuser_qid = false) :
    let m := machine config
    passed config (m.trace (earlier ++ later)) = passed config (m.trace earlier) ∧
      received config (m.trace (earlier ++ later)) = received config (m.trace earlier) := by
  intro m
  suffices hall : Stuck config (m.run (earlier ++ later)) ∧
      passed config (m.trace (earlier ++ later)) = passed config (m.trace earlier) ∧
      received config (m.trace (earlier ++ later)) = received config (m.trace earlier) from hall.2
  induction later using List.reverseRecOn with
  | nil =>
    rw [List.append_nil]
    exact ⟨(run_routing hdisjoint earlier hqueue).stuck hqueue hheld hnone, rfl, rfl⟩
  | append_singleton later i ih =>
    obtain ⟨hstuck, hpassed, hreceived⟩ := ih
    obtain ⟨hnext, hbeats, htaken⟩ := hstuck.step i
    rw [← List.append_assoc, m.run_snoc, m.trace_snoc, passed_snoc, received_snoc, hbeats, htaken,
      List.append_nil, List.append_nil]
    exact ⟨hnext, hpassed, hreceived⟩

theorem unowned_blocks_two :
    let m := machine two_ranges
    let earlier : List (Input 2) := [⟨true, ⟨1, true, 9, 0x00400000, 0⟩, Finset.univ⟩]
    passed two_ranges (m.trace (earlier ++ two_packets)) = passed two_ranges (m.trace earlier) ∧
      received two_ranges (m.trace (earlier ++ two_packets)) = received two_ranges (m.trace earlier) :=
  unowned_blocks two_ranges_disjoint _ _ (by decide +kernel) (by decide +kernel) (by decide +kernel)

end Progress

end reconic.qdma_subsystem_h2c
