import RecoNIC.HostPath.Steering
import RecoNIC.HostPath.WholePackets

open clocked
open reconic.qdma_subsystem_c2h (Beat mty merged packets run_merging received_merged)
open reconic.qdma_subsystem_function (RssConfig RxBeat RxRegs RxInput m_axis_c2h rx_machine rx_step rx_sent
  rx_received steered Orderly run_steering)

namespace reconic.qdma_subsystem

/-- The beats that come from the card for each function, and the pins of the QDMA. -/
structure RxPins (NUM_PHYS_FUNC : Nat) where
  s_axis_c2h_tvalid : Finset (Fin NUM_PHYS_FUNC)
  s_axis_c2h : Fin NUM_PHYS_FUNC → RxBeat
  m_axis_qdma_c2h_tready : Bool
  m_axis_qdma_cpl_tready : Bool

/-- The functions, and behind them what merges their packets. -/
structure RxState (NUM_PHYS_FUNC : Nat) where
  func : Fin NUM_PHYS_FUNC → RxRegs 32 32
  c2h : qdma_subsystem_c2h.Regs NUM_PHYS_FUNC

section ReceivePath

variable {NUM_PHYS_FUNC : Nat}

def c2h_pins (s : RxState NUM_PHYS_FUNC) (i : RxPins NUM_PHYS_FUNC) :
    qdma_subsystem_c2h.Input NUM_PHYS_FUNC where
  s_axis_c2h_tvalid := Finset.univ.filter fun k => (m_axis_c2h (s.func k)).isSome
  s_axis_c2h := fun k => (m_axis_c2h (s.func k)).getD Beat.zero
  m_axis_qdma_c2h_tready := i.m_axis_qdma_c2h_tready
  m_axis_qdma_cpl_tready := i.m_axis_qdma_cpl_tready

def func_pins (k : Fin NUM_PHYS_FUNC) (s : RxState NUM_PHYS_FUNC) (i : RxPins NUM_PHYS_FUNC) : RxInput :=
  ⟨decide (k ∈ i.s_axis_c2h_tvalid), i.s_axis_c2h k,
    decide (k ∈ qdma_subsystem_c2h.arb_grant s.c2h (c2h_pins s i))⟩

def rx_path (config : Fin NUM_PHYS_FUNC → RssConfig) (unknown : Nat → Finset (Fin NUM_PHYS_FUNC)) :
    Machine (RxState NUM_PHYS_FUNC) (RxPins NUM_PHYS_FUNC) where
  reset := ⟨fun k => (rx_machine 32 32 (config k)).reset, (qdma_subsystem_c2h.machine NUM_PHYS_FUNC unknown).reset⟩
  step := fun s i =>
    ⟨fun k => rx_step (s.func k) (func_pins k s i) (config k),
      qdma_subsystem_c2h.step s.c2h (c2h_pins s i)⟩

/-- What a function sees of a run. -/
def func_view (k : Fin NUM_PHYS_FUNC) (h : List (Cycle (RxState NUM_PHYS_FUNC) (RxPins NUM_PHYS_FUNC))) :
    List (Cycle (RxRegs 32 32) RxInput) :=
  h.map (Cycle.of_part (fun s => s.func k) (func_pins k))

/-- What the part that merges the packets sees of a run. -/
def c2h_view (h : List (Cycle (RxState NUM_PHYS_FUNC) (RxPins NUM_PHYS_FUNC))) :
    List (Cycle (qdma_subsystem_c2h.Regs NUM_PHYS_FUNC) (qdma_subsystem_c2h.Input NUM_PHYS_FUNC)) :=
  h.map (Cycle.of_part RxState.c2h c2h_pins)

/-- The beats that are taken from a function are those that it sends. -/
theorem taken_func_view (k : Fin NUM_PHYS_FUNC)
    (h : List (Cycle (RxState NUM_PHYS_FUNC) (RxPins NUM_PHYS_FUNC))) :
    qdma_subsystem_c2h.taken k (c2h_view h) = rx_sent (func_view k h) := by
  rw [qdma_subsystem_c2h.taken, rx_sent, c2h_view, func_view, List.flatMap_map, List.flatMap_map]
  refine List.flatMap_congr fun c _ => ?_
  have hvalid : k ∈ (c2h_pins c.state c.input).s_axis_c2h_tvalid ↔
      (m_axis_c2h (c.state.func k)).isSome = true :=
    Finset.mem_filter.trans (and_iff_right (Finset.mem_univ k))
  have hbeat : (c2h_pins c.state c.input).s_axis_c2h k = (m_axis_c2h (c.state.func k)).getD Beat.zero := rfl
  have hready : (func_pins k c.state c.input).m_axis_c2h_tready =
      decide (k ∈ qdma_subsystem_c2h.arb_grant c.state.c2h (c2h_pins c.state c.input)) := rfl
  simp only [Cycle.of_part, qdma_subsystem_function.rx_sent_beat, hready, Finset.mem_inter, hvalid, hbeat,
    decide_eq_true_eq]
  by_cases hgrant : k ∈ qdma_subsystem_c2h.arb_grant c.state.c2h (c2h_pins c.state c.input) <;>
    cases m_axis_c2h (c.state.func k) <;> simp [hgrant]

/-- Two functions that get the same packets at the same time. -/
def two_streams : List (RxPins 2) :=
  qdma_subsystem_function.two_arrivals.map fun i =>
    ⟨if i.s_axis_c2h_tvalid then Finset.univ else ∅, fun _ => i.s_axis_c2h, true, true⟩

/-- What the card gives to a function is what the QDMA receives from it: each packet whole, in its
order, with the queue of its flow and the right number of empty bytes. -/
theorem card_to_host (config : Fin NUM_PHYS_FUNC → RssConfig)
    (unknown : Nat → Finset (Fin NUM_PHYS_FUNC)) (inputs : List (RxPins NUM_PHYS_FUNC))
    (horderly : ∀ k, Orderly (func_view k ((rx_path config unknown).trace inputs))) :
    let h := (rx_path config unknown).trace inputs
    let s := (rx_path config unknown).run inputs
    qdma_subsystem_c2h.received (c2h_view h) ++ s.c2h.slice.held.map (fun b => (b, mty b)) =
        (merged (c2h_view h)).map (fun x => (x.2, mty x.2)) ∧
      (∀ p ∈ (packets (c2h_view h)).complete, ∃ k, ∀ x ∈ p, x.1 = k) ∧
      ∀ k, (packets (c2h_view h)).of_source k = frames Beat.tlast (rx_sent (func_view k h)) ∧
        rx_sent (func_view k h) <+:
          (with_first RxBeat.tlast none (rx_received (func_view k h))).map (steered (config k)) := by
  intro h s
  obtain ⟨hc2h, hrun⟩ := (rx_path config unknown).part_run (qdma_subsystem_c2h.machine NUM_PHYS_FUNC unknown) RxState.c2h
    c2h_pins rfl (fun _ _ => rfl) inputs
  have hc2h : c2h_view h = _ := hc2h
  have hmerging := run_merging unknown (h.map fun c => c2h_pins c.state c.input)
  have hreceived := received_merged unknown (h.map fun c => c2h_pins c.state c.input)
  rw [← hc2h, ← hrun] at hmerging
  dsimp only at hreceived
  rw [← hc2h, ← hrun] at hreceived
  refine ⟨hreceived, fun p hp => (hmerging.single.complete p hp).2, fun k => ⟨?_, ?_⟩⟩
  · rw [← hmerging.functions k, taken_func_view]
  · obtain ⟨hfunc, -⟩ := (rx_path config unknown).part_run (rx_machine 32 32 (config k)) (fun s => s.func k)
      (func_pins k) rfl (fun _ _ => rfl) inputs
    have hfunc : func_view k h = _ := hfunc
    have hst := @run_steering _ _ (config k) (by decide)
      (h.map fun c => func_pins k c.state c.input) (hfunc ▸ horderly k)
    rw [← hfunc] at hst
    refine hst.steered.trans ?_
    rw [hst.stored, with_first_append, List.map_append]
    exact List.prefix_append _ _

theorem card_to_host_two :
    let config : Fin 2 → RssConfig := fun _ => qdma_subsystem_function.example_rss
    let h := (rx_path config fun _ => ∅).trace two_streams
    let s := (rx_path config fun _ => ∅).run two_streams
    qdma_subsystem_c2h.received (c2h_view h) ++ s.c2h.slice.held.map (fun b => (b, mty b)) =
        (merged (c2h_view h)).map (fun x => (x.2, mty x.2)) ∧
      (∀ p ∈ (packets (c2h_view h)).complete, ∃ k, ∀ x ∈ p, x.1 = k) ∧
      ∀ k, (packets (c2h_view h)).of_source k = frames Beat.tlast (rx_sent (func_view k h)) ∧
        rx_sent (func_view k h) <+:
          (with_first RxBeat.tlast none (rx_received (func_view k h))).map (steered (config k)) :=
  card_to_host _ _ two_streams fun k => by
    fin_cases k
    · exact ⟨by decide +kernel, by decide +kernel⟩
    · exact ⟨by decide +kernel, by decide +kernel⟩

end ReceivePath

end reconic.qdma_subsystem
