import RecoNIC.HostPath.HostToCard
import RecoNIC.Clocked.Merging

open clocked
open reconic.axi_stream_register_slice (ForwardRegs FullRegs)
open reconic.qdma_subsystem_function (QueueConfig TxBeat TxRegs TxInput h2c_q_in_range)

namespace reconic.qdma_subsystem_h2c

/-- How many bytes of a beat belong to the packet. -/
def Beat.kept (b : Beat) : Nat := if b.tlast then (b.tuser_size.toNat + 63) % 64 + 1 else 64

/-- A beat as a function passes it on. -/
def Beat.tx (b : Beat) : TxBeat :=
  ⟨b.tdata, BitVec.ofFnLE fun byte : Fin 64 => decide (byte.val < b.kept), b.tlast, b.tuser_size⟩

theorem Beat.lt_kept (b : Beat) {n : Nat} (hn : n < 64) :
    decide (n < b.kept) =
      if b.tlast then decide (n ≤ (b.tuser_size.setWidth 6 - 1).toNat) else true := by
  have hlast : (b.tuser_size.setWidth 6 - 1).toNat = (b.tuser_size.toNat + 63) % 64 := by
    have hone : BitVec.toNat (1 : BitVec 6) = 1 := rfl
    rw [BitVec.toNat_sub, BitVec.toNat_setWidth, hone]
    omega
  rw [hlast, Beat.kept]
  by_cases h : b.tlast = true
  · simp only [h, if_true, Nat.lt_succ_iff]
  · simp [h, hn]

/-- The queue only changes from one packet to the next. -/
def OneQueue (a b : Beat) : Prop := a.tlast = false → b.tuser_qid = a.tuser_qid

section Routing

variable {NUM_PHYS_FUNC : Nat} (config : Fin NUM_PHYS_FUNC → QueueConfig)

/-- No queue is in the ranges of two functions. -/
def DisjointRanges : Prop :=
  ∀ qid j k, h2c_q_in_range (config j) qid = true → h2c_q_in_range (config k) qid = true → j = k

/-- The beat in the slice, with each function that takes it in a cycle. -/
def passed_beats (s : Regs NUM_PHYS_FUNC) (i : Input NUM_PHYS_FUNC) :
    List (Fin NUM_PHYS_FUNC × Beat) :=
  if s.slice.filled then
    ((List.finRange NUM_PHYS_FUNC).filter fun k => decide (k ∈ func_tready config s i)).map
      fun k => (k, s.slice.axis)
  else []

/-- The beats that the functions take, in order. -/
def passed (h : List (Cycle (Regs NUM_PHYS_FUNC) (Input NUM_PHYS_FUNC))) :
    List (Fin NUM_PHYS_FUNC × Beat) :=
  h.flatMap fun c => passed_beats config c.state c.input

/-- The beats that are accepted from the QDMA. -/
def received (h : List (Cycle (Regs NUM_PHYS_FUNC) (Input NUM_PHYS_FUNC))) : List Beat :=
  h.flatMap fun c => c.state.slice.taken (slice_pins config c.state c.input)

/-- The packets of the stream, each beat with the function that takes it. -/
def packets (h : List (Cycle (Regs NUM_PHYS_FUNC) (Input NUM_PHYS_FUNC))) :
    Frames (Fin NUM_PHYS_FUNC × Beat) :=
  frames (fun x => x.2.tlast) (passed config h)

/-- The beats that one of the functions takes. -/
def taken (k : Fin NUM_PHYS_FUNC) (h : List (Cycle (Regs NUM_PHYS_FUNC) (Input NUM_PHYS_FUNC))) :
    List Beat :=
  ((passed config h).filter fun x => decide (x.1 = k)).map Prod.snd

/-- The beats that a function sends to the card. -/
def sent (k : Fin NUM_PHYS_FUNC) (h : List (Cycle (Regs NUM_PHYS_FUNC) (Input NUM_PHYS_FUNC))) :
    List TxBeat :=
  h.flatMap fun c =>
    if (c.state.func k).h2c_slice.m_axis_tvalid && decide (k ∈ c.input.m_axis_h2c_tready) then
      [(c.state.func k).h2c_slice.axis0]
    else []

end Routing

end reconic.qdma_subsystem_h2c

namespace reconic.qdma_subsystem_function

open reconic.qdma_subsystem_h2c (Beat)

variable {config : QueueConfig} {s : TxRegs} {i : TxInput}

/-- The bits of `tkeep` are those of the bytes that belong to the packet. -/
theorem axis_h2c_tkeep_eq (htaken : (axis_h2c_tvalid config s i && s.h2c_slice.s_axis_tready) = true) :
    axis_h2c_tkeep config s i = i.s_axis_h2c.tx.tkeep := by
  refine BitVec.eq_of_getElem_eq fun n hn => ?_
  simp only [axis_h2c_tkeep, Beat.tx, BitVec.getElem_ofFnLE, htaken, Bool.true_and]
  exact (i.s_axis_h2c.lt_kept hn).symm

/-- A function goes from one packet to the next with the last beat. -/
theorem tx_step_started (config : QueueConfig) (s : TxRegs) (i : TxInput) :
    (tx_step config s i).h2c_started =
      if i.s_axis_h2c_tvalid && s_axis_h2c_tready config s i then !i.s_axis_h2c.tlast
      else s.h2c_started := by
  simp only [tx_step]
  cases s.h2c_started <;> cases i.s_axis_h2c_tvalid <;> cases s_axis_h2c_tready config s i <;>
    cases i.s_axis_h2c.tlast <;> rfl

/-- The match is kept for the rest of the packet. -/
theorem tx_step_matched (hmatched : s.h2c_matched = s.h2c_started) :
    (tx_step config s i).h2c_matched = (tx_step config s i).h2c_started := by
  rw [tx_step_started]
  simp only [tx_step, hmatched]
  cases hstarted : s.h2c_started <;> cases hvalid : i.s_axis_h2c_tvalid <;>
    cases hready : s_axis_h2c_tready config s i <;> cases i.s_axis_h2c.tlast <;> try rfl
  simpa [s_axis_h2c_tready, h2c_match, hstarted, hvalid] using And.right (by
    simpa [s_axis_h2c_tready, h2c_match, hstarted, hvalid] using hready)

end reconic.qdma_subsystem_function

namespace reconic.qdma_subsystem_h2c

section Routing

variable {NUM_PHYS_FUNC : Nat} {config : Fin NUM_PHYS_FUNC → QueueConfig}
  {h : List (Cycle (Regs NUM_PHYS_FUNC) (Input NUM_PHYS_FUNC))} {s : Regs NUM_PHYS_FUNC}
  {i : Input NUM_PHYS_FUNC}

/-- What the functions know about the packet that they take, and where the beats received are. -/
structure Routing (config : Fin NUM_PHYS_FUNC → QueueConfig)
    (h : List (Cycle (Regs NUM_PHYS_FUNC) (Input NUM_PHYS_FUNC))) (s : Regs NUM_PHYS_FUNC) : Prop where
  single : (packets config h).SingleSource
  owned : ∀ x ∈ passed config h, h2c_q_in_range (config x.1) x.2.tuser_qid = true
  started : ∀ k, (s.func k).h2c_started = true ↔ ∃ x ∈ (packets config h).current, x.1 = k
  matched : ∀ k, (s.func k).h2c_matched = (s.func k).h2c_started
  functions : ∀ k, frames Beat.tlast (taken config k h) = (packets config h).of_source k
  stored : received config h = (passed config h).map Prod.snd ++ s.slice.held

theorem passed_snoc (h : List (Cycle (Regs NUM_PHYS_FUNC) (Input NUM_PHYS_FUNC)))
    (s : Regs NUM_PHYS_FUNC) (i : Input NUM_PHYS_FUNC) :
    passed config (h ++ [⟨s, i⟩]) = passed config h ++ passed_beats config s i := by
  simp [passed]

theorem received_snoc (h : List (Cycle (Regs NUM_PHYS_FUNC) (Input NUM_PHYS_FUNC)))
    (s : Regs NUM_PHYS_FUNC) (i : Input NUM_PHYS_FUNC) :
    received config (h ++ [⟨s, i⟩]) = received config h ++ s.slice.taken (slice_pins config s i) := by
  simp [received]

theorem mem_current_passed {x : Fin NUM_PHYS_FUNC × Beat} (hx : x ∈ (packets config h).current) :
    x ∈ passed config h := by
  rw [← frames_elements (fun x : Fin NUM_PHYS_FUNC × Beat => x.2.tlast) (passed config h)]
  exact List.mem_append_right _ hx

/-- The packet that goes on is for the queue of the beat in the slice. -/
theorem Routing.current_queue (hr : Routing config h s) (hchain : (received config h).IsChain OneQueue)
    (hfilled : s.slice.filled = true) {x : Fin NUM_PHYS_FUNC × Beat}
    (hx : x ∈ (packets config h).current) : x.2.tuser_qid = s.slice.axis.tuser_qid := by
  rw [hr.stored, ForwardRegs.held, if_pos hfilled,
    show [s.slice.axis] = [(x.1, s.slice.axis)].map Prod.snd from rfl, ← List.map_append,
    List.isChain_map] at hchain
  exact frames_current_key (fun y : Fin NUM_PHYS_FUNC × Beat => y.2.tuser_qid) hchain x hx

/-- A function takes just the beats of the packets for its queues. -/
theorem Routing.match_eq (hr : Routing config h s) (hchain : (received config h).IsChain OneQueue)
    (hfilled : s.slice.filled = true) (i : Input NUM_PHYS_FUNC) (k : Fin NUM_PHYS_FUNC) :
    qdma_subsystem_function.h2c_match (config k) (s.func k) (func_pins s i k) =
      h2c_q_in_range (config k) s.slice.axis.tuser_qid := by
  rw [qdma_subsystem_function.h2c_match, hr.matched k]
  simp only [func_pins, hfilled]
  cases hstarted : (s.func k).h2c_started with
  | false => simp
  | true =>
    obtain ⟨x, hx, rfl⟩ := (hr.started k).mp hstarted
    have howned := hr.owned x (mem_current_passed hx)
    rw [hr.current_queue hchain hfilled hx] at howned
    simp [howned]

/-- In a cycle either no function takes the beat in the slice, or just one for whose queues it is. -/
theorem Routing.cycle_cases (hr : Routing config h s) (hdisjoint : DisjointRanges config)
    (hchain : (received config h).IsChain OneQueue) (i : Input NUM_PHYS_FUNC) :
    (passed_beats config s i = [] ∧ (s.slice.filled && axis_h2c_tready config s i) = false) ∨
      ∃ k, passed_beats config s i = [(k, s.slice.axis)] ∧ s.slice.filled = true ∧
        func_tready config s i = {k} ∧ axis_h2c_tready config s i = true ∧
        h2c_q_in_range (config k) s.slice.axis.tuser_qid = true := by
  cases hfilled : s.slice.filled with
  | false => exact .inl ⟨by simp [passed_beats, hfilled], rfl⟩
  | true =>
    by_cases hnone : func_tready config s i = ∅
    · exact .inl ⟨by simp [passed_beats, hnone], by simp [axis_h2c_tready, hnone]⟩
    · obtain ⟨k, hk⟩ := Finset.nonempty_iff_ne_empty.mpr hnone
      have hrange : ∀ j ∈ func_tready config s i,
          h2c_q_in_range (config j) s.slice.axis.tuser_qid = true := by
        intro j hj
        rw [func_tready, Finset.mem_filter, qdma_subsystem_function.s_axis_h2c_tready,
          hr.match_eq hchain hfilled] at hj
        exact (Bool.and_eq_true _ _ ▸ hj.2).2
      have hone : func_tready config s i = {k} :=
        Finset.eq_singleton_iff_unique_mem.mpr
          ⟨hk, fun j hj => hdisjoint _ j k (hrange j hj) (hrange k hk)⟩
      refine .inr ⟨k, ?_, rfl, hone, by simp [axis_h2c_tready, hnone], hrange k hk⟩
      have hfilter : ((List.finRange NUM_PHYS_FUNC).filter fun j => decide (j = k)) = [k] := by
        rw [List.filter_eq, List.count_eq_one_of_mem (List.nodup_finRange _) (List.mem_finRange k)]
        rfl
      simp only [passed_beats, hfilled, if_true, hone, Finset.mem_singleton, hfilter, List.map_singleton]

/-- Beats leave the slice as functions take them. -/
theorem Routing.slice_sent (hr : Routing config h s) (hdisjoint : DisjointRanges config)
    (hchain : (received config h).IsChain OneQueue) (i : Input NUM_PHYS_FUNC) :
    s.slice.sent (slice_pins config s i) = (passed_beats config s i).map Prod.snd := by
  rw [ForwardRegs.sent, slice_pins]
  rcases hr.cycle_cases hdisjoint hchain i with ⟨hnone, hleaves⟩ | ⟨k, hone, hfilled, -, hready, -⟩
  · rw [hnone, hleaves]
    rfl
  · rw [hone, hfilled, hready]
    rfl

theorem decide_func_tready (s : Regs NUM_PHYS_FUNC) (i : Input NUM_PHYS_FUNC)
    (k : Fin NUM_PHYS_FUNC) :
    decide (k ∈ func_tready config s i) =
      qdma_subsystem_function.s_axis_h2c_tready (config k) (s.func k) (func_pins s i k) := by
  rw [Bool.eq_iff_iff, decide_eq_true_iff, func_tready, Finset.mem_filter]
  exact and_iff_right (Finset.mem_univ k)

/-- Whether a function is inside a packet after a cycle. -/
theorem step_started (s : Regs NUM_PHYS_FUNC) (i : Input NUM_PHYS_FUNC) (k : Fin NUM_PHYS_FUNC) :
    ((step config s i).func k).h2c_started =
      if s.slice.filled && decide (k ∈ func_tready config s i) then !s.slice.axis.tlast
      else (s.func k).h2c_started := by
  rw [decide_func_tready]
  exact qdma_subsystem_function.tx_step_started (config k) (s.func k) (func_pins s i k)

theorem Routing.next (hr : Routing config h s) (hdisjoint : DisjointRanges config)
    (hchain : (received config h).IsChain OneQueue) (i : Input NUM_PHYS_FUNC) :
    Routing config (h ++ [⟨s, i⟩]) (step config s i) := by
  have hmatched : ∀ k, ((step config s i).func k).h2c_matched = ((step config s i).func k).h2c_started :=
    fun k => qdma_subsystem_function.tx_step_matched (hr.matched k)
  have hpackets : packets config (h ++ [⟨s, i⟩]) =
      (passed_beats config s i).foldl (Frames.push fun x => x.2.tlast) (packets config h) := by
    simp [packets, passed_snoc, frames]
  have htaken : ∀ k, taken config k (h ++ [⟨s, i⟩]) = taken config k h ++
      ((passed_beats config s i).filter fun x => decide (x.1 = k)).map Prod.snd := by
    simp [taken, passed_snoc]
  have hstored : received config (h ++ [⟨s, i⟩]) =
      (passed config (h ++ [⟨s, i⟩])).map Prod.snd ++ (step config s i).slice.held := by
    rw [received_snoc, hr.stored, passed_snoc, List.map_append, ← hr.slice_sent hdisjoint hchain i,
      List.append_assoc, List.append_assoc, s.slice.step_moves (slice_pins config s i)]
    rfl
  rcases hr.cycle_cases hdisjoint hchain i with ⟨hnone, hleaves⟩ | ⟨k, hone, hfilled, htready, -, hrange⟩
  · rw [hnone, List.foldl_nil] at hpackets
    refine ⟨?_, fun x hx => ?_, fun j => ?_, hmatched, fun j => ?_, hstored⟩
    · rw [hpackets]
      exact hr.single
    · rw [passed_snoc, hnone, List.append_nil] at hx
      exact hr.owned x hx
    · have hnot : (s.slice.filled && decide (j ∈ func_tready config s i)) = false := by
        cases hfilled : s.slice.filled with
        | false => rfl
        | true =>
          rw [hfilled, Bool.true_and, axis_h2c_tready] at hleaves
          have hempty : func_tready config s i = ∅ := by simpa using hleaves
          simp [hempty]
      rw [step_started, hnot, hpackets]
      exact hr.started j
    · rw [htaken, hnone, hpackets, List.filter_nil, List.map_nil, List.append_nil]
      exact hr.functions j
  · rw [hone, List.foldl_cons, List.foldl_nil] at hpackets
    have hcurrent : ∀ x ∈ (packets config h).current, x.1 = k := by
      intro x hx
      have howned := hr.owned x (mem_current_passed hx)
      rw [hr.current_queue hchain hfilled hx] at howned
      exact hdisjoint _ _ _ howned hrange
    refine ⟨?_, fun x hx => ?_, fun j => ?_, hmatched, fun j => ?_, hstored⟩
    · rw [hpackets]
      exact hr.single.push _ hcurrent
    · rw [passed_snoc, hone, List.mem_append, List.mem_singleton] at hx
      obtain hx | rfl := hx
      · exact hr.owned x hx
      · exact hrange
    · rw [step_started, hfilled, htready, Bool.true_and, hpackets, Frames.push]
      by_cases hj : j = k
      · subst hj
        cases hlast : s.slice.axis.tlast <;> simp
      · have hother : ¬ (s.func j).h2c_started = true := fun hstarted => by
          obtain ⟨x, hx, rfl⟩ := (hr.started j).mp hstarted
          exact hj (hcurrent x hx)
        have hcurrent' : ∀ x ∈ (packets config h).current, x.1 ≠ j := fun x hx heq =>
          hj (heq ▸ hcurrent x hx)
        cases hlast : s.slice.axis.tlast with
        | true => simpa [hj] using hother
        | false =>
          simp only [hj, Finset.mem_singleton, decide_false, Bool.false_eq_true, if_false, hother,
            List.mem_append, List.mem_singleton, false_iff, not_exists, not_and]
          rintro x (hx | rfl)
          · exact hcurrent' x hx
          · exact Ne.symm hj
    · rw [hpackets, Frames.of_source_push _ _ hcurrent, htaken, hone]
      by_cases hj : k = j
      · subst hj
        simp [hr.functions k]
      · simp [hr.functions j, hj]

theorem reset_routing (config : Fin NUM_PHYS_FUNC → QueueConfig) :
    Routing config [] (machine config).reset where
  single := ⟨fun p hp => (by cases hp), fun x hx => (by cases hx)⟩
  owned := fun x hx => by cases hx
  started := fun k => by simp [machine, packets, passed]
  matched := fun k => rfl
  functions := fun k => rfl
  stored := rfl

theorem run_routing (hdisjoint : DisjointRanges config) (inputs : List (Input NUM_PHYS_FUNC))
    (hchain : (received config ((machine config).trace inputs)).IsChain OneQueue) :
    Routing config ((machine config).trace inputs) ((machine config).run inputs) := by
  refine (machine config).history_induction (fun h => (received config h).IsChain OneQueue)
    (Routing config) (fun h c hchain => ?_) (reset_routing config) (fun h s i hchain hr => ?_) inputs hchain
  · rw [received, List.flatMap_append] at hchain
    exact hchain.left_of_append
  · rw [received_snoc] at hchain
    exact hr.next hdisjoint hchain.left_of_append i

/-- The beats that a function takes in a cycle. -/
theorem passed_beats_of (s : Regs NUM_PHYS_FUNC) (i : Input NUM_PHYS_FUNC) (k : Fin NUM_PHYS_FUNC) :
    ((passed_beats config s i).filter fun x => decide (x.1 = k)).map Prod.snd =
      if s.slice.filled && decide (k ∈ func_tready config s i) then [s.slice.axis] else [] := by
  have hfilter : ((List.finRange NUM_PHYS_FUNC).filter fun j =>
      decide (j = k) && decide (j ∈ func_tready config s i)) =
        if k ∈ func_tready config s i then [k] else [] := by
    rw [← List.filter_filter, List.filter_eq]
    by_cases hk : k ∈ func_tready config s i
    · rw [List.count_eq_one_of_mem ((List.nodup_finRange _).filter _)
        (List.mem_filter.mpr ⟨List.mem_finRange k, decide_eq_true hk⟩), if_pos hk]
      rfl
    · rw [List.count_eq_zero_of_not_mem (by simpa using hk), if_neg hk]
      rfl
  cases hfilled : s.slice.filled with
  | false => simp [passed_beats, hfilled]
  | true =>
    simp only [passed_beats, hfilled, if_true, List.filter_map, List.filter_filter, Function.comp_def,
      hfilter, Bool.true_and, decide_eq_true_eq]
    split <;> rfl

/-- A function passes on the beats that it takes, with the bytes of the packet marked. -/
theorem func_taken (s : Regs NUM_PHYS_FUNC) (i : Input NUM_PHYS_FUNC) (k : Fin NUM_PHYS_FUNC) :
    (s.func k).h2c_slice.taken
        (qdma_subsystem_function.h2c_slice_pins (config k) (s.func k) (func_pins s i k)) =
      (((passed_beats config s i).filter fun x => decide (x.1 = k)).map Prod.snd).map Beat.tx := by
  have hready := @decide_func_tready _ config s i k
  rw [qdma_subsystem_function.s_axis_h2c_tready, Bool.and_comm] at hready
  rw [passed_beats_of, hready, ← Bool.and_assoc, FullRegs.taken]
  change (if (qdma_subsystem_function.axis_h2c_tvalid (config k) (s.func k) (func_pins s i k) &&
    (s.func k).h2c_slice.s_axis_tready) = true then _ else []) = List.map Beat.tx (if
      (qdma_subsystem_function.axis_h2c_tvalid (config k) (s.func k) (func_pins s i k) &&
        (s.func k).h2c_slice.s_axis_tready) = true then _ else [])
  split
  · next htaken =>
    rw [qdma_subsystem_function.h2c_slice_pins,
      qdma_subsystem_function.axis_h2c_tkeep_eq htaken]
    rfl
  · rfl

/-- What a function has sent and what is in its slice are the beats that it has taken. -/
theorem sent_taken (config : Fin NUM_PHYS_FUNC → QueueConfig) (inputs : List (Input NUM_PHYS_FUNC))
    (k : Fin NUM_PHYS_FUNC) :
    sent k ((machine config).trace inputs) ++
        (((machine config).run inputs).func k).h2c_slice.held =
      (taken config k ((machine config).trace inputs)).map Beat.tx := by
  have hlaw := FullRegs.stream_law (machine config) (fun s => (s.func k).h2c_slice)
    (fun s i => qdma_subsystem_function.h2c_slice_pins (config k) (s.func k) (func_pins s i k)) rfl
    (fun _ _ => rfl) inputs
  rw [taken, passed, List.filter_flatMap, List.map_flatMap, List.map_flatMap]
  simp only [← func_taken]
  exact hlaw

/-- The first function has the queues 0 to 3, the second one those from 4 to 7. -/
def two_ranges : Fin 2 → QueueConfig := fun k => if k.val = 0 then ⟨0, 4⟩ else ⟨4, 4⟩

theorem two_ranges_disjoint : DisjointRanges two_ranges := by
  intro qid j k hj hk
  have hrange : ∀ k : Fin 2, h2c_q_in_range (two_ranges k) qid = true →
      k.val * 4 ≤ qid.toNat ∧ qid.toNat < k.val * 4 + 4 := by
    intro k hk
    fin_cases k <;>
      simp only [h2c_q_in_range, two_ranges, Bool.and_eq_true] at hk <;>
      simp at hk ⊢ <;> bv_omega
  have hj := hrange j hj
  have hk := hrange k hk
  omega

/-- A packet of two beats for the second function and one of a single beat for the first one. -/
def two_packets : List (Input 2) :=
  let first : QdmaBeat := ⟨1, false, 5, 0x00640000, 0⟩
  let second : QdmaBeat := ⟨2, true, 5, 0x00640000, 28⟩
  let short : QdmaBeat := ⟨3, true, 1, 0x00400000, 0⟩
  let only_first : Finset (Fin 2) := Finset.univ.filter fun k => k.val = 0
  [⟨true, first, Finset.univ⟩, ⟨true, second, only_first⟩, ⟨true, short, Finset.univ⟩,
    ⟨false, short, Finset.univ⟩]

instance : DecidableRel OneQueue := fun a b =>
  inferInstanceAs (Decidable (a.tlast = false → b.tuser_qid = a.tuser_qid))

/-- Packets from the QDMA go to the function for whose queues they are, each of them whole, once and
in order, and a function passes on just its packets, with the bytes of each marked. -/
theorem packets_routed (hdisjoint : DisjointRanges config) (inputs : List (Input NUM_PHYS_FUNC))
    (hqueue : (received config ((machine config).trace inputs)).IsChain OneQueue) :
    let h := (machine config).trace inputs
    let s := (machine config).run inputs
    (passed config h).map Prod.snd ++ s.slice.held = received config h ∧
      (∀ p ∈ (packets config h).complete, ∃ k, ∀ x ∈ p,
        x.1 = k ∧ h2c_q_in_range (config k) x.2.tuser_qid = true) ∧
      ∀ k, sent k h ++ (s.func k).h2c_slice.held = (taken config k h).map Beat.tx ∧
        frames Beat.tlast (taken config k h) = (packets config h).of_source k := by
  intro h s
  have hr := run_routing hdisjoint inputs hqueue
  refine ⟨hr.stored.symm, fun p hp => ?_, fun k => ⟨sent_taken config inputs k, hr.functions k⟩⟩
  obtain ⟨k, hk⟩ := (hr.single.complete p hp).2
  refine ⟨k, fun x hx => ⟨hk x hx, ?_⟩⟩
  rw [← hk x hx]
  refine hr.owned x ?_
  rw [← frames_elements (fun y : Fin NUM_PHYS_FUNC × Beat => y.2.tlast) (passed config h)]
  exact List.mem_append_left _ (List.mem_flatten_of_mem hp hx)

theorem packets_routed_two :
    let h := (machine two_ranges).trace two_packets
    let s := (machine two_ranges).run two_packets
    (passed two_ranges h).map Prod.snd ++ s.slice.held = received two_ranges h ∧
      (∀ p ∈ (packets two_ranges h).complete, ∃ k, ∀ x ∈ p,
        x.1 = k ∧ h2c_q_in_range (two_ranges k) x.2.tuser_qid = true) ∧
      ∀ k, sent k h ++ (s.func k).h2c_slice.held = (taken two_ranges k h).map Beat.tx ∧
        frames Beat.tlast (taken two_ranges k h) = (packets two_ranges h).of_source k :=
  packets_routed two_ranges_disjoint two_packets (by decide +kernel)

end Routing

end reconic.qdma_subsystem_h2c
