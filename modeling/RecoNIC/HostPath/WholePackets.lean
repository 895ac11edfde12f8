import RecoNIC.HostPath.Access
import RecoNIC.HostPath.ServiceOrder
import RecoNIC.HostPath.CardToHost
import RecoNIC.Clocked.Merging

open clocked
open reconic.axi_stream_register_slice (ForwardRegs)
open reconic.rr_arbiter (OneHot)

namespace reconic.qdma_subsystem_c2h

section Merging

variable {NUM_PHYS_FUNC : Nat} (unknown : Nat → Finset (Fin NUM_PHYS_FUNC))

/-- The beat that goes into the slice in a cycle, with the function that it comes from. -/
def merged_beat (s : Regs NUM_PHYS_FUNC) (i : Input NUM_PHYS_FUNC) :
    List (Fin NUM_PHYS_FUNC × Beat) :=
  match granted_func s i with
  | none => []
  | some k => if k ∈ i.s_axis_c2h_tvalid then [(k, i.s_axis_c2h k)] else []

/-- The beats of all functions in the order in which they go into the slice. -/
def merged (h : List (Cycle (Regs NUM_PHYS_FUNC) (Input NUM_PHYS_FUNC))) :
    List (Fin NUM_PHYS_FUNC × Beat) :=
  h.flatMap fun c => merged_beat c.state c.input

/-- The beats that are taken from a function. -/
def taken (k : Fin NUM_PHYS_FUNC) (h : List (Cycle (Regs NUM_PHYS_FUNC) (Input NUM_PHYS_FUNC))) :
    List Beat :=
  h.flatMap fun c =>
    if k ∈ c.input.s_axis_c2h_tvalid ∩ arb_grant c.state c.input then [c.input.s_axis_c2h k] else []

/-- The beats that the QDMA receives, with the number of their empty bytes. -/
def received (h : List (Cycle (Regs NUM_PHYS_FUNC) (Input NUM_PHYS_FUNC))) :
    List (Beat × BitVec 6) :=
  h.flatMap fun c =>
    if c.state.slice.filled && c.input.m_axis_qdma_c2h_tready then
      [(c.state.slice.axis, c.state.m_axis_qdma_c2h_mty)]
    else []

/-- The packets of the merged stream. -/
def packets (h : List (Cycle (Regs NUM_PHYS_FUNC) (Input NUM_PHYS_FUNC))) :
    Frames (Fin NUM_PHYS_FUNC × Beat) :=
  frames (fun x => x.2.tlast) (merged h)

/-- The functions whose packets have been taken, in order. -/
def sources (f : Frames (Fin NUM_PHYS_FUNC × Beat)) : List (Fin NUM_PHYS_FUNC) :=
  f.complete.flatMap fun p => (p.head?.map Prod.fst).toList

/-- The functions that have been selected, as the arbiter sees the run. -/
def selected (h : List (Cycle (Regs NUM_PHYS_FUNC) (Input NUM_PHYS_FUNC))) :
    List (Finset (Fin NUM_PHYS_FUNC)) :=
  rr_arbiter.selected (h.map (Cycle.of_part Regs.arb arb_pins))

variable {s : Regs NUM_PHYS_FUNC} {i : Input NUM_PHYS_FUNC}

/-- What a cycle does when no function is granted access. -/
theorem no_grant (h : arb_grant s i = ∅) : granted_func s i = none := by
  simp [granted_func, h]

/-- What a cycle does when a function is granted access. -/
theorem one_grant {k : Fin NUM_PHYS_FUNC} (h : arb_grant s i = {k}) :
    granted_func s i = some k ∧ axis_c2h_tready s i = true := by
  constructor
  · rw [granted_func, h, List.find?_eq_some_iff_getElem]
    refine ⟨by simp, k.val, by simp, by simp, fun j hj => ?_⟩
    simp only [List.getElem_finRange, Finset.mem_singleton, Fin.ext_iff]
    simp
    omega
  · have hready : arb_ready s i = true := by
      by_contra hnot
      rw [arb_grant, rr_arbiter.grant_eq, if_neg hnot] at h
      exact absurd h.symm (Finset.singleton_ne_empty k)
    exact (Bool.and_eq_true _ _ ▸ hready).1

/-- The function with access, whether or not the arbiter is ready. -/
def access (s : Regs NUM_PHYS_FUNC) (i : Input NUM_PHYS_FUNC) : Finset (Fin NUM_PHYS_FUNC) :=
  rr_arbiter.access s.arb (arb_req s i)

/-- In a cycle either no beat is taken, or one of the function with access. -/
theorem cycle_cases (honehot : OneHot s.arb) (i : Input NUM_PHYS_FUNC) :
    (merged_beat s i = [] ∧ arb_fin s i = ∅ ∧ i.s_axis_c2h_tvalid ∩ arb_grant s i = ∅) ∨
      ∃ k, merged_beat s i = [(k, i.s_axis_c2h k)] ∧ access s i = {k} ∧ arb_grant s i = {k} ∧
        i.s_axis_c2h_tvalid ∩ arb_grant s i = {k} ∧
        arb_fin s i = if (i.s_axis_c2h k).tlast then {k} else ∅ := by
  have hgrant : arb_grant s i = if arb_ready s i then access s i else ∅ := rfl
  have hnone : i.s_axis_c2h_tvalid ∩ arb_grant s i = ∅ → arb_fin s i = ∅ := by
    intro hnone
    rw [arb_fin, hnone, Finset.filter_empty]
  rcases honehot.access_cases (arb_req s i) with hempty | ⟨k, hk⟩
  · have hempty' : arb_grant s i = ∅ := by
      rw [hgrant, access, hempty, ite_self]
    have hbeats : i.s_axis_c2h_tvalid ∩ arb_grant s i = ∅ := by rw [hempty', Finset.inter_empty]
    exact .inl ⟨by rw [merged_beat, no_grant hempty'], hnone hbeats, hbeats⟩
  · cases hready : arb_ready s i with
    | false =>
      have hempty' : arb_grant s i = ∅ := by rw [hgrant, hready]; rfl
      have hbeats : i.s_axis_c2h_tvalid ∩ arb_grant s i = ∅ := by rw [hempty', Finset.inter_empty]
      exact .inl ⟨by rw [merged_beat, no_grant hempty'], hnone hbeats, hbeats⟩
    | true =>
      have hone : arb_grant s i = {k} := by rw [hgrant, hready, access, hk]; rfl
      obtain ⟨hfunc, -⟩ := one_grant hone
      by_cases hvalid : k ∈ i.s_axis_c2h_tvalid
      · have hbeats : i.s_axis_c2h_tvalid ∩ arb_grant s i = {k} := by
          rw [hone, Finset.inter_singleton_of_mem hvalid]
        refine .inr ⟨k, by simp [merged_beat, hfunc, hvalid], hk, hone, hbeats, ?_⟩
        rw [arb_fin, hbeats, Finset.filter_singleton]
      · have hbeats : i.s_axis_c2h_tvalid ∩ arb_grant s i = ∅ := by
          rw [hone, Finset.inter_singleton_of_notMem hvalid]
        exact .inl ⟨by simp [merged_beat, hfunc, hvalid], hnone hbeats, hbeats⟩

/-- The packets that have been merged so far, and the function that is being served. -/
structure Merging (h : List (Cycle (Regs NUM_PHYS_FUNC) (Input NUM_PHYS_FUNC)))
    (s : Regs NUM_PHYS_FUNC) : Prop where
  onehot : OneHot s.arb
  single : (packets h).SingleSource
  current : ∀ x ∈ (packets h).current, s.arb.state = .S_BUSY ∧ s.arb.granted = {x.1}
  functions : ∀ k, frames Beat.tlast (taken k h) = (packets h).of_source k
  served : selected h = (sources (packets h)).map (fun k => {k}) ++
    if s.arb.state = .S_BUSY then [s.arb.granted] else []

theorem selected_snoc (h : List (Cycle (Regs NUM_PHYS_FUNC) (Input NUM_PHYS_FUNC)))
    (s : Regs NUM_PHYS_FUNC) (i : Input NUM_PHYS_FUNC) :
    selected (h ++ [⟨s, i⟩]) = selected h ++ rr_arbiter.selection s.arb (arb_req s i) := by
  simp [selected, rr_arbiter.selected, Cycle.of_part, arb_pins]

theorem taken_snoc (k : Fin NUM_PHYS_FUNC)
    (h : List (Cycle (Regs NUM_PHYS_FUNC) (Input NUM_PHYS_FUNC))) (s : Regs NUM_PHYS_FUNC)
    (i : Input NUM_PHYS_FUNC) :
    taken k (h ++ [⟨s, i⟩]) = taken k h ++
      if k ∈ i.s_axis_c2h_tvalid ∩ arb_grant s i then [i.s_axis_c2h k] else [] := by
  simp [taken]

/-- Who is selected in a cycle follows those whose packets have been taken. -/
theorem Merging.served_next {h : List (Cycle (Regs NUM_PHYS_FUNC) (Input NUM_PHYS_FUNC))}
    (hm : Merging h s) (i : Input NUM_PHYS_FUNC) :
    selected (h ++ [⟨s, i⟩]) = (sources (packets h)).map (fun k => {k}) ++
      if access s i ≠ ∅ then [access s i] else [] := by
  have hbusy : s.arb.state = .S_BUSY → access s i ≠ ∅ := by
    intro hbusy
    obtain ⟨k, hk⟩ := hm.onehot.busy hbusy
    simp [access, rr_arbiter.access, hbusy, hk]
  rw [selected_snoc, hm.served, List.append_assoc, rr_arbiter.selection_eq]
  change _ ++ (if s.arb.state = .S_BUSY ∨ access s i ≠ ∅ then [access s i] else []) = _
  by_cases hne : access s i = ∅
  · have hidle : s.arb.state ≠ .S_BUSY := fun hb => hbusy hb hne
    simp [hidle, hne]
  · simp [hne]

/-- The packet that is coming in is one of the function with access. -/
theorem Merging.current_access {h : List (Cycle (Regs NUM_PHYS_FUNC) (Input NUM_PHYS_FUNC))}
    (hm : Merging h s) {x : Fin NUM_PHYS_FUNC × Beat} (hx : x ∈ (packets h).current) :
    access s i = {x.1} := by
  obtain ⟨hbusy, hgranted⟩ := hm.current x hx
  rw [access, rr_arbiter.access, hbusy]
  exact hgranted

theorem Merging.next {h : List (Cycle (Regs NUM_PHYS_FUNC) (Input NUM_PHYS_FUNC))}
    (hm : Merging h s) (i : Input NUM_PHYS_FUNC) : Merging (h ++ [⟨s, i⟩]) (step s i) := by
  have hserved := hm.served_next i
  obtain ⟨hiff, hgranted⟩ := hm.onehot.step_state (arb_pins s i)
  have honehot : OneHot (step s i).arb := hm.onehot.next (arb_pins s i)
  have hiff : (step s i).arb.state = .S_BUSY ↔ access s i ≠ ∅ ∧ arb_fin s i ∩ arb_grant s i = ∅ := hiff
  have hgranted : (step s i).arb.state = .S_BUSY → (step s i).arb.granted = access s i := hgranted
  have hpackets : packets (h ++ [⟨s, i⟩]) =
      (merged_beat s i).foldl (Frames.push fun x => x.2.tlast) (packets h) := by
    simp [packets, merged, frames]
  rcases cycle_cases hm.onehot i with ⟨hbeat, hfin, htaken⟩ | ⟨k, hbeat, haccess, hgrant, htaken, hfin⟩
  · rw [hbeat, List.foldl_nil] at hpackets
    have hbusy : (step s i).arb.state = .S_BUSY ↔ access s i ≠ ∅ := by simp [hiff, hfin]
    refine ⟨honehot, ?_, fun x hx => ?_, fun j => ?_, ?_⟩
    · rw [hpackets]
      exact hm.single
    · rw [hpackets] at hx
      have haccess := hm.current_access (i := i) hx
      have hstate := hbusy.mpr (by simp [haccess])
      exact ⟨hstate, by rw [hgranted hstate, haccess]⟩
    · rw [hpackets, taken_snoc, htaken, if_neg (Finset.notMem_empty j), List.append_nil]
      exact hm.functions j
    · rw [hserved, hpackets]
      congr 1
      by_cases hne : access s i = ∅
      · rw [if_neg (by simpa using hne), if_neg (by simpa [hbusy] using hne)]
      · rw [if_pos hne, if_pos (hbusy.mpr hne), hgranted (hbusy.mpr hne)]
  · rw [hbeat, List.foldl_cons, List.foldl_nil] at hpackets
    have hcurrent : ∀ x ∈ (packets h).current, x.1 = k := by
      intro x hx
      have := hm.current_access (i := i) hx
      rw [haccess] at this
      exact (Finset.singleton_injective this).symm
    refine ⟨honehot, ?_, fun x hx => ?_, fun j => ?_, ?_⟩
    · rw [hpackets]
      exact hm.single.push _ hcurrent
    · rw [hpackets, Frames.push] at hx
      cases hlast : (i.s_axis_c2h k).tlast with
      | true => simp [hlast] at hx
      | false =>
        have hstate : (step s i).arb.state = .S_BUSY := hiff.mpr (by simp [haccess, hfin, hlast])
        refine ⟨hstate, ?_⟩
        rw [hgranted hstate, haccess]
        simp only [hlast, Bool.false_eq_true, if_false, List.mem_append, List.mem_singleton] at hx
        rcases hx with hx | rfl
        · rw [hcurrent x hx]
        · rfl
    · rw [hpackets, Frames.of_source_push _ _ hcurrent, taken_snoc, htaken]
      by_cases hj : k = j
      · subst hj
        rw [if_pos (Finset.mem_singleton_self k), if_pos rfl, frames_snoc, hm.functions k]
      · rw [if_neg (by simpa using Ne.symm hj), if_neg hj, List.append_nil]
        exact hm.functions j
    · rw [hserved, hpackets, haccess, if_pos (Finset.singleton_ne_empty k), Frames.push]
      cases hlast : (i.s_axis_c2h k).tlast with
      | true =>
        have hidle : (step s i).arb.state ≠ .S_BUSY := by
          rw [ne_eq, hiff]
          simp [hfin, hlast, hgrant]
        rw [if_neg hidle]
        have hhead : (((packets h).current ++ [(k, i.s_axis_c2h k)]).head?.map Prod.fst) = some k := by
          cases hcur : (packets h).current with
          | nil => rfl
          | cons x xs => simp [hcurrent x (hcur ▸ List.mem_cons_self)]
        simp only [sources, if_true, List.flatMap_append, List.flatMap_singleton, hhead,
          List.map_append, List.append_nil]
        rfl
      | false =>
        have hstate : (step s i).arb.state = .S_BUSY := hiff.mpr (by simp [haccess, hfin, hlast])
        rw [if_pos hstate, hgranted hstate, haccess]
        rfl

theorem reset_merging : Merging [] (machine NUM_PHYS_FUNC unknown).reset where
  onehot := rr_arbiter.reset_one_hot NUM_PHYS_FUNC unknown
  single := ⟨fun p hp => (by cases hp), fun x hx => (by cases hx)⟩
  current := fun x hx => by cases hx
  functions := fun k => rfl
  served := rfl

/-- The register of the empty bytes goes along with the beat in the slice. -/
theorem run_mty (inputs : List (Input NUM_PHYS_FUNC)) :
    ((machine NUM_PHYS_FUNC unknown).run inputs).slice.filled = true →
      ((machine NUM_PHYS_FUNC unknown).run inputs).m_axis_qdma_c2h_mty =
        mty ((machine NUM_PHYS_FUNC unknown).run inputs).slice.axis := by
  refine (machine NUM_PHYS_FUNC unknown).free_history_induction
    (fun _ s => s.slice.filled = true → s.m_axis_qdma_c2h_mty = mty s.slice.axis)
    (fun hfilled => by cases hfilled) ?_ inputs
  intro h s i ih
  have hslice : (step s i).slice =
      if axis_c2h_tvalid s i && axis_c2h_tready s i then ⟨axis_c2h s i, true⟩
      else ⟨s.slice.axis, s.slice.filled && !i.m_axis_qdma_c2h_tready⟩ :=
    s.slice.step_eq (slice_pins s i)
  have hmty : (step s i).m_axis_qdma_c2h_mty =
      if axis_c2h_tvalid s i && axis_c2h_tready s i then mty (axis_c2h s i)
      else s.m_axis_qdma_c2h_mty := rfl
  change (step s i).slice.filled = true → (step s i).m_axis_qdma_c2h_mty = mty (step s i).slice.axis
  rw [hslice, hmty]
  by_cases htaken : (axis_c2h_tvalid s i && axis_c2h_tready s i) = true
  · rw [if_pos htaken, if_pos htaken]
    exact fun _ => rfl
  · rw [if_neg htaken, if_neg htaken]
    exact fun hfilled => ih (Bool.and_eq_true _ _ ▸ hfilled).1

/-- The loops find the function that is granted access, if there is one. -/
theorem func_cases (honehot : OneHot s.arb) (i : Input NUM_PHYS_FUNC) :
    granted_func s i = none ∨ ∃ k, granted_func s i = some k ∧ axis_c2h_tready s i = true := by
  have hgrant : arb_grant s i = if arb_ready s i then access s i else ∅ := rfl
  rcases honehot.access_cases (arb_req s i) with hnone | ⟨k, hk⟩
  · exact .inl (no_grant (by rw [hgrant, access, hnone, ite_self]))
  · cases hready : arb_ready s i with
    | false => exact .inl (no_grant (by rw [hgrant, hready]; rfl))
    | true => exact .inr ⟨k, one_grant (by rw [hgrant, hready, access, hk]; rfl)⟩

/-- A beat that is granted access goes into the slice. -/
theorem slice_taken (honehot : OneHot s.arb) (i : Input NUM_PHYS_FUNC) :
    s.slice.taken (slice_pins s i) = (merged_beat s i).map Prod.snd := by
  rcases func_cases honehot i with hnone | ⟨k, hk, hready⟩
  · simp [ForwardRegs.taken, slice_pins, axis_c2h_tvalid, merged_beat, hnone]
  · rw [axis_c2h_tready] at hready
    by_cases hvalid : k ∈ i.s_axis_c2h_tvalid <;>
      simp [ForwardRegs.taken, slice_pins, axis_c2h_tvalid, axis_c2h, merged_beat, hk, hvalid, hready]

theorem run_merging (inputs : List (Input NUM_PHYS_FUNC)) :
    Merging ((machine NUM_PHYS_FUNC unknown).trace inputs) ((machine NUM_PHYS_FUNC unknown).run inputs) :=
  (machine NUM_PHYS_FUNC unknown).free_history_induction Merging (reset_merging unknown)
    (fun _ _ i hm => hm.next i) inputs

/-- What the QDMA has received and what is in the slice are the beats that have been taken. -/
theorem received_merged (inputs : List (Input NUM_PHYS_FUNC)) :
    let m := machine NUM_PHYS_FUNC unknown
    received (m.trace inputs) ++ (m.run inputs).slice.held.map (fun b => (b, mty b)) =
      (merged (m.trace inputs)).map fun x => (x.2, mty x.2) := by
  intro m
  have hlaw := ForwardRegs.stream_law m Regs.slice slice_pins rfl (fun _ _ => rfl) inputs
  have hreceived : received (m.trace inputs) =
      ((m.trace inputs).flatMap fun c => c.state.slice.sent (slice_pins c.state c.input)).map
        fun b => (b, mty b) := by
    rw [received, List.map_flatMap]
    refine List.flatMap_congr fun c hc => ?_
    obtain ⟨earlier, -, -, hstate⟩ := m.mem_trace hc
    have hmty := run_mty unknown earlier
    rw [← hstate] at hmty
    simp only [ForwardRegs.sent, slice_pins]
    cases hfilled : c.state.slice.filled with
    | false => rfl
    | true =>
      rw [hmty hfilled]
      by_cases hready : c.input.m_axis_qdma_c2h_tready = true <;> simp [hready]
  have hmerged : ((m.trace inputs).flatMap fun c => c.state.slice.taken (slice_pins c.state c.input)) =
      (merged (m.trace inputs)).map Prod.snd := by
    rw [merged, List.map_flatMap]
    refine List.flatMap_congr fun c hc => ?_
    obtain ⟨earlier, -, -, hstate⟩ := m.mem_trace hc
    rw [hstate]
    exact slice_taken (run_merging unknown earlier).onehot c.input
  rw [hmerged] at hlaw
  rw [hreceived, ← List.map_append, hlaw, List.map_map]
  rfl

/-- The pulses of `c2h_status`. -/
def status (h : List (Cycle (Regs NUM_PHYS_FUNC) (Input NUM_PHYS_FUNC))) :
    List (BitVec 2 × BitVec 16) :=
  h.flatMap fun c => (c2h_status c.state c.input).toList

/-- There is a pulse for each packet, when its last beat is taken. -/
theorem status_eq (h : List (Cycle (Regs NUM_PHYS_FUNC) (Input NUM_PHYS_FUNC)))
    (honehot : ∀ c ∈ h, OneHot c.state.arb) :
    status h = ((merged h).filter fun x => x.2.tlast).map
      fun x => (BitVec.ofNat 2 x.1.val, x.2.tuser_size) := by
  rw [status, merged, List.filter_flatMap, List.map_flatMap]
  refine List.flatMap_congr fun c hc => ?_
  rcases func_cases (honehot c hc) c.input with hnone | ⟨k, hk, hready⟩
  · simp [c2h_status, axis_c2h_tvalid, merged_beat, hnone]
  · by_cases hvalid : k ∈ c.input.s_axis_c2h_tvalid <;>
      by_cases hlast : (c.input.s_axis_c2h k).tlast = true <;>
        simp [c2h_status, axis_c2h_tvalid, axis_c2h, merged_beat, hk, hvalid, hlast, hready]

/-- Packets of the functions go to the QDMA one after the other, each of them whole and those of a
function in its order, with the right number of empty bytes in each beat; the status pulses report
each of them. -/
theorem packets_merged_whole (inputs : List (Input NUM_PHYS_FUNC)) :
    let m := machine NUM_PHYS_FUNC unknown
    let h := m.trace inputs
    received h ++ (m.run inputs).slice.held.map (fun b => (b, mty b)) =
        (merged h).map (fun x => (x.2, mty x.2)) ∧
      (∀ p ∈ (packets h).complete, ∃ k, ∀ x ∈ p, x.1 = k) ∧
      (∀ k, frames Beat.tlast (taken k h) = (packets h).of_source k) ∧
      status h = ((merged h).filter fun x => x.2.tlast).map
        fun x => (BitVec.ofNat 2 x.1.val, x.2.tuser_size) := by
  intro m h
  have hm := run_merging unknown inputs
  refine ⟨received_merged unknown inputs, fun p hp => (hm.single.complete p hp).2, hm.functions,
    status_eq h fun c hc => ?_⟩
  obtain ⟨earlier, -, -, hstate⟩ := m.mem_trace hc
  rw [hstate]
  exact (run_merging unknown earlier).onehot

/-- The requests of the functions that arrive, those of one cycle together. -/
def arrivals (h : List (Cycle (Regs NUM_PHYS_FUNC) (Input NUM_PHYS_FUNC))) :
    List (Finset (Fin NUM_PHYS_FUNC)) :=
  rr_arbiter.arrivals (h.map (Cycle.of_part Regs.arb arb_pins))

/-- A function finishes with the last beat of a packet, for which it has access. -/
theorem arb_finishes (s : Regs NUM_PHYS_FUNC) (i : Input NUM_PHYS_FUNC) :
    rr_arbiter.Finishes ⟨s.arb, arb_pins s i⟩ := by
  refine (Finset.filter_subset _ _).trans fun k hk => ?_
  rw [Finset.mem_inter] at hk ⊢
  exact ⟨Finset.mem_union_left _ hk.1, hk.2⟩

/-- Two functions with packets of one and of two beats, and a QDMA that pauses. -/
def two_functions : List (Input 2) :=
  let first : Beat := ⟨1, false, 100, 5⟩
  let second : Beat := ⟨2, true, 100, 5⟩
  let short : Beat := ⟨3, true, 64, 9⟩
  [⟨Finset.univ, fun k => if k.val = 0 then first else short, true, true⟩,
    ⟨Finset.univ, fun k => if k.val = 0 then second else short, false, true⟩,
    ⟨Finset.univ, fun k => if k.val = 0 then second else short, true, true⟩,
    ⟨Finset.univ.filter fun k => k.val = 1, fun _ => short, true, true⟩,
    ⟨∅, fun _ => Beat.zero, true, true⟩]

/-- Packets are taken in the order in which the functions request it, one packet for each request;
of requests that arrive together, the function that was served least recently comes first. -/
theorem packets_in_turn (hfunc : 2 ^ Nat.clog 2 NUM_PHYS_FUNC = NUM_PHYS_FUNC)
    (inputs : List (Input NUM_PHYS_FUNC)) :
    let h := (machine NUM_PHYS_FUNC unknown).trace inputs
    sources (packets h) <+: arbitration.turns (List.finRange NUM_PHYS_FUNC) (arrivals h) := by
  intro h
  obtain ⟨htrace, -⟩ := (machine NUM_PHYS_FUNC unknown).part_run (rr_arbiter.machine NUM_PHYS_FUNC unknown) Regs.arb
    arb_pins rfl (fun _ _ => rfl) inputs
  have hfinish : ∀ c ∈ h.map (Cycle.of_part Regs.arb arb_pins), rr_arbiter.Finishes c := by
    intro c hc
    obtain ⟨d, -, rfl⟩ := List.mem_map.mp hc
    exact arb_finishes d.state d.input
  rw [htrace] at hfinish
  obtain ⟨_, _, -, hturns⟩ := rr_arbiter.run_waits hfunc _ hfinish
  have hserved := (run_merging unknown inputs).served
  rw [← htrace] at hturns
  change _ = selected h ++ _ at hturns
  rw [hserved, List.append_assoc] at hturns
  have hinitial : (sources (packets h)).map (fun k => ({k} : Finset (Fin NUM_PHYS_FUNC))) <+:
      (arbitration.turns (List.finRange NUM_PHYS_FUNC) (arrivals h)).map fun k => {k} :=
    ⟨_, hturns.symm⟩
  obtain ⟨first, hfirst, heq⟩ := List.prefix_map_iff.mp hinitial
  rwa [List.map_injective_iff.mpr Finset.singleton_injective heq]

theorem packets_in_turn_two :
    sources (packets ((machine 2 fun _ => ∅).trace two_functions)) <+:
      arbitration.turns (List.finRange 2) (arrivals ((machine 2 fun _ => ∅).trace two_functions)) :=
  packets_in_turn (fun _ => ∅) (by norm_num) two_functions

end Merging

end reconic.qdma_subsystem_c2h
