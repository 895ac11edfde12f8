import Mathlib
import RecoNIC.PacketBuffer.Model
import RecoNIC.Ring.Slots

open clocked ring

namespace reconic.axi_stream_packet_buffer

section Committed

variable (C_RAM_DEPTH : Nat) {size_depth : Nat}

/-- What a cycle makes of the packets that the buffer has been given. A packet is given up with
all of its beats so far. -/
def stage (f : Frames Beat) (c : Cycle (Regs size_depth) Input) : Frames Beat :=
  if drop_busy c.state c.input then f.abort
  else if c.input.s_axis_tvalid && s_axis_tready C_RAM_DEPTH c.state then
    f.push Beat.tlast c.input.s_axis
  else f

/-- The packets that have been committed, and the beats of the one that is coming in. -/
def staged (h : List (Cycle (Regs size_depth) Input)) : Frames Beat :=
  h.foldl (stage C_RAM_DEPTH) ⟨[], []⟩

/-- The beats that have left the buffer. -/
def sent (h : List (Cycle (Regs size_depth) Input)) : List Beat :=
  h.flatMap fun c => if axis_ram_transfer c.state c.input then [c.state.ram_doutb] else []

/-- The beats of a packet that comes in never fill the RAM. -/
def Fits (h : List (Cycle (Regs size_depth) Input)) : Prop :=
  ∀ earlier, earlier <+: h → (staged C_RAM_DEPTH earlier).current.length < C_RAM_DEPTH

instance (h : List (Cycle (Regs size_depth) Input)) : Decidable (Fits C_RAM_DEPTH h) :=
  decidable_of_iff
    (∀ earlier ∈ h.inits, (staged C_RAM_DEPTH earlier).current.length < C_RAM_DEPTH)
    (by simp [Fits, List.mem_inits])

theorem staged_snoc (h : List (Cycle (Regs size_depth) Input)) (c : Cycle (Regs size_depth) Input) :
    staged C_RAM_DEPTH (h ++ [c]) = stage C_RAM_DEPTH (staged C_RAM_DEPTH h) c := by
  simp [staged]

theorem sent_snoc (h : List (Cycle (Regs size_depth) Input)) (s : Regs size_depth) (i : Input) :
    sent (h ++ [⟨s, i⟩]) =
      sent h ++ if axis_ram_transfer s i then [s.ram_doutb] else [] := by
  simp [sent]

/-- The beats in the output registers, in the order in which they leave. -/
def output_beats (s : Regs size_depth) : List Beat :=
  match s.rd_state with
  | .S_RD_P00 => []
  | .S_RD_P10 => [s.ram_stage]
  | .S_RD_P01 => [s.ram_doutb]
  | .S_RD_P11 => [s.ram_doutb, s.ram_stage]

/-- The beats of complete packets that the buffer has, in the output registers and in the RAM. -/
def stored (s : Regs size_depth) : List Beat :=
  output_beats s ++ (List.range (full_pkt_beats C_RAM_DEPTH s)).map fun k =>
    s.ram.getD ((s.ram_addrb + k) % C_RAM_DEPTH) Beat.zero

end Committed

/-- How many beats have been read from the RAM when `n` have been sent. -/
def beats_read {size_depth : Nat} (n : Nat) (s : Regs size_depth) : Nat := n + (output_beats s).length

/-- The registers of a buffer that has been given packets, and has sent `n` beats of them. -/
structure Stores (C_RAM_DEPTH : Nat) {size_depth : Nat} (f : Frames Beat) (n : Nat)
    (s : Regs size_depth) : Prop where
  read_le : beats_read n s ≤ f.complete.flatten.length
  fits : f.current.length < C_RAM_DEPTH
  addra : s.ram_addra = (f.complete.flatten.length + f.current.length) % C_RAM_DEPTH
  checkpoint : s.ram_addra_checkpoint = f.complete.flatten.length % C_RAM_DEPTH
  addrb : s.ram_addrb = beats_read n s % C_RAM_DEPTH
  data_cnt : s.ram_data_cnt + beats_read n s = f.complete.flatten.length + f.current.length
  data_le : s.ram_data_cnt ≤ C_RAM_DEPTH
  partial_beats : s.partial_pkt_beats = f.current.length
  ram : Holds C_RAM_DEPTH s.ram (f.complete.flatten ++ f.current) (beats_read n s)
    (f.complete.flatten.length + f.current.length)
  output : output_beats s <+: f.complete.flatten.drop n

section Stores

variable {C_RAM_DEPTH size_depth : Nat} {f : Frames Beat} {n : Nat} {s : Regs size_depth}

/-- The beats that the read FSM sees are the committed ones that have not been read. -/
theorem Stores.full_pkt_beats_eq (h : Stores C_RAM_DEPTH f n s) :
    full_pkt_beats C_RAM_DEPTH s = f.complete.flatten.length - beats_read n s := by
  have hread := h.read_le
  have hcnt := h.data_cnt
  have hle := h.data_le
  have hfits := h.fits
  unfold full_pkt_beats ram_full
  rw [h.checkpoint, h.addrb]
  generalize beats_read n s = r at *
  generalize f.complete.flatten.length = w at *
  by_cases hturn : w < r + C_RAM_DEPTH
  · have hahead := index_ahead hread hturn
    by_cases hsame : w % C_RAM_DEPTH = r % C_RAM_DEPTH
    · rw [if_pos hsame]
      rw [hsame, if_neg (Nat.lt_irrefl _), Nat.sub_self] at hahead
      rw [if_neg (by simp only [decide_eq_true_eq]; omega)]
      exact hahead
    · have hsmall := Nat.mod_lt r (by omega : C_RAM_DEPTH > 0)
      rw [if_neg hsame, ← hahead]
      split <;> split <;> omega
  · have hall : w = r + C_RAM_DEPTH := by omega
    rw [if_pos (by rw [hall, Nat.add_mod_right]), if_pos (by simp only [decide_eq_true_eq]; omega)]
    omega

/-- A committed beat that has not been read is in the RAM. -/
theorem Stores.ram_beat (h : Stores C_RAM_DEPTH f n s) {k : Nat}
    (hk : beats_read n s + k < f.complete.flatten.length) :
    s.ram.getD ((s.ram_addrb + k) % C_RAM_DEPTH) Beat.zero =
      f.complete.flatten[beats_read n s + k] := by
  rw [h.addrb, Nat.mod_add_mod, List.getD_eq_getElem?_getD, h.ram.item _ (by omega) (by omega),
    List.getElem?_append_left hk, List.getElem?_eq_getElem hk]
  rfl

/-- What is stored is what has been committed and not sent. -/
theorem Stores.stored_eq (h : Stores C_RAM_DEPTH f n s) :
    stored C_RAM_DEPTH s = f.complete.flatten.drop n := by
  have hram : (List.range (full_pkt_beats C_RAM_DEPTH s)).map (fun k =>
      s.ram.getD ((s.ram_addrb + k) % C_RAM_DEPTH) Beat.zero) =
      f.complete.flatten.drop (beats_read n s) := by
    rw [h.full_pkt_beats_eq]
    refine List.ext_getElem (by simp) fun k hk _ => ?_
    simp only [List.length_map, List.length_range] at hk
    rw [List.getElem_map, List.getElem_range, List.getElem_drop, h.ram_beat (by omega)]
  rw [stored, hram, beats_read, ← List.drop_drop]
  conv_lhs => lhs; rw [List.prefix_iff_eq_take.mp h.output]
  exact List.take_append_drop _ _

/-- A beat leaves the second stage of output registers, when there is one. -/
theorem transfer_state {i : Input} (h : axis_ram_transfer s i = true) :
    s.rd_state = .S_RD_P01 ∨ s.rd_state = .S_RD_P11 := by
  simp only [axis_ram_transfer, axis_ram_tvalid, Bool.and_eq_true, Bool.or_eq_true,
    decide_eq_true_eq] at h
  exact h.1.1

/-- The output registers take over what is read, and give away what is sent. -/
theorem output_beats_step (s : Regs size_depth) (i : Input) :
    output_beats s ++ (if (readControl C_RAM_DEPTH s i).ram_enb then
        [s.ram.getD s.ram_addrb Beat.zero] else []) =
      (if axis_ram_transfer s i then [s.ram_doutb] else []) ++
        output_beats (step C_RAM_DEPTH s i) := by
  by_cases hmore : full_pkt_beats C_RAM_DEPTH s > 0 <;>
    cases htransfer : axis_ram_transfer s i with
    | false =>
      cases hstate : s.rd_state <;>
        simp [output_beats, readControl, step, hstate, htransfer, hmore]
    | true =>
      obtain hstate | hstate := transfer_state htransfer <;>
        simp [output_beats, readControl, step, hstate, htransfer, hmore]

/-- The RAM is read only when it has a committed beat. -/
theorem more_of_ram_enb {i : Input} (h : (readControl C_RAM_DEPTH s i).ram_enb = true) :
    full_pkt_beats C_RAM_DEPTH s > 0 := by
  by_contra hnone
  cases hstate : s.rd_state <;> cases htransfer : axis_ram_transfer s i <;>
    simp [readControl, hstate, htransfer, hnone] at h

/-- Only complete packets are added. -/
theorem stage_complete (f : Frames Beat) (c : Cycle (Regs size_depth) Input) :
    f.complete.flatten <+: (stage C_RAM_DEPTH f c).complete.flatten := by
  unfold stage
  split
  · exact List.prefix_refl _
  · split
    · obtain ⟨more, hmore⟩ := f.complete_push Beat.tlast c.input.s_axis
      rw [← hmore, List.flatten_append]
      exact List.prefix_append _ _
    · exact List.prefix_refl _

/-- How many beats an edge reads from the RAM. -/
def reads (C_RAM_DEPTH : Nat) (s : Regs size_depth) (i : Input) : Nat :=
  if (readControl C_RAM_DEPTH s i).ram_enb then 1 else 0

/-- How many beats leave the buffer in a cycle. -/
def transfers (s : Regs size_depth) (i : Input) : Nat := if axis_ram_transfer s i then 1 else 0

/-- What is read is committed, and what is sent is the next committed beat. -/
structure ReadEdge (C_RAM_DEPTH : Nat) (committed : List Beat) (n : Nat) (s : Regs size_depth)
    (i : Input) : Prop where
  sends : axis_ram_transfer s i = true → committed[n]? = some s.ram_doutb
  read : beats_read (n + transfers s i) (step C_RAM_DEPTH s i) = beats_read n s + reads C_RAM_DEPTH s i
  read_le : beats_read n s + reads C_RAM_DEPTH s i ≤ committed.length
  addrb : (step C_RAM_DEPTH s i).ram_addrb = (beats_read n s + reads C_RAM_DEPTH s i) % C_RAM_DEPTH
  output : output_beats (step C_RAM_DEPTH s i) <+: committed.drop (n + transfers s i)

theorem Stores.read_edge (h : Stores C_RAM_DEPTH f n s) (i : Input) :
    ReadEdge C_RAM_DEPTH f.complete.flatten n s i := by
  have hmoves := @output_beats_step C_RAM_DEPTH size_depth s i
  obtain ⟨rest, hrest⟩ := h.output
  have hread_le : beats_read n s + reads C_RAM_DEPTH s i ≤ f.complete.flatten.length := by
    rw [reads]
    split
    · next henb =>
      have := more_of_ram_enb henb
      rw [h.full_pkt_beats_eq] at this
      omega
    · exact h.read_le
  have hdrop : rest = f.complete.flatten.drop (beats_read n s) := by
    rw [beats_read, ← List.drop_drop, ← hrest, List.drop_left]
  -- with what is read, the output registers are still the next beats of the stream
  have hahead : output_beats s ++ (if (readControl C_RAM_DEPTH s i).ram_enb then
      [s.ram.getD s.ram_addrb Beat.zero] else []) <+: f.complete.flatten.drop n := by
    rw [← hrest, hdrop, List.prefix_append_right_inj]
    by_cases henb : (readControl C_RAM_DEPTH s i).ram_enb = true
    · rw [reads, if_pos henb] at hread_le
      have hbeat := h.ram_beat (k := 0) (by omega)
      rw [Nat.add_zero, Nat.mod_eq_of_lt (by
        rw [h.addrb]
        exact Nat.mod_lt _ (Nat.zero_lt_of_lt h.fits))] at hbeat
      rw [if_pos henb, hbeat, List.drop_eq_getElem_cons (by omega)]
      exact ⟨_, rfl⟩
    · rw [if_neg henb]
      exact List.nil_prefix
  have hlength := congrArg List.length hmoves
  rw [hmoves] at hahead
  refine ⟨fun htransfer => ?_, ?_, hread_le, ?_, ?_⟩
  · rw [if_pos htransfer] at hahead
    obtain ⟨later, hlater⟩ := hahead
    have := congrArg List.head? hlater
    simpa [List.head?_drop] using this.symm
  · rw [beats_read, beats_read, reads, transfers]
    rw [List.length_append, List.length_append] at hlength
    split at hlength <;> split at hlength <;> simp_all <;> omega
  · simp only [step, h.addrb, reads]
    split
    · exact Nat.mod_add_mod ..
    · rfl
  · rw [transfers]
    split at hahead
    · next htransfer =>
      obtain ⟨later, hlater⟩ := hahead
      rw [if_pos htransfer, ← List.drop_drop, ← hlater]
      exact ⟨later, rfl⟩
    · next hnone =>
      rw [if_neg hnone]
      exact hahead

theorem step_ram (s : Regs size_depth) (i : Input) : (step C_RAM_DEPTH s i).ram =
    if ram_ena C_RAM_DEPTH s i then s.ram.set s.ram_addra i.s_axis else s.ram := rfl

/-- What the write side does to the registers completes a cycle. -/
theorem ReadEdge.stores {committed : List Beat} {i : Input}
    (hread : ReadEdge C_RAM_DEPTH committed n s i) (hmore : committed <+: f.complete.flatten)
    (hfits : f.current.length < C_RAM_DEPTH)
    (haddra : (step C_RAM_DEPTH s i).ram_addra =
      (f.complete.flatten.length + f.current.length) % C_RAM_DEPTH)
    (hcheckpoint : (step C_RAM_DEPTH s i).ram_addra_checkpoint =
      f.complete.flatten.length % C_RAM_DEPTH)
    (hdata_cnt : (step C_RAM_DEPTH s i).ram_data_cnt + (beats_read n s + reads C_RAM_DEPTH s i) =
      f.complete.flatten.length + f.current.length)
    (hdata_le : (step C_RAM_DEPTH s i).ram_data_cnt ≤ C_RAM_DEPTH)
    (hpart : (step C_RAM_DEPTH s i).partial_pkt_beats = f.current.length)
    (hram : Holds C_RAM_DEPTH (step C_RAM_DEPTH s i).ram (f.complete.flatten ++ f.current)
      (beats_read n s) (f.complete.flatten.length + f.current.length)) :
    Stores C_RAM_DEPTH f (n + transfers s i) (step C_RAM_DEPTH s i) := by
  obtain ⟨rest, hrest⟩ := hmore
  have hread_le := hread.read_le
  have hlength := congrArg List.length hrest
  rw [List.length_append] at hlength
  refine ⟨?_, hfits, haddra, hcheckpoint, ?_, ?_, hdata_le, hpart, ?_, ?_⟩
  · rw [hread.read]
    omega
  · rw [hread.read, hread.addrb]
  · rw [hread.read, hdata_cnt]
  · rw [hread.read]
    exact hram.from_later (Nat.le_add_right _ _)
  · refine hread.output.trans ?_
    rw [← hrest, List.drop_append]
    exact List.prefix_append _ _

/-- The counter does not leave its range. -/
theorem count_mod {x : Nat} (hx : x < 2 * C_RAM_DEPTH) :
    (x + 4 * C_RAM_DEPTH) % (2 * C_RAM_DEPTH) = x := by
  rw [show x + 4 * C_RAM_DEPTH = x + 2 * C_RAM_DEPTH * 2 by omega, Nat.add_mul_mod_self_left,
    Nat.mod_eq_of_lt hx]

/-- A cycle in which the incoming packet is given up. -/
theorem Stores.abort (h : Stores C_RAM_DEPTH f n s) {i : Input} (hbusy : drop_busy s i = true) :
    Stores C_RAM_DEPTH f.abort (n + transfers s i) (step C_RAM_DEPTH s i) := by
  have hread := h.read_edge i
  have hread_le := hread.read_le
  have hcnt := h.data_cnt
  have hle := h.data_le
  have hpos := Nat.zero_lt_of_lt h.fits
  have hdata : (step C_RAM_DEPTH s i).ram_data_cnt =
      f.complete.flatten.length - (beats_read n s + reads C_RAM_DEPTH s i) := by
    simp only [step, hbusy, if_true, h.partial_beats]
    rw [reads] at hread_le ⊢
    split at hread_le
    · next henb =>
      rw [if_pos henb, if_pos henb, show s.ram_data_cnt + 4 * C_RAM_DEPTH - f.current.length - 1 =
        (s.ram_data_cnt - f.current.length - 1) + 4 * C_RAM_DEPTH by omega, count_mod (by omega)]
      omega
    · next henb =>
      rw [if_neg henb, if_neg henb, show s.ram_data_cnt + 4 * C_RAM_DEPTH - f.current.length =
        (s.ram_data_cnt - f.current.length) + 4 * C_RAM_DEPTH by omega, count_mod (by omega)]
      omega
  refine hread.stores (List.prefix_refl _) hpos ?_ ?_ ?_ ?_ ?_ ?_
  · exact (if_pos hbusy).trans h.checkpoint
  · simpa [step, hbusy, Frames.abort] using h.checkpoint
  · rw [hdata]
    simp only [Frames.abort, List.length_nil]
    omega
  · rw [hdata]
    omega
  · simp [step, hbusy, Frames.abort]
  · rw [step_ram, ram_ena, hbusy, Bool.not_true, Bool.and_false, if_neg Bool.false_ne_true]
    simpa [Frames.abort] using h.ram.shorten (Nat.le_add_right _ _) (Nat.le_refl _)

/-- A cycle without a beat. -/
theorem Stores.quiet (h : Stores C_RAM_DEPTH f n s) {i : Input} (hbusy : drop_busy s i = false)
    (hnone : (i.s_axis_tvalid && s_axis_tready C_RAM_DEPTH s) = false) :
    Stores C_RAM_DEPTH f (n + transfers s i) (step C_RAM_DEPTH s i) := by
  have hread := h.read_edge i
  have hread_le := hread.read_le
  have hcnt := h.data_cnt
  have hle := h.data_le
  have hpos := Nat.zero_lt_of_lt h.fits
  have hena : ram_ena C_RAM_DEPTH s i = false := by rw [ram_ena, hnone, Bool.false_and]
  have hdata : (step C_RAM_DEPTH s i).ram_data_cnt = s.ram_data_cnt - reads C_RAM_DEPTH s i := by
    simp only [step, hbusy, hena, Bool.false_eq_true, if_false, Bool.false_and, Bool.not_false,
      Bool.and_true]
    rw [reads] at hread_le ⊢
    split at hread_le
    · next henb =>
      rw [if_pos henb, if_pos henb, show s.ram_data_cnt + 4 * C_RAM_DEPTH - 1 =
        (s.ram_data_cnt - 1) + 4 * C_RAM_DEPTH by omega, count_mod (by omega)]
    · next henb => rw [if_neg henb, if_neg henb, Nat.sub_zero]
  refine hread.stores (List.prefix_refl _) h.fits ?_ ?_ ?_ ?_ ?_ ?_
  · simpa [step, hbusy, hnone] using h.addra
  · simpa [step, hbusy, hnone] using h.checkpoint
  · rw [hdata]
    omega
  · rw [hdata]
    omega
  · simpa [step, hbusy, hnone] using h.partial_beats
  · rw [step_ram, hena, if_neg Bool.false_ne_true]
    exact h.ram

/-- A cycle in which a beat is stored. -/
theorem Stores.push (h : Stores C_RAM_DEPTH f n s) {i : Input} (hbusy : drop_busy s i = false)
    (htaken : (i.s_axis_tvalid && s_axis_tready C_RAM_DEPTH s) = true)
    (hfits : (f.push Beat.tlast i.s_axis).current.length < C_RAM_DEPTH) :
    Stores C_RAM_DEPTH (f.push Beat.tlast i.s_axis) (n + transfers s i) (step C_RAM_DEPTH s i) := by
  have hread := h.read_edge i
  have hread_le := hread.read_le
  have hcnt := h.data_cnt
  have hpos := Nat.zero_lt_of_lt h.fits
  have hena : ram_ena C_RAM_DEPTH s i = true := by rw [ram_ena, htaken, hbusy]; rfl
  have hroom : s.ram_data_cnt < C_RAM_DEPTH := by
    have hnot : s_axis_tready C_RAM_DEPTH s = true := (Bool.and_eq_true _ _ ▸ htaken).2
    rw [s_axis_tready, ram_full, Bool.not_eq_true', decide_eq_false_iff_not] at hnot
    exact Nat.lt_of_le_of_ne h.data_le hnot
  have helements := f.push_elements Beat.tlast i.s_axis
  have hlength := congrArg List.length helements
  simp only [List.length_append, List.length_singleton] at hlength
  have hdata : (step C_RAM_DEPTH s i).ram_data_cnt = s.ram_data_cnt + 1 - reads C_RAM_DEPTH s i := by
    simp only [step, hbusy, hena, Bool.false_eq_true, if_false, Bool.true_and, Bool.not_true,
      Bool.and_false]
    rw [reads]
    cases henb : (readControl C_RAM_DEPTH s i).ram_enb with
    | true => simp
    | false =>
      simp only [Bool.not_false, if_true, Bool.false_eq_true, if_false]
      exact Nat.mod_eq_of_lt (by omega)
  have hnext : (s.ram_addra + 1) % C_RAM_DEPTH =
      (f.complete.flatten.length + f.current.length + 1) % C_RAM_DEPTH := by
    rw [h.addra, Nat.mod_add_mod]
  refine hread.stores ?_ hfits ?_ ?_ ?_ ?_ ?_ ?_
  · obtain ⟨more, hmore⟩ := f.complete_push Beat.tlast i.s_axis
    rw [← hmore, List.flatten_append]
    exact List.prefix_append _ _
  · rw [hlength]
    simpa [step, hbusy, htaken] using hnext
  · cases hlast : i.s_axis.tlast with
    | true =>
      simp only [Frames.push, hlast, if_true, List.length_nil, Nat.add_zero] at hlength ⊢
      rw [hlength]
      simpa [step, hbusy, htaken, hlast] using hnext
    | false =>
      simpa [step, hbusy, hlast, Frames.push] using h.checkpoint
  · rw [hdata, hlength]
    have : reads C_RAM_DEPTH s i ≤ 1 := by
      rw [reads]
      split <;> omega
    omega
  · rw [hdata]
    omega
  · cases hlast : i.s_axis.tlast with
    | true => simp [step, hbusy, htaken, hlast, Frames.push]
    | false =>
      have hfits' := h.fits
      simp only [step, hbusy, htaken, hlast, Frames.push, Bool.false_eq_true, if_false, if_true,
        List.length_append, List.length_singleton, h.partial_beats]
      exact Nat.mod_eq_of_lt (by omega)
  · rw [step_ram, hena, if_pos rfl, h.addra, helements, hlength]
    refine (h.ram.extend (by simp) [i.s_axis]).put (by omega) (by omega) ?_
    rw [List.getElem?_append_right (by simp)]
    simp

/-- One cycle, whatever the packets do on the way in: what is read is a committed beat. -/
theorem Stores.next (h : Stores C_RAM_DEPTH f n s) {i : Input}
    (hfits : (stage C_RAM_DEPTH f ⟨s, i⟩).current.length < C_RAM_DEPTH) :
    Stores C_RAM_DEPTH (stage C_RAM_DEPTH f ⟨s, i⟩) (n + transfers s i)
      (step C_RAM_DEPTH s i) := by
  unfold stage at hfits ⊢
  cases hbusy : drop_busy s i with
  | true =>
    rw [if_pos rfl]
    exact h.abort hbusy
  | false =>
    cases htaken : i.s_axis_tvalid && s_axis_tready C_RAM_DEPTH s with
    | true =>
      simp only [hbusy, htaken, if_true, Bool.false_eq_true, if_false] at hfits ⊢
      exact h.push hbusy htaken hfits
    | false =>
      simp only [Bool.false_eq_true, if_false]
      exact h.quiet hbusy htaken

end Stores

section Runs

variable {C_RAM_DEPTH size_depth : Nat}

theorem reset_stores (hdepth : 0 < C_RAM_DEPTH) :
    Stores C_RAM_DEPTH ⟨[], []⟩ 0 (machine C_RAM_DEPTH size_depth).reset where
  read_le := Nat.le_refl 0
  fits := hdepth
  addra := (Nat.zero_mod _).symm
  checkpoint := (Nat.zero_mod _).symm
  addrb := (Nat.zero_mod _).symm
  data_cnt := rfl
  data_le := Nat.zero_le _
  partial_beats := rfl
  ram := .empty (by simp [machine]) _ _
  output := List.nil_prefix

/-- The registers after every run, and what has been sent until then. -/
theorem run_stores (hdepth : 0 < C_RAM_DEPTH) (inputs : List Input)
    (hfits : Fits C_RAM_DEPTH ((machine C_RAM_DEPTH size_depth).trace inputs)) :
    let m := machine C_RAM_DEPTH size_depth
    let f := staged C_RAM_DEPTH (m.trace inputs)
    sent (m.trace inputs) = f.complete.flatten.take (sent (m.trace inputs)).length ∧
      Stores C_RAM_DEPTH f (sent (m.trace inputs)).length (m.run inputs) := by
  apply (machine C_RAM_DEPTH size_depth).history_induction (Fits C_RAM_DEPTH) fun h s =>
    sent h = (staged C_RAM_DEPTH h).complete.flatten.take (sent h).length ∧
      Stores C_RAM_DEPTH (staged C_RAM_DEPTH h) (sent h).length s
  · exact fun h c hall earlier hearlier => hall earlier (hearlier.trans (List.prefix_append _ _))
  · exact ⟨rfl, reset_stores hdepth⟩
  · intro h s i hall ⟨hsent, hstores⟩
    have hfits := hall _ (List.prefix_refl _)
    rw [staged_snoc] at hfits ⊢
    have hnext := hstores.next hfits
    have hsends := (hstores.read_edge i).sends
    obtain ⟨more, hmore⟩ := @stage_complete C_RAM_DEPTH size_depth (staged C_RAM_DEPTH h) ⟨s, i⟩
    have hle := hstores.read_le
    rw [beats_read] at hle
    have hlength : (sent (h ++ [⟨s, i⟩])).length = (sent h).length + transfers s i := by
      rw [sent_snoc, transfers, List.length_append]
      split <;> rfl
    rw [hlength]
    refine ⟨?_, hnext⟩
    rw [← hmore, sent_snoc, transfers]
    split
    · next htransfer =>
      rw [List.take_append_of_le_length, List.take_add_one, ← hsent, hsends htransfer]
      · rfl
      · have := List.getElem?_eq_some_iff.mp (hsends htransfer) |>.1
        omega
    · rw [List.append_nil, Nat.add_zero, List.take_append_of_le_length (by omega), ← hsent]
  · exact hfits

/-- A packet of two beats, then one that is dropped, while nothing is taken. -/
def keep_then_drop : List Input :=
  [⟨true, ⟨1, BitVec.allOnes 64, false, 0, 0, 0⟩, false, false⟩,
    ⟨true, ⟨2, 7, true, 0, 0, 0⟩, false, false⟩,
    ⟨true, ⟨3, 7, true, 0, 0, 0⟩, true, false⟩,
    ⟨false, Beat.zero, false, true⟩]

end Runs

end reconic.axi_stream_packet_buffer
