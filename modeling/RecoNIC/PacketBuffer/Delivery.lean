import RecoNIC.PacketBuffer.Sizes

open clocked

namespace reconic.axi_stream_packet_buffer

/-- The beats that the buffer takes, and whether they are dropped. -/
def taken (C_RAM_DEPTH : Nat) {size_depth : Nat} (h : List (Cycle (Regs size_depth) Input)) :
    List (Beat × Bool) :=
  h.flatMap fun c =>
    if c.input.s_axis_tvalid && s_axis_tready C_RAM_DEPTH c.state then [(c.input.s_axis, c.input.drop)]
    else []

def taken_frames (C_RAM_DEPTH : Nat) {size_depth : Nat} (h : List (Cycle (Regs size_depth) Input)) :
    Frames (Beat × Bool) :=
  frames (fun b => b.1.tlast) (taken C_RAM_DEPTH h)

/-- The packets that have been taken and are not dropped. -/
def kept (C_RAM_DEPTH : Nat) {size_depth : Nat} (h : List (Cycle (Regs size_depth) Input)) :
    List (List Beat) :=
  ((taken_frames C_RAM_DEPTH h).complete.filter fun p => p.all fun b => !b.2).map
    fun p => p.map Prod.fst

/-- The beats of packets, each with the size of its packet. -/
def with_sizes (ps : List (List Beat)) : List (Beat × BitVec 16) :=
  (tagged ps).map fun x => (x.2, packet_size x.1)

section Delivery

variable {C_RAM_DEPTH size_depth : Nat}

/-- Packets that are dropped as they should be are dropped as a whole, and no others. -/
theorem staged_eq_kept (hdepth : 0 < C_RAM_DEPTH) (hsizes : C_RAM_DEPTH + 2 ≤ size_depth)
    (inputs : List Input)
    (horderly : Orderly C_RAM_DEPTH ((machine C_RAM_DEPTH size_depth).trace inputs)) :
    let h := (machine C_RAM_DEPTH size_depth).trace inputs
    (staged C_RAM_DEPTH h).complete = kept C_RAM_DEPTH h ∧
      (staged C_RAM_DEPTH h).current = (taken_frames C_RAM_DEPTH h).current.map Prod.fst ∧
      ∀ b ∈ (taken_frames C_RAM_DEPTH h).current, b.2 = false := by
  induction inputs using List.reverseRecOn with
  | nil => exact ⟨rfl, rfl, fun _ hb => (by cases hb)⟩
  | append_singleton inputs i ih =>
    rw [Machine.trace_snoc] at horderly ⊢
    obtain ⟨hcomplete, hcurrent, hkeep⟩ := ih horderly.earlier
    obtain ⟨-, -, hsized⟩ := run_sized hdepth hsizes inputs horderly.earlier
    have hclean := horderly.2 ⟨_, i⟩ (List.mem_append_right _ List.mem_cons_self)
    obtain ⟨hnext, hpart⟩ := hclean.stage_eq _ hsized.dropped
    generalize (machine C_RAM_DEPTH size_depth).run inputs = s at *
    generalize (machine C_RAM_DEPTH size_depth).trace inputs = h at *
    have htaken : taken C_RAM_DEPTH (h ++ [⟨s, i⟩]) = taken C_RAM_DEPTH h ++
        if i.s_axis_tvalid && s_axis_tready C_RAM_DEPTH s then [(i.s_axis, i.drop)] else [] := by
      simp [taken]
    dsimp only
    rw [staged_snoc, hnext, hpart, hcomplete, hcurrent]
    unfold kept
    cases htake : i.s_axis_tvalid && s_axis_tready C_RAM_DEPTH s with
    | false =>
      have hends : ends C_RAM_DEPTH s i = false := by
        rw [ends, Bool.and_assoc, Bool.and_comm i.s_axis.tlast, ← Bool.and_assoc, htake, Bool.false_and]
      have hsame : taken_frames C_RAM_DEPTH (h ++ [⟨s, i⟩]) = taken_frames C_RAM_DEPTH h := by
        rw [taken_frames, htaken, htake]
        simp [taken_frames]
      rw [hends, hsame]
      exact ⟨List.append_nil _, rfl, hkeep⟩
    | true =>
      have hframes : taken_frames C_RAM_DEPTH (h ++ [⟨s, i⟩]) =
          (taken_frames C_RAM_DEPTH h).push (fun b => b.1.tlast) (i.s_axis, i.drop) := by
        rw [taken_frames, htaken, htake, if_pos rfl, frames_snoc]
        rfl
      have hends : ends C_RAM_DEPTH s i = i.s_axis.tlast := by
        rw [ends, Bool.and_assoc, Bool.and_comm i.s_axis.tlast, ← Bool.and_assoc, htake, Bool.true_and]
      rw [hends, hframes, Frames.push]
      cases hlast : i.s_axis.tlast with
      | false =>
        have hdrop : i.drop = false := by
          by_contra hdrop
          have := hclean.last (by simpa using hdrop)
          simp [hlast] at this
        refine ⟨List.append_nil _, by simp, fun b hb => ?_⟩
        rcases List.mem_append.mp hb with hb | hb
        · exact hkeep b hb
        · rw [List.mem_singleton.mp hb]
          exact hdrop
      | true =>
        have hall : (taken_frames C_RAM_DEPTH h).current.all (fun b => !b.2) = true :=
          List.all_eq_true.mpr fun b hb => by rw [hkeep b hb]; rfl
        refine ⟨?_, by simp, fun b hb => (by cases hb)⟩
        cases hdrop : i.drop <;> simp [hall]

/-- When packets are dropped as they should be, the buffer sends the packets that are not dropped,
whole and in order, and each of their beats with the size of its packet. -/
theorem kept_sent_with_sizes (hdepth : 0 < C_RAM_DEPTH) (hsizes : C_RAM_DEPTH + 2 ≤ size_depth)
    (inputs : List Input)
    (horderly : Orderly C_RAM_DEPTH ((machine C_RAM_DEPTH size_depth).trace inputs)) :
    let h := (machine C_RAM_DEPTH size_depth).trace inputs
    sent_sized h <+: with_sizes (kept C_RAM_DEPTH h) := by
  intro h
  obtain ⟨hsent, -⟩ := run_sized hdepth hsizes inputs horderly
  obtain ⟨hcomplete, -⟩ := staged_eq_kept hdepth hsizes inputs horderly
  rw [hsent, hcomplete, with_sizes]
  exact (List.take_prefix _ _).map _

theorem kept_sent_with_sizes_two :
    sent_sized ((machine 4 8).trace keep_then_drop) <+:
      with_sizes (kept 4 ((machine 4 8).trace keep_then_drop)) :=
  kept_sent_with_sizes (by decide) (by decide) keep_then_drop (by decide)

/-- A cycle without a beat, in which a beat can leave. -/
def idle : Input := ⟨false, Beat.zero, false, true⟩

theorem idle_clean (s : Regs size_depth) : CleanDrop C_RAM_DEPTH ⟨s, idle⟩ :=
  ⟨fun hdrop => (by cases hdrop), fun _ => rfl⟩

theorem idle_orderly {inputs : List Input}
    (horderly : Orderly C_RAM_DEPTH ((machine C_RAM_DEPTH size_depth).trace inputs)) :
    Orderly C_RAM_DEPTH ((machine C_RAM_DEPTH size_depth).trace (inputs ++ [idle])) := by
  rw [Machine.trace_snoc]
  refine ⟨fun earlier hearlier => ?_, fun c hc => ?_⟩
  · rcases List.prefix_concat_iff.mp hearlier with rfl | hshort
    · have hbefore := horderly.1 _ (List.prefix_refl _)
      rw [staged_snoc, stage]
      split
      · exact Nat.zero_lt_of_lt hbefore
      · exact hbefore
    · exact horderly.1 earlier hshort
  · rcases List.mem_append.mp hc with hc | hc
    · exact horderly.2 c hc
    · rw [List.mem_singleton.mp hc]
      exact idle_clean _

theorem idle_kept (h : List (Cycle (Regs size_depth) Input)) (s : Regs size_depth) :
    kept C_RAM_DEPTH (h ++ [⟨s, idle⟩]) = kept C_RAM_DEPTH h := by
  simp [kept, taken_frames, taken, idle]

/-- How far the buffer is from having sent everything that it stores. -/
def distance (C_RAM_DEPTH : Nat) (s : Regs size_depth) : Nat :=
  3 * full_pkt_beats C_RAM_DEPTH s +
    match s.rd_state with
    | .S_RD_P00 => 0
    | .S_RD_P10 => 2
    | .S_RD_P01 => 1
    | .S_RD_P11 => 3

theorem distance_le (s : Regs size_depth) :
    distance C_RAM_DEPTH s ≤ 3 * (stored C_RAM_DEPTH s).length := by
  unfold distance stored output_beats
  rw [List.length_append, List.length_map, List.length_range]
  cases s.rd_state <;> simp only [List.length_nil, List.length_cons] <;> omega

/-- The beat in the second stage of output registers leaves, as soon as its size has arrived. -/
theorem Sized.idle_transfer {f : Frames Beat} {n : Nat} {s : Regs size_depth} (hsized : Sized f n s)
    (h : Stores C_RAM_DEPTH f n s) (hquiet : s.size_cnt.size_valid = false)
    (hstate : s.rd_state = .S_RD_P01 ∨ s.rd_state = .S_RD_P11) :
    axis_ram_transfer s idle = true := by
  have hout : 0 < (output_beats s).length := by
    rcases hstate with hstate | hstate <;> simp [output_beats, hstate]
  have hn : n < f.complete.flatten.length := by
    have := h.read_le
    rw [beats_read] at this
    omega
  have hlt := countP_take_lt hsized.framed.complete hn
  have hne : s.size_fifo.contents ≠ [] := by
    intro hnil
    have hlength := congrArg List.length hsized.sizes
    rw [size_fifo_wr_en, hquiet, hnil] at hlength
    simp only [Bool.false_and, Bool.false_eq_true, if_false, List.append_nil, List.length_nil,
      List.length_map, List.length_drop] at hlength
    omega
  have hempty : s.size_fifo.empty = false := (Fifo.empty_eq_false _).mpr hne
  rcases hstate with hstate | hstate <;>
    simp [axis_ram_transfer, axis_ram_tvalid, hstate, hempty, idle]

/-- A cycle without a beat brings the buffer nearer to having sent everything, once the size of the
last packet has arrived. -/
theorem Stores.idle_nearer {f : Frames Beat} {n : Nat} {s : Regs size_depth}
    (h : Stores C_RAM_DEPTH f n s) (hsized : Sized f n s)
    (hnext : Stores C_RAM_DEPTH (stage C_RAM_DEPTH f ⟨s, idle⟩) (n + transfers s idle)
      (step C_RAM_DEPTH s idle)) :
    distance C_RAM_DEPTH (step C_RAM_DEPTH s idle) ≤ distance C_RAM_DEPTH s ∧
      (s.size_cnt.size_valid = false → distance C_RAM_DEPTH s ≠ 0 →
        distance C_RAM_DEPTH (step C_RAM_DEPTH s idle) < distance C_RAM_DEPTH s) := by
  obtain ⟨hcomplete, -⟩ := (idle_clean s).stage_eq f hsized.dropped
  have hsame : (stage C_RAM_DEPTH f ⟨s, idle⟩).complete = f.complete :=
    hcomplete.trans (List.append_nil _)
  have hafter := hnext.full_pkt_beats_eq
  rw [hsame, (h.read_edge idle).read] at hafter
  have hbefore := h.full_pkt_beats_eq
  have hleaves := hsized.idle_transfer h
  have hstate' : (step C_RAM_DEPTH s idle).rd_state =
    (readControl C_RAM_DEPTH s idle).next_rd_state := rfl
  unfold distance
  rw [hstate', hafter, reads]
  by_cases hmore : full_pkt_beats C_RAM_DEPTH s > 0 <;>
    cases hstate : s.rd_state <;> cases htransfer : axis_ram_transfer s idle <;>
    simp_all [readControl] <;> omega

/-- After the distance, everything is sent. -/
theorem sent_after_distance (hdepth : 0 < C_RAM_DEPTH) (hsizes : C_RAM_DEPTH + 2 ≤ size_depth)
    (k : Nat) {inputs : List Input}
    (horderly : Orderly C_RAM_DEPTH ((machine C_RAM_DEPTH size_depth).trace inputs))
    (hquiet : ((machine C_RAM_DEPTH size_depth).run inputs).size_cnt.size_valid = false)
    (hk : distance C_RAM_DEPTH ((machine C_RAM_DEPTH size_depth).run inputs) ≤ k) :
    sent_sized ((machine C_RAM_DEPTH size_depth).trace (inputs ++ List.replicate k idle)) =
      with_sizes (kept C_RAM_DEPTH ((machine C_RAM_DEPTH size_depth).trace inputs)) := by
  induction k generalizing inputs with
  | zero =>
    obtain ⟨hsent, hstores, hsized⟩ := run_sized hdepth hsizes inputs horderly
    obtain ⟨hcomplete, -⟩ := staged_eq_kept hdepth hsizes inputs horderly
    have hfull := hstores.full_pkt_beats_eq
    have hdone : (output_beats ((machine C_RAM_DEPTH size_depth).run inputs)).length = 0 ∧
        full_pkt_beats C_RAM_DEPTH ((machine C_RAM_DEPTH size_depth).run inputs) = 0 := by
      unfold distance at hk
      unfold output_beats
      cases hstate : ((machine C_RAM_DEPTH size_depth).run inputs).rd_state <;>
        simp only [hstate] at hk ⊢ <;> simp <;> omega
    rw [hdone.2, beats_read, hdone.1] at hfull
    rw [List.replicate_zero, List.append_nil, with_sizes, ← hcomplete]
    conv_lhs => rw [hsent]
    rw [List.take_of_length_le (by rw [tagged_length]; omega)]
  | succ k ih =>
    obtain ⟨-, hstores, hsized⟩ := run_sized hdepth hsizes inputs horderly
    have hfits := (idle_orderly horderly).1 _ (List.prefix_refl _)
    rw [Machine.trace_snoc, staged_snoc] at hfits
    obtain ⟨-, hnearer⟩ := hstores.idle_nearer hsized (hstores.next hfits)
    have hk' : distance C_RAM_DEPTH ((machine C_RAM_DEPTH size_depth).run (inputs ++ [idle])) ≤ k := by
      rw [Machine.run_snoc]
      change distance C_RAM_DEPTH (step C_RAM_DEPTH _ idle) ≤ k
      by_cases hzero : distance C_RAM_DEPTH ((machine C_RAM_DEPTH size_depth).run inputs) = 0
      · obtain ⟨hle, -⟩ := hstores.idle_nearer hsized (hstores.next hfits)
        omega
      · have := hnearer hquiet hzero
        omega
    have hquiet' : ((machine C_RAM_DEPTH size_depth).run (inputs ++ [idle])).size_cnt.size_valid =
        false := by
      rw [Machine.run_snoc]
      rfl
    have := ih (idle_orderly horderly) hquiet' hk'
    rwa [Machine.trace_snoc, idle_kept, List.append_assoc, List.singleton_append,
      ← List.replicate_succ] at this

/-- When no more beats come in and those that leave are taken, all packets that are not dropped are
sent, each with its size, in three cycles for each beat that is stored and one more. -/
theorem kept_all_sent (hdepth : 0 < C_RAM_DEPTH) (hsizes : C_RAM_DEPTH + 2 ≤ size_depth)
    (inputs : List Input)
    (horderly : Orderly C_RAM_DEPTH ((machine C_RAM_DEPTH size_depth).trace inputs)) :
    let m := machine C_RAM_DEPTH size_depth
    let k := 3 * (stored C_RAM_DEPTH (m.run inputs)).length + 1
    sent_sized (m.trace (inputs ++ List.replicate k idle)) =
      with_sizes (kept C_RAM_DEPTH (m.trace inputs)) := by
  intro m k
  obtain ⟨-, hstores, hsized⟩ := run_sized hdepth hsizes inputs horderly
  have hfits := (idle_orderly horderly).1 _ (List.prefix_refl _)
  rw [Machine.trace_snoc, staged_snoc] at hfits
  obtain ⟨hle, -⟩ := hstores.idle_nearer hsized (hstores.next hfits)
  have hbound := @distance_le C_RAM_DEPTH size_depth (m.run inputs)
  have hquiet : (m.run (inputs ++ [idle])).size_cnt.size_valid = false := by
    rw [Machine.run_snoc]
    rfl
  have hlast : distance C_RAM_DEPTH (m.run (inputs ++ [idle])) ≤
      3 * (stored C_RAM_DEPTH (m.run inputs)).length := by
    rw [Machine.run_snoc]
    exact Nat.le_trans hle hbound
  have := sent_after_distance hdepth hsizes _ (idle_orderly horderly) hquiet hlast
  rwa [Machine.trace_snoc, idle_kept, List.append_assoc, List.singleton_append,
    ← List.replicate_succ] at this

theorem kept_all_sent_two :
    let h := (machine 4 8).trace keep_then_drop
    sent_sized ((machine 4 8).trace (keep_then_drop ++
        List.replicate (3 * (stored 4 ((machine 4 8).run keep_then_drop)).length + 1) idle)) =
      with_sizes (kept 4 h) :=
  kept_all_sent (by decide) (by decide) keep_then_drop (by decide)

end Delivery

end reconic.axi_stream_packet_buffer
