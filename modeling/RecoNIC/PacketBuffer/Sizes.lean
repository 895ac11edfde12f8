import RecoNIC.PacketBuffer.Committed
import RecoNIC.Clocked.Packets

open clocked

namespace reconic.axi_stream_packet_buffer

/-- The bytes of a beat are those before the first empty one. -/
def Beat.bytes (b : Beat) : Nat := (axi_stream_size_counter.first_empty b.tkeep).getD 64

/-- The bytes of a packet, with 64 in each beat before the last one. -/
def packet_bytes (p : List Beat) : Nat :=
  64 * (p.length - 1) + (p.getLast?.map Beat.bytes).getD 0

def packet_size (p : List Beat) : BitVec 16 := BitVec.ofNat 16 (packet_bytes p)

/-- The beats that have left the buffer, with the size that goes along. -/
def sent_sized {size_depth : Nat} (h : List (Cycle (Regs size_depth) Input)) :
    List (Beat × BitVec 16) :=
  h.flatMap fun c =>
    if axis_ram_transfer c.state c.input then [(c.state.ram_doutb, size_fifo_dout c.state)] else []

/-- A packet is dropped with its last beat, when that is taken, and no beat follows at once. -/
structure CleanDrop (C_RAM_DEPTH : Nat) {size_depth : Nat} (c : Cycle (Regs size_depth) Input) :
    Prop where
  last : c.input.drop = true →
    (c.input.s_axis_tvalid && c.input.s_axis.tlast && s_axis_tready C_RAM_DEPTH c.state) = true
  pause : c.state.dropped = true → c.input.s_axis_tvalid = false

instance (C_RAM_DEPTH : Nat) {size_depth : Nat} (c : Cycle (Regs size_depth) Input) :
    Decidable (CleanDrop C_RAM_DEPTH c) :=
  decidable_of_iff
    ((c.input.drop = true →
      (c.input.s_axis_tvalid && c.input.s_axis.tlast && s_axis_tready C_RAM_DEPTH c.state) = true) ∧
      (c.state.dropped = true → c.input.s_axis_tvalid = false))
    ⟨fun h => ⟨h.1, h.2⟩, fun h => ⟨h.last, h.pause⟩⟩

/-- A packet has been dropped or committed with the beat of a cycle. -/
def ends (C_RAM_DEPTH : Nat) {size_depth : Nat} (s : Regs size_depth) (i : Input) : Bool :=
  i.s_axis_tvalid && i.s_axis.tlast && s_axis_tready C_RAM_DEPTH s

section Sizes

variable {C_RAM_DEPTH size_depth : Nat} {f : Frames Beat} {n : Nat} {s : Regs size_depth}

/-- What a cycle makes of the packets when packets are dropped as they should be. -/
theorem CleanDrop.stage_eq {i : Input} (hclean : CleanDrop C_RAM_DEPTH ⟨s, i⟩) (f : Frames Beat)
    (hdropped : s.dropped = true → f.current = []) :
    (stage C_RAM_DEPTH f ⟨s, i⟩).complete =
        f.complete ++ (if ends C_RAM_DEPTH s i && !i.drop then [f.current ++ [i.s_axis]] else []) ∧
      (stage C_RAM_DEPTH f ⟨s, i⟩).current =
        if i.s_axis_tvalid && s_axis_tready C_RAM_DEPTH s then
          (if i.s_axis.tlast then [] else f.current ++ [i.s_axis])
        else f.current := by
  obtain ⟨hlast, hpause⟩ := hclean
  dsimp only at hlast hpause
  unfold stage ends drop_busy
  cases hd : s.dropped with
  | true =>
    have hnone := hpause hd
    simp [hnone, Frames.abort, hdropped hd]
  | false =>
    cases hdrop : i.drop with
    | true =>
      have hends := hlast hdrop
      simp only [Bool.and_eq_true] at hends
      simp [hends, Frames.abort]
    | false =>
      cases hv : i.s_axis_tvalid <;> cases hr : s_axis_tready C_RAM_DEPTH s <;>
        cases hl : i.s_axis.tlast <;> simp [Frames.push, hl]

/-- The size counter has counted the packet that is coming in, and the sizes of the packets that
are not sent completely are in the FIFO, or on the way there. -/
structure Sized (f : Frames Beat) (n : Nat) (s : Regs size_depth) : Prop where
  framed : f.Framed Beat.tlast
  acc : s.size_cnt.acc = BitVec.ofNat 16 (64 * f.current.length)
  dropped : s.dropped = true → f.current = []
  sizes : s.size_fifo.contents ++ (if size_fifo_wr_en s then [s.size_cnt.size] else []) =
    (f.complete.drop ((f.complete.flatten.take n).countP Beat.tlast)).map packet_size

/-- The loop finds an empty byte unless all of them are there. -/
theorem first_empty_eq_none_iff (tkeep : BitVec 64) :
    axi_stream_size_counter.first_empty tkeep = none ↔ tkeep = BitVec.allOnes 64 := by
  rw [axi_stream_size_counter.first_empty, List.find?_eq_none]
  constructor
  · intro hall
    refine BitVec.eq_of_getLsbD_eq fun k hk => ?_
    rw [BitVec.getLsbD_allOnes, decide_eq_true hk]
    simpa using hall k (List.mem_range.mpr hk)
  · rintro rfl k hk
    rw [BitVec.getLsbD_allOnes, decide_eq_true (List.mem_range.mp hk)]
    decide

/-- The counter with the last beat of a packet. -/
theorem counted_size {c : axi_stream_size_counter.Regs} {p : List Beat} {b : Beat}
    {tvalid tready : Bool} (hacc : c.acc = BitVec.ofNat 16 (64 * p.length))
    (hends : (tvalid && b.tlast && tready) = true) :
    (axi_stream_size_counter.step c ⟨tvalid, b.tkeep, b.tlast, 0, tready⟩).size =
      packet_size (p ++ [b]) := by
  have hsize : packet_size (p ++ [b]) =
      BitVec.ofNat 16 (64 * p.length) + BitVec.ofNat 16 b.bytes := by
    rw [packet_size, packet_bytes, List.getLast?_concat, Option.map_some, Option.getD_some,
      List.length_append, List.length_singleton, Nat.add_sub_cancel, BitVec.ofNat_add]
  rw [hsize, ← hacc]
  simp only [axi_stream_size_counter.step, hends, if_true, Beat.bytes,
    axi_stream_size_counter.C_SIZE]
  cases hempty : axi_stream_size_counter.first_empty b.tkeep with
  | none =>
    rw [if_pos ((first_empty_eq_none_iff _).mp hempty)]
    simp
  | some k =>
    have hall : b.tkeep ≠ BitVec.allOnes 64 := by
      rw [ne_eq, ← first_empty_eq_none_iff, hempty]
      exact Option.some_ne_none k
    rw [if_neg hall]
    rfl

/-- The beat that leaves the buffer, and its packet. -/
theorem Stores.sent_beat (h : Stores C_RAM_DEPTH f n s) (hframed : f.Framed Beat.tlast) {i : Input}
    (htransfer : axis_ram_transfer s i = true) :
    ∃ p, f.complete[(f.complete.flatten.take n).countP Beat.tlast]? = some p ∧
      (tagged f.complete)[n]? = some (p, s.ram_doutb) :=
  tagged_getElem? hframed.complete ((h.read_edge i).sends htransfer)

/-- The size on the output pins is that of the packet of which a beat leaves. -/
theorem Sized.size_fifo_dout (h : Sized f n s) {p : List Beat} (hvalid : axis_ram_tvalid s = true)
    (hp : f.complete[(f.complete.flatten.take n).countP Beat.tlast]? = some p) :
    size_fifo_dout s = packet_size p := by
  have hne : s.size_fifo.contents ≠ [] := by
    rw [axis_ram_tvalid, Bool.and_eq_true, Bool.not_eq_true', Fifo.empty_eq_false] at hvalid
    exact hvalid.2
  obtain ⟨size, rest, hcontents⟩ := List.exists_cons_of_ne_nil hne
  have hsizes := congrArg List.head? h.sizes
  rw [hcontents, List.cons_append, List.head?_cons, List.head?_map, List.head?_drop, hp] at hsizes
  rw [axi_stream_packet_buffer.size_fifo_dout, Fifo.dout, hcontents]
  exact Option.some.inj hsizes

/-- The size FIFO has room for the size that is written to it. -/
theorem Sized.room (h : Sized f n s) (hstores : Stores C_RAM_DEPTH f n s)
    (hdepth : C_RAM_DEPTH + 2 ≤ size_depth) :
    s.size_fifo.accepted (if size_fifo_wr_en s then [s.size_cnt.size] else []) =
      if size_fifo_wr_en s then [s.size_cnt.size] else [] := by
  split
  · next hwrite =>
    have hsizes := congrArg List.length h.sizes
    rw [if_pos hwrite, List.length_append, List.length_singleton, List.length_map,
      List.length_drop] at hsizes
    have hle := unfinished_le h.framed.complete n
    have hread := hstores.full_pkt_beats_eq
    have hfull : full_pkt_beats C_RAM_DEPTH s ≤ C_RAM_DEPTH := by
      have := hstores.data_cnt
      have := hstores.data_le
      omega
    have houtput : (output_beats s).length ≤ 2 := by
      unfold output_beats
      split <;> simp
    rw [beats_read] at hread
    exact Fifo.accepted_of_not_full _ (by omega)
  · exact Fifo.accepted_nil _

/-- The packets that are not sent completely after a cycle. -/
theorem Stores.unsent_step (h : Stores C_RAM_DEPTH f n s) (hframed : f.Framed Beat.tlast) {i : Input}
    {f' : Frames Beat} {ended : List (List Beat)} (hcomplete : f'.complete = f.complete ++ ended) :
    f'.complete.drop ((f'.complete.flatten.take (n + transfers s i)).countP Beat.tlast) =
      (f.complete.drop ((f.complete.flatten.take n).countP Beat.tlast)).drop
        (if size_fifo_rd_en s i then 1 else 0) ++ ended := by
  have hread := h.read_edge i
  have hle : n + transfers s i ≤ f.complete.flatten.length := by
    have := hread.read
    have := hread.read_le
    simp only [beats_read] at *
    omega
  have hsent : (f.complete.flatten.take (n + transfers s i)).countP Beat.tlast =
      (f.complete.flatten.take n).countP Beat.tlast + if size_fifo_rd_en s i then 1 else 0 := by
    have hrd : size_fifo_rd_en s i = (axis_ram_transfer s i && s.ram_doutb.tlast) := by
      rw [size_fifo_rd_en, axis_ram_transfer, Bool.and_assoc, Bool.and_assoc, Bool.and_comm _ i.axis_ram_tready]
    rw [hrd, transfers]
    cases htransfer : axis_ram_transfer s i with
    | true =>
      rw [if_pos rfl, countP_take_succ (hread.sends htransfer)]
      rfl
    | false => rfl
  have hbound : (f.complete.flatten.take (n + transfers s i)).countP Beat.tlast ≤ f.complete.length := by
    rw [← countP_flatten hframed.complete]
    exact (List.take_sublist _ _).countP_le
  rw [hcomplete, List.flatten_append, List.take_append_of_le_length hle, List.drop_drop,
    List.drop_append_of_le_length hbound, hsent]

/-- One cycle in which packets are dropped as they should be. -/
theorem Sized.next (h : Sized f n s) (hstores : Stores C_RAM_DEPTH f n s)
    (hdepth : C_RAM_DEPTH + 2 ≤ size_depth) {i : Input} (hclean : CleanDrop C_RAM_DEPTH ⟨s, i⟩) :
    Sized (stage C_RAM_DEPTH f ⟨s, i⟩) (n + transfers s i)
      (step C_RAM_DEPTH s i) := by
  obtain ⟨hcomplete, hcurrent⟩ := hclean.stage_eq f h.dropped
  refine ⟨?_, ?_, ?_, ?_⟩
  · unfold stage
    split
    · exact h.framed.abort
    · split
      · exact h.framed.push _
      · exact h.framed
  · rw [hcurrent]
    have hacc : (step C_RAM_DEPTH s i).size_cnt.acc =
        if i.s_axis_tvalid && s_axis_tready C_RAM_DEPTH s then
          (if i.s_axis.tlast then 0 else s.size_cnt.acc + axi_stream_size_counter.C_SIZE)
        else s.size_cnt.acc := rfl
    rw [hacc, h.acc]
    split
    · split
      · rfl
      · rw [List.length_append, List.length_singleton, Nat.mul_add, BitVec.ofNat_add]
        rfl
    · rfl
  · intro hdropped
    have hends : (i.s_axis_tvalid && i.s_axis.tlast && s_axis_tready C_RAM_DEPTH s && i.drop) = true :=
      hdropped
    simp only [Bool.and_eq_true] at hends
    rw [hcurrent, hends.1.1.1, hends.1.2, hends.1.1.2]
    rfl
  · have hnew : (if size_fifo_wr_en (step C_RAM_DEPTH s i) then
        [(step C_RAM_DEPTH s i).size_cnt.size] else []) =
        (if ends C_RAM_DEPTH s i && !i.drop then [f.current ++ [i.s_axis]] else []).map packet_size := by
      have hwrite : size_fifo_wr_en (step C_RAM_DEPTH s i) =
          (ends C_RAM_DEPTH s i && !(ends C_RAM_DEPTH s i && i.drop)) := rfl
      cases hends : ends C_RAM_DEPTH s i with
      | false => rw [hwrite, hends, Bool.false_and, Bool.false_and]; rfl
      | true =>
        have hsize : (step C_RAM_DEPTH s i).size_cnt.size = packet_size (f.current ++ [i.s_axis]) :=
          counted_size h.acc hends
        rw [hwrite, hends, hsize, Bool.true_and]
        cases i.drop <;> rfl
    have hfifo : (step C_RAM_DEPTH s i).size_fifo.contents =
        s.size_fifo.kept (size_fifo_rd_en s i) ++
          if size_fifo_wr_en s then [s.size_cnt.size] else [] := by
      rw [← h.room hstores hdepth]
      rfl
    rw [hnew, hstores.unsent_step h.framed hcomplete, List.map_append, List.map_drop, ← h.sizes, hfifo]
    congr 1
    cases hrd : size_fifo_rd_en s i with
    | false => rfl
    | true =>
      have hne : s.size_fifo.contents ≠ [] := by
        simp only [size_fifo_rd_en, axis_ram_tvalid, Bool.and_eq_true, Bool.not_eq_true',
          Fifo.empty_eq_false] at hrd
        exact hrd.1.1.2
      obtain ⟨size, rest, hcontents⟩ := List.exists_cons_of_ne_nil hne
      rw [Fifo.kept_true, hcontents]
      rfl

end Sizes

section Runs

variable {C_RAM_DEPTH size_depth : Nat}

/-- What the environment does: packets that come in never fill the RAM, and are dropped as they
should be. -/
def Orderly (C_RAM_DEPTH : Nat) (h : List (Cycle (Regs size_depth) Input)) : Prop :=
  Fits C_RAM_DEPTH h ∧ ∀ c ∈ h, CleanDrop C_RAM_DEPTH c

instance (h : List (Cycle (Regs size_depth) Input)) : Decidable (Orderly C_RAM_DEPTH h) :=
  inferInstanceAs (Decidable (_ ∧ _))

theorem Orderly.earlier {h : List (Cycle (Regs size_depth) Input)} {c : Cycle (Regs size_depth) Input}
    (horderly : Orderly C_RAM_DEPTH (h ++ [c])) : Orderly C_RAM_DEPTH h :=
  ⟨fun earlier hearlier => horderly.1 earlier (hearlier.trans (List.prefix_append _ _)),
    fun d hd => horderly.2 d (List.mem_append_left _ hd)⟩

/-- The registers after every run, and what has been sent until then with its sizes. -/
theorem run_sized (hdepth : 0 < C_RAM_DEPTH) (hsizes : C_RAM_DEPTH + 2 ≤ size_depth)
    (inputs : List Input)
    (horderly : Orderly C_RAM_DEPTH ((machine C_RAM_DEPTH size_depth).trace inputs)) :
    let m := machine C_RAM_DEPTH size_depth
    let f := staged C_RAM_DEPTH (m.trace inputs)
    let n := (sent_sized (m.trace inputs)).length
    sent_sized (m.trace inputs) =
        ((tagged f.complete).take n).map (fun x => (x.2, packet_size x.1)) ∧
      Stores C_RAM_DEPTH f n (m.run inputs) ∧ Sized f n (m.run inputs) := by
  apply (machine C_RAM_DEPTH size_depth).history_induction (Orderly C_RAM_DEPTH) fun h s =>
    sent_sized h = ((tagged (staged C_RAM_DEPTH h).complete).take (sent_sized h).length).map
        (fun x => (x.2, packet_size x.1)) ∧
      Stores C_RAM_DEPTH (staged C_RAM_DEPTH h) (sent_sized h).length s ∧
      Sized (staged C_RAM_DEPTH h) (sent_sized h).length s
  · exact fun h c => Orderly.earlier
  · exact ⟨rfl, reset_stores hdepth, ⟨fun _ hp => (by cases hp), fun _ ha => (by cases ha)⟩, rfl,
      fun _ => rfl, rfl⟩
  · intro h s i hall ⟨hsent, hstores, hsized⟩
    have hfits := hall.1 _ (List.prefix_refl _)
    have hclean := hall.2 ⟨s, i⟩ (by simp)
    rw [staged_snoc] at hfits ⊢
    obtain ⟨hcomplete, -⟩ := hclean.stage_eq (staged C_RAM_DEPTH h) hsized.dropped
    have hsnoc : sent_sized (h ++ [⟨s, i⟩]) =
        sent_sized h ++ if axis_ram_transfer s i then [(s.ram_doutb, size_fifo_dout s)] else [] := by
      simp [sent_sized]
    have hlength : (sent_sized (h ++ [⟨s, i⟩])).length = (sent_sized h).length + transfers s i := by
      rw [hsnoc, transfers, List.length_append]
      split <;> rfl
    rw [hlength]
    refine ⟨?_, hstores.next hfits, hsized.next hstores hsizes hclean⟩
    have hle := hstores.read_le
    rw [beats_read, ← tagged_length] at hle
    rw [hsnoc, hcomplete, tagged_append, transfers]
    split
    · next htransfer =>
      obtain ⟨p, hp, htag⟩ := hstores.sent_beat hsized.framed htransfer
      have hvalid : axis_ram_tvalid s = true := (Bool.and_eq_true _ _ ▸ htransfer).1
      have hlt := (List.getElem?_eq_some_iff.mp htag).1
      rw [List.take_append_of_le_length (by omega), List.take_add_one, List.map_append, ← hsent, htag,
        hsized.size_fifo_dout hvalid hp]
      rfl
    · rw [List.append_nil, Nat.add_zero, List.take_append_of_le_length (by omega), ← hsent]
  · exact horderly

end Runs

end reconic.axi_stream_packet_buffer
