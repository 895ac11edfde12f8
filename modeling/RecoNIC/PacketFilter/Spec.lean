import RecoNIC.Clocked.Frames
import RecoNIC.PacketFilter.Model

open clocked

namespace reconic.packet_filter

/-- The beats accepted at the input, each with the metadata that was on the
metadata pins in its cycle. -/
def inBeats (h : List (Cycle Regs Input)) : List (Metadata × Beat) :=
  h.filterMap fun c =>
    if c.input.s_axis_tvalid && s_axis_tready then some (c.input.metadata_in, c.input.s_axis) else none

/-- The input packets, delimited by `s_axis_tlast`. -/
def inPackets (h : List (Cycle Regs Input)) : Frames (Metadata × Beat) :=
  frames (fun x => x.2.tlast) (inBeats h)

/-- The class of a packet is bit 0 of the metadata sampled with its first beat. -/
def isRoce (packet : List (Metadata × Beat)) : Bool :=
  match packet with
  | [] => false
  | first :: _ => metadata_is_rdma first.1

@[simp] theorem isRoce_nil : isRoce [] = false := rfl

/-- A RoCE packet as it should leave the module: its beats, with its metadata
presented together with the first of them. -/
def labelled : List (Metadata × Beat) → List (Beat × Option Metadata)
  | [] => []
  | first :: rest => (first.2, some first.1) :: rest.map fun x => (x.2, none)

def roceStream (packets : List (List (Metadata × Beat))) : List (Beat × Option Metadata) :=
  (packets.filter isRoce).flatMap labelled

def nonRoceStream (packets : List (List (Metadata × Beat))) : List Beat :=
  (packets.filter fun p => !isRoce p).flatMap (List.map Prod.snd)

/-- The transfer on the RoCE port in a cycle, with the metadata output if that
is valid. -/
def roceTransfer (c : Cycle Regs Input) : Option (Beat × Option Metadata) :=
  if m_axis_roce_tvalid c.state c.input && c.input.m_axis_roce_tready then
    some (m_axis_roce c.state c.input,
      if metadata_out_valid c.state c.input then some (metadata_out c.state c.input) else none)
  else none

def roceTransfers (h : List (Cycle Regs Input)) : List (Beat × Option Metadata) :=
  h.filterMap roceTransfer

/-- The transfer on the non-RoCE port in a cycle. -/
def nonRoceTransfer (c : Cycle Regs Input) : Option Beat :=
  if m_axis_non_roce_tvalid c.state c.input && c.input.m_axis_non_roce_tready then
    some (m_axis_non_roce c.state c.input)
  else none

def nonRoceTransfers (h : List (Cycle Regs Input)) : List Beat :=
  h.filterMap nonRoceTransfer

/-- A beat is written to the RoCE packet FIFO while that FIFO is full. -/
def roceOverflow (c : Cycle Regs Input) : Bool :=
  (writeControl c.state c.input).rdma_pkt_wr_en && c.state.filter_rdma_pkt_fifo.full

/-- A beat is written to the non-RoCE packet FIFO while that FIFO is full. -/
def nonRoceOverflow (c : Cycle Regs Input) : Bool :=
  (writeControl c.state c.input).non_rdma_pkt_wr_en && c.state.filter_non_rdma_pkt_fifo.full

/-- Reading a beat stream beside a metadata stream: each beat that begins a
packet takes the next metadata word and waits when there is none. -/
def label : Bool → List Beat → List Metadata → List (Beat × Option Metadata)
  | _, [], _ => []
  | true, b :: beats, metas => (b, none) :: label (!b.tlast) beats metas
  | false, b :: beats, m :: metas => (b, some m) :: label (!b.tlast) beats metas
  | false, _ :: _, [] => []

/-- Beats and metadata words that pair up: one word for each beat that begins a
packet. `inside` tells whether the beats stop inside a packet. -/
structure Pairing (mid : Bool) (beats : List Beat) (metas : List Metadata) (inside : Bool) :
    Prop where
  count : metas.length = heads Beat.tlast mid beats
  ends : midAfter Beat.tlast mid beats = inside

theorem Pairing.snoc_head {mid : Bool} {beats : List Beat} {metas : List Metadata}
    (p : Pairing mid beats metas false) (b : Beat) (m : Metadata) :
    Pairing mid (beats ++ [b]) (metas ++ [m]) (!b.tlast) where
  count := by simp [heads_snoc, p.ends, p.count]
  ends := midAfter_snoc _ _ _ _

theorem Pairing.snoc_inside {mid : Bool} {beats : List Beat} {metas : List Metadata}
    (p : Pairing mid beats metas true) (b : Beat) :
    Pairing mid (beats ++ [b]) metas (!b.tlast) where
  count := by simp [heads_snoc, p.ends, p.count]
  ends := midAfter_snoc _ _ _ _

/-- More beats and more metadata never revise what has been paired. -/
theorem label_initial (mid : Bool) (beats more : List Beat) (metas moreMetas : List Metadata) :
    label mid beats metas <+: label mid (beats ++ more) (metas ++ moreMetas) := by
  induction beats generalizing mid metas with
  | nil => simp [label]
  | cons b beats ih =>
    cases mid with
    | true => simpa [label] using ih (!b.tlast) metas
    | false =>
      cases metas with
      | nil => simp [label]
      | cons m metas => simpa [label] using ih (!b.tlast) metas

/-- A beat that begins a packet is paired with the metadata word that arrives
with it, provided every earlier word has found its beat. -/
theorem label_snoc_head {mid : Bool} {beats : List Beat} {metas : List Metadata}
    (p : Pairing mid beats metas false) (b : Beat) (m : Metadata) :
    label mid (beats ++ [b]) (metas ++ [m]) = label mid beats metas ++ [(b, some m)] := by
  obtain ⟨hcount, hends⟩ := p
  induction beats generalizing mid metas with
  | nil =>
    have hmetas : metas = [] := List.eq_nil_of_length_eq_zero (by simpa [heads] using hcount)
    have hboundary : mid = false := hends
    simp [label, hmetas, hboundary]
  | cons a beats ih =>
    cases mid with
    | true => simpa [label] using @ih (!a.tlast) metas (by simpa [heads] using hcount) hends
    | false =>
      cases metas with
      | nil => simp [heads] at hcount
      | cons x metas =>
        simpa [label] using @ih (!a.tlast) metas (by simpa [heads] using hcount) hends

/-- A beat inside a packet is paired with no metadata. -/
theorem label_snoc_inside {mid : Bool} {beats : List Beat} {metas : List Metadata}
    (p : Pairing mid beats metas true) (b : Beat) :
    label mid (beats ++ [b]) metas = label mid beats metas ++ [(b, none)] := by
  obtain ⟨hcount, hends⟩ := p
  induction beats generalizing mid metas with
  | nil =>
    have hinside : mid = true := hends
    simp [label, hinside]
  | cons a beats ih =>
    cases mid with
    | true => simpa [label] using @ih (!a.tlast) metas (by simpa [heads] using hcount) hends
    | false =>
      cases metas with
      | nil => simp [heads] at hcount
      | cons x metas =>
        simpa [label] using @ih (!a.tlast) metas (by simpa [heads] using hcount) hends

/-- Pairing leaves no beat out when the counts agree. -/
theorem map_fst_label {mid inside : Bool} {beats : List Beat} {metas : List Metadata}
    (p : Pairing mid beats metas inside) : (label mid beats metas).map Prod.fst = beats := by
  have hcount := p.count
  clear p
  induction beats generalizing mid metas with
  | nil => simp [label]
  | cons b beats ih =>
    cases mid with
    | true => simpa [label] using @ih (!b.tlast) metas (by simpa [heads] using hcount)
    | false =>
      cases metas with
      | nil => simp [heads] at hcount
      | cons m metas => simpa [label] using @ih (!b.tlast) metas (by simpa [heads] using hcount)

/-- Pairing never invents or reorders beats. -/
theorem map_fst_label_initial (mid : Bool) (beats : List Beat) (metas : List Metadata) :
    (label mid beats metas).map Prod.fst <+: beats := by
  induction beats generalizing mid metas with
  | nil => simp [label]
  | cons b beats ih =>
    cases mid with
    | true => simpa [label] using ih (!b.tlast) metas
    | false =>
      cases metas with
      | nil => simp [label]
      | cons m metas => simpa [label] using ih (!b.tlast) metas

/-- A beat that begins a packet adds its packet to the stream of its class. -/
theorem roceStream_push_head {f : Frames (Metadata × Beat)} (x : Metadata × Beat)
    (h : f.current = []) :
    roceStream (f.push (fun y => y.2.tlast) x).packets =
      roceStream f.packets ++ (if metadata_is_rdma x.1 then [(x.2, some x.1)] else []) := by
  rw [Frames.packets_push, Frames.packets_of_boundary h, h]
  cases hclass : metadata_is_rdma x.1 <;> simp [roceStream, isRoce, labelled, hclass]

theorem nonRoceStream_push_head {f : Frames (Metadata × Beat)} (x : Metadata × Beat)
    (h : f.current = []) :
    nonRoceStream (f.push (fun y => y.2.tlast) x).packets =
      nonRoceStream f.packets ++ (if metadata_is_rdma x.1 then [] else [x.2]) := by
  rw [Frames.packets_push, Frames.packets_of_boundary h, h]
  cases hclass : metadata_is_rdma x.1 <;> simp [nonRoceStream, isRoce, hclass]

/-- Later beats do not change the class of a packet. -/
theorem isRoce_snoc {p : List (Metadata × Beat)} (x : Metadata × Beat) (h : p ≠ []) :
    isRoce (p ++ [x]) = isRoce p := by
  cases p with
  | nil => exact absurd rfl h
  | cons first rest => rfl

theorem labelled_snoc {p : List (Metadata × Beat)} (x : Metadata × Beat) (h : p ≠ []) :
    labelled (p ++ [x]) = labelled p ++ [(x.2, none)] := by
  cases p with
  | nil => exact absurd rfl h
  | cons first rest => simp [labelled]

/-- A beat inside a packet follows the packet's first beat to its class. -/
theorem roceStream_push_inside {f : Frames (Metadata × Beat)} (x : Metadata × Beat)
    (h : f.current ≠ []) :
    roceStream (f.push (fun y => y.2.tlast) x).packets =
      roceStream f.packets ++ (if isRoce f.current then [(x.2, none)] else []) := by
  rw [Frames.packets_push, Frames.packets_of_inside h]
  have hclass := isRoce_snoc x h
  cases hroce : isRoce f.current <;> simp [roceStream, hclass, hroce, labelled_snoc x h]

theorem nonRoceStream_push_inside {f : Frames (Metadata × Beat)} (x : Metadata × Beat)
    (h : f.current ≠ []) :
    nonRoceStream (f.push (fun y => y.2.tlast) x).packets =
      nonRoceStream f.packets ++ (if isRoce f.current then [] else [x.2]) := by
  rw [Frames.packets_push, Frames.packets_of_inside h]
  have hclass := isRoce_snoc x h
  cases hroce : isRoce f.current <;> simp [nonRoceStream, hclass, hroce]

end reconic.packet_filter
