import RecoNIC.Clocked.Flow
import RecoNIC.PacketBuffer.Committed

open clocked

namespace reconic.axi_stream_packet_buffer

/-- A cycle at the input: the beat that the buffer takes, if there is one, and whether all there is
of the packet is given up, with this beat. -/
structure Offer where
  beat : Option Beat
  given_up : Bool
  deriving DecidableEq

def Offer.tlast (o : Offer) : Bool := o.beat.any Beat.tlast

/-- The last beat of a packet is taken while `drop` is up. -/
def drops_last (pins : Option Beat × Bool) : Bool := pins.1.any Beat.tlast && pins.2

/-- Packets are given up under `drop`, and once more in the cycle right behind a packet that has been
dropped with its last beat. -/
def offers_from : Bool → List (Option Beat × Bool) → List Offer
  | _, [] => []
  | behind, pins :: rest => ⟨pins.1, pins.2 || behind⟩ :: offers_from (drops_last pins) rest

/-- What is kept of a packet: the beats behind the last cycle in which it was given up. -/
def kept_beats (p : List Offer) : List Beat :=
  (p.rtakeWhile fun o => !o.given_up).filterMap Offer.beat

/-- A packet is committed unless it is given up with its last beat. -/
def commits (p : List Offer) : Bool := (p.getLast?.map fun o => !o.given_up).getD false

/-- What is committed of packets. -/
def committed (ps : List (List Offer)) : List (List Beat) := (ps.filter commits).map kept_beats

section GivenUp

variable (C_RAM_DEPTH : Nat) {size_depth : Nat}

/-- The beat that is taken in a cycle, and the `drop` pin. -/
def input_pins (c : Cycle (Regs size_depth) Input) : Option Beat × Bool :=
  (if c.input.s_axis_tvalid && s_axis_tready C_RAM_DEPTH c.state then some c.input.s_axis else none,
    c.input.drop)

/-- The cycles of a run, cut into packets at the last beats that are taken. -/
def offered (h : List (Cycle (Regs size_depth) Input)) : Frames Offer :=
  frames Offer.tlast (offers_from false (h.map (input_pins C_RAM_DEPTH)))

/-- What is kept of a packet that comes in never fills the RAM. -/
def Roomy (h : List (Cycle (Regs size_depth) Input)) : Prop :=
  ∀ earlier, earlier <+: h → (kept_beats (offered C_RAM_DEPTH earlier).current).length < C_RAM_DEPTH

instance (h : List (Cycle (Regs size_depth) Input)) : Decidable (Roomy C_RAM_DEPTH h) :=
  decidable_of_iff
    (∀ earlier ∈ h.inits, (kept_beats (offered C_RAM_DEPTH earlier).current).length < C_RAM_DEPTH)
    (by simp [Roomy, List.mem_inits])

theorem offers_from_snoc (behind : Bool) (l : List (Option Beat × Bool)) (pins : Option Beat × Bool) :
    offers_from behind (l ++ [pins]) = offers_from behind l ++
      [⟨pins.1, pins.2 || (l.getLast?.map drops_last).getD behind⟩] := by
  induction l generalizing behind with
  | nil => rfl
  | cons first rest ih =>
    rw [List.cons_append, offers_from, ih, List.getLast?_cons]
    cases rest.getLast? <;> rfl

theorem kept_beats_snoc (p : List Offer) (o : Offer) :
    kept_beats (p ++ [o]) = if o.given_up then [] else kept_beats p ++ o.beat.toList := by
  rw [kept_beats, List.rtakeWhile_concat]
  cases hgiven : o.given_up <;> cases hbeat : o.beat <;> simp [kept_beats, hbeat]

theorem commits_snoc (p : List Offer) (o : Offer) : commits (p ++ [o]) = !o.given_up := by
  simp [commits]

theorem committed_snoc (ps : List (List Offer)) (p : List Offer) :
    committed (ps ++ [p]) = committed ps ++ if commits p then [kept_beats p] else [] := by
  cases hp : commits p <;> simp [committed, hp]

theorem offered_snoc (h : List (Cycle (Regs size_depth) Input)) (c : Cycle (Regs size_depth) Input) :
    offered C_RAM_DEPTH (h ++ [c]) = (offered C_RAM_DEPTH h).push Offer.tlast
      ⟨(input_pins C_RAM_DEPTH c).1, (input_pins C_RAM_DEPTH c).2 ||
        ((h.map (input_pins C_RAM_DEPTH)).getLast?.map drops_last).getD false⟩ := by
  rw [offered, List.map_append, List.map_singleton, offers_from_snoc, frames_snoc]
  rfl

variable {C_RAM_DEPTH}

/-- One cycle, on what is kept of the packets so far. -/
theorem stage_push (s : Regs size_depth) (i : Input) (f : Frames Offer) :
    let o : Offer := ⟨(input_pins C_RAM_DEPTH ⟨s, i⟩).1, drop_busy s i⟩
    stage C_RAM_DEPTH ⟨committed f.complete, kept_beats f.current⟩ ⟨s, i⟩ =
      ⟨committed (f.push Offer.tlast o).complete, kept_beats (f.push Offer.tlast o).current⟩ := by
  intro o
  have hnil : kept_beats [] = [] := rfl
  cases hbusy : drop_busy s i <;>
    cases htaken : i.s_axis_tvalid && s_axis_tready C_RAM_DEPTH s <;>
    cases hlast : i.s_axis.tlast <;>
    simp [o, stage, input_pins, hbusy, htaken, hlast, Frames.abort, Frames.push, Offer.tlast,
      committed_snoc, commits_snoc, kept_beats_snoc, hnil]

/-- What the registers take for the packets so far is what is kept of those at the pins. -/
theorem staged_eq_committed (inputs : List Input) :
    let h := (machine C_RAM_DEPTH size_depth).trace inputs
    staged C_RAM_DEPTH h =
        ⟨committed (offered C_RAM_DEPTH h).complete, kept_beats (offered C_RAM_DEPTH h).current⟩ ∧
      ((machine C_RAM_DEPTH size_depth).run inputs).dropped =
        ((h.map (input_pins C_RAM_DEPTH)).getLast?.map drops_last).getD false := by
  refine (machine C_RAM_DEPTH size_depth).free_history_induction (fun h s =>
    staged C_RAM_DEPTH h =
        ⟨committed (offered C_RAM_DEPTH h).complete, kept_beats (offered C_RAM_DEPTH h).current⟩ ∧
      s.dropped = ((h.map (input_pins C_RAM_DEPTH)).getLast?.map drops_last).getD false)
    ⟨rfl, rfl⟩ (fun h s i ⟨hstaged, hdropped⟩ => ⟨?_, ?_⟩) inputs
  · rw [staged_snoc, hstaged, stage_push, offered_snoc, ← hdropped]
    rfl
  · rw [List.map_append, List.map_singleton, List.getLast?_concat]
    change (i.s_axis_tvalid && i.s_axis.tlast && s_axis_tready C_RAM_DEPTH s && i.drop) = _
    cases hvalid : i.s_axis_tvalid <;> cases hready : s_axis_tready C_RAM_DEPTH s <;>
      simp [drops_last, input_pins, hvalid, hready]

theorem Roomy.fits {inputs : List Input}
    (hroomy : Roomy C_RAM_DEPTH ((machine C_RAM_DEPTH size_depth).trace inputs)) :
    Fits C_RAM_DEPTH ((machine C_RAM_DEPTH size_depth).trace inputs) := by
  intro earlier hearlier
  have hbound := hroomy earlier hearlier
  obtain ⟨first, -, rfl⟩ := (machine C_RAM_DEPTH size_depth).initial_trace hearlier
  rw [(staged_eq_committed first).1]
  exact hbound

/-- A packet of three beats that is dropped with its second one, a packet that is dropped with its
only beat, and a packet of two beats right behind it. -/
def cut_short : List Input :=
  let word (n : Nat) (tlast drop : Bool) : Input :=
    ⟨true, ⟨BitVec.ofNat 512 n, BitVec.allOnes 64, tlast, 0, 0, 0⟩, drop, false⟩
  [word 1 false false, word 2 false true, word 3 true false, word 4 true true, word 5 false false,
    word 6 true false]

/-- Whatever comes in, is given up and is taken, the buffer sends what is committed of the packets at
its pins and nothing else, in order and each beat once: what has been sent and what is stored make up
just this. So the rest of a packet that is dropped before its last beat is sent as a packet of its
own, and a beat right behind a dropped packet is lost with no sign of it. -/
theorem committed_sent_or_stored (hdepth : 0 < C_RAM_DEPTH) (inputs : List Input)
    (hroomy : Roomy C_RAM_DEPTH ((machine C_RAM_DEPTH size_depth).trace inputs)) :
    let m := machine C_RAM_DEPTH size_depth
    sent (m.trace inputs) ++ stored C_RAM_DEPTH (m.run inputs) =
      (committed (offered C_RAM_DEPTH (m.trace inputs)).complete).flatten := by
  intro m
  obtain ⟨hsent, hstores⟩ := run_stores hdepth inputs hroomy.fits
  rw [hstores.stored_eq]
  conv_lhs => lhs; rw [hsent]
  rw [List.take_append_drop, (staged_eq_committed inputs).1]

theorem committed_sent_or_stored_cut_short :
    (committed (offered 4 ((machine 4 8).trace cut_short)).complete).map (List.map Beat.tdata) =
        [[3], [6]] ∧
      sent ((machine 4 8).trace cut_short) ++ stored 4 ((machine 4 8).run cut_short) =
        (committed (offered 4 ((machine 4 8).trace cut_short)).complete).flatten :=
  ⟨by decide +kernel, committed_sent_or_stored (by decide) cut_short (by decide +kernel)⟩

end GivenUp

end reconic.axi_stream_packet_buffer
