import RecoNIC.PacketParser.Pipeline

open bits

namespace reconic.packet_parser

/-- The place in the order of emission from which on no header is valid yet in a
state: `eth` has place 0 and `ieth` place 10. -/
def ParserState.place : ParserState → Nat
  | .start => 0
  | .parse_vlan => 2
  | .parse_ipv4 => 2
  | .parse_ipv4_options => 3
  | .dispatch_on_protocol => 4
  | .parse_ipv6 => 4
  | .parse_udp => 5
  | .parse_reth => 7
  | .parse_aeth => 8
  | .parse_immdt => 9
  | .parse_ieth => 10
  | .accept => 11
  | .reject _ => 11

/-- No header from a place on is valid. -/
def InvalidFrom (place : Nat) (hdr : Headers) : Prop :=
  (place ≤ 0 → hdr.eth = none) ∧ (place ≤ 1 → hdr.vlan.tags = []) ∧
    (place ≤ 2 → hdr.ipv4 = none) ∧ (place ≤ 3 → hdr.ipv4_opt = none) ∧
    (place ≤ 4 → hdr.ipv6 = none) ∧ (place ≤ 5 → hdr.udp = none) ∧
    (place ≤ 6 → hdr.bth = none) ∧ (place ≤ 7 → hdr.reth = none) ∧
    (place ≤ 8 → hdr.aeth = none) ∧ (place ≤ 9 → hdr.immdt = none) ∧
    (place ≤ 10 → hdr.ieth = none)

/-- Headers that are invalid from one place on are so from every later place on. -/
theorem InvalidFrom.mono {place later : Nat} {hdr : Headers} (h : InvalidFrom place hdr)
    (hle : place ≤ later) : InvalidFrom later hdr := by
  unfold InvalidFrom at h ⊢
  obtain ⟨heth, hvlan, hipv4, hopt, hipv6, hudp, hbth, hreth, haeth, himmdt, hieth⟩ := h
  exact ⟨fun hk => heth (by omega), fun hk => hvlan (by omega), fun hk => hipv4 (by omega),
    fun hk => hopt (by omega), fun hk => hipv6 (by omega), fun hk => hudp (by omega),
    fun hk => hbth (by omega), fun hk => hreth (by omega), fun hk => haeth (by omega),
    fun hk => himmdt (by omega), fun hk => hieth (by omega)⟩

/-- A header that is emitted last when it becomes valid after the ones before its place. -/
def EmittedAt {α : Type} (codec : Codec α) (set : Headers → α → Headers) (place : Nat) : Prop :=
  ∀ hdr h, InvalidFrom place hdr → deparser_inst (set hdr h) = deparser_inst hdr ++ codec.enc h ∧
    InvalidFrom (place + 1) (set hdr h)

/-- What is emitted for each header, in order. -/
def pieces (hdr : Headers) : List (List Bool) :=
  [emit eth_h hdr.eth, hdr.vlan.tags.flatMap vlan_h.enc, emit ipv4_h hdr.ipv4,
    (hdr.ipv4_opt.map Ipv4Opt.options).getD [], emit ipv6_h hdr.ipv6, emit udp_h hdr.udp,
    emit bth_h hdr.bth, emit reth_h hdr.reth, emit aeth_h hdr.aeth, emit immdt_h hdr.immdt,
    emit ieth_h hdr.ieth]

/-- The deparser emits the pieces of the headers in order. -/
theorem deparser_inst_eq (hdr : Headers) : deparser_inst hdr = (pieces hdr).flatten := by
  simp [deparser_inst, pieces]

/-- Invalid headers are emitted as nothing. -/
theorem InvalidFrom.pieces_nil {place : Nat} {hdr : Headers} (h : InvalidFrom place hdr) :
    ∀ piece ∈ (pieces hdr).drop place, piece = [] := by
  obtain ⟨heth, hvlan, hipv4, hopt, hipv6, hudp, hbth, hreth, haeth, himmdt, hieth⟩ := h
  intro piece hpiece
  obtain ⟨k, hk⟩ := List.mem_iff_getElem?.mp hpiece
  rw [List.getElem?_drop] at hk
  obtain ⟨later, hlater⟩ : ∃ later, later = place + k := ⟨_, rfl⟩
  have hle : place ≤ later := by omega
  rw [← hlater] at hk
  match later with
  | 0 => simpa [pieces, heth hle] using hk.symm
  | 1 => simpa [pieces, hvlan hle] using hk.symm
  | 2 => simpa [pieces, hipv4 hle] using hk.symm
  | 3 => simpa [pieces, hopt hle] using hk.symm
  | 4 => simpa [pieces, hipv6 hle] using hk.symm
  | 5 => simpa [pieces, hudp hle] using hk.symm
  | 6 => simpa [pieces, hbth hle] using hk.symm
  | 7 => simpa [pieces, hreth hle] using hk.symm
  | 8 => simpa [pieces, haeth hle] using hk.symm
  | 9 => simpa [pieces, himmdt hle] using hk.symm
  | 10 => simpa [pieces, hieth hle] using hk.symm
  | _ + 11 => simp [pieces] at hk

/-- A piece with nothing at or behind its place comes last. -/
theorem flatten_set_last {pieces : List (List Bool)} {place : Nat} (bits : List Bool)
    (hplace : place < pieces.length) (hnil : ∀ piece ∈ pieces.drop place, piece = []) :
    (pieces.set place bits).flatten = pieces.flatten ++ bits := by
  have hbehind : (pieces.drop place).flatten = [] := List.flatten_eq_nil_iff.mpr hnil
  have hafter : (pieces.drop (place + 1)).flatten = [] := by
    rw [List.flatten_eq_nil_iff]
    intro piece hpiece
    rw [← List.drop_drop] at hpiece
    exact hnil piece (List.mem_of_mem_drop hpiece)
  have hfront : pieces.flatten = (pieces.take place).flatten := by
    rw [← List.take_append_drop place pieces, List.flatten_append, hbehind]
    simp
  rw [List.set_eq_take_append_cons_drop, if_pos hplace, List.flatten_append, List.flatten_cons,
    hafter, List.append_nil, hfront]

/-- The rule for a header that is emitted as the piece at its place. -/
theorem emitted_at {α : Type} {codec : Codec α} {set : Headers → α → Headers} {place : Nat}
    (hplace : place < 11)
    (hpieces : ∀ hdr h, pieces (set hdr h) = (pieces hdr).set place (codec.enc h))
    (hothers : ∀ hdr h, InvalidFrom (place + 1) hdr → InvalidFrom (place + 1) (set hdr h)) :
    EmittedAt codec set place := by
  intro hdr h hinvalid
  refine ⟨?_, hothers hdr h (hinvalid.mono (Nat.le_succ place))⟩
  rw [deparser_inst_eq, deparser_inst_eq, hpieces]
  exact flatten_set_last (codec.enc h) hplace hinvalid.pieces_nil

theorem eth_emitted : EmittedAt eth_h (fun hdr h => { hdr with eth := some h }) 0 :=
  emitted_at (by decide) (fun _ _ => rfl) fun hdr h hinvalid => by
    simpa [InvalidFrom] using hinvalid

theorem ipv4_emitted : EmittedAt ipv4_h (fun hdr h => { hdr with ipv4 := some h }) 2 :=
  emitted_at (by decide) (fun _ _ => rfl) fun hdr h hinvalid => by
    simpa [InvalidFrom] using hinvalid

theorem ipv6_emitted : EmittedAt ipv6_h (fun hdr h => { hdr with ipv6 := some h }) 4 :=
  emitted_at (by decide) (fun _ _ => rfl) fun hdr h hinvalid => by
    simpa [InvalidFrom] using hinvalid

theorem udp_emitted : EmittedAt udp_h (fun hdr h => { hdr with udp := some h }) 5 :=
  emitted_at (by decide) (fun _ _ => rfl) fun hdr h hinvalid => by
    simpa [InvalidFrom] using hinvalid

theorem bth_emitted : EmittedAt bth_h (fun hdr h => { hdr with bth := some h }) 6 :=
  emitted_at (by decide) (fun _ _ => rfl) fun hdr h hinvalid => by
    simpa [InvalidFrom] using hinvalid

theorem reth_emitted : EmittedAt reth_h (fun hdr h => { hdr with reth := some h }) 7 :=
  emitted_at (by decide) (fun _ _ => rfl) fun hdr h hinvalid => by
    simpa [InvalidFrom] using hinvalid

theorem aeth_emitted : EmittedAt aeth_h (fun hdr h => { hdr with aeth := some h }) 8 :=
  emitted_at (by decide) (fun _ _ => rfl) fun hdr h hinvalid => by
    simpa [InvalidFrom] using hinvalid

theorem immdt_emitted : EmittedAt immdt_h (fun hdr h => { hdr with immdt := some h }) 9 :=
  emitted_at (by decide) (fun _ _ => rfl) fun hdr h hinvalid => by
    simpa [InvalidFrom] using hinvalid

theorem ieth_emitted : EmittedAt ieth_h (fun hdr h => { hdr with ieth := some h }) 10 :=
  emitted_at (by decide) (fun _ _ => rfl) fun _ _ _ => by simp [InvalidFrom]

/-- A tag that is pushed comes behind the tags so far, with nothing emitted behind it yet. -/
theorem vlan_emitted {hdr : Headers} (hinvalid : InvalidFrom 2 hdr) (tag : VlanH)
    (hroom : hdr.vlan.tags.length < 2) :
    deparser_inst { hdr with vlan := hdr.vlan.push tag hroom } =
        deparser_inst hdr ++ vlan_h.enc tag ∧
      InvalidFrom 2 { hdr with vlan := hdr.vlan.push tag hroom } := by
  simp_all [InvalidFrom, deparser_inst_eq, pieces, VlanStack.push]

/-- So do the options, behind the IPv4 header. -/
theorem options_emitted {hdr : Headers} (hinvalid : InvalidFrom 3 hdr) (opt : Ipv4Opt) :
    deparser_inst { hdr with ipv4_opt := some opt } = deparser_inst hdr ++ opt.options ∧
      InvalidFrom 4 { hdr with ipv4_opt := some opt } := by
  simp_all [InvalidFrom, deparser_inst_eq, pieces]

/-- The headers, emitted, and the bits left make up the packet, the headers are whole
bytes, and those from a place on are still to come. -/
structure Reassembles (packet : List Bool) (place : Nat) (hdr : Headers) (rest : List Bool) : Prop where
  packet_eq : deparser_inst hdr ++ rest = packet
  aligned : (deparser_inst hdr).length % 8 = 0
  invalid : InvalidFrom place hdr

/-- A parser that has come less far in the headers may go on from any later place. -/
theorem Reassembles.mono {packet rest : List Bool} {place later : Nat} {hdr : Headers}
    (h : Reassembles packet place hdr rest) (hle : place ≤ later) :
    Reassembles packet later hdr rest :=
  { h with invalid := h.invalid.mono hle }

/-- At the start all of the packet is unparsed. -/
theorem Reassembles.start (packet : List Bool) : Reassembles packet 0 Headers.invalid packet where
  packet_eq := rfl
  aligned := rfl
  invalid := by simp [InvalidFrom, Headers.invalid]

/-- Moving whole bytes from the packet to the end of the emitted headers. -/
theorem Reassembles.advance {packet rest : List Bool} {place later size : Nat} {hdr next : Headers}
    (h : Reassembles packet place hdr rest)
    (hemit : deparser_inst next = deparser_inst hdr ++ rest.take size) (hsize : size % 8 = 0)
    (hlength : size ≤ rest.length) (hinvalid : InvalidFrom later next) :
    Reassembles packet later next (rest.drop size) where
  packet_eq := by
    rw [hemit, List.append_assoc, List.take_append_drop, h.packet_eq]
  aligned := by
    have haligned := h.aligned
    rw [hemit, List.length_append, List.length_take, Nat.min_eq_left hlength]
    omega
  invalid := hinvalid

/-- The parser has changed nothing of the packet. -/
def Parsing.Intact (packet : List Bool) (p : Parsing) : Prop :=
  Reassembles packet p.state.place p.hdr p.rest

/-- A rejected parser keeps what it has extracted and what it has not. -/
theorem Reassembles.rejected {packet : List Bool} {place : Nat} {p : Parsing}
    (h : Reassembles packet place p.hdr p.rest) (hplace : place ≤ 11) (error : ParserError) :
    Parsing.Intact packet { p with state := .reject error } :=
  h.mono hplace

/-- An extract keeps the packet intact when what follows it does. -/
theorem Reassembles.extract {α : Type} {packet : List Bool} {place at_place : Nat} {p : Parsing}
    {codec : Codec α} {set : Headers → α → Headers} {next : α → Parsing → Parsing}
    (h : Reassembles packet place p.hdr p.rest) (hemitted : EmittedAt codec set at_place)
    (hle : place ≤ at_place) (hlast : at_place ≤ 10) (hsize : codec.size % 8 = 0)
    (hnext : ∀ value q, Reassembles packet (at_place + 1) q.hdr q.rest →
      (next value q).Intact packet) :
    (p.extract codec set next).Intact packet := by
  apply Parsing.extract_rule
  · exact h.rejected (by omega) .PacketTooShort
  · intro hlength
    obtain ⟨hemit, hinvalid⟩ := hemitted p.hdr (codec.dec p.rest) (h.invalid.mono hle)
    apply hnext
    rw [codec.enc_dec p.rest hlength] at hemit
    exact h.advance hemit hsize hlength hinvalid

/-- Extracting a tag keeps the packet whole. -/
theorem Reassembles.extract_vlan {packet : List Bool} {p : Parsing} {next : VlanH → Parsing → Parsing}
    (h : Reassembles packet 2 p.hdr p.rest)
    (hnext : ∀ tag q, Reassembles packet 2 q.hdr q.rest → (next tag q).Intact packet) :
    (p.extract_vlan next).Intact packet := by
  apply Parsing.extract_vlan_rule
  · exact h.rejected (by omega)
  · intro hlength hroom
    obtain ⟨hemit, hinvalid⟩ := vlan_emitted h.invalid (vlan_h.dec p.rest) hroom
    apply hnext
    rw [vlan_h.enc_dec p.rest hlength] at hemit
    exact h.advance hemit rfl hlength hinvalid

/-- Extracting options of whole bytes keeps the packet whole. -/
theorem Reassembles.extract_options {packet : List Bool} {p : Parsing} {size : BitVec 32}
    {next : Parsing → Parsing} (h : Reassembles packet 3 p.hdr p.rest) (hsize : size.toNat % 8 = 0)
    (hnext : ∀ q, Reassembles packet 4 q.hdr q.rest → (next q).Intact packet) :
    (p.extract_options size next).Intact packet := by
  apply Parsing.extract_options_rule
  · exact h.rejected (by omega)
  · intro hlength hbound
    obtain ⟨hemit, hinvalid⟩ := options_emitted h.invalid (Ipv4Opt.read p.rest size.toNat hbound)
    apply hnext
    exact h.advance hemit hsize hlength hinvalid

/-- The wrapping size of the options is always a whole number of bytes. -/
theorem options_size_bytes (ihl : BitVec 4) : (options_size ihl).toNat % 8 = 0 := by
  revert ihl
  decide

theorem select_ethertype_place (type : BitVec 16) : 2 ≤ (select_ethertype type).place := by
  unfold select_ethertype
  split_ifs <;> decide

theorem select_op_place (op : BitVec 5) : 7 ≤ (select_op op).place := by
  revert op
  decide

/-- No state of the parser changes the packet, whether its extracts succeed or fail. -/
theorem parser_step_intact {packet : List Bool} {p : Parsing} (h : p.Intact packet) :
    (parser_step p).Intact packet := by
  obtain ⟨state, hdr, rest⟩ := p
  cases state with
  | start =>
    refine h.extract eth_emitted (Nat.le_refl 0) (by omega) rfl fun eth q hq => ?_
    exact hq.mono (Nat.le_trans (by omega) (select_ethertype_place eth.type))
  | parse_vlan =>
    refine Reassembles.extract_vlan h fun tag q hq => ?_
    exact hq.mono (select_ethertype_place tag.tpid)
  | parse_ipv4 =>
    refine h.extract ipv4_emitted (Nat.le_refl 2) (by omega) rfl fun ipv4 q hq => ?_
    split
    · split
      · exact hq.mono (show 3 ≤ 4 by omega)
      · exact hq
    · exact hq.rejected (by omega) .InvalidIPpacket
  | parse_ipv4_options =>
    refine Reassembles.extract_options h (options_size_bytes _) fun q hq => ?_
    exact hq
  | dispatch_on_protocol =>
    have hdispatch : Reassembles packet 4 hdr rest := h
    unfold parser_step Parsing.Intact
    dsimp only
    split
    · exact hdispatch.mono (show 4 ≤ 5 by omega)
    · exact hdispatch.mono (show 4 ≤ 11 by omega)
  | parse_ipv6 =>
    refine h.extract ipv6_emitted (Nat.le_refl 4) (by omega) rfl fun ipv6 q hq => ?_
    split
    · split
      · exact hq
      · exact hq.mono (show 5 ≤ 11 by omega)
    · exact hq.rejected (by omega) .InvalidIPpacket
  | parse_udp =>
    refine h.extract udp_emitted (Nat.le_refl 5) (by omega) rfl fun udp q hq => ?_
    refine hq.extract bth_emitted (Nat.le_refl 6) (by omega) rfl fun bth q hq => ?_
    exact hq.mono (select_op_place bth.op)
  | parse_reth =>
    refine h.extract reth_emitted (Nat.le_refl 7) (by omega) rfl fun reth q hq => ?_
    split
    · exact hq.mono (show 8 ≤ 9 by omega)
    · exact hq.mono (show 8 ≤ 11 by omega)
  | parse_aeth =>
    refine h.extract aeth_emitted (Nat.le_refl 8) (by omega) rfl fun aeth q hq => ?_
    exact hq.mono (show 9 ≤ 11 by omega)
  | parse_ieth =>
    refine h.extract ieth_emitted (Nat.le_refl 10) (by omega) rfl fun ieth q hq => ?_
    exact hq
  | parse_immdt =>
    refine h.extract immdt_emitted (Nat.le_refl 9) (by omega) rfl fun immdt q hq => ?_
    exact hq.mono (show 10 ≤ 11 by omega)
  | accept => exact h
  | reject error => exact h

/-- However many states the parser goes through, the packet stays whole. -/
theorem parser_run_intact (packet : List Bool) (n : Nat) : (parser_run packet n).Intact packet :=
  parser_run_invariant (P := Parsing.Intact packet) (Reassembles.start packet)
    (fun _ => parser_step_intact) n

/-- The most states that a parser can still go through with some tags in its header
stack: the stack bounds the number of turns of `parse_vlan`. -/
def ParserState.states_left (tags : Nat) : ParserState → Nat
  | .start => 9
  | .parse_vlan => 8 - tags
  | .parse_ipv4 => 6
  | .parse_ipv4_options => 5
  | .dispatch_on_protocol => 4
  | .parse_ipv6 => 4
  | .parse_udp => 3
  | .parse_reth => 2
  | .parse_aeth => 1
  | .parse_ieth => 1
  | .parse_immdt => 1
  | .accept => 0
  | .reject _ => 0

def Parsing.states_left (p : Parsing) : Nat := p.state.states_left p.hdr.vlan.tags.length

/-- A parser that has accepted or rejected its packet. -/
def ParserState.Final : ParserState → Prop
  | .accept => True
  | .reject _ => True
  | _ => False

/-- Behind an Ethernet type at most six states are left, or eight less the tags so far. -/
theorem select_ethertype_states_left (type : BitVec 16) (tags : Nat) :
    (select_ethertype type).states_left tags ≤ max 6 (8 - tags) := by
  unfold select_ethertype ParserState.states_left
  split_ifs <;> dsimp only <;> omega

/-- Behind the operation there are at most two states to come. -/
theorem select_op_states_left (op : BitVec 5) (tags : Nat) :
    (select_op op).states_left tags ≤ 2 := by
  have hplace := select_op_place op
  generalize select_op op = state at hplace ⊢
  cases state <;> simp [ParserState.place, ParserState.states_left] at hplace ⊢

/-- Every state brings the parser closer to its end. -/
theorem parser_step_states_left (p : Parsing) : (parser_step p).states_left ≤ p.states_left - 1 := by
  obtain ⟨state, hdr, rest⟩ := p
  cases state with
  | start =>
    refine Parsing.extract_rule (P := fun q => q.states_left ≤ 8) (Nat.zero_le 8) fun _ => ?_
    have h := select_ethertype_states_left (eth_h.dec rest).type hdr.vlan.tags.length
    exact Nat.le_trans h (by omega)
  | parse_vlan =>
    refine Parsing.extract_vlan_rule (P := fun q => q.states_left ≤ 8 - hdr.vlan.tags.length - 1)
      (fun _ => Nat.zero_le _) fun _ hroom => ?_
    have h := select_ethertype_states_left (vlan_h.dec rest).tpid (hdr.vlan.tags.length + 1)
    unfold Parsing.states_left
    dsimp only at hroom ⊢
    rw [VlanStack.push_length]
    omega
  | parse_ipv4 =>
    refine Parsing.extract_rule (P := fun q => q.states_left ≤ 5) (Nat.zero_le 5) fun _ => ?_
    split
    · unfold Parsing.states_left
      dsimp only
      split <;> simp [ParserState.states_left]
    · exact Nat.zero_le 5
  | parse_ipv4_options =>
    refine Parsing.extract_options_rule (P := fun q => q.states_left ≤ 4) (fun _ => Nat.zero_le 4)
      fun _ _ => ?_
    exact Nat.le_refl 4
  | dispatch_on_protocol =>
    unfold parser_step Parsing.states_left
    dsimp only
    split <;> simp [ParserState.states_left]
  | parse_ipv6 =>
    refine Parsing.extract_rule (P := fun q => q.states_left ≤ 3) (Nat.zero_le 3) fun _ => ?_
    split
    · unfold Parsing.states_left
      dsimp only
      split <;> simp [ParserState.states_left]
    · exact Nat.zero_le 3
  | parse_udp =>
    refine Parsing.extract_rule (P := fun q => q.states_left ≤ 2) (Nat.zero_le 2) fun _ => ?_
    refine Parsing.extract_rule (P := fun q => q.states_left ≤ 2) (Nat.zero_le 2) fun _ => ?_
    exact select_op_states_left _ _
  | parse_reth =>
    refine Parsing.extract_rule (P := fun q => q.states_left ≤ 1) (Nat.zero_le 1) fun _ => ?_
    unfold Parsing.states_left
    dsimp only
    split <;> simp [ParserState.states_left]
  | parse_aeth =>
    exact Parsing.extract_rule (P := fun q => q.states_left ≤ 0) (Nat.le_refl 0) fun _ => Nat.le_refl 0
  | parse_ieth =>
    exact Parsing.extract_rule (P := fun q => q.states_left ≤ 0) (Nat.le_refl 0) fun _ => Nat.le_refl 0
  | parse_immdt =>
    exact Parsing.extract_rule (P := fun q => q.states_left ≤ 0) (Nat.le_refl 0) fun _ => Nat.le_refl 0
  | accept => exact Nat.zero_le _
  | reject error => exact Nat.zero_le _

/-- Nine states bring the parser to its end, whatever the packet. -/
theorem parser_inst_final (packet : List Bool) : (parser_inst packet).state.Final := by
  have hrun : ∀ n, (parser_run packet n).states_left ≤ 9 - n := by
    intro n
    induction n with
    | zero => exact Nat.le_refl 9
    | succ n ih =>
      have hstep := parser_step_states_left (parser_run packet n)
      rw [parser_run]
      omega
  have hleft := hrun 9
  have hbounded := (parser_run packet 9).hdr.vlan.bounded
  unfold parser_inst
  unfold Parsing.states_left at hleft
  generalize (parser_run packet 9).state = state at hleft ⊢
  cases state <;> simp only [ParserState.states_left] at hleft <;> first | trivial | omega

/-- A byte has eight bits. -/
theorem packet_bits_length (packet : List (BitVec 8)) :
    (packet_bits packet).length = 8 * packet.length := by
  induction packet with
  | nil => rfl
  | cons byte packet ih =>
    rw [packet_bits] at ih ⊢
    rw [List.flatMap_cons, List.length_append, ih, toBits_length, List.length_cons]
    omega

/-- Bits of a packet cut at a whole byte are the bytes before and after the cut. -/
theorem packet_bits_cut {packet : List (BitVec 8)} {front back : List Bool}
    (h : front ++ back = packet_bits packet) (haligned : front.length % 8 = 0) :
    ∃ headers payload : List (BitVec 8), front = packet_bits headers ∧ back = packet_bits payload ∧
      headers ++ payload = packet := by
  have hlength := congrArg List.length h
  rw [List.length_append, packet_bits_length] at hlength
  refine ⟨packet.take (front.length / 8), packet.drop (front.length / 8), ?_⟩
  have hcut : packet_bits packet = packet_bits (packet.take (front.length / 8)) ++
      packet_bits (packet.drop (front.length / 8)) := by
    rw [packet_bits, packet_bits, packet_bits, ← List.flatMap_append, List.take_append_drop]
  have hfront : front.length = (packet_bits (packet.take (front.length / 8))).length := by
    rw [packet_bits_length, List.length_take]
    omega
  obtain ⟨hheaders, hpayload⟩ := List.append_inj (h.trans hcut) hfront
  exact ⟨hheaders, hpayload, List.take_append_drop _ packet⟩

/-- For every packet the parser comes to an end, the emitted headers and the bits that
were not extracted are whole bytes, and one after the other they are the packet. -/
theorem pipeline_transparent (packet : List (BitVec 8)) (pc_meta : PcMetadata) :
    (parser_inst (packet_bits packet)).state.Final ∧
      (main (packet_bits packet) pc_meta).1 = packet_bits packet ∧
      ∃ headers payload : List (BitVec 8),
        deparser_inst (parser_inst (packet_bits packet)).hdr = packet_bits headers ∧
        (parser_inst (packet_bits packet)).rest = packet_bits payload ∧
        headers ++ payload = packet := by
  have hintact := parser_run_intact (packet_bits packet) 9
  exact ⟨parser_inst_final _, hintact.packet_eq, packet_bits_cut hintact.packet_eq hintact.aligned⟩

end reconic.packet_parser
