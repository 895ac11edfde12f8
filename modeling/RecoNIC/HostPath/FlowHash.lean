import RecoNIC.HostPath.HeaderHash

open bits

namespace reconic.qdma_subsystem_hash

section Windows

variable {w : Nat} (value : BitVec w) (key : BitVec 320)

/-- The folded windows are the hash of the bits in between. -/
theorem xor_windows_eq (offset first count : Nat) :
    xor_windows value key offset first count =
      toeplitz 32 (key >>> (offset + first))
        ((List.range count).map fun j => value.getLsbD (first + j)) :=
  toeplitz_windows 32 key (fun j => value.getLsbD (first + j)) (offset + first) count

/-- Sums over ranges that adjoin make up the sum over both. -/
theorem xor_windows_add (offset first count count' : Nat) :
    xor_windows value key offset first count ^^^ xor_windows value key offset (first + count) count' =
      xor_windows value key offset first (count + count') := by
  rw [xor_windows_eq, xor_windows_eq, xor_windows_eq, List.range_add, List.map_append, toeplitz_append,
    List.length_map, List.length_range, ← BitVec.shiftRight_add, List.map_map, Nat.add_assoc]
  simp only [Function.comp_def, Nat.add_assoc]

/-- The sum over all bits of a word is its hash. -/
theorem xor_windows_all (offset : Nat) :
    xor_windows value key offset 0 w = toeplitz 32 (key >>> offset) (lsb_bits value) := by
  rw [xor_windows_eq, lsb_bits]
  simp only [Nat.zero_add, Nat.add_zero]

/-- A word has as many bits as it is wide. -/
theorem lsb_bits_length : (lsb_bits value).length = w := by
  rw [lsb_bits, List.length_map, List.length_range]

/-- The low part of a word comes first. -/
theorem lsb_bits_append {v : Nat} (high : BitVec v) :
    lsb_bits (high ++ value) = lsb_bits value ++ lsb_bits high := by
  rw [lsb_bits, lsb_bits, lsb_bits, show List.range (v + w) = List.range (w + v) by rw [Nat.add_comm],
    List.range_add, List.map_append, List.map_map]
  congr 1
  · exact List.map_congr_left fun k hk => by
      rw [BitVec.getLsbD_append, if_pos (List.mem_range.mp hk)]
  · exact List.map_congr_left fun k hk => by
      simp [BitVec.getLsbD_append]

end Windows

/-- The flow whose fields the first stage passes on. -/
def Stage1.flow (s : Stage1) : Flow where
  proto := if s.eth_type_is_ip4 then s.eth_payload.extractLsb' (9 * 8) 8 else 0
  src_addr := if s.eth_type_is_ip4 then s.eth_payload.extractLsb' (12 * 8) 32 else 0
  dst_addr := if s.eth_type_is_ip4 then s.eth_payload.extractLsb' (16 * 8) 32 else 0
  ports := if 5 ≤ (ip4_ihl s).toNat then s.eth_payload.extractLsb' ((ip4_ihl s).toNat * 32) 32 else 0

/-- The flow whose fields the second stage holds. -/
def Stage2.flow (s : Stage2) : Flow := ⟨s.ip4_proto, s.ip4_src_addr, s.ip4_dst_addr, s.ip4_payload⟩

/-- The second stage takes the flow of a payload that is valid. -/
theorem Stage2.step_flow (s : Stage2) {s1 : Stage1} (hvalid : s1.eth_payload_valid = true) :
    (s.step s1).flow = s1.flow := by
  rw [Stage2.step, if_pos hvalid]
  rfl

/-- It is valid one cycle after the first one. -/
theorem Stage2.step_valid (s : Stage2) (s1 : Stage1) :
    (s.step s1).ip4_payload_valid = s1.eth_payload_valid := by
  rw [Stage2.step]
  split
  · next hvalid => exact hvalid.symm
  · next hvalid => exact (Bool.eq_false_iff.mpr hvalid).symm

/-- The hash is valid one cycle later again. -/
theorem Stage3.step_valid (s : Stage3) (s1 : Stage1) (s2 : Stage2) (hash_key : BitVec 320) :
    (s.step s1 s2 hash_key).hash_result_valid = s2.ip4_payload_valid := by
  rw [Stage3.step]
  split
  · next hvalid => exact hvalid.symm
  · next hvalid => exact (Bool.eq_false_iff.mpr hvalid).symm

/-- The hash of a flow, of the fields of the IPv4 header and of the ports apart. -/
theorem Stage2.flow_hash (s : Stage2) (hash_key : BitVec 320) :
    s.flow.hash hash_key =
      toeplitz 32 (hash_key >>> 4) (lsb_bits (ip4_tuple s)) ^^^
        toeplitz 32 (hash_key >>> 76) (lsb_bits s.ip4_payload) := by
  have hinput : List.replicate 4 false ++ lsb_bits s.ip4_proto ++ lsb_bits s.ip4_src_addr ++
      lsb_bits s.ip4_dst_addr ++ lsb_bits s.ip4_payload =
        List.replicate 4 false ++ (lsb_bits (ip4_tuple s) ++ lsb_bits s.ip4_payload) := by
    rw [ip4_tuple, lsb_bits_append, lsb_bits_append]
    simp only [List.append_assoc]
  rw [Flow.hash, Stage2.flow, hinput, toeplitz_append, toeplitz_false, BitVec.zero_xor,
    List.length_replicate, toeplitz_append, lsb_bits_length, ← BitVec.shiftRight_add]

/-- The parts of the hash make up that of the flow, when no VLAN identifier is in the way. -/
theorem Stage3.step_result (s : Stage3) {s1 : Stage1} {s2 : Stage2} (hash_key : BitVec 320)
    (hvalid : s2.ip4_payload_valid = true) (hvid : s1.vid_shift_reg1 = 0) :
    hash_result (s.step s1 s2 hash_key) = s2.flow.hash hash_key := by
  have hvid_hash : xor_windows s1.vid_shift_reg1 hash_key 0 0 4 = 0#32 := by
    have hbits : ((List.range 4).map fun j => (0 : BitVec 12).getLsbD (0 + j)) =
        List.replicate 4 false := by
      simp [List.range_succ, List.replicate_succ]
    rw [xor_windows_eq, hvid, hbits, toeplitz_false]
  have hip4_hash : xor_windows (ip4_tuple s2) hash_key 4 0 18 ^^^
      xor_windows (ip4_tuple s2) hash_key 4 18 18 ^^^ xor_windows (ip4_tuple s2) hash_key 4 36 18 ^^^
      xor_windows (ip4_tuple s2) hash_key 4 54 18 =
        toeplitz 32 (hash_key >>> 4) (lsb_bits (ip4_tuple s2)) := by
    rw [← xor_windows_all, xor_windows_add _ _ 4 0 18 18, xor_windows_add _ _ 4 0 36 18,
      xor_windows_add _ _ 4 0 54 18]
  have hport_hash : xor_windows s2.ip4_payload hash_key 76 0 16 ^^^
      xor_windows s2.ip4_payload hash_key 76 16 16 =
        toeplitz 32 (hash_key >>> 76) (lsb_bits s2.ip4_payload) := by
    rw [← xor_windows_all, xor_windows_add _ _ 76 0 16 16]
  rw [Stage3.step, if_pos hvalid, hash_result, s2.flow_hash, ← hip4_hash, ← hport_hash]
  change xor_windows s1.vid_shift_reg1 hash_key 0 0 4 ^^^ xor_windows (ip4_tuple s2) hash_key 4 0 18 ^^^
    xor_windows (ip4_tuple s2) hash_key 4 18 18 ^^^ xor_windows (ip4_tuple s2) hash_key 4 36 18 ^^^
    xor_windows (ip4_tuple s2) hash_key 4 54 18 ^^^ xor_windows s2.ip4_payload hash_key 76 0 16 ^^^
    xor_windows s2.ip4_payload hash_key 76 16 16 = _
  rw [hvid_hash, BitVec.zero_xor, BitVec.xor_assoc _ _ (xor_windows s2.ip4_payload hash_key 76 16 16)]

/-- A window of a window. -/
theorem extract_extract {w : Nat} (x : BitVec w) {first start len count : Nat} (h : start + len ≤ count) :
    (x.extractLsb' first count).extractLsb' start len = x.extractLsb' (first + start) len := by
  ext k hk
  simp only [BitVec.getElem_extractLsb', BitVec.getLsbD_extractLsb', Nat.add_assoc]
  simp only [Bool.and_eq_right_iff_imp, decide_eq_true_eq]
  omega

/-- The header length is in the first nibble of the payload. -/
theorem ip4_ihl_eq (s : Stage1) : ip4_ihl s = s.eth_payload.extractLsb' 0 4 := by
  have hmask : ∀ v : BitVec 8, (v &&& 0x0F).setWidth 4 = v.extractLsb' 0 4 := by decide
  rw [ip4_ihl, hmask, extract_extract _ (by omega)]

section FirstStage

variable {s s' : Stage1} {p_axis_tdata : BitVec 512}

/-- With an IPv4 header of up to 11 words the flow is in the first 50 bytes of the payload. -/
theorem flow_of_low (htype : s'.eth_type_is_ip4 = s.eth_type_is_ip4)
    (hlow : s'.eth_payload.extractLsb' 0 400 = s.eth_payload.extractLsb' 0 400)
    (hihl : (ip4_ihl s).toNat ≤ 11) : ip4_ihl s' = ip4_ihl s ∧ s'.flow = s.flow := by
  have hfield : ∀ {start len : Nat}, start + len ≤ 400 →
      s'.eth_payload.extractLsb' start len = s.eth_payload.extractLsb' start len := by
    intro start len h
    rw [← BitVec.extractLsb'_extractLsb'_of_le h, hlow, BitVec.extractLsb'_extractLsb'_of_le h]
  have hihl' : ip4_ihl s' = ip4_ihl s := by rw [ip4_ihl_eq, ip4_ihl_eq, hfield (by omega)]
  refine ⟨hihl', ?_⟩
  rw [Stage1.flow, Stage1.flow, hihl', htype, hfield (by omega), hfield (by omega), hfield (by omega),
    @hfield ((ip4_ihl s).toNat * 32) _ (by omega)]

/-- The first beat of a packet shows its flow, which the second one does not change. -/
structure Holds (p_axis_tdata : BitVec 512) (s : Stage1) : Prop where
  untagged : s.eth_is_8021q = false
  short : (ip4_ihl s).toNat ≤ 11
  flow : s.flow = Flow.of_packet p_axis_tdata

/-- The first beat of a supported packet has all fields of its header. -/
theorem first_beat_holds (s : Stage1) (h : Supported p_axis_tdata) :
    Holds p_axis_tdata (first_beat s p_axis_tdata) := by
  obtain ⟨htag, hshort⟩ := h
  by_cases hip4 : eth_type p_axis_tdata = C_ETH_TYPE_IP4
  · have hfirst : first_beat s p_axis_tdata =
        { s with
          vid_shift_reg0 := 0
          eth_payload := s.eth_payload.extractLsb' 400 112 ++ p_axis_tdata.extractLsb' (14 * 8) 400
          eth_type_is_ip4 := true
          eth_is_8021q := false } := if_pos hip4
    have hfield : ∀ {start len : Nat}, start + len ≤ 400 →
        (first_beat s p_axis_tdata).eth_payload.extractLsb' start len =
          p_axis_tdata.extractLsb' (14 * 8 + start) len := by
      intro start len h
      rw [hfirst]
      exact (BitVec.extractLsb'_append_eq_of_add_le h).trans (extract_extract _ h)
    have htype : (first_beat s p_axis_tdata).eth_type_is_ip4 = true := by rw [hfirst]
    have hihl : (ip4_ihl (first_beat s p_axis_tdata)).toNat = header_words p_axis_tdata := by
      rw [ip4_ihl_eq, hfield (by omega)]
      rfl
    have hwords := hshort hip4
    refine ⟨by rw [hfirst], by rw [hihl]; exact hwords, ?_⟩
    rw [Stage1.flow, Flow.of_packet, if_pos hip4, hihl, htype, hfield (by omega), hfield (by omega),
      hfield (by omega), @hfield (header_words p_axis_tdata * 32) _ (by omega)]
    rfl
  · have hfirst : first_beat s p_axis_tdata =
        { s with vid_shift_reg0 := 0, eth_payload := 0, eth_type_is_ip4 := false, eth_is_8021q := false } := by
      rw [first_beat, if_neg hip4, if_neg htag]
    have hihl : ip4_ihl (first_beat s p_axis_tdata) = 0 := by
      rw [hfirst, ip4_ihl]
      exact BitVec.eq_of_toNat_eq (by simp)
    refine ⟨by rw [hfirst], by rw [hihl]; decide, ?_⟩
    rw [Stage1.flow, hihl, hfirst, Flow.of_packet, if_neg hip4]
    rfl

/-- A second beat keeps the first 50 bytes. -/
theorem second_beat_low (s : Stage1) (huntagged : s.eth_is_8021q = false) (data : BitVec 512) :
    (second_beat s data).extractLsb' 0 400 = s.eth_payload.extractLsb' 0 400 := by
  have hsecond : second_beat s data = data.extractLsb' 0 112 ++ s.eth_payload.extractLsb' 0 400 := by
    rw [second_beat, huntagged]
    rfl
  rw [hsecond]
  exact (BitVec.extractLsb'_append_eq_of_add_le (by omega)).trans
    (BitVec.extractLsb'_extractLsb'_of_le (by omega))

/-- No VLAN identifier is in the registers. -/
def Untagged (s : Stage1) : Prop := s.vid_shift_reg0 = 0 ∧ s.vid_shift_reg1 = 0

/-- The fields are held as long as the payload is. -/
theorem Holds.of_fields (h : Holds p_axis_tdata s) (htype : s'.eth_type_is_ip4 = s.eth_type_is_ip4)
    (htag : s'.eth_is_8021q = s.eth_is_8021q)
    (hlow : s'.eth_payload.extractLsb' 0 400 = s.eth_payload.extractLsb' 0 400) :
    Holds p_axis_tdata s' := by
  obtain ⟨hihl, hflow⟩ := flow_of_low htype hlow h.short
  exact ⟨htag.trans h.untagged, hihl ▸ h.short, hflow.trans h.flow⟩

/-- A supported packet has no VLAN number. -/
theorem first_beat_vid (s : Stage1) (h : Supported p_axis_tdata) :
    (first_beat s p_axis_tdata).vid_shift_reg0 = 0 := by
  rw [first_beat]
  split
  · rfl
  · rw [if_neg h.1]

/-- The first stage takes the first beat of a packet. -/
theorem Stage1.step_first {i : Input} (hidle : s.s1_state = .S_S1_IDLE)
    (hfire : (i.p_axis_tvalid && i.p_axis_tready) = true) (huntagged : Untagged s)
    (h : Supported i.p_axis_tdata) :
    Untagged (s.step i) ∧ Holds i.p_axis_tdata (s.step i) ∧
      (s.step i).eth_payload_valid = i.p_axis_tlast ∧
      (s.step i).s1_state = if i.p_axis_tlast then .S_S1_IDLE else .S_S1_MORE := by
  have hholds := first_beat_holds s h
  have hvid := first_beat_vid s h
  rw [Stage1.step, hidle]
  simp only [hfire, if_true]
  split
  · next hlast => exact ⟨⟨hvid, huntagged.1⟩, hholds.of_fields rfl rfl rfl, hlast.symm, rfl⟩
  · next hlast =>
    exact ⟨⟨hvid, huntagged.2⟩, hholds.of_fields rfl rfl rfl, (Bool.eq_false_iff.mpr hlast).symm, rfl⟩

/-- While no beat comes the first stage waits. -/
theorem Stage1.step_waiting {i : Input} (hidle : s.s1_state = .S_S1_IDLE)
    (hfire : (i.p_axis_tvalid && i.p_axis_tready) = false) :
    Untagged (s.step i) ∧ (s.step i).eth_payload_valid = false ∧ (s.step i).s1_state = .S_S1_IDLE := by
  have hstep : s.step i = { s with vid_shift_reg0 := 0, vid_shift_reg1 := 0, eth_payload_valid := false } := by
    rw [Stage1.step, hidle]
    simp [hfire]
  rw [hstep]
  exact ⟨⟨rfl, rfl⟩, rfl, hidle⟩

/-- The cycle after the first beat passes its flow on, whether or not a second beat comes. -/
theorem Stage1.step_more (hmore : s.s1_state = .S_S1_MORE) (huntagged : Untagged s)
    (h : Holds p_axis_tdata s) (i : Input) :
    Untagged (s.step i) ∧ Holds p_axis_tdata (s.step i) ∧ (s.step i).eth_payload_valid = true ∧
      (s.step i).s1_state = if i.p_axis_tlast then .S_S1_IDLE else .S_S1_PASS := by
  rw [Stage1.step, hmore]
  refine ⟨⟨rfl, huntagged.1⟩, h.of_fields rfl rfl ?_, rfl, rfl⟩
  dsimp only
  split
  · exact second_beat_low s h.untagged i.p_axis_tdata
  · rfl

/-- It lets the other beats of a packet pass. -/
theorem Stage1.step_pass (hpass : s.s1_state = .S_S1_PASS) (i : Input) :
    Untagged (s.step i) ∧ (s.step i).eth_payload_valid = false ∧
      (s.step i).s1_state =
        if i.p_axis_tvalid && i.p_axis_tlast && i.p_axis_tready then .S_S1_IDLE else .S_S1_PASS := by
  rw [Stage1.step, hpass]
  exact ⟨⟨rfl, rfl⟩, rfl, rfl⟩

end FirstStage

end reconic.qdma_subsystem_hash
