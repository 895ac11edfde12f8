import RecoNIC.PacketParser.Format
import RecoNIC.PacketParser.Transparent

open bits

namespace reconic.packet_parser

/-- The headers are those of a UDP header at an offset and of the complete base
transport header after it. -/
structure Transport (packet : List Bool) (hdr : Headers) (off : Nat) : Prop where
  header : UdpHeader packet off
  complete : off + 160 ≤ packet.length
  udp : hdr.udp = some (udp_h.dec (packet.drop off))
  bth : hdr.bth = some (bth_h.dec (packet.drop (off + 64)))

/-- No header that `forward_inst` takes for one of RDMA is valid. -/
def NoRdma (hdr : Headers) : Prop :=
  hdr.bth = none ∧ hdr.reth = none ∧ hdr.aeth = none ∧ hdr.ieth = none

/-- What a state of the parser says about the packet: how far it has been read as the
format has it, and which headers are valid. -/
def Parsing.Follows (packet : List Bool) (p : Parsing) : Prop :=
  match p.state with
  | .start => p.hdr = Headers.invalid ∧ p.rest = packet
  | .parse_vlan => NoRdma p.hdr ∧ EtherType packet p.hdr.vlan.tags.length ETH_VLAN ∧
      p.rest = packet.drop (112 + 32 * p.hdr.vlan.tags.length)
  | .parse_ipv4 => NoRdma p.hdr ∧ ∃ tags, EtherType packet tags ETH_IPV4 ∧
      p.rest = packet.drop (112 + 32 * tags)
  | .parse_ipv4_options => NoRdma p.hdr ∧ ∃ tags, EtherType packet tags ETH_IPV4 ∧
      112 + 32 * tags + 160 ≤ packet.length ∧
      bits_at packet (112 + 32 * tags) 4 = 4 ∧ 5 ≤ bits_at packet (112 + 32 * tags + 16) 16 ∧
      p.hdr.ipv4 = some (ipv4_h.dec (packet.drop (112 + 32 * tags))) ∧
      p.rest = packet.drop (112 + 32 * tags + 160)
  | .dispatch_on_protocol => NoRdma p.hdr ∧ ∃ off,
      IpPayload packet ((p.hdr.ipv4.map Ipv4H.proto).getD 0) off ∧ p.rest = packet.drop off
  | .parse_ipv6 => NoRdma p.hdr ∧ ∃ tags, EtherType packet tags ETH_IPV6 ∧
      p.rest = packet.drop (112 + 32 * tags)
  | .parse_udp => NoRdma p.hdr ∧ ∃ off, IpPayload packet IPPROTO_UDP off ∧
      p.rest = packet.drop off
  | .accept => NoRdma p.hdr ∨ ∃ off, Transport packet p.hdr off
  | .reject _ => NoRdma p.hdr ∨ ∃ off, Transport packet p.hdr off
  | _ => ∃ off, Transport packet p.hdr off

/-- Behind an Ethernet type the parser is where the format says. -/
theorem EtherType.follows {packet rest : List Bool} {type : BitVec 16} {hdr : Headers}
    (h : EtherType packet hdr.vlan.tags.length type) (hnone : NoRdma hdr)
    (hrest : rest = packet.drop (112 + 32 * hdr.vlan.tags.length)) :
    Parsing.Follows packet ⟨select_ethertype type, hdr, rest⟩ := by
  unfold select_ethertype Parsing.Follows
  split_ifs with hvlan hipv4 hipv6
  · rw [hvlan] at h
    exact ⟨hnone, h, hrest⟩
  · rw [hipv4] at h
    exact ⟨hnone, _, h, hrest⟩
  · rw [hipv6] at h
    exact ⟨hnone, _, h, hrest⟩
  · exact Or.inl hnone

/-- The parser is past the base transport header with these transport headers. -/
structure Parsing.PastBth (udp : Option UdpH) (bth : Option BthH) (p : Parsing) : Prop where
  place : 7 ≤ p.state.place
  udp_eq : p.hdr.udp = udp
  bth_eq : p.hdr.bth = bth

/-- After the base transport header no state changes it or the UDP header. -/
theorem parser_step_past_bth {udp : Option UdpH} {bth : Option BthH} {p : Parsing}
    (h : p.PastBth udp bth) : (parser_step p).PastBth udp bth := by
  obtain ⟨state, hdr, rest⟩ := p
  obtain ⟨hplace, hudp, hbth⟩ := h
  have hfinal : 7 ≤ 11 := by omega
  unfold parser_step
  cases state with
  | parse_reth =>
    refine Parsing.extract_rule (P := Parsing.PastBth udp bth) ?_ fun _ => ?_
    · exact ⟨hfinal, hudp, hbth⟩
    · refine ⟨?_, hudp, hbth⟩
      dsimp only
      split
      · exact show 7 ≤ 9 by omega
      · exact hfinal
  | parse_aeth =>
    refine Parsing.extract_rule (P := Parsing.PastBth udp bth) ?_ fun _ => ?_
    · exact ⟨hfinal, hudp, hbth⟩
    · exact ⟨hfinal, hudp, hbth⟩
  | parse_ieth =>
    refine Parsing.extract_rule (P := Parsing.PastBth udp bth) ?_ fun _ => ?_
    · exact ⟨hfinal, hudp, hbth⟩
    · exact ⟨hfinal, hudp, hbth⟩
  | parse_immdt =>
    refine Parsing.extract_rule (P := Parsing.PastBth udp bth) ?_ fun _ => ?_
    · exact ⟨hfinal, hudp, hbth⟩
    · exact ⟨hfinal, hudp, hbth⟩
  | accept => exact ⟨hplace, hudp, hbth⟩
  | reject error => exact ⟨hplace, hudp, hbth⟩
  | _ => simp [ParserState.place] at hplace

/-- Once the transport header has been extracted the later states do not matter. -/
theorem Transport.follows {packet : List Bool} {p : Parsing} {off : Nat}
    (h : Transport packet p.hdr off) (hplace : 7 ≤ p.state.place) : p.Follows packet := by
  obtain ⟨state, hdr, rest⟩ := p
  cases state <;> simp only [ParserState.place] at hplace <;>
    first | omega | exact ⟨off, h⟩ | exact Or.inr ⟨off, h⟩

/-- The states behind the transport header keep it. -/
theorem Transport.step {packet : List Bool} {p : Parsing} {off : Nat}
    (h : Transport packet p.hdr off) (hplace : 7 ≤ p.state.place) :
    (parser_step p).Follows packet := by
  have hpast := parser_step_past_bth ⟨hplace, h.udp, h.bth⟩
  have htransport : Transport packet (parser_step p).hdr off :=
    ⟨h.header, h.complete, hpast.udp_eq, hpast.bth_eq⟩
  exact htransport.follows hpast.place

/-- An `ihl` below 5 gives a size that the options cannot have. -/
theorem options_size_fits (ihl : BitVec 4) : (options_size ihl).toNat ≤ 320 ↔ 5 ≤ ihl.toNat := by
  revert ihl
  decide

/-- The options end where the `ihl` says that the header ends. -/
theorem options_size_end {ihl : BitVec 4} (h : 5 ≤ ihl.toNat) :
    160 + (options_size ihl).toNat = 32 * ihl.toNat := by
  revert ihl
  decide

/-- `parse_vlan` goes on to the next Ethernet type. -/
theorem parse_vlan_follows {packet rest : List Bool} {hdr : Headers}
    (h : Parsing.Follows packet ⟨.parse_vlan, hdr, rest⟩) :
    (parser_step ⟨.parse_vlan, hdr, rest⟩).Follows packet := by
  obtain ⟨hnone, htype, hrest⟩ := h
  dsimp only at hnone htype hrest
  refine Parsing.extract_vlan_rule (P := Parsing.Follows packet)
    (fun _ => Or.inl hnone) ?_
  intro hsize hroom
  dsimp only at hsize hroom ⊢
  rw [hrest, List.length_drop, vlan_h_size] at hsize
  have hcomplete := htype.complete
  refine EtherType.follows ?_ hnone ?_
  · dsimp only
    rw [VlanStack.push_length, hrest, vlan_h_tpid]
    exact htype.tagged hroom (by omega)
  · dsimp only
    rw [VlanStack.push_length, hrest, List.drop_drop, vlan_h_size, Nat.mul_succ, Nat.add_assoc]

/-- `parse_ipv4` accepts the header when its version and length are right. -/
theorem parse_ipv4_follows {packet rest : List Bool} {hdr : Headers}
    (h : Parsing.Follows packet ⟨.parse_ipv4, hdr, rest⟩) :
    (parser_step ⟨.parse_ipv4, hdr, rest⟩).Follows packet := by
  obtain ⟨hnone, tags, htype, hrest⟩ := h
  dsimp only at hnone hrest
  subst hrest
  refine Parsing.extract_rule (P := Parsing.Follows packet) (Or.inl hnone) ?_
  intro hsize
  obtain ⟨hversion, hihl, hlen, hproto⟩ := ipv4_h_fields packet (112 + 32 * tags)
  rw [List.length_drop, ipv4_h_size] at hsize
  have hcomplete := htype.complete
  dsimp only
  rw [hversion, hihl, hlen]
  split
  · next hchecks =>
    split
    · next hihl5 =>
      refine ⟨hnone, 112 + 32 * tags + 160, ?_, ?_⟩
      · have hihl_eq : (bits_at packet (112 + 32 * tags + 4) 4).toNat = 5 := by rw [hihl5]; rfl
        have hpayload := IpPayload.ipv4 htype rfl (by omega) hchecks.1 hchecks.2 (by omega) (by omega)
        rw [Option.map_some, Option.getD_some, hproto]
        rw [hihl_eq] at hpayload
        exact hpayload
      · rw [List.drop_drop, ipv4_h_size]
    · refine ⟨hnone, tags, htype, by omega, hchecks.1, hchecks.2, rfl, ?_⟩
      dsimp only
      rw [List.drop_drop, ipv4_h_size]
  · exact Or.inl hnone

/-- `parse_ipv4_options` skips as many words as the header has more than five. -/
theorem parse_ipv4_options_follows {packet rest : List Bool} {hdr : Headers}
    (h : Parsing.Follows packet ⟨.parse_ipv4_options, hdr, rest⟩) :
    (parser_step ⟨.parse_ipv4_options, hdr, rest⟩).Follows packet := by
  obtain ⟨hnone, tags, htype, hlength, hversion, hlen, hipv4, hrest⟩ := h
  dsimp only at hnone hipv4 hrest
  refine Parsing.extract_options_rule (P := Parsing.Follows packet)
    (fun _ => Or.inl hnone) ?_
  intro hsize hbound
  obtain ⟨-, hihl, -, hproto⟩ := ipv4_h_fields packet (112 + 32 * tags)
  have hihl_eq : (hdr.ipv4.map Ipv4H.ihl).getD 0 = bits_at packet (112 + 32 * tags + 4) 4 := by
    rw [hipv4, Option.map_some, Option.getD_some, hihl]
  have hfive := (options_size_fits _).mp hbound
  have hend := options_size_end hfive
  dsimp only at hsize hend hfive ⊢
  rw [hrest, List.length_drop] at hsize
  refine ⟨hnone, 112 + 32 * tags + 32 * (bits_at packet (112 + 32 * tags + 4) 4).toNat, ?_, ?_⟩
  · dsimp only
    rw [hipv4, Option.map_some, Option.getD_some, hproto]
    rw [hihl_eq] at hfive hend hsize
    exact .ipv4 htype rfl hlength hversion hlen hfive (by omega)
  · dsimp only
    rw [hrest, List.drop_drop, ← hihl_eq, Nat.add_assoc (112 + 32 * tags), hend]

/-- `parse_ipv6` goes on to UDP when the protocol says so. -/
theorem parse_ipv6_follows {packet rest : List Bool} {hdr : Headers}
    (h : Parsing.Follows packet ⟨.parse_ipv6, hdr, rest⟩) :
    (parser_step ⟨.parse_ipv6, hdr, rest⟩).Follows packet := by
  obtain ⟨hnone, tags, htype, hrest⟩ := h
  dsimp only at hnone hrest
  subst hrest
  refine Parsing.extract_rule (P := Parsing.Follows packet) (Or.inl hnone) ?_
  intro hsize
  obtain ⟨hversion, hprotocol⟩ := ipv6_h_fields packet (112 + 32 * tags)
  rw [List.length_drop, ipv6_h_size] at hsize
  have hcomplete := htype.complete
  dsimp only
  rw [hversion, hprotocol]
  split
  · next hsix =>
    have hpayload := IpPayload.ipv6 htype rfl (by omega) hsix
    split
    · next hudp =>
      rw [hudp] at hpayload
      exact ⟨hnone, _, hpayload, by rw [List.drop_drop, ipv6_h_size]⟩
    · exact Or.inl hnone
  · exact Or.inl hnone

/-- `parse_udp` goes on to the transport header. -/
theorem parse_udp_follows {packet rest : List Bool} {hdr : Headers}
    (h : Parsing.Follows packet ⟨.parse_udp, hdr, rest⟩) :
    (parser_step ⟨.parse_udp, hdr, rest⟩).Follows packet := by
  obtain ⟨hnone, off, hpayload, hrest⟩ := h
  dsimp only at hnone hrest
  subst hrest
  refine Parsing.extract_rule (P := Parsing.Follows packet) (Or.inl hnone) ?_
  intro hudpsize
  refine Parsing.extract_rule (P := Parsing.Follows packet) (Or.inl hnone) ?_
  intro hbthsize
  rw [List.length_drop, udp_h_size] at hudpsize
  dsimp only at hbthsize ⊢
  rw [List.drop_drop, udp_h_size, List.length_drop, bth_h_size] at hbthsize
  rw [List.drop_drop, udp_h_size]
  have htransport : Transport packet
      { hdr with
        udp := some (udp_h.dec (packet.drop off))
        bth := some (bth_h.dec (packet.drop (off + 64))) } off :=
    ⟨⟨hpayload, by omega⟩, by omega, rfl, rfl⟩
  exact Transport.follows htransport (select_op_place _)

/-- Every state of the parser reads the packet as the format has it. -/
theorem parser_step_follows {packet : List Bool} {p : Parsing} (h : p.Follows packet) :
    (parser_step p).Follows packet := by
  obtain ⟨state, hdr, rest⟩ := p
  cases state with
  | start =>
    obtain ⟨hhdr, hrest⟩ := h
    dsimp only at hhdr hrest
    subst hhdr rest
    have hnone : NoRdma Headers.invalid := ⟨rfl, rfl, rfl, rfl⟩
    refine Parsing.extract_rule (P := Parsing.Follows packet) (Or.inl hnone) fun hsize => ?_
    refine EtherType.follows ?_ hnone rfl
    rw [eth_h_type]
    exact .untagged hsize
  | parse_vlan => exact parse_vlan_follows h
  | parse_ipv4 => exact parse_ipv4_follows h
  | parse_ipv4_options => exact parse_ipv4_options_follows h
  | dispatch_on_protocol =>
    obtain ⟨hnone, off, hpayload, hrest⟩ := h
    dsimp only at hnone hpayload hrest
    unfold parser_step
    dsimp only
    split
    · next hudp =>
      rw [hudp] at hpayload
      exact ⟨hnone, off, hpayload, hrest⟩
    · exact Or.inl hnone
  | parse_ipv6 => exact parse_ipv6_follows h
  | parse_udp => exact parse_udp_follows h
  | parse_reth =>
    obtain ⟨off, htransport⟩ := h
    exact htransport.step (Nat.le_refl 7)
  | parse_aeth =>
    obtain ⟨off, htransport⟩ := h
    exact htransport.step (show 7 ≤ 8 by omega)
  | parse_ieth =>
    obtain ⟨off, htransport⟩ := h
    exact htransport.step (show 7 ≤ 10 by omega)
  | parse_immdt =>
    obtain ⟨off, htransport⟩ := h
    exact htransport.step (show 7 ≤ 9 by omega)
  | accept => exact h
  | reject error => exact h

/-- The parser follows the format in each of its states. -/
theorem parser_run_follows (packet : List Bool) (n : Nat) : (parser_run packet n).Follows packet :=
  parser_run_invariant (P := Parsing.Follows packet) ⟨rfl, rfl⟩ (fun _ => parser_step_follows) n

/-- The base transport header of a parsed packet is one that the format has. -/
theorem parser_inst_sound (packet : List Bool) :
    NoRdma (parser_inst packet).hdr ∨ ∃ off, Transport packet (parser_inst packet).hdr off := by
  have hfollows := parser_run_follows packet 9
  have hfinal := parser_inst_final packet
  unfold parser_inst at hfinal ⊢
  generalize parser_run packet 9 = p at hfollows hfinal ⊢
  obtain ⟨state, hdr, rest⟩ := p
  cases state <;> simp only [ParserState.Final] at hfinal <;> exact hfollows

/-- The parser gets to the type after the tags. -/
theorem EtherType.parsed {packet : List Bool} {tags : Nat} {type : BitVec 16}
    (h : EtherType packet tags type) :
    ∃ hdr, parser_run packet (tags + 1) =
        ⟨select_ethertype type, hdr, packet.drop (112 + 32 * tags)⟩ ∧
      hdr.vlan.tags.length = tags := by
  induction h with
  | untagged hlength =>
    have hsize : eth_h.size ≤ packet.length := hlength
    refine ⟨{ Headers.invalid with eth := some (eth_h.dec packet) }, ?_, rfl⟩
    rw [parser_run, parser_run, parser_step, Parsing.extract_of_le hsize, eth_h_type, eth_h_size]
  | @tagged tags htype hroom hlength ih =>
    obtain ⟨hdr, hrun, htags⟩ := ih
    have hsize : vlan_h.size ≤ (packet.drop (112 + 32 * tags)).length := by
      rw [List.length_drop, vlan_h_size]
      omega
    refine ⟨{ hdr with
      vlan := hdr.vlan.push (vlan_h.dec (packet.drop (112 + 32 * tags))) (by omega) }, ?_, ?_⟩
    · rw [parser_run, hrun, select_ethertype_vlan, parser_step, Parsing.extract_vlan]
      dsimp only
      rw [dif_pos (by omega), if_pos hsize, vlan_h_tpid, List.drop_drop, vlan_h_size, Nat.mul_succ,
        Nat.add_assoc 112 (32 * tags) 32]
    · dsimp only
      rw [VlanStack.push_length, htags]

/-- A header that passes the checks is followed by its options, if it has any. -/
theorem ipv4_parsed {packet rest : List Bool} {n : Nat} {hdr : Headers}
    (hrun : parser_run packet n = ⟨.parse_ipv4, hdr, rest⟩) (hlength : 160 ≤ rest.length)
    (hversion : (ipv4_h.dec rest).version = 4) (hlen : 5 ≤ (ipv4_h.dec rest).len) :
    ∃ hdr, parser_run packet (n + 1) =
        ⟨if (ipv4_h.dec rest).ihl = 5 then .dispatch_on_protocol else .parse_ipv4_options, hdr,
          rest.drop 160⟩ ∧
      hdr.ipv4 = some (ipv4_h.dec rest) := by
  have hsize : ipv4_h.size ≤ rest.length := hlength
  refine ⟨{ hdr with ipv4 := some (ipv4_h.dec rest) }, ?_, rfl⟩
  rw [parser_run, hrun, parser_step]
  dsimp only
  rw [Parsing.extract_of_le hsize]
  dsimp only
  rw [if_pos ⟨hversion, hlen⟩, ipv4_h_size]

/-- Options that the packet is long enough for are extracted. -/
theorem options_parsed {packet rest : List Bool} {n : Nat} {hdr : Headers} {ipv4 : Ipv4H}
    (hrun : parser_run packet n = ⟨.parse_ipv4_options, hdr, rest⟩) (hipv4 : hdr.ipv4 = some ipv4)
    (hihl : 5 ≤ ipv4.ihl.toNat) (hlength : 32 * ipv4.ihl.toNat ≤ 160 + rest.length) :
    ∃ hdr, parser_run packet (n + 1) =
        ⟨.dispatch_on_protocol, hdr, rest.drop (32 * ipv4.ihl.toNat - 160)⟩ ∧
      hdr.ipv4 = some ipv4 := by
  have hend := options_size_end hihl
  have hbound := (options_size_fits ipv4.ihl).mpr hihl
  have hsize : 32 * ipv4.ihl.toNat - 160 = (options_size ipv4.ihl).toNat := by omega
  rw [hsize]
  refine ⟨{ hdr with ipv4_opt := some (Ipv4Opt.read rest _ hbound) }, ?_, hipv4⟩
  rw [parser_run, hrun, parser_step, Parsing.extract_options]
  dsimp only
  rw [hipv4]
  dsimp only [Option.map_some, Option.getD_some]
  rw [if_pos (by omega), dif_pos hbound]

/-- The protocol number of UDP leads to UDP. -/
theorem dispatch_parsed {packet rest : List Bool} {n : Nat} {hdr : Headers} {ipv4 : Ipv4H}
    (hrun : parser_run packet n = ⟨.dispatch_on_protocol, hdr, rest⟩) (hipv4 : hdr.ipv4 = some ipv4)
    (hproto : ipv4.proto = IPPROTO_UDP) :
    parser_run packet (n + 1) = ⟨.parse_udp, hdr, rest⟩ := by
  rw [parser_run, hrun, parser_step]
  dsimp only
  rw [hipv4, Option.map_some, Option.getD_some, if_pos hproto]

/-- The parser gets to the UDP header that the format has. -/
theorem IpPayload.parsed {packet : List Bool} {proto : BitVec 8} {off : Nat}
    (h : IpPayload packet proto off) (hproto : proto = IPPROTO_UDP) :
    ∃ n hdr, n ≤ 6 ∧ parser_run packet n = ⟨.parse_udp, hdr, packet.drop off⟩ := by
  cases h with
  | @ipv4 tags off htype hoff hlength hversion hlen hihl hend =>
    subst hoff
    have hle := htype.tags_le
    obtain ⟨hdr, hrun, htags⟩ := htype.parsed
    rw [select_ethertype_ipv4] at hrun
    obtain ⟨hversion_eq, hihl_eq, hlen_eq, hproto_eq⟩ := ipv4_h_fields packet (112 + 32 * tags)
    obtain ⟨hdr, hrun, hipv4⟩ := ipv4_parsed hrun (by rw [List.length_drop]; omega)
      (hversion_eq.trans hversion) (hlen_eq ▸ hlen)
    rw [hihl_eq, List.drop_drop] at hrun
    by_cases hfive : bits_at packet (112 + 32 * tags + 4) 4 = 5
    · rw [if_pos hfive] at hrun
      rw [hfive]
      exact ⟨tags + 3, hdr, by omega, dispatch_parsed hrun hipv4 (hproto_eq.trans hproto)⟩
    · rw [if_neg hfive] at hrun
      rw [← hihl_eq] at hihl hend ⊢
      obtain ⟨hdr, hrun, hipv4⟩ := options_parsed hrun hipv4 hihl (by rw [List.length_drop]; omega)
      have hend_eq : ∀ n, 160 ≤ n → 112 + 32 * tags + 160 + (n - 160) = 112 + 32 * tags + n := by omega
      rw [List.drop_drop, hend_eq _ (by omega)] at hrun
      exact ⟨tags + 4, hdr, by omega, dispatch_parsed hrun hipv4 (hproto_eq.trans hproto)⟩
  | @ipv6 tags off htype hoff hlength hversion =>
    subst hoff
    have hle := htype.tags_le
    obtain ⟨hdr, hrun, htags⟩ := htype.parsed
    obtain ⟨hversion_eq, hprotocol_eq⟩ := ipv6_h_fields packet (112 + 32 * tags)
    have hsize : ipv6_h.size ≤ (packet.drop (112 + 32 * tags)).length := by
      rw [List.length_drop, ipv6_h_size]
      omega
    refine ⟨tags + 2, { hdr with ipv6 := some (ipv6_h.dec (packet.drop (112 + 32 * tags))) },
      by omega, ?_⟩
    rw [parser_run, hrun, select_ethertype_ipv6, parser_step]
    dsimp only
    rw [Parsing.extract_of_le hsize]
    dsimp only
    rw [hversion_eq, if_pos hversion, hprotocol_eq, if_pos hproto, List.drop_drop, ipv6_h_size]

/-- What lies behind the transport header does not change it. -/
theorem parser_run_past_bth {packet : List Bool} {udp : Option UdpH} {bth : Option BthH} {n m : Nat}
    (h : (parser_run packet n).PastBth udp bth) (hle : n ≤ m) :
    (parser_run packet m).PastBth udp bth := by
  induction hle with
  | refl => exact h
  | step hle ih => exact parser_step_past_bth ih

/-- The UDP header that the format has is the one of the parsed packet, and so is a
complete base transport header after it. -/
theorem UdpHeader.parsed {packet : List Bool} {off : Nat} (h : UdpHeader packet off) :
    (parser_inst packet).hdr.udp = some (udp_h.dec (packet.drop off)) ∧
      (off + 160 ≤ packet.length →
        (parser_inst packet).hdr.bth = some (bth_h.dec (packet.drop (off + 64)))) := by
  obtain ⟨n, hdr, hle, hrun⟩ := h.payload.parsed rfl
  have hcomplete := h.complete
  have hudp : udp_h.size ≤ (packet.drop off).length := by
    rw [List.length_drop, udp_h_size]
    omega
  have hstep : parser_run packet (n + 1) = parser_step ⟨.parse_udp, hdr, packet.drop off⟩ := by
    rw [parser_run, hrun]
  rw [parser_step] at hstep
  dsimp only at hstep
  rw [Parsing.extract_of_le hudp] at hstep
  unfold Parsing.extract at hstep
  dsimp only at hstep
  rw [List.drop_drop, udp_h_size, bth_h_size, List.length_drop] at hstep
  by_cases hbth : 96 ≤ packet.length - (off + 64)
  · rw [if_pos hbth] at hstep
    have hpast : (parser_run packet (n + 1)).PastBth (some (udp_h.dec (packet.drop off)))
        (some (bth_h.dec (packet.drop (off + 64)))) := by
      rw [hstep]
      exact ⟨select_op_place _, rfl, rfl⟩
    have hkept := parser_run_past_bth hpast (show n + 1 ≤ 9 by omega)
    exact ⟨hkept.udp_eq, fun _ => hkept.bth_eq⟩
  · rw [if_neg hbth] at hstep
    have hpast : (parser_run packet (n + 1)).PastBth (some (udp_h.dec (packet.drop off))) hdr.bth := by
      rw [hstep]
      exact ⟨show 7 ≤ 11 by omega, rfl, rfl⟩
    have hkept := parser_run_past_bth hpast (show n + 1 ≤ 9 by omega)
    exact ⟨hkept.udp_eq, by omega⟩

/-- Only one port can be read from a packet. -/
theorem UdpHeader.dport_unique {packet : List Bool} {off off' : Nat} (h : UdpHeader packet off)
    (h' : UdpHeader packet off') : udp_dport packet off = udp_dport packet off' := by
  have hudp := Option.some.inj (h.parsed.1.symm.trans h'.parsed.1)
  rw [udp_dport, udp_dport, ← udp_h_dport, ← udp_h_dport, hudp]

/-- UDP does not decide the class of a packet. -/
theorem forward_udp_is_rdma (hdr : Headers) (udp : UdpH) (m : PcMetadata) :
    (forward_udp hdr udp m).is_rdma = m.is_rdma := by
  unfold forward_udp
  split <;> rfl

/-- A packet without the transport header is no RDMA packet. -/
theorem forward_inst_no_rdma {hdr : Headers} (h : NoRdma hdr) (pc_meta : PcMetadata) :
    (forward_inst hdr pc_meta).is_rdma = 0 := by
  obtain ⟨hbth, hreth, haeth, hieth⟩ := h
  unfold forward_inst
  rw [hbth, hreth, haeth, hieth]
  cases hdr.udp with
  | none => rfl
  | some udp => exact forward_udp_is_rdma hdr udp (initial_metadata pc_meta)

/-- With it, a packet is an RDMA packet exactly when its connection type is 0. -/
theorem forward_bth_is_rdma (m : PcMetadata) (bth : BthH) :
    (forward_bth m (some bth)).is_rdma = 1 ↔ bth.connType = 0 := by
  simp [forward_bth]

/-- With a base transport header only its connection type decides. -/
theorem forward_inst_bth {hdr : Headers} {udp : UdpH} {bth : BthH} (hudp : hdr.udp = some udp)
    (hbth : hdr.bth = some bth) (pc_meta : PcMetadata) :
    (forward_inst hdr pc_meta).is_rdma = 1 ↔ bth.connType = 0 := by
  rw [forward_inst, hudp, hbth]
  exact forward_bth_is_rdma _ bth

/-- A packet is given to the RDMA engine exactly when its UDP payload starts with a
base transport header of a reliable connection, to whatever port it is sent. -/
theorem is_rdma_iff (packet : List Bool) (pc_meta : PcMetadata) :
    (main packet pc_meta).2.is_rdma = 1 ↔ ∃ dport, Carries packet dport := by
  have hmain : (main packet pc_meta).2 = forward_inst (parser_inst packet).hdr pc_meta := rfl
  rw [hmain]
  constructor
  · intro hrdma
    obtain hnone | ⟨off, htransport⟩ := parser_inst_sound packet
    · rw [forward_inst_no_rdma hnone] at hrdma
      simp at hrdma
    · have hreliable := (forward_inst_bth htransport.udp htransport.bth pc_meta).mp hrdma
      rw [bth_h_connType] at hreliable
      exact ⟨_, off, htransport.header, rfl, htransport.complete, hreliable⟩
  · rintro ⟨dport, off, hheader, hdport, hbth⟩
    obtain ⟨hudp_eq, hbth_eq⟩ := hheader.parsed
    rw [forward_inst_bth hudp_eq (hbth_eq hbth.complete) pc_meta, bth_h_connType]
    exact hbth.reliable

/-- The RDMA engine gets the packets to the port of RoCEv2 with a complete base
transport header of a reliable connection and nothing else, no other UDP packet. -/
def RoceClassified (packet : List Bool) (pc_meta : PcMetadata) : Prop :=
  ((main packet pc_meta).2.is_rdma = 1 ↔ Carries packet ROCE_V2_PORT) ∧
    ∀ off, UdpHeader packet off → udp_dport packet off ≠ ROCE_V2_PORT →
      (main packet pc_meta).2.is_rdma = 0

/-- A packet is classified by its port exactly when it is not a UDP packet to another
port whose payload starts with twelve bytes of which the first three bits are zero. -/
theorem roce_classified_iff (packet : List (BitVec 8)) (pc_meta : PcMetadata) :
    RoceClassified (packet_bits packet) pc_meta ↔
      ¬ ∃ off, UdpHeader (packet_bits packet) off ∧
        udp_dport (packet_bits packet) off ≠ ROCE_V2_PORT ∧ ReliableBth (packet_bits packet) off := by
  have hrdma := is_rdma_iff (packet_bits packet) pc_meta
  constructor
  · rintro ⟨-, hother⟩ ⟨off, hheader, hport, hbth⟩
    have hzero := hother off hheader hport
    rw [hrdma.mpr ⟨_, off, hheader, rfl, hbth⟩] at hzero
    simp at hzero
  · intro hnone
    have hport : ∀ off, UdpHeader (packet_bits packet) off → ReliableBth (packet_bits packet) off →
        udp_dport (packet_bits packet) off = ROCE_V2_PORT := fun off hheader hbth =>
      not_not.mp fun hne => hnone ⟨off, hheader, hne, hbth⟩
    refine ⟨⟨?_, ?_⟩, ?_⟩
    · intro hone
      obtain ⟨dport, off, hheader, -, hbth⟩ := hrdma.mp hone
      exact ⟨off, hheader, hport off hheader hbth, hbth⟩
    · intro hcarries
      exact hrdma.mpr ⟨_, hcarries⟩
    · intro off hheader hne
      obtain hzero | hone := BitVec.eq_zero_or_eq_one (main (packet_bits packet) pc_meta).2.is_rdma
      · exact hzero
      · obtain ⟨dport, off', hheader', -, hbth⟩ := hrdma.mp hone
        exact absurd ((hheader.dport_unique hheader').trans (hport off' hheader' hbth)) hne

/-- A DNS query for the root whose identifier is 0: the twelve bytes of its header
are taken for a base transport header. -/
def dns_query : List (BitVec 8) :=
  [0x02, 0x00, 0x00, 0x00, 0x00, 0x02, 0x02, 0x00, 0x00, 0x00, 0x00, 0x01, 0x08, 0x00,
    0x45, 0x00, 0x00, 0x2d, 0x00, 0x00, 0x40, 0x00, 0x40, 0x11, 0x26, 0xbe,
    0x0a, 0x00, 0x00, 0x01, 0x0a, 0x00, 0x00, 0x02,
    0x30, 0x39, 0x00, 0x35, 0x00, 0x19, 0x00, 0x00,
    0x00, 0x00, 0x01, 0x00, 0x00, 0x01, 0x00, 0x00, 0x00, 0x00, 0x00, 0x00,
    0x00, 0x00, 0x01, 0x00, 0x01]

def dns_query_meta : PcMetadata where
  index := 0
  ip_src := 0
  ip_dst := 0
  udp_sport := 0
  udp_dport := 0
  opcode := 0
  pktlen := 59
  dma_length := 0
  r_key := 0
  se := 0
  psn := 0
  msn := 0
  is_rdma := 0

/-- The query has a UDP header behind Ethernet and IPv4. -/
theorem dns_query_udp : UdpHeader (packet_bits dns_query) 272 := by
  obtain ⟨htype_eq, hversion, hihl_eq, hlen, hproto_eq, hlength⟩ :
      bits_at (packet_bits dns_query) 96 16 = ETH_IPV4 ∧ bits_at (packet_bits dns_query) 112 4 = 4 ∧
        (bits_at (packet_bits dns_query) 116 4).toNat = 5 ∧ 5 ≤ bits_at (packet_bits dns_query) 128 16 ∧
        bits_at (packet_bits dns_query) 184 8 = IPPROTO_UDP ∧
        (packet_bits dns_query).length = 472 := by
    decide +kernel
  have htype : EtherType (packet_bits dns_query) 0 ETH_IPV4 := by
    rw [← htype_eq]
    exact .untagged (by omega)
  have hpayload := IpPayload.ipv4 htype rfl (by omega) hversion hlen (Nat.le_of_eq hihl_eq.symm)
    (by rw [hlength, hihl_eq]; omega)
  rw [hihl_eq, hproto_eq] at hpayload
  exact ⟨hpayload, by omega⟩

/-- The query goes to port 53, and the RDMA engine gets it. -/
theorem dns_query_misclassified : ¬ RoceClassified (packet_bits dns_query) dns_query_meta := by
  rintro ⟨-, hother⟩
  have hzero := hother 272 dns_query_udp (by decide +kernel)
  revert hzero
  decide +kernel

end reconic.packet_parser
