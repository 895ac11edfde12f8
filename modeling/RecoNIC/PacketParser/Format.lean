import RecoNIC.PacketParser.Headers

open bits

namespace reconic.packet_parser

/-- The destination port of RoCEv2. -/
def ROCE_V2_PORT : BitVec 16 := 4791

/-- The word at a bit offset of a packet. -/
def bits_at (packet : List Bool) (off w : Nat) : BitVec w := ofBits w (packet.drop off)

/-- The packet has an Ethernet header followed by some tags, at most two, and this is
the type of what comes next. -/
inductive EtherType (packet : List Bool) : Nat → BitVec 16 → Prop where
  | untagged : 112 ≤ packet.length → EtherType packet 0 (bits_at packet 96 16)
  | tagged {tags : Nat} : EtherType packet tags ETH_VLAN → tags < 2 →
      112 + 32 * (tags + 1) ≤ packet.length →
      EtherType packet (tags + 1) (bits_at packet (112 + 32 * tags + 16) 16)

/-- The packet has an IP header that passes the checks, and after its options the
payload of this protocol starts at an offset. -/
inductive IpPayload (packet : List Bool) : BitVec 8 → Nat → Prop where
  | ipv4 {tags off : Nat} : EtherType packet tags ETH_IPV4 → off = 112 + 32 * tags →
      off + 160 ≤ packet.length → bits_at packet off 4 = 4 → 5 ≤ bits_at packet (off + 16) 16 →
      5 ≤ (bits_at packet (off + 4) 4).toNat →
      off + 32 * (bits_at packet (off + 4) 4).toNat ≤ packet.length →
      IpPayload packet (bits_at packet (off + 72) 8) (off + 32 * (bits_at packet (off + 4) 4).toNat)
  | ipv6 {tags off : Nat} : EtherType packet tags ETH_IPV6 → off = 112 + 32 * tags →
      off + 320 ≤ packet.length → bits_at packet off 4 = 6 →
      IpPayload packet (bits_at packet (off + 48) 8) (off + 320)

/-- A complete UDP header starts at an offset. -/
structure UdpHeader (packet : List Bool) (off : Nat) : Prop where
  payload : IpPayload packet IPPROTO_UDP off
  complete : off + 64 ≤ packet.length

/-- The destination port of a UDP header. -/
def udp_dport (packet : List Bool) (off : Nat) : BitVec 16 := bits_at packet (off + 16) 16

/-- What follows a UDP header is a complete base transport header of a reliable
connection. -/
structure ReliableBth (packet : List Bool) (off : Nat) : Prop where
  complete : off + 160 ≤ packet.length
  reliable : bits_at packet (off + 64) 3 = 0

/-- The packet carries a base transport header of a reliable connection in a UDP
packet to a port. -/
def Carries (packet : List Bool) (dport : BitVec 16) : Prop :=
  ∃ off, UdpHeader packet off ∧ udp_dport packet off = dport ∧ ReliableBth packet off

/-- There are at most two tags. -/
theorem EtherType.tags_le {packet : List Bool} {tags : Nat} {type : BitVec 16}
    (h : EtherType packet tags type) : tags ≤ 2 := by
  cases h with
  | untagged _ => omega
  | tagged _ hroom _ => omega

/-- The packet is long enough for its tags. -/
theorem EtherType.complete {packet : List Bool} {tags : Nat} {type : BitVec 16}
    (h : EtherType packet tags type) : 112 + 32 * tags ≤ packet.length := by
  cases h with
  | untagged hlength => exact hlength
  | tagged _ _ hlength => exact hlength

/-- The type that is extracted from the Ethernet header is the one in the packet. -/
theorem eth_h_type (packet : List Bool) : (eth_h.dec packet).type = bits_at packet 96 16 := by
  simp [eth_h, Codec.pair, Codec.iso, Codec.word, bits_at, List.drop_drop]

/-- So is the type in a tag. -/
theorem vlan_h_tpid (packet : List Bool) (off : Nat) :
    (vlan_h.dec (packet.drop off)).tpid = bits_at packet (off + 16) 16 := by
  simp [vlan_h, Codec.pair, Codec.iso, Codec.word, bits_at, List.drop_drop]

/-- The fields of an IPv4 header are those in the packet. -/
theorem ipv4_h_fields (packet : List Bool) (off : Nat) :
    (ipv4_h.dec (packet.drop off)).version = bits_at packet off 4 ∧
      (ipv4_h.dec (packet.drop off)).ihl = bits_at packet (off + 4) 4 ∧
      (ipv4_h.dec (packet.drop off)).len = bits_at packet (off + 16) 16 ∧
      (ipv4_h.dec (packet.drop off)).proto = bits_at packet (off + 72) 8 := by
  simp [ipv4_h, Codec.pair, Codec.iso, Codec.word, bits_at, List.drop_drop]

/-- The fields of an IPv6 header are those in the packet. -/
theorem ipv6_h_fields (packet : List Bool) (off : Nat) :
    (ipv6_h.dec (packet.drop off)).version = bits_at packet off 4 ∧
      (ipv6_h.dec (packet.drop off)).protocol = bits_at packet (off + 48) 8 := by
  simp [ipv6_h, Codec.pair, Codec.iso, Codec.word, bits_at, List.drop_drop]

/-- The destination port is the one in the packet. -/
theorem udp_h_dport (packet : List Bool) (off : Nat) :
    (udp_h.dec (packet.drop off)).dport = bits_at packet (off + 16) 16 := by
  simp [udp_h, Codec.pair, Codec.iso, Codec.word, bits_at, List.drop_drop]

/-- The connection type is the one in the packet. -/
theorem bth_h_connType (packet : List Bool) (off : Nat) :
    (bth_h.dec (packet.drop off)).connType = bits_at packet off 3 := by
  simp [bth_h, Codec.pair, Codec.iso, Codec.word, bits_at, List.drop_drop]

end reconic.packet_parser
