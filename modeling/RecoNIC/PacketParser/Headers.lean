import RecoNIC.Bits.Codec

open bits

namespace reconic.packet_parser

def ETH_VLAN : BitVec 16 := 0x8100
def ETH_IPV4 : BitVec 16 := 0x0800
def ETH_IPV6 : BitVec 16 := 0x86DD

def IPPROTO_UDP : BitVec 8 := 0x11

def WRITE_FIRST : BitVec 5 := 0x06
def WRITE_ONLY : BitVec 5 := 0x0a
def WRITE_ONLY_IMM : BitVec 5 := 0x0b
def READ_REQ : BitVec 5 := 0x0c

def READ_RSP_FIRST : BitVec 5 := 0x0d
def READ_RSP_LAST : BitVec 5 := 0x0f
def READ_RSP_ONLY : BitVec 5 := 0x10
def ACK : BitVec 5 := 0x11

def SEND_LAST_INV : BitVec 5 := 0x16
def SEND_ONLY_INV : BitVec 5 := 0x17

def SEND_LAST_IMM : BitVec 5 := 0x03
def SEND_ONLY_IMM : BitVec 5 := 0x05
def WRITE_LAST_IMM : BitVec 5 := 0x09

structure BthH where
  connType : BitVec 3
  op : BitVec 5
  se : BitVec 1
  migEeq : BitVec 1
  padding : BitVec 2
  tver : BitVec 4
  p_key : BitVec 16
  resv1 : BitVec 8
  destqp : BitVec 24
  ackreq : BitVec 1
  resv2 : BitVec 7
  psn : BitVec 24

structure RethH where
  vir_high_addr : BitVec 32
  vir_low_addr : BitVec 32
  r_key : BitVec 32
  dma_length : BitVec 32

structure AethH where
  syndrome : BitVec 8
  msn : BitVec 24

structure ImmdtH where
  imm_data : BitVec 32

structure IethH where
  r_key : BitVec 32

structure EthH where
  dst_mac : BitVec 48
  src_mac : BitVec 48
  type : BitVec 16

structure VlanH where
  pcp : BitVec 3
  cfi : BitVec 1
  vid : BitVec 12
  tpid : BitVec 16

structure Ipv4H where
  version : BitVec 4
  ihl : BitVec 4
  dscp : BitVec 6
  ecn : BitVec 2
  len : BitVec 16
  id : BitVec 16
  flags : BitVec 3
  frag : BitVec 13
  ttl : BitVec 8
  proto : BitVec 8
  chksum : BitVec 16
  src : BitVec 32
  dst : BitVec 32

structure Ipv6H where
  version : BitVec 4
  priority : BitVec 8
  flow_label : BitVec 20
  length : BitVec 16
  protocol : BitVec 8
  hop_limit : BitVec 8
  src : BitVec 128
  dst : BitVec 128

/-- The IPv4 options, a `varbit<320>`. -/
structure Ipv4Opt where
  options : List Bool
  bounded : options.length ≤ 320

structure UdpH where
  sport : BitVec 16
  dport : BitVec 16
  len : BitVec 16
  chksum : BitVec 16

def bth_h : Codec BthH :=
  ((Codec.word 3).pair <| (Codec.word 5).pair <| (Codec.word 1).pair <| (Codec.word 1).pair <|
      (Codec.word 2).pair <| (Codec.word 4).pair <| (Codec.word 16).pair <| (Codec.word 8).pair <|
      (Codec.word 24).pair <| (Codec.word 1).pair <| (Codec.word 7).pair (Codec.word 24)).iso
    (fun (connType, op, se, migEeq, padding, tver, p_key, resv1, destqp, ackreq, resv2, psn) =>
      BthH.mk connType op se migEeq padding tver p_key resv1 destqp ackreq resv2 psn)
    (fun h => (h.connType, h.op, h.se, h.migEeq, h.padding, h.tver, h.p_key, h.resv1, h.destqp,
      h.ackreq, h.resv2, h.psn))
    (fun _ => rfl)

def reth_h : Codec RethH :=
  ((Codec.word 32).pair <| (Codec.word 32).pair <| (Codec.word 32).pair (Codec.word 32)).iso
    (fun (vir_high_addr, vir_low_addr, r_key, dma_length) =>
      RethH.mk vir_high_addr vir_low_addr r_key dma_length)
    (fun h => (h.vir_high_addr, h.vir_low_addr, h.r_key, h.dma_length))
    (fun _ => rfl)

def aeth_h : Codec AethH :=
  ((Codec.word 8).pair (Codec.word 24)).iso (fun (syndrome, msn) => AethH.mk syndrome msn)
    (fun h => (h.syndrome, h.msn)) (fun _ => rfl)

def immdt_h : Codec ImmdtH :=
  (Codec.word 32).iso ImmdtH.mk ImmdtH.imm_data (fun _ => rfl)

def ieth_h : Codec IethH :=
  (Codec.word 32).iso IethH.mk IethH.r_key (fun _ => rfl)

def eth_h : Codec EthH :=
  ((Codec.word 48).pair <| (Codec.word 48).pair (Codec.word 16)).iso
    (fun (dst_mac, src_mac, type) => EthH.mk dst_mac src_mac type)
    (fun h => (h.dst_mac, h.src_mac, h.type)) (fun _ => rfl)

def vlan_h : Codec VlanH :=
  ((Codec.word 3).pair <| (Codec.word 1).pair <| (Codec.word 12).pair (Codec.word 16)).iso
    (fun (pcp, cfi, vid, tpid) => VlanH.mk pcp cfi vid tpid)
    (fun h => (h.pcp, h.cfi, h.vid, h.tpid)) (fun _ => rfl)

def ipv4_h : Codec Ipv4H :=
  ((Codec.word 4).pair <| (Codec.word 4).pair <| (Codec.word 6).pair <| (Codec.word 2).pair <|
      (Codec.word 16).pair <| (Codec.word 16).pair <| (Codec.word 3).pair <| (Codec.word 13).pair <|
      (Codec.word 8).pair <| (Codec.word 8).pair <| (Codec.word 16).pair <|
      (Codec.word 32).pair (Codec.word 32)).iso
    (fun (version, ihl, dscp, ecn, len, id, flags, frag, ttl, proto, chksum, src, dst) =>
      Ipv4H.mk version ihl dscp ecn len id flags frag ttl proto chksum src dst)
    (fun h => (h.version, h.ihl, h.dscp, h.ecn, h.len, h.id, h.flags, h.frag, h.ttl, h.proto,
      h.chksum, h.src, h.dst))
    (fun _ => rfl)

def ipv6_h : Codec Ipv6H :=
  ((Codec.word 4).pair <| (Codec.word 8).pair <| (Codec.word 20).pair <| (Codec.word 16).pair <|
      (Codec.word 8).pair <| (Codec.word 8).pair <| (Codec.word 128).pair (Codec.word 128)).iso
    (fun (version, priority, flow_label, length, protocol, hop_limit, src, dst) =>
      Ipv6H.mk version priority flow_label length protocol hop_limit src dst)
    (fun h => (h.version, h.priority, h.flow_label, h.length, h.protocol, h.hop_limit, h.src, h.dst))
    (fun _ => rfl)

def udp_h : Codec UdpH :=
  ((Codec.word 16).pair <| (Codec.word 16).pair <| (Codec.word 16).pair (Codec.word 16)).iso
    (fun (sport, dport, len, chksum) => UdpH.mk sport dport len chksum)
    (fun h => (h.sport, h.dport, h.len, h.chksum)) (fun _ => rfl)

@[simp] theorem bth_h_size : bth_h.size = 96 := rfl

@[simp] theorem reth_h_size : reth_h.size = 128 := rfl

@[simp] theorem aeth_h_size : aeth_h.size = 32 := rfl

@[simp] theorem immdt_h_size : immdt_h.size = 32 := rfl

@[simp] theorem ieth_h_size : ieth_h.size = 32 := rfl

@[simp] theorem eth_h_size : eth_h.size = 112 := rfl

@[simp] theorem vlan_h_size : vlan_h.size = 32 := rfl

@[simp] theorem ipv4_h_size : ipv4_h.size = 160 := rfl

@[simp] theorem ipv6_h_size : ipv6_h.size = 320 := rfl

@[simp] theorem udp_h_size : udp_h.size = 64 := rfl

/-- The valid elements of the header stack `vlan_h[2]`. They are extracted through
`next`, so they are the first ones. -/
structure VlanStack where
  tags : List VlanH
  bounded : tags.length ≤ 2

/-- The headers of interest, `headers_t`; `none` is a header that is not valid. -/
structure Headers where
  eth : Option EthH
  vlan : VlanStack
  ipv4 : Option Ipv4H
  ipv4_opt : Option Ipv4Opt
  ipv6 : Option Ipv6H
  udp : Option UdpH
  bth : Option BthH
  reth : Option RethH
  aeth : Option AethH
  immdt : Option ImmdtH
  ieth : Option IethH

/-- The header structure a parser starts with. -/
def Headers.invalid : Headers where
  eth := none
  vlan := ⟨[], Nat.zero_le 2⟩
  ipv4 := none
  ipv4_opt := none
  ipv6 := none
  udp := none
  bth := none
  reth := none
  aeth := none
  immdt := none
  ieth := none

/-- The metadata of a packet, `pc_metadata_t`. -/
structure PcMetadata where
  index : BitVec 32
  ip_src : BitVec 32
  ip_dst : BitVec 32
  udp_sport : BitVec 16
  udp_dport : BitVec 16
  opcode : BitVec 5
  pktlen : BitVec 16
  dma_length : BitVec 32
  r_key : BitVec 32
  se : BitVec 1
  psn : BitVec 24
  msn : BitVec 24
  is_rdma : BitVec 1

end reconic.packet_parser
