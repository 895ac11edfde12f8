import RecoNIC.PacketParser.Headers

open bits

namespace reconic.packet_parser

/-- The errors a parser can stop with: those of the core library that an extract
can raise, and the one the program declares. -/
inductive ParserError where
  | PacketTooShort
  | HeaderTooShort
  | StackOutOfBounds
  | InvalidIPpacket
  deriving DecidableEq

inductive ParserState where
  | start
  | parse_vlan
  | parse_ipv4
  | parse_ipv4_options
  | dispatch_on_protocol
  | parse_ipv6
  | parse_udp
  | parse_reth
  | parse_aeth
  | parse_ieth
  | parse_immdt
  | accept
  | reject (error : ParserError)
  deriving DecidableEq

/-- A parser between two states: the headers extracted so far and the bits of the
packet that have not been extracted. -/
structure Parsing where
  state : ParserState
  hdr : Headers
  rest : List Bool

/-- `pkt.extract` of a fixed-size header, and what follows it. A packet that is too
short is rejected with nothing consumed. -/
def Parsing.extract {α : Type} (p : Parsing) (codec : Codec α) (set : Headers → α → Headers)
    (next : α → Parsing → Parsing) : Parsing :=
  if codec.size ≤ p.rest.length then
    next (codec.dec p.rest)
      { p with hdr := set p.hdr (codec.dec p.rest), rest := p.rest.drop codec.size }
  else { p with state := .reject .PacketTooShort }

/-- What holds of the rejected parser and of what follows a complete header holds
after an extract. -/
theorem Parsing.extract_rule {α : Type} {p : Parsing} {codec : Codec α} {set : Headers → α → Headers}
    {next : α → Parsing → Parsing} {P : Parsing → Prop}
    (hshort : P { p with state := .reject .PacketTooShort })
    (hnext : codec.size ≤ p.rest.length → P (next (codec.dec p.rest)
      { p with hdr := set p.hdr (codec.dec p.rest), rest := p.rest.drop codec.size })) :
    P (p.extract codec set next) := by
  unfold Parsing.extract
  split
  · next hsize => exact hnext hsize
  · exact hshort

/-- An extract from a packet that is long enough. -/
theorem Parsing.extract_of_le {α : Type} {p : Parsing} {codec : Codec α} {set : Headers → α → Headers}
    {next : α → Parsing → Parsing} (hsize : codec.size ≤ p.rest.length) :
    p.extract codec set next = next (codec.dec p.rest)
      { p with hdr := set p.hdr (codec.dec p.rest), rest := p.rest.drop codec.size } := by
  rw [Parsing.extract, if_pos hsize]

/-- The header stack with one more element. -/
def VlanStack.push (stack : VlanStack) (tag : VlanH) (h : stack.tags.length < 2) : VlanStack :=
  ⟨stack.tags ++ [tag], by rw [List.length_append, List.length_singleton]; omega⟩

/-- A push adds one tag. -/
@[simp] theorem VlanStack.push_length (stack : VlanStack) (tag : VlanH) (h : stack.tags.length < 2) :
    (stack.push tag h).tags.length = stack.tags.length + 1 := by
  rw [VlanStack.push, List.length_append, List.length_singleton]

/-- `pkt.extract(hdr.vlan.next)`, and what follows it. A full stack has no next element, however
short the packet is. -/
def Parsing.extract_vlan (p : Parsing) (next : VlanH → Parsing → Parsing) : Parsing :=
  if h : p.hdr.vlan.tags.length < 2 then
    if vlan_h.size ≤ p.rest.length then
      next (vlan_h.dec p.rest) { p with
        hdr := { p.hdr with vlan := p.hdr.vlan.push (vlan_h.dec p.rest) h }
        rest := p.rest.drop vlan_h.size }
    else { p with state := .reject .PacketTooShort }
  else { p with state := .reject .StackOutOfBounds }

/-- What holds of the rejected parser and of what follows a tag holds after an extract to the
stack. -/
theorem Parsing.extract_vlan_rule {p : Parsing} {next : VlanH → Parsing → Parsing} {P : Parsing → Prop}
    (hreject : ∀ error, P { p with state := .reject error })
    (hnext : vlan_h.size ≤ p.rest.length → ∀ h : p.hdr.vlan.tags.length < 2,
      P (next (vlan_h.dec p.rest) { p with
        hdr := { p.hdr with vlan := p.hdr.vlan.push (vlan_h.dec p.rest) h }
        rest := p.rest.drop vlan_h.size })) :
    P (p.extract_vlan next) := by
  unfold Parsing.extract_vlan
  split
  · next h =>
    split
    · next hsize => exact hnext hsize h
    · exact hreject .PacketTooShort
  · exact hreject .StackOutOfBounds

/-- The options made of the first bits of a packet. -/
def Ipv4Opt.read (l : List Bool) (size : Nat) (h : size ≤ 320) : Ipv4Opt :=
  ⟨l.take size, Nat.le_trans (List.length_take_le size l) h⟩

/-- `pkt.extract` of the options, whose size in bits is given, and what follows it. -/
def Parsing.extract_options (p : Parsing) (size : BitVec 32) (next : Parsing → Parsing) : Parsing :=
  if size.toNat ≤ p.rest.length then
    if h : size.toNat ≤ 320 then
      next { p with
        hdr := { p.hdr with ipv4_opt := some (Ipv4Opt.read p.rest size.toNat h) }
        rest := p.rest.drop size.toNat }
    else { p with state := .reject .HeaderTooShort }
  else { p with state := .reject .PacketTooShort }

/-- What holds of the rejected parser and of what follows the options holds after an extract of
options. -/
theorem Parsing.extract_options_rule {p : Parsing} {size : BitVec 32} {next : Parsing → Parsing}
    {P : Parsing → Prop} (hreject : ∀ error, P { p with state := .reject error })
    (hnext : size.toNat ≤ p.rest.length → ∀ h : size.toNat ≤ 320,
      P (next { p with
        hdr := { p.hdr with ipv4_opt := some (Ipv4Opt.read p.rest size.toNat h) }
        rest := p.rest.drop size.toNat })) :
    P (p.extract_options size next) := by
  unfold Parsing.extract_options
  split
  · next hsize =>
    split
    · next h => exact hnext hsize h
    · exact hreject .HeaderTooShort
  · exact hreject .PacketTooShort

/-- The transition on an Ethernet type, after the Ethernet header and after a tag. -/
def select_ethertype (type : BitVec 16) : ParserState :=
  if type = ETH_VLAN then .parse_vlan
  else if type = ETH_IPV4 then .parse_ipv4
  else if type = ETH_IPV6 then .parse_ipv6
  else .accept

@[simp] theorem select_ethertype_vlan : select_ethertype ETH_VLAN = .parse_vlan := rfl

@[simp] theorem select_ethertype_ipv4 : select_ethertype ETH_IPV4 = .parse_ipv4 := rfl

@[simp] theorem select_ethertype_ipv6 : select_ethertype ETH_IPV6 = .parse_ipv6 := rfl

/-- The transition on the operation, after the base transport header. -/
def select_op (op : BitVec 5) : ParserState :=
  if op = WRITE_FIRST then .parse_reth
  else if op = WRITE_ONLY then .parse_reth
  else if op = WRITE_ONLY_IMM then .parse_reth
  else if op = READ_REQ then .parse_reth
  else if op = READ_RSP_FIRST then .parse_aeth
  else if op = READ_RSP_LAST then .parse_aeth
  else if op = READ_RSP_ONLY then .parse_aeth
  else if op = ACK then .parse_aeth
  else if op = SEND_LAST_INV then .parse_ieth
  else if op = SEND_ONLY_INV then .parse_ieth
  else if op = SEND_LAST_IMM then .parse_immdt
  else if op = SEND_ONLY_IMM then .parse_immdt
  else if op = WRITE_LAST_IMM then .parse_immdt
  else .accept

/-- The size of the options in bits: the subtraction and the product are those of
`bit<32>`, so an `ihl` below 5 wraps. -/
def options_size (ihl : BitVec 4) : BitVec 32 := (ihl.setWidth 32 - 5) * 32

/-- One state of `parser_inst`. A parser that has accepted or rejected stays as it is. -/
def parser_step (p : Parsing) : Parsing :=
  match p.state with
  | .start =>
    p.extract eth_h (fun hdr h => { hdr with eth := some h }) fun eth p =>
      { p with state := select_ethertype eth.type }
  | .parse_vlan =>
    p.extract_vlan fun last p => { p with state := select_ethertype last.tpid }
  | .parse_ipv4 =>
    p.extract ipv4_h (fun hdr h => { hdr with ipv4 := some h }) fun ipv4 p =>
      if ipv4.version = 4 ∧ 5 ≤ ipv4.len then
        { p with state := if ipv4.ihl = 5 then .dispatch_on_protocol else .parse_ipv4_options }
      else { p with state := .reject .InvalidIPpacket }
  | .parse_ipv4_options =>
    -- The header is valid in this state and in the next one; the default stands for
    -- the unspecified value of a field of an invalid header.
    p.extract_options (options_size ((p.hdr.ipv4.map Ipv4H.ihl).getD 0)) fun p =>
      { p with state := .dispatch_on_protocol }
  | .dispatch_on_protocol =>
    { p with
      state :=
        if (p.hdr.ipv4.map Ipv4H.proto).getD 0 = IPPROTO_UDP then .parse_udp else .accept }
  | .parse_ipv6 =>
    p.extract ipv6_h (fun hdr h => { hdr with ipv6 := some h }) fun ipv6 p =>
      if ipv6.version = 6 then
        { p with state := if ipv6.protocol = IPPROTO_UDP then .parse_udp else .accept }
      else { p with state := .reject .InvalidIPpacket }
  | .parse_udp =>
    p.extract udp_h (fun hdr h => { hdr with udp := some h }) fun _ p =>
      p.extract bth_h (fun hdr h => { hdr with bth := some h }) fun bth p =>
        { p with state := select_op bth.op }
  | .parse_reth =>
    p.extract reth_h (fun hdr h => { hdr with reth := some h }) fun _ p =>
      { p with
        state :=
          if (p.hdr.bth.map BthH.op).getD 0 = WRITE_ONLY_IMM then .parse_immdt else .accept }
  | .parse_aeth =>
    p.extract aeth_h (fun hdr h => { hdr with aeth := some h }) fun _ p => { p with state := .accept }
  | .parse_ieth =>
    p.extract ieth_h (fun hdr h => { hdr with ieth := some h }) fun _ p => { p with state := .accept }
  | .parse_immdt =>
    p.extract immdt_h (fun hdr h => { hdr with immdt := some h }) fun _ p =>
      { p with state := .accept }
  | .accept => p
  | .reject _ => p

/-- The parser after some of its states. -/
def parser_run (packet : List Bool) : Nat → Parsing
  | 0 => ⟨.start, Headers.invalid, packet⟩
  | n + 1 => parser_step (parser_run packet n)

/-- A property of the first parser that every state keeps holds of all of them. -/
theorem parser_run_invariant {packet : List Bool} {P : Parsing → Prop}
    (hstart : P ⟨.start, Headers.invalid, packet⟩) (hstep : ∀ p, P p → P (parser_step p)) (n : Nat) :
    P (parser_run packet n) := by
  induction n with
  | zero => exact hstart
  | succ n ih => exact hstep _ ih

/-- The parser's result. Nine states are enough for every packet. -/
def parser_inst (packet : List Bool) : Parsing := parser_run packet 9

/-- The metadata before the headers are looked at: `index` and `pktlen` are those of
the incoming metadata, all other variables are initialized to 0. -/
def initial_metadata (pc_meta : PcMetadata) : PcMetadata :=
  { index := pc_meta.index, pktlen := pc_meta.pktlen
    ip_src := 0, ip_dst := 0, udp_sport := 0, udp_dport := 0, opcode := 0, dma_length := 0
    r_key := 0, se := 0, psn := 0, msn := 0, is_rdma := 0 }

/-- The addresses and the ports. A field of an invalid header is unspecified and
reads as 0. -/
def forward_udp (hdr : Headers) (udp : UdpH) (m : PcMetadata) : PcMetadata :=
  if hdr.ipv6.isSome then
    { m with ip_src := 6, ip_dst := 6, udp_sport := udp.sport, udp_dport := udp.dport }
  else
    { m with
      ip_src := (hdr.ipv4.map Ipv4H.src).getD 0
      ip_dst := (hdr.ipv4.map Ipv4H.dst).getD 0
      udp_sport := udp.sport
      udp_dport := udp.dport }

def forward_reth (m : PcMetadata) : Option RethH → PcMetadata
  | some reth => { m with r_key := reth.r_key, dma_length := reth.dma_length, is_rdma := 1 }
  | none => m

def forward_aeth (m : PcMetadata) : Option AethH → PcMetadata
  | some aeth => { m with msn := aeth.msn, is_rdma := 1 }
  | none => m

def forward_ieth (m : PcMetadata) : Option IethH → PcMetadata
  | some ieth => { m with r_key := ieth.r_key, is_rdma := 1 }
  | none => m

def forward_bth (m : PcMetadata) : Option BthH → PcMetadata
  | some bth =>
    { m with
      opcode := bth.op
      se := bth.se
      psn := bth.psn
      is_rdma := if bth.connType ≠ 0 then 0 else 1 }
  | none => m

/-- The metadata that `forward_inst` makes of the incoming ones. Its headers are
`inout` too, but no statement assigns to them. -/
def forward_inst (hdr : Headers) (pc_meta : PcMetadata) : PcMetadata :=
  match hdr.udp with
  | none => initial_metadata pc_meta
  | some udp =>
    let m := forward_udp hdr udp (initial_metadata pc_meta)
    let m := forward_reth m hdr.reth
    let m := forward_aeth m hdr.aeth
    let m := forward_ieth m hdr.ieth
    forward_bth m hdr.bth

/-- `pkt.emit` of a header: nothing when it is not valid. -/
def emit {α : Type} (codec : Codec α) : Option α → List Bool
  | some h => codec.enc h
  | none => []

@[simp] theorem emit_some {α : Type} (codec : Codec α) (h : α) : emit codec (some h) = codec.enc h :=
  rfl

@[simp] theorem emit_none {α : Type} (codec : Codec α) : emit codec none = [] := rfl

def deparser_inst (hdr : Headers) : List Bool :=
  emit eth_h hdr.eth ++ hdr.vlan.tags.flatMap vlan_h.enc ++ emit ipv4_h hdr.ipv4 ++
    (hdr.ipv4_opt.map Ipv4Opt.options).getD [] ++ emit ipv6_h hdr.ipv6 ++ emit udp_h hdr.udp ++
    emit bth_h hdr.bth ++ emit reth_h hdr.reth ++ emit aeth_h hdr.aeth ++
    emit immdt_h hdr.immdt ++ emit ieth_h hdr.ieth

/-- The bits of a packet of bytes. -/
def packet_bits (packet : List (BitVec 8)) : List Bool := packet.flatMap toBits

/-- What the pipeline sends on for a packet: the emitted headers and the bits the
parser has left, and the metadata. -/
def main (packet : List Bool) (pc_meta : PcMetadata) : List Bool × PcMetadata :=
  let p := parser_inst packet
  (deparser_inst p.hdr ++ p.rest, forward_inst p.hdr pc_meta)

end reconic.packet_parser
