import Mathlib
import RecoNIC.Bits.Toeplitz

open bits

namespace reconic.qdma_subsystem_hash

inductive S1State where
  | S_S1_IDLE
  | S_S1_MORE
  | S_S1_PASS
  deriving DecidableEq

/-- The constants are in the order of the bytes on the wire. -/
def C_ETH_TYPE_8021Q : BitVec 16 := 0x0081

def C_ETH_TYPE_IP4 : BitVec 16 := 0x0008

structure Input where
  p_axis_tvalid : Bool
  p_axis_tdata : BitVec 512
  p_axis_tlast : Bool
  p_axis_tready : Bool

/-- The registers of the first stage: the payload of the Ethernet header. -/
structure Stage1 where
  s1_state : S1State
  vid_shift_reg0 : BitVec 12
  vid_shift_reg1 : BitVec 12
  eth_payload : BitVec 512
  eth_payload_valid : Bool
  eth_type_is_ip4 : Bool
  eth_is_8021q : Bool

/-- The registers of the second stage: the fields of the IPv4 header, and the first bytes after it. -/
structure Stage2 where
  ip4_payload_valid : Bool
  ip4_payload : BitVec 32
  ip4_proto : BitVec 8
  ip4_src_addr : BitVec 32
  ip4_dst_addr : BitVec 32

/-- The registers of the last stage: the parts of the hash. -/
structure Stage3 where
  hash_result_valid : Bool
  vid_hash : BitVec 32
  ip4_hash : Fin 4 → BitVec 32
  port_hash : Fin 2 → BitVec 32

structure Regs where
  s1 : Stage1
  s2 : Stage2
  s3 : Stage3

def eth_type (p_axis_tdata : BitVec 512) : BitVec 16 := p_axis_tdata.extractLsb' (12 * 8) 16

def eth_8021q_type (p_axis_tdata : BitVec 512) : BitVec 16 := p_axis_tdata.extractLsb' (16 * 8) 16

def eth_8021q_vid (p_axis_tdata : BitVec 512) : BitVec 12 :=
  (p_axis_tdata.extractLsb' (14 * 8) 16 &&& 0x0FFF).setWidth 12

/-- The first beat of a packet. The end of the payload keeps its old bytes. -/
def first_beat (s : Stage1) (p_axis_tdata : BitVec 512) : Stage1 :=
  if eth_type p_axis_tdata = C_ETH_TYPE_IP4 then
    { s with
      vid_shift_reg0 := 0
      eth_payload := s.eth_payload.extractLsb' 400 112 ++ p_axis_tdata.extractLsb' (14 * 8) 400
      eth_type_is_ip4 := true
      eth_is_8021q := false }
  else if eth_type p_axis_tdata = C_ETH_TYPE_8021Q then
    { s with
      vid_shift_reg0 := eth_8021q_vid p_axis_tdata
      eth_payload := s.eth_payload.extractLsb' 368 144 ++ p_axis_tdata.extractLsb' (18 * 8) 368
      eth_type_is_ip4 := decide (eth_8021q_type p_axis_tdata = C_ETH_TYPE_IP4)
      eth_is_8021q := true }
  else
    { s with vid_shift_reg0 := 0, eth_payload := 0, eth_type_is_ip4 := false, eth_is_8021q := false }

/-- The second beat completes the payload. -/
def second_beat (s : Stage1) (p_axis_tdata : BitVec 512) : BitVec 512 :=
  if !s.eth_is_8021q then p_axis_tdata.extractLsb' 0 112 ++ s.eth_payload.extractLsb' 0 400
  else p_axis_tdata.extractLsb' 0 144 ++ s.eth_payload.extractLsb' 0 368

def Stage1.step (s : Stage1) (i : Input) : Stage1 :=
  match s.s1_state with
  | .S_S1_IDLE =>
    if i.p_axis_tvalid && i.p_axis_tready then
      if i.p_axis_tlast then
        { first_beat s i.p_axis_tdata with
          vid_shift_reg1 := s.vid_shift_reg0, eth_payload_valid := true, s1_state := .S_S1_IDLE }
      else
        { first_beat s i.p_axis_tdata with
          vid_shift_reg1 := s.vid_shift_reg1, eth_payload_valid := false, s1_state := .S_S1_MORE }
    else { s with vid_shift_reg0 := 0, vid_shift_reg1 := 0, eth_payload_valid := false }
  | .S_S1_MORE =>
    -- The state goes on even when there is no second beat yet.
    { s with
      vid_shift_reg0 := 0
      vid_shift_reg1 := s.vid_shift_reg0
      eth_payload :=
        if i.p_axis_tvalid && i.p_axis_tready then second_beat s i.p_axis_tdata else s.eth_payload
      eth_payload_valid := true
      s1_state := if i.p_axis_tlast then .S_S1_IDLE else .S_S1_PASS }
  | .S_S1_PASS =>
    { s with
      vid_shift_reg0 := 0
      vid_shift_reg1 := 0
      eth_payload_valid := false
      s1_state :=
        if i.p_axis_tvalid && i.p_axis_tlast && i.p_axis_tready then .S_S1_IDLE else .S_S1_PASS }

def ip4_ihl (s : Stage1) : BitVec 4 := (s.eth_payload.extractLsb' 0 8 &&& 0x0F).setWidth 4

def Stage2.step (s : Stage2) (s1 : Stage1) : Stage2 :=
  if s1.eth_payload_valid then
    { ip4_payload_valid := true
      ip4_payload :=
        if 5 ≤ (ip4_ihl s1).toNat then s1.eth_payload.extractLsb' ((ip4_ihl s1).toNat * 32) 32 else 0
      ip4_proto := if s1.eth_type_is_ip4 then s1.eth_payload.extractLsb' (9 * 8) 8 else 0
      ip4_src_addr := if s1.eth_type_is_ip4 then s1.eth_payload.extractLsb' (12 * 8) 32 else 0
      ip4_dst_addr := if s1.eth_type_is_ip4 then s1.eth_payload.extractLsb' (16 * 8) 32 else 0 }
  else { s with ip4_payload_valid := false }

def ip4_tuple (s : Stage2) : BitVec 72 := s.ip4_dst_addr ++ s.ip4_src_addr ++ s.ip4_proto

def get_hash_window (valid : Bool) (key : BitVec 320) (offset : Nat) : BitVec 32 :=
  if valid then key.extractLsb' offset 32 else 0

/-- The sum of the windows for `count` bits from the bit `first` on. -/
def xor_windows {w : Nat} (value : BitVec w) (key : BitVec 320) (offset first count : Nat) : BitVec 32 :=
  (List.range count).foldl
    (fun acc j => acc ^^^ get_hash_window (value.getLsbD (first + j)) key (offset + first + j)) 0

def Stage3.step (s : Stage3) (s1 : Stage1) (s2 : Stage2) (hash_key : BitVec 320) : Stage3 :=
  if s2.ip4_payload_valid then
    { hash_result_valid := true
      vid_hash := xor_windows s1.vid_shift_reg1 hash_key 0 0 4
      ip4_hash := fun k => xor_windows (ip4_tuple s2) hash_key 4 (k.val * 18) 18
      port_hash := fun k => xor_windows s2.ip4_payload hash_key 76 (k.val * 16) 16 }
  else { s with hash_result_valid := false }

def hash_result (s : Stage3) : BitVec 32 :=
  s.vid_hash ^^^ s.ip4_hash 0 ^^^ s.ip4_hash 1 ^^^ s.ip4_hash 2 ^^^ s.ip4_hash 3 ^^^ s.port_hash 0 ^^^
    s.port_hash 1

def step (hash_key : BitVec 320) (s : Regs) (i : Input) : Regs :=
  ⟨s.s1.step i, s.s2.step s.s1, s.s3.step s.s1 s.s2 hash_key⟩

def reset : Regs :=
  ⟨⟨.S_S1_IDLE, 0, 0, 0, false, false, false⟩, ⟨false, 0, 0, 0, 0⟩, ⟨false, 0, fun _ => 0, fun _ => 0⟩⟩

/-- What tells the flows apart: the transport protocol, the addresses and the ports. -/
structure Flow where
  proto : BitVec 8
  src_addr : BitVec 32
  dst_addr : BitVec 32
  ports : BitVec 32
  deriving DecidableEq

/-- The bits of a word, the least significant first. -/
def lsb_bits {w : Nat} (v : BitVec w) : List Bool := (List.range w).map v.getLsbD

/-- The hash of a flow; the place of the VLAN identifier comes first. -/
def Flow.hash (hash_key : BitVec 320) (f : Flow) : BitVec 32 :=
  toeplitz 32 hash_key
    (List.replicate 4 false ++ lsb_bits f.proto ++ lsb_bits f.src_addr ++ lsb_bits f.dst_addr ++
      lsb_bits f.ports)

/-- The number of words of the IPv4 header of a packet with this first beat. -/
def header_words (p_axis_tdata : BitVec 512) : Nat := (p_axis_tdata.extractLsb' (14 * 8) 4).toNat

/-- The flow of a packet with this first beat. -/
def Flow.of_packet (p_axis_tdata : BitVec 512) : Flow :=
  if eth_type p_axis_tdata = C_ETH_TYPE_IP4 then
    { proto := p_axis_tdata.extractLsb' (23 * 8) 8
      src_addr := p_axis_tdata.extractLsb' (26 * 8) 32
      dst_addr := p_axis_tdata.extractLsb' (30 * 8) 32
      ports :=
        if 5 ≤ header_words p_axis_tdata then
          p_axis_tdata.extractLsb' (14 * 8 + header_words p_axis_tdata * 32) 32
        else 0 }
  else ⟨0, 0, 0, 0⟩

/-- A packet without a VLAN tag, and with the whole IPv4 header and the ports in its first beat. -/
def Supported (p_axis_tdata : BitVec 512) : Prop :=
  eth_type p_axis_tdata ≠ C_ETH_TYPE_8021Q ∧
    (eth_type p_axis_tdata = C_ETH_TYPE_IP4 → header_words p_axis_tdata ≤ 11)

instance (p_axis_tdata : BitVec 512) : Decidable (Supported p_axis_tdata) :=
  inferInstanceAs (Decidable (_ ∧ _))

end reconic.qdma_subsystem_hash
