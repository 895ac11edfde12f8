import RecoNIC.Bits.NumeralText
import RecoNIC.Bits.Numerals
import RecoNIC.Rdma.Configuration

open bits mmio

namespace reconic.rdma_api

/-- `convert_ip_addr_to_uint`. An octet that `sscanf` does not reach stays 0. -/
def convert_ip_addr_to_uint (ip_addr : List Char) : BitVec 32 :=
  let octets := scan_ints 10 '.' 4 ip_addr
  let ip_char (i : Nat) : BitVec 32 := (BitVec.ofNat 8 (octets.getD i 0)).setWidth 32
  (ip_char 0 <<< 24) ||| (ip_char 1 <<< 16) ||| (ip_char 2 <<< 8) ||| ip_char 3

def convert_mac_addr_str_to_uint (mac_addr_str : List Char) : MacAddr :=
  let octets := scan_ints 16 ':' 6 mac_addr_str
  let mac_addr_array (i : Nat) : BitVec 32 := BitVec.ofNat 32 (octets.getD i 0)
  { mac_lsb := ((mac_addr_array 2 <<< 24) ||| (mac_addr_array 3 <<< 16) |||
      (mac_addr_array 4 <<< 8) ||| mac_addr_array 5) &&& 0xffffffff#32
    mac_msb := ((mac_addr_array 0 <<< 8) ||| mac_addr_array 1) &&& 0x0000ffff#32 }

/-- The arguments of `open_rdma_dev` besides the addresses, the port and the data buffers'
count and size. -/
structure Buffers where
  data_buf_baseaddr : BitVec 64
  ipkt_err_stat_q_size : BitVec 16
  ipkt_err_stat_q_baseaddr : BitVec 64
  num_err_buf : BitVec 16
  per_err_buf_size : BitVec 16
  err_buf_baseaddr : BitVec 64
  resp_err_pkt_buf_size : BitVec 64
  resp_err_pkt_buf_baseaddr : BitVec 64

/-- The size of buffers, with their count in the low half. -/
def data_buf_size (per_data_buf_size num_data_buf : BitVec 16) : BitVec 32 :=
  (per_data_buf_size.setWidth 32 <<< 16) ||| num_data_buf.setWidth 32

def xrnic_conf (udp_sport num_qp : BitVec 32) : BitVec 32 :=
  let reserved1 := 0#32
  let reserved2 := 0#32
  let err_buf_en := 1#32
  let tx_ack_gen := 0#32
  let en_ernic := 1#32
  let config_8bit := ((reserved1 <<< 6) &&& 0x000000c0#32) ||| ((err_buf_en <<< 5) &&& 0x00000020#32) |||
    ((tx_ack_gen <<< 3) &&& 0x00000018#32) ||| ((reserved2 <<< 1) &&& 0x00000006#32) |||
    (en_ernic &&& 0x00000001#32)
  ((udp_sport <<< 16) &&& 0xffff0000#32) ||| ((num_qp <<< 8) &&& 0x0000ff00#32) |||
    (config_8bit &&& 0x000000ff#32)

def xrnic_advanced_conf : BitVec 32 :=
  let sw_override_enable := 0#32
  let retry_cnt_fatal_dis := 1#32
  let base_count_width := 10#32
  let sw_override_qp_num := 0#32
  let config_16bit := 0x0000000f#32 &&&
    ((sw_override_enable &&& 0x00000001#32) ||| ((retry_cnt_fatal_dis <<< 2) &&& 0x00000004#32))
  config_16bit ||| ((base_count_width <<< 16) &&& 0x000f0000#32) |||
    ((sw_override_qp_num <<< 24) &&& 0xff000000#32)

def RdmaDev.open_rdma_dev (rdma_dev : RdmaDev) (local_mac : MacAddr) (local_ip udp_sport : BitVec 32)
    (num_data_buf per_data_buf_size : BitVec 16) (buffers : Buffers) : Program Stop Unit :=
  rdma_dev.config_rdma_global_csr
    { data_buf_size := data_buf_size per_data_buf_size num_data_buf
      data_buf_baseaddr := buffers.data_buf_baseaddr
      ipkt_err_stat_q_size := buffers.ipkt_err_stat_q_size
      ipkt_err_stat_q_baseaddr := buffers.ipkt_err_stat_q_baseaddr
      err_buf_baseaddr := buffers.err_buf_baseaddr
      err_buf_size := data_buf_size buffers.per_err_buf_size buffers.num_err_buf
      resp_err_pkt_buf_baseaddr := buffers.resp_err_pkt_buf_baseaddr
      resp_err_pkt_buf_size := buffers.resp_err_pkt_buf_size
      interrupt_enable := 0x000000ff#32
      src_mac := local_mac
      src_ip := local_ip
      xrnic_conf := xrnic_conf udp_sport rdma_dev.num_qp
      xrnic_advanced_conf := xrnic_advanced_conf }

/-- The values that a run writes to a register, in this order. -/
def written (writes : List (BitVec 32 × BitVec 32)) (register : Gcsr) : List Nat :=
  (writes.filter fun w => w.1 == register.address).map fun w => w.2.toNat

end reconic.rdma_api

namespace reconic.packet_gen

open reconic.rdma_api hiding xrnic_conf xrnic_advanced_conf

/-- `ernic_header.py` has the offsets of the registers without the base address. -/
def eh (register : Gcsr) : Nat := register.offset.toNat

def get_int32_ip : List Nat → Option Nat
  | [ip0, ip1, ip2, ip3] => some (ip3 <<< 24 ||| ip2 <<< 16 ||| ip1 <<< 8 ||| ip0)
  | _ => none

/-- The halves of an address, low and high. -/
def get_mac_addr (mac_str : List Char) : Option (Nat × Nat) :=
  match split_ints 16 ':' mac_str with
  | some (mac0 :: mac1 :: mac2 :: mac3 :: mac4 :: mac5 :: _) =>
    some (mac2 <<< 24 ||| mac3 <<< 16 ||| mac4 <<< 8 ||| mac5,
      (mac0 <<< 8 ||| mac1) &&& 0x0000ffff)
  | _ => none

/-- `self.ip_src` after `get_ip_list`. -/
def get_ip_src (ip_src_seed : List Char) : Option Nat :=
  (split_ints 10 '.' ip_src_seed).bind get_int32_ip

def data_buf_conf (dbuf_size num_dbuf : Nat) : Nat :=
  ((dbuf_size <<< 16) &&& 0xffff0000) ||| (num_dbuf &&& 0x0000ffff)

def xrnic_conf (udp_sport num_qp : Nat) : Nat :=
  let reserved1 := 0
  let reserved2 := 0
  let err_buf_en := 1
  let tx_ack_gen := 0
  let en_ernic := 1
  let config_8bit := ((reserved1 <<< 6) &&& 0x000000c0) ||| ((err_buf_en <<< 5) &&& 0x00000020) |||
    ((tx_ack_gen <<< 3) &&& 0x00000018) ||| ((reserved2 <<< 1) &&& 0x00000006) |||
    (en_ernic &&& 0x00000001)
  ((udp_sport <<< 16) &&& 0xffff0000) ||| ((num_qp <<< 8) &&& 0x0000ff00) |||
    (config_8bit &&& 0x000000ff)

def xrnic_advanced_conf : Nat :=
  let sw_override_enable := 0
  let retry_cnt_fatal_dis := 1
  let base_count_width := 10
  let sw_override_qp_num := 0
  let config_16bit := 0x0000000f &&&
    ((sw_override_enable &&& 0x00000001) ||| ((retry_cnt_fatal_dis <<< 2) &&& 0x00000004))
  (config_16bit &&& 0x0000ffff) ||| ((base_count_width <<< 16) &&& 0x000f0000) |||
    ((sw_override_qp_num <<< 24) &&& 0xff000000)

/-- A line of the configuration: a register and its value. -/
def config_str (entry : Nat × Nat) : List Char :=
  format_hex 8 entry.1 ++ ' ' :: format_hex 8 entry.2

/-- The registers that `gen_rdma_global_csr_config` configures, with their values. -/
def global_csr_entries (src_mac_lsb src_mac_msb src_ip udp_sport num_qp dbuf_size num_dbuf
    en_intr : Nat) : List (Nat × Nat) :=
  [(eh .IPKTERRQBA, 0x30000), (eh .IPKTERRQBAMSB, 0), (eh .IPKTERRQSZ, 1024),
    (eh .DATBUFSZ, data_buf_conf dbuf_size num_dbuf), (eh .DATBUFBA, 0x40000), (eh .DATBUFBAMSB, 0),
    (eh .ERRBUFBA, 0x50000), (eh .ERRBUFBAMSB, 0), (eh .ERRBUFSZ, data_buf_conf dbuf_size num_dbuf),
    (eh .RESPERRPKTBA, 0x60000), (eh .RESPERRPKTBAMSB, 0), (eh .RESPERRSZ, 0x10000),
    (eh .RESPERRSZMSB, 0), (eh .INTEN, en_intr &&& 0x000001ff), (eh .MACXADDLSB, src_mac_lsb),
    (eh .MACXADDMSB, src_mac_msb), (eh .IPV4XADD, src_ip), (eh .XRNICCONF, xrnic_conf udp_sport num_qp),
    (eh .XRNICADCONF, xrnic_advanced_conf)]

/-- An assertion refuses data buffers that need more than 64 KB. -/
def gen_rdma_global_csr_config (src_mac_lsb src_mac_msb src_ip udp_sport num_qp dbuf_size num_dbuf
    en_intr : Nat) : Option (List (List Char)) :=
  if dbuf_size * num_dbuf ≤ 64 * 1024 then
    some ((global_csr_entries src_mac_lsb src_mac_msb src_ip udp_sport num_qp dbuf_size num_dbuf
      en_intr).map config_str)
  else none

/-- The global part of `gen_rdma_configurations`. -/
def gen_rdma_configurations (eth_src_seed ip_src_seed : List Char) (udp_sport num_qp data_buffer_size
    num_data_buffer en_intr : Nat) : Option (List (List Char)) := do
  let (mac_src_lsb, mac_src_msb) ← get_mac_addr eth_src_seed
  let ip_src ← get_ip_src ip_src_seed
  gen_rdma_global_csr_config mac_src_lsb mac_src_msb ip_src udp_sport num_qp data_buffer_size
    num_data_buffer en_intr

/-- What the test bench reads in a line. -/
def read_config_str (line : List Char) : Nat × Nat := (hex_value (line.take 8), hex_value (line.drop 9))

/-- The values that a configuration holds for a register, in this order. -/
def configured (config : List (List Char)) (register : Gcsr) : List Nat :=
  ((config.map read_config_str).filter fun entry => entry.1 == eh register).map Prod.snd

/-- The registers that both sides have to give the same values. -/
def shared_registers : List Gcsr :=
  [.MACXADDLSB, .MACXADDMSB, .IPV4XADD, .XRNICCONF, .XRNICADCONF, .DATBUFSZ]

/-- A line holds the entry that it was made from. -/
theorem read_config_str_config_str {entry : Nat × Nat} (haddress : entry.1 < 2 ^ 32) :
    read_config_str (config_str entry) = entry := by
  have hlength : (format_hex 8 entry.1).length = 8 := format_hex_length (by decide) haddress
  have hline : config_str entry = (format_hex 8 entry.1 ++ [' ']) ++ format_hex 8 entry.2 := by
    simp [config_str]
  have hfront : (config_str entry).take 8 = format_hex 8 entry.1 := List.take_left' hlength
  have hback : (config_str entry).drop 9 = format_hex 8 entry.2 := by
    rw [hline]
    exact List.drop_left' (by simp [hlength])
  rw [read_config_str, hfront, hback, hex_value_format_hex, hex_value_format_hex]

theorem read_lines (entries : List (Nat × Nat)) (hentries : ∀ entry ∈ entries, entry.1 < 2 ^ 32) :
    (entries.map config_str).map read_config_str = entries := by
  rw [List.map_map]
  apply (List.map_congr_left fun entry hmem => ?_).trans (List.map_id _)
  exact read_config_str_config_str (hentries entry hmem)

/-- The values of `gen_rdma_global_csr_config`. -/
theorem configured_shared {src_mac_lsb src_mac_msb src_ip udp_sport num_qp dbuf_size num_dbuf
    en_intr : Nat} {config : List (List Char)}
    (hconfig : gen_rdma_global_csr_config src_mac_lsb src_mac_msb src_ip udp_sport num_qp dbuf_size
      num_dbuf en_intr = some config) :
    shared_registers.map (configured config) = [[src_mac_lsb], [src_mac_msb], [src_ip],
      [xrnic_conf udp_sport num_qp], [xrnic_advanced_conf], [data_buf_conf dbuf_size num_dbuf]] := by
  rw [gen_rdma_global_csr_config, Option.ite_none_right_eq_some] at hconfig
  obtain ⟨_, hconfig⟩ := hconfig
  cases hconfig
  have heh : ∀ register, eh register < 2 ^ 32 := fun register => register.offset.isLt
  have hlines := read_lines (global_csr_entries src_mac_lsb src_mac_msb src_ip udp_sport num_qp
    dbuf_size num_dbuf en_intr) (by simp [global_csr_entries, heh, -Nat.reducePow])
  simp only [shared_registers, List.map_cons, List.map_nil, configured, hlines]
  simp [global_csr_entries, eh, Gcsr.offset]

/-- The assertion on the data buffers. -/
theorem gen_rdma_global_csr_config_refuses (src_mac_lsb src_mac_msb src_ip udp_sport num_qp dbuf_size
    num_dbuf en_intr : Nat) :
    gen_rdma_global_csr_config src_mac_lsb src_mac_msb src_ip udp_sport num_qp dbuf_size num_dbuf
      en_intr = none ↔ 64 * 1024 < dbuf_size * num_dbuf := by
  rw [gen_rdma_global_csr_config, ite_eq_right_iff, ← Nat.not_le]
  simp

/-- The values of `open_rdma_dev`. -/
theorem written_shared (hardware : Nat → Regs → Regs) (time : Nat) (regs : Regs)
    (rdma_dev : RdmaDev) (local_mac : MacAddr) (local_ip udp_sport : BitVec 32)
    (num_data_buf per_data_buf_size : BitVec 16) (buffers : Buffers) :
    shared_registers.map (written ((rdma_dev.open_rdma_dev local_mac local_ip udp_sport num_data_buf
        per_data_buf_size buffers).run hardware time regs).writes) =
      [[local_mac.mac_lsb.toNat], [local_mac.mac_msb.toNat], [local_ip.toNat],
        [(rdma_api.xrnic_conf udp_sport rdma_dev.num_qp).toNat],
        [rdma_api.xrnic_advanced_conf.toNat],
        [(data_buf_size per_data_buf_size num_data_buf).toNat]] := by
  simp [shared_registers, written, RdmaDev.open_rdma_dev, RdmaDev.config_rdma_global_csr,
    Program.run, write32_data, bind, Program.bind, Gcsr.address, Gcsr.offset, RN_RDMA_BASE_ADDRESS]

theorem xrnic_conf_toNat (udp_sport num_qp : BitVec 32) :
    (rdma_api.xrnic_conf udp_sport num_qp).toNat = xrnic_conf udp_sport.toNat num_qp.toNat := by
  have hsport : ((udp_sport <<< 16) &&& 0xffff0000#32).toNat = udp_sport.toNat <<< 16 &&& 0xffff0000 := by
    rw [BitVec.toNat_and, BitVec.toNat_shiftLeft]
    exact mod_and_mask _ (by decide)
  have hqp : ((num_qp <<< 8) &&& 0x0000ff00#32).toNat = num_qp.toNat <<< 8 &&& 0x0000ff00 := by
    rw [BitVec.toNat_and, BitVec.toNat_shiftLeft]
    exact mod_and_mask _ (by decide)
  rw [rdma_api.xrnic_conf, xrnic_conf, BitVec.toNat_or, BitVec.toNat_or, hsport, hqp]
  rfl

theorem data_buf_size_toNat (per_data_buf_size num_data_buf : BitVec 16) :
    (data_buf_size per_data_buf_size num_data_buf).toNat =
      data_buf_conf per_data_buf_size.toNat num_data_buf.toNat := by
  have hsize : per_data_buf_size.toNat &&& 0xffff = per_data_buf_size.toNat :=
    (Nat.and_two_pow_sub_one_eq_mod _ 16).trans (Nat.mod_eq_of_lt per_data_buf_size.isLt)
  have hnum : num_data_buf.toNat &&& 0x0000ffff = num_data_buf.toNat :=
    (Nat.and_two_pow_sub_one_eq_mod _ 16).trans (Nat.mod_eq_of_lt num_data_buf.isLt)
  have hhigh : per_data_buf_size.toNat <<< 16 &&& 0xffff0000 = per_data_buf_size.toNat <<< 16 := by
    rw [show 0xffff0000 = 0xffff <<< 16 from rfl, ← Nat.shiftLeft_and_distrib, hsize]
  have hfits : per_data_buf_size.toNat <<< 16 < 2 ^ 32 := by
    have := per_data_buf_size.isLt
    rw [Nat.shiftLeft_eq]
    omega
  rw [data_buf_conf, hhigh, hnum, data_buf_size, BitVec.toNat_or, BitVec.toNat_shiftLeft,
    BitVec.toNat_setWidth_of_le (by decide), BitVec.toNat_setWidth_of_le (by decide),
    Nat.mod_eq_of_lt hfits]

/-- Four octets in a register, the first in front. -/
theorem octets_toNat (a b c d : BitVec 32) (ha : a.toNat < 256) (hb : b.toNat < 256)
    (hc : c.toNat < 256) (hd : d.toNat < 256) :
    ((a <<< 24) ||| (b <<< 16) ||| (c <<< 8) ||| d).toNat =
      a.toNat * 2 ^ 24 + b.toNat * 2 ^ 16 + c.toNat * 2 ^ 8 + d.toNat := by
  have hsmall : ∀ x n : Nat, x < 256 → n ≤ 24 → x <<< n % 2 ^ 32 = x <<< n := by
    intro x n hx hn
    apply Nat.mod_eq_of_lt
    rw [Nat.shiftLeft_eq]
    calc x * 2 ^ n < 256 * 2 ^ n := Nat.mul_lt_mul_of_pos_right hx (Nat.two_pow_pos n)
      _ ≤ 256 * 2 ^ 24 := Nat.mul_le_mul_left _ (Nat.pow_le_pow_right (by decide) hn)
  simp only [BitVec.toNat_or, BitVec.toNat_shiftLeft]
  rw [hsmall _ _ ha (by decide), hsmall _ _ hb (by decide), hsmall _ _ hc (by decide)]
  exact join_octets hb hc hd

section Addresses

variable {text : List Char} {m0 m1 m2 m3 m4 m5 : Byte}

/-- Both sides read a MAC address alike. -/
theorem convert_mac_eq (hmac : Spells 16 ':' text
    [m0.toNat, m1.toNat, m2.toNat, m3.toNat, m4.toNat, m5.toNat]) :
    get_mac_addr text = some ((convert_mac_addr_str_to_uint text).mac_lsb.toNat,
      (convert_mac_addr_str_to_uint text).mac_msb.toNat) := by
  have hsplit := hmac.split_ints (by decide) (by simp)
  have hscan : scan_ints 16 ':' 6 text = _ := hmac.scan_ints (by decide)
  have hoctet : ∀ m : Byte, (BitVec.ofNat 32 m.toNat).toNat = m.toNat := by
    intro m
    exact Nat.mod_eq_of_lt (Nat.lt_trans m.isLt (by decide))
  have hlsb : (convert_mac_addr_str_to_uint text).mac_lsb.toNat =
      m2.toNat * 2 ^ 24 + m3.toNat * 2 ^ 16 + m4.toNat * 2 ^ 8 + m5.toNat := by
    have hjoin := octets_toNat (.ofNat 32 m2.toNat) (.ofNat 32 m3.toNat) (.ofNat 32 m4.toNat)
      (.ofNat 32 m5.toNat)
    simp only [hoctet] at hjoin
    rw [← hjoin m2.isLt m3.isLt m4.isLt m5.isLt, convert_mac_addr_str_to_uint, hscan]
    exact congrArg BitVec.toNat (BitVec.and_allOnes)
  have hmsb : (convert_mac_addr_str_to_uint text).mac_msb.toNat =
      (m0.toNat <<< 8 ||| m1.toNat) &&& 0x0000ffff := by
    have hshift : m0.toNat <<< 8 % 2 ^ 32 = m0.toNat <<< 8 := by
      apply Nat.mod_eq_of_lt
      have := m0.isLt
      rw [Nat.shiftLeft_eq]
      omega
    simp only [convert_mac_addr_str_to_uint, hscan, List.getD_cons_zero, List.getD_cons_succ,
      BitVec.toNat_and, BitVec.toNat_or, BitVec.toNat_shiftLeft, hoctet, hshift]
    rfl
  rw [get_mac_addr, hsplit, hlsb, hmsb]
  simp only [join_octets m3.isLt m4.isLt m5.isLt]

/-- They read an IPv4 address in opposite orders. -/
theorem convert_ip_eq {a b c d : Byte} (hip : Spells 10 '.' text [a.toNat, b.toNat, c.toNat, d.toNat]) :
    (convert_ip_addr_to_uint text).toNat =
      a.toNat * 2 ^ 24 + b.toNat * 2 ^ 16 + c.toNat * 2 ^ 8 + d.toNat ∧
    get_ip_src text = some (d.toNat * 2 ^ 24 + c.toNat * 2 ^ 16 + b.toNat * 2 ^ 8 + a.toNat) := by
  have hsplit := hip.split_ints (by decide) (by simp)
  have hscan : scan_ints 10 '.' 4 text = _ := hip.scan_ints (by decide)
  constructor
  · have hjoin := octets_toNat (a.setWidth 32) (b.setWidth 32) (c.setWidth 32) (d.setWidth 32)
    simp only [BitVec.toNat_setWidth_of_le (by decide : 8 ≤ 32)] at hjoin
    simpa [convert_ip_addr_to_uint, hscan] using hjoin a.isLt b.isLt c.isLt d.isLt
  · rw [get_ip_src, hsplit, Option.bind_some, get_int32_ip, join_octets c.isLt b.isLt a.isLt]

/-- The simulation configures the engine for the halves of the MAC address that the host writes. -/
theorem gen_rdma_configurations_eq {ip_text : List Char} {a b c d : Byte}
    (hmac : Spells 16 ':' text
      [m0.toNat, m1.toNat, m2.toNat, m3.toNat, m4.toNat, m5.toNat])
    (hip : Spells 10 '.' ip_text [a.toNat, b.toNat, c.toNat, d.toNat])
    (udp_sport num_qp dbuf_size num_dbuf en_intr : Nat) :
    gen_rdma_configurations text ip_text udp_sport num_qp dbuf_size num_dbuf en_intr =
      gen_rdma_global_csr_config (convert_mac_addr_str_to_uint text).mac_lsb.toNat
        (convert_mac_addr_str_to_uint text).mac_msb.toNat
        (d.toNat * 2 ^ 24 + c.toNat * 2 ^ 16 + b.toNat * 2 ^ 8 + a.toNat) udp_sport num_qp dbuf_size
        num_dbuf en_intr := by
  simp only [gen_rdma_configurations, convert_mac_eq hmac, (convert_ip_eq hip).2,
    Option.bind_eq_bind, Option.bind_some]

end Addresses

/-- The host and the simulation give the registers one configuration exactly for the addresses
that read the same in both directions, where the simulation configures the engine at all. -/
theorem configuration_agrees_iff (hardware : Nat → Regs → Regs) (time : Nat) (regs : Regs)
    (rdma_dev : RdmaDev) {mac_text ip_text : List Char} {m0 m1 m2 m3 m4 m5 a b c d : Byte}
    (hmac : Spells 16 ':' mac_text
      [m0.toNat, m1.toNat, m2.toNat, m3.toNat, m4.toNat, m5.toNat])
    (hip : Spells 10 '.' ip_text [a.toNat, b.toNat, c.toNat, d.toNat]) (udp_sport : BitVec 32)
    (num_data_buf per_data_buf_size : BitVec 16) (buffers : Buffers) (en_intr : Nat) :
    let writes := ((rdma_dev.open_rdma_dev (convert_mac_addr_str_to_uint mac_text)
      (convert_ip_addr_to_uint ip_text) udp_sport num_data_buf per_data_buf_size buffers).run
        hardware time regs).writes
    let config := gen_rdma_configurations mac_text ip_text udp_sport.toNat rdma_dev.num_qp.toNat
      per_data_buf_size.toNat num_data_buf.toNat en_intr
    (config.isSome = true ↔ per_data_buf_size.toNat * num_data_buf.toNat ≤ 64 * 1024) ∧
      ((∀ lines, config = some lines → ∀ register ∈ shared_registers,
          written writes register = configured lines register) ↔
        (a = d ∧ b = c) ∨ 64 * 1024 < per_data_buf_size.toNat * num_data_buf.toNat) := by
  intro writes config
  have hconfig : config = gen_rdma_global_csr_config _ _ _ _ _ _ _ _ :=
    gen_rdma_configurations_eq hmac hip ..
  have hrefused : config = none ↔ 64 * 1024 < per_data_buf_size.toNat * num_data_buf.toNat := by
    rw [hconfig, gen_rdma_global_csr_config_refuses]
  have hagree : ∀ lines, config = some lines → ((∀ register ∈ shared_registers,
      written writes register = configured lines register) ↔ a = d ∧ b = c) := by
    intro lines hlines
    have hadvanced : rdma_api.xrnic_advanced_conf.toNat = xrnic_advanced_conf := rfl
    rw [← List.map_inj_left, written_shared, configured_shared (hconfig.symm.trans hlines),
      xrnic_conf_toNat, data_buf_size_toNat, (convert_ip_eq hip).1, hadvanced]
    simp only [List.cons.injEq, and_true, true_and, ← BitVec.toNat_inj]
    have ha := a.isLt
    have hb := b.isLt
    have hc := c.isLt
    have hd := d.isLt
    omega
  cases hlines : config with
  | none =>
    have hbig := hrefused.mp hlines
    simp [hbig]
  | some lines =>
    have hfits : ¬64 * 1024 < per_data_buf_size.toNat * num_data_buf.toNat := by
      intro hbig
      rw [hrefused.mpr hbig] at hlines
      cases hlines
    refine ⟨by simpa using hfits, ?_⟩
    rw [or_iff_left hfits, ← hagree lines hlines]
    constructor
    · intro h
      exact h lines rfl
    · rintro h lines' hsame
      cases hsame
      exact h

/-- A device with eight queue pairs. -/
def config_example_dev : RdmaDev :=
  create_rdma_dev ⟨0x7f0000000000#64, 0xa000#64, 0#64⟩ 0x7e0000000000#64 8#8 win_size

/-- 00:0A:35:02:9d:e5 -/
def mac_example : List Char :=
  ['0', '0', ':', '0', 'A', ':', '3', '5', ':', '0', '2', ':', '9', 'd', ':', 'e', '5']

def buffers_example : Buffers where
  data_buf_baseaddr := 0xa350000000040000#64
  ipkt_err_stat_q_size := 1024
  ipkt_err_stat_q_baseaddr := 0xa350000000030000#64
  num_err_buf := 16
  per_err_buf_size := 4096
  err_buf_baseaddr := 0xa350000000050000#64
  resp_err_pkt_buf_size := 0x10000#64
  resp_err_pkt_buf_baseaddr := 0xa350000000060000#64

theorem mac_example_spells : Spells 16 ':' mac_example
    [(0x00#8).toNat, (0x0a#8).toNat, (0x35#8).toNat, (0x02#8).toNat, (0x9d#8).toNat,
      (0xe5#8).toNat] :=
  spells_intercalate 16 ':'
    [['0', '0'], ['0', 'A'], ['3', '5'], ['0', '2'], ['9', 'd'], ['e', '5']] rfl

/-- The address 10.1.1.10. -/
theorem configuration_agrees_palindrome :
    let writes := ((config_example_dev.open_rdma_dev (convert_mac_addr_str_to_uint mac_example)
      (convert_ip_addr_to_uint ['1', '0', '.', '1', '.', '1', '.', '1', '0']) 0x4321#32 16#16 4096#16
        buffers_example).run (fun _ regs => regs) 0 fun _ => 0).writes
    ∀ lines, gen_rdma_configurations mac_example ['1', '0', '.', '1', '.', '1', '.', '1', '0'] 0x4321
      8 4096 16 0xff = some lines → ∀ register ∈ shared_registers,
        written writes register = configured lines register := by
  have hip : Spells 10 '.' ['1', '0', '.', '1', '.', '1', '.', '1', '0']
      [(10#8).toNat, (1#8).toNat, (1#8).toNat, (10#8).toNat] :=
    spells_intercalate 10 '.' [['1', '0'], ['1'], ['1'], ['1', '0']] rfl
  exact (configuration_agrees_iff (fun _ regs => regs) 0 (fun _ => 0) config_example_dev
    mac_example_spells hip 0x4321#32 16#16 4096#16 buffers_example 0xff).2.mpr (.inl ⟨rfl, rfl⟩)

/-- The address 10.0.0.2, which the two sides write in opposite orders. -/
theorem configuration_differs :
    let writes := ((config_example_dev.open_rdma_dev (convert_mac_addr_str_to_uint mac_example)
      (convert_ip_addr_to_uint ['1', '0', '.', '0', '.', '0', '.', '2']) 0x4321#32 16#16 4096#16
        buffers_example).run (fun _ regs => regs) 0 fun _ => 0).writes
    ∃ lines, gen_rdma_configurations mac_example ['1', '0', '.', '0', '.', '0', '.', '2'] 0x4321
      8 4096 16 0xff = some lines ∧ written writes .IPV4XADD = [0x0a000002] ∧
        configured lines .IPV4XADD = [0x0200000a] := by
  refine ⟨_, rfl, ?_, ?_⟩ <;> decide

end reconic.packet_gen
