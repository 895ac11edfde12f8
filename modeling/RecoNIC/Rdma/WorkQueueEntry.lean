import RecoNIC.Rdma.Device
import RecoNIC.Rdma.MemoryApi

open bits
open reconic.memory_api (Answer write_from_buffer write_from_buffer_spec write_from_buffer_returns)
open reconic.rdma_buff (is_device_address DEVICE_MEMORY_ADDRESS_MASK)

namespace reconic.rdma_api

inductive WqeField where
  | wrid
  | reserved
  | laddr_low
  | laddr_high
  | length
  | opcode
  | remote_offset_low
  | remote_offset_high
  | r_key
  | send_small_payload0
  | send_small_payload1
  | send_small_payload2
  | send_small_payload3
  | immdt_data
  | reserved0
  | reserved1
  | reserved2
  deriving DecidableEq

/-- `rdma_wqe_t`: two fields of 16 bits and then fields of 32 bits. -/
def rdma_wqe_t : Layout WqeField where
  fields := [.wrid, .reserved, .laddr_low, .laddr_high, .length, .opcode, .remote_offset_low,
    .remote_offset_high, .r_key, .send_small_payload0, .send_small_payload1, .send_small_payload2,
    .send_small_payload3, .immdt_data, .reserved0, .reserved1, .reserved2]
  size
    | .wrid | .reserved => 2
    | _ => 4
  nodup := by decide

/-- No field needs padding in front of it: each lies at a multiple of its size. -/
theorem rdma_wqe_t_aligned :
    (∀ field ∈ rdma_wqe_t.fields, rdma_wqe_t.offset field % rdma_wqe_t.size field = 0) ∧
      rdma_wqe_t.total = 64 := by
  decide

theorem WqeField.mem_fields (field : WqeField) : field ∈ rdma_wqe_t.fields := by
  cases field <;> decide

/-- The arguments of `create_a_wqe` that go into the entry. -/
structure WorkRequest where
  wrid : BitVec 16
  laddr : BitVec 64
  length : BitVec 32
  opcode : BitVec 32
  remote_offset : BitVec 64
  r_key : BitVec 32
  send_small_payload0 : BitVec 32
  send_small_payload1 : BitVec 32
  send_small_payload2 : BitVec 32
  send_small_payload3 : BitVec 32
  immdt_data : BitVec 32

/-- The two halves of the local address, low and high. That of a host buffer is masked
with the window size. -/
def masked_laddr (winSize : WinSize) (laddr : BitVec 64) : BitVec 32 × BitVec 32 :=
  let high_addr := ((laddr &&& 0xffffffff00000000#64) >>> 32).setWidth 32
  let low_addr := (laddr &&& 0x00000000ffffffff#64).setWidth 32
  if is_device_address laddr then (low_addr, high_addr)
  else (low_addr &&& winSize.win_size_lsb, high_addr &&& winSize.win_size_msb)

/-- `wqe->field = value`. -/
def set_field (wqe : BitVec 64) (field : WqeField) (value : Nat) (m : Memory) : Memory :=
  m.store (wqe + BitVec.ofNat 64 (rdma_wqe_t.offset field))
    (little_endian (rdma_wqe_t.size field) value)

/-- The stores of `create_a_wqe`, from its `memset` on. -/
def fill_wqe (winSize : WinSize) (r : WorkRequest) (wqe : BitVec 64) (m : Memory) : Memory :=
  let (low_addr, high_addr) := masked_laddr winSize r.laddr
  let m := m.store wqe (List.replicate rdma_wqe_t.total 0#8)
  let m := set_field wqe .wrid r.wrid.toNat m
  let m := set_field wqe .laddr_low low_addr.toNat m
  let m := set_field wqe .laddr_high high_addr.toNat m
  let m := set_field wqe .opcode (r.opcode &&& 0x000000ff#32).toNat m
  let m := set_field wqe .length r.length.toNat m
  let m := set_field wqe .remote_offset_low
    ((r.remote_offset &&& 0x00000000ffffffff#64).setWidth 32).toNat m
  let m := set_field wqe .remote_offset_high
    (((r.remote_offset &&& 0xffffffff00000000#64) >>> 32).setWidth 32).toNat m
  let m := set_field wqe .r_key r.r_key.toNat m
  let m := set_field wqe .send_small_payload0 r.send_small_payload0.toNat m
  let m := set_field wqe .send_small_payload1 r.send_small_payload1.toNat m
  let m := set_field wqe .send_small_payload2 r.send_small_payload2.toNat m
  let m := set_field wqe .send_small_payload3 r.send_small_payload3.toNat m
  set_field wqe .immdt_data r.immdt_data.toNat m

/-- The memory of the host and that of the device. -/
structure Memories where
  host : Memory
  device : Memory

/-- `create_a_wqe`. The block that `malloc` returns is a memory of its own, with any
contents: nothing else uses it, and it is freed before the call returns. -/
def create_a_wqe (rdma_dev : RdmaDev) (heap : Memory) (block : BitVec 64) (answers : Nat → Answer)
    (qpid wqe_idx : BitVec 32) (r : WorkRequest) (s : Memories) : Except Stop Unit × Memories :=
  match rdma_dev.qp qpid with
  | .error stop => (.error stop, s)
  | .ok qp =>
    let place := wqe_idx.setWidth 64 * BitVec.ofNat 64 rdma_wqe_t.total
    if is_device_address qp.sq.dma_addr then
      let heap := fill_wqe rdma_dev.winSize r block heap
      match write_from_buffer heap answers block rdma_wqe_t.total (qp.sq.dma_addr + place) s.device with
      | (none, device) => (.error .exit, { s with device := device })
      | (some _, device) => (.ok (), { s with device := device })
    else
      (.ok (), { s with host := fill_wqe rdma_dev.winSize r (qp.sq.buffer + place) s.host })

/-- The 128 digits of the entry in a line of `gen_rdma_wqe`. -/
def wqe_digits (wrid payload_addr payload_len opcode remote_offset remote_key send_data
    immdt_data : Nat) : List Char :=
  format_hex 24 0 ++ format_hex 8 immdt_data ++ format_hex 32 send_data ++ format_hex 8 remote_key ++
    format_hex 16 remote_offset ++ format_hex 8 opcode ++ format_hex 8 payload_len ++
      format_hex 16 payload_addr ++ format_hex 8 wrid

/-- `gen_rdma_wqe`: the address of the entry, the entry, and its length in bytes. -/
def gen_rdma_wqe (qpid_sq_dict : Nat → Nat) (qpid wrid ith_wqe payload_addr payload_len opcode
    remote_offset remote_key send_data immdt_data : Nat) : List Char :=
  let sq_wqe_offset := qpid_sq_dict qpid + ith_wqe * 64
  format_hex 16 sq_wqe_offset ++ ' ' :: wqe_digits wrid payload_addr payload_len opcode remote_offset
    remote_key send_data immdt_data ++ ' ' :: format_hex 4 64

/-- The values of the fields of an entry. -/
def wqe_value (winSize : WinSize) (r : WorkRequest) : WqeField → Nat
  | .wrid => r.wrid.toNat
  | .laddr_low => (masked_laddr winSize r.laddr).1.toNat
  | .laddr_high => (masked_laddr winSize r.laddr).2.toNat
  | .length => r.length.toNat
  | .opcode => (r.opcode &&& 0x000000ff#32).toNat
  | .remote_offset_low => ((r.remote_offset &&& 0x00000000ffffffff#64).setWidth 32).toNat
  | .remote_offset_high => (((r.remote_offset &&& 0xffffffff00000000#64) >>> 32).setWidth 32).toNat
  | .r_key => r.r_key.toNat
  | .send_small_payload0 => r.send_small_payload0.toNat
  | .send_small_payload1 => r.send_small_payload1.toNat
  | .send_small_payload2 => r.send_small_payload2.toNat
  | .send_small_payload3 => r.send_small_payload3.toNat
  | .immdt_data => r.immdt_data.toNat
  | .reserved | .reserved0 | .reserved1 | .reserved2 => 0

theorem set_field_encode (m : Memory) (wqe : BitVec 64) (value : WqeField → Nat) (field : WqeField)
    (x : Nat) : set_field wqe field x (m.store wqe (rdma_wqe_t.encode value)) =
      m.store wqe (rdma_wqe_t.encode (Function.update value field x)) :=
  rdma_wqe_t.store_field m wqe value field.mem_fields (by decide) x

/-- The stores leave the bytes of the entry, and touch no others. -/
theorem fill_wqe_eq (winSize : WinSize) (r : WorkRequest) (wqe : BitVec 64) (m : Memory) :
    fill_wqe winSize r wqe m = m.store wqe (rdma_wqe_t.encode (wqe_value winSize r)) := by
  rw [fill_wqe, ← rdma_wqe_t.encode_zero]
  simp only [set_field_encode]
  congr 2
  funext field
  cases field <;> simp [wqe_value]

/-- The local address as a number. Below the window size the mask does nothing. -/
theorem masked_laddr_value {laddr : BitVec 64}
    (hladdr : is_device_address laddr = true ∨ laddr.toNat < 2 ^ 40) :
    (masked_laddr win_size laddr).1.toNat + 2 ^ 32 * (masked_laddr win_size laddr).2.toNat =
      laddr.toNat := by
  have hlow := low_word_toNat laddr
  have hhigh := high_word_toNat laddr
  rw [masked_laddr]
  by_cases hdevice : is_device_address laddr = true
  · rw [if_pos hdevice]
    simp only [hlow, hhigh]
    omega
  · have hsmall : laddr.toNat < 2 ^ 40 := hladdr.resolve_left hdevice
    have hlsb := and_mask_toNat ((laddr &&& 0x00000000ffffffff#64).setWidth 32)
      win_size.win_size_lsb 32 (by decide)
    have hmsb := and_mask_toNat (((laddr &&& 0xffffffff00000000#64) >>> 32).setWidth 32)
      win_size.win_size_msb 8 (by decide)
    rw [if_neg hdevice]
    simp only [hlsb, hmsb, hlow, hhigh]
    omega

def WorkRequest.send_data (r : WorkRequest) : Nat :=
  r.send_small_payload0.toNat + 2 ^ 32 * r.send_small_payload1.toNat +
    2 ^ 64 * r.send_small_payload2.toNat + 2 ^ 96 * r.send_small_payload3.toNat

/-- The entry that `gen_rdma_wqe` lays out for the arguments of a request. -/
def WorkRequest.digits (r : WorkRequest) : List Char :=
  wqe_digits r.wrid.toNat r.laddr.toNat r.length.toNat r.opcode.toNat r.remote_offset.toNat
    r.r_key.toNat r.send_data r.immdt_data.toNat

/-- The line of `gen_rdma_wqe` for them. -/
def WorkRequest.line (r : WorkRequest) (qpid_sq_dict : Nat → Nat) (qpid wqe_idx : BitVec 32) :
    List Char :=
  gen_rdma_wqe qpid_sq_dict qpid.toNat r.wrid.toNat wqe_idx.toNat r.laddr.toNat r.length.toNat
    r.opcode.toNat r.remote_offset.toNat r.r_key.toNat r.send_data r.immdt_data.toNat

/-- `init_mem` scans the address, the entry and its length from that line. -/
theorem WorkRequest.line_fields (r : WorkRequest) (qpid_sq_dict : Nat → Nat)
    (qpid wqe_idx : BitVec 32) : hex_fields (r.line qpid_sq_dict qpid wqe_idx) =
      [qpid_sq_dict qpid.toNat + wqe_idx.toNat * 64, hex_value r.digits, 64] := by
  have hline : r.line qpid_sq_dict qpid wqe_idx = [' '].intercalate
      [format_hex 16 (qpid_sq_dict qpid.toNat + wqe_idx.toNat * 64), r.digits, format_hex 4 64] := by
    simp [WorkRequest.line, gen_rdma_wqe, WorkRequest.digits, List.intercalate]
  have hdigits : ' ' ∉ r.digits := by
    simp [WorkRequest.digits, wqe_digits, blank_notMem_format_hex]
  rw [hline, hex_fields_intercalate (by simp)]
  · simp only [List.map_cons, List.map_nil, hex_value_format_hex]
  · simp only [List.forall_mem_cons, blank_notMem_format_hex, hdigits, not_false_iff, true_and]
    exact fun _ hmem => absurd hmem List.not_mem_nil

/-- The fields make up the number that the digits stand for. -/
theorem word_eq_hex_value (r : WorkRequest) (hopcode : r.opcode.toNat < 256)
    (hladdr : is_device_address r.laddr = true ∨ r.laddr.toNat < 2 ^ 40) :
    rdma_wqe_t.word (wqe_value win_size r) = hex_value r.digits := by
  have haddress := masked_laddr_value hladdr
  have hoffset_low := low_word_toNat r.remote_offset
  have hoffset_high := high_word_toNat r.remote_offset
  have hop : (r.opcode &&& 0x000000ff#32).toNat = r.opcode.toNat :=
    (and_mask_toNat r.opcode _ 8 (by decide)).trans (Nat.mod_eq_of_lt hopcode)
  have hword : ∀ x : BitVec 32, (format_hex 8 x.toNat).length = 8 := fun x =>
    format_hex_length (by decide) x.isLt
  have hlong : ∀ x : BitVec 64, (format_hex 16 x.toNat).length = 16 := fun x =>
    format_hex_length (by decide) x.isLt
  have hwrid : (format_hex 8 r.wrid.toNat).length = 8 :=
    format_hex_length (by decide) (Nat.lt_trans r.wrid.isLt (by decide))
  have hsend : (format_hex 32 r.send_data).length = 32 := by
    refine format_hex_length (by decide) ?_
    have h0 := r.send_small_payload0.isLt
    have h1 := r.send_small_payload1.isLt
    have h2 := r.send_small_payload2.isLt
    have h3 := r.send_small_payload3.isLt
    rw [WorkRequest.send_data]
    omega
  have hdigits : hex_value r.digits = r.wrid.toNat + 2 ^ 32 * (r.laddr.toNat + 2 ^ 64 *
      (r.length.toNat + 2 ^ 32 * (r.opcode.toNat + 2 ^ 32 * (r.remote_offset.toNat + 2 ^ 64 *
        (r.r_key.toNat + 2 ^ 32 * (r.send_data + 2 ^ 128 * r.immdt_data.toNat)))))) := by
    simp only [WorkRequest.digits, wqe_digits, hex_value_append, hex_value_format_hex, hword, hlong,
      hwrid, hsend]
    ring
  have hfields : rdma_wqe_t.word (wqe_value win_size r) = r.wrid.toNat + 2 ^ 32 *
      (((masked_laddr win_size r.laddr).1.toNat +
          2 ^ 32 * (masked_laddr win_size r.laddr).2.toNat) + 2 ^ 64 *
        (r.length.toNat + 2 ^ 32 * (r.opcode.toNat + 2 ^ 32 * ((r.remote_offset.toNat % 2 ^ 32 +
          2 ^ 32 * (r.remote_offset.toNat / 2 ^ 32)) + 2 ^ 64 * (r.r_key.toNat + 2 ^ 32 *
            (r.send_data + 2 ^ 128 * r.immdt_data.toNat)))))) := by
    simp only [Layout.word, rdma_wqe_t, List.foldr_cons, List.foldr_nil, wqe_value, hoffset_low,
      hoffset_high, hop, WorkRequest.send_data]
    ring
  rw [hfields, hdigits, haddress, Nat.mod_add_div]

theorem wqe_value_lt (winSize : WinSize) (r : WorkRequest) :
    ∀ field ∈ rdma_wqe_t.fields, wqe_value winSize r field < 256 ^ rdma_wqe_t.size field := by
  intro field _
  cases field with
  | wrid => exact r.wrid.isLt
  | reserved | reserved0 | reserved1 | reserved2 => exact Nat.pos_of_ne_zero (by decide)
  | _ => exact BitVec.isLt _

/-- The bytes of an entry are those of the 512-bit word of `gen_rdma_wqe`. -/
theorem encode_eq_gen_rdma_wqe (r : WorkRequest) (hopcode : r.opcode.toNat < 256)
    (hladdr : is_device_address r.laddr = true ∨ r.laddr.toNat < 2 ^ 40) :
    rdma_wqe_t.encode (wqe_value win_size r) = little_endian 64 (hex_value r.digits) := by
  rw [rdma_wqe_t.encode_eq_little_endian _ (wqe_value_lt win_size r),
    word_eq_hex_value r hopcode hladdr, rdma_wqe_t_aligned.2]

theorem store_entry (m : Memory) (address : BitVec 64) {bytes : List Byte}
    (hlength : bytes.length = 64) :
    (m.store address bytes).load address 64 = bytes ∧
      ∀ a, 64 ≤ (a - address).toNat → m.store address bytes a = m a := by
  refine ⟨?_, fun a ha => m.store_outside (by omega)⟩
  have hload := m.load_store address bytes (by omega)
  rwa [hlength] at hload

/-- A send queue in the host memory. -/
theorem create_a_wqe_host (rdma_dev : RdmaDev) (heap : Memory) (block : BitVec 64)
    (answers : Nat → Answer) {qpid : BitVec 32} (wqe_idx : BitVec 32) (r : WorkRequest)
    (s : Memories) {qp : QueuePair} (hqp : rdma_dev.qp qpid = .ok qp)
    (hhost : is_device_address qp.sq.dma_addr = false) :
    create_a_wqe rdma_dev heap block answers qpid wqe_idx r s = (.ok (), { s with
      host := s.host.store (qp.sq.buffer + wqe_idx.setWidth 64 * 64#64)
        (rdma_wqe_t.encode (wqe_value rdma_dev.winSize r)) }) := by
  simp only [create_a_wqe, hqp, hhost, Bool.false_eq_true, if_false, fill_wqe_eq,
    rdma_wqe_t_aligned.2]

/-- A send queue in the device memory: a first part of the entry arrives there, and the
whole entry when the call returns. -/
theorem create_a_wqe_device (rdma_dev : RdmaDev) (heap : Memory) (block : BitVec 64)
    (answers : Nat → Answer) {qpid : BitVec 32} (wqe_idx : BitVec 32) (r : WorkRequest)
    (s : Memories) {qp : QueuePair} (hqp : rdma_dev.qp qpid = .ok qp)
    (hdevice : is_device_address qp.sq.dma_addr = true) :
    let result := create_a_wqe rdma_dev heap block answers qpid wqe_idx r s
    let place := (qp.sq.dma_addr + wqe_idx.setWidth 64 * 64#64) &&& DEVICE_MEMORY_ADDRESS_MASK
    let entry := rdma_wqe_t.encode (wqe_value rdma_dev.winSize r)
    result.2.host = s.host ∧
      (∃ written ≤ 64, result.2.device = s.device.store place (entry.take written) ∧
        (result.1 = .ok () → written = 64)) ∧
      ((answers 0).lseek = place.toInt → (answers 0).write = 64 → result.1 = .ok ()) := by
  intro result place entry
  have hentry : entry.length = 64 := rdma_wqe_t.encode_length _
  have hspec := write_from_buffer_spec (heap.store block entry) answers block 64 (by decide)
    (qp.sq.dma_addr + wqe_idx.setWidth 64 * 64#64) s.device
  have hreturns := write_from_buffer_returns (heap.store block entry) answers block 64 (by decide)
    (qp.sq.dma_addr + wqe_idx.setWidth 64 * 64#64) s.device
  have hload : ∀ n ≤ 64, (heap.store block entry).load block n = entry.take n := by
    intro n hn
    have hwhole := (store_entry heap block hentry).1
    obtain ⟨rest, hrest⟩ := Nat.exists_eq_add_of_le hn
    rw [hrest, Memory.load_add] at hwhole
    exact (List.take_left' (Memory.load_length ..)).symm.trans (congrArg (List.take n) hwhole)
  simp only [result, create_a_wqe, hqp, hdevice, if_true, fill_wqe_eq, rdma_wqe_t_aligned.2]
  obtain ⟨written, hwritten, hstored, hall⟩ := hspec
  rw [hload written hwritten] at hstored
  cases hcall : write_from_buffer (heap.store block entry) answers block 64
      (qp.sq.dma_addr + wqe_idx.setWidth 64 * 64#64) s.device with
  | mk rc device =>
    rw [hcall] at hstored hall hreturns
    cases rc with
    | none =>
      refine ⟨rfl, ⟨written, hwritten, hstored, by simp⟩, fun hseek hwrite => ?_⟩
      exact absurd (hreturns hseek hwrite) (by simp)
    | some n => exact ⟨rfl, ⟨written, hwritten, hstored, fun _ => (hall n rfl).2⟩, fun _ _ => rfl⟩

/-- One format: the 64 bytes of an entry are the 512-bit word in the line of `gen_rdma_wqe`
for the same arguments, in the host memory as in the device memory, and no other byte
changes. -/
theorem create_a_wqe_agrees (rdma_dev : RdmaDev) (heap : Memory) (block : BitVec 64)
    (answers : Nat → Answer) (qpid wqe_idx : BitVec 32) (r : WorkRequest) (s : Memories)
    (qpid_sq_dict : Nat → Nat) {qp : QueuePair} (hqp : rdma_dev.qp qpid = .ok qp)
    (hwin : rdma_dev.winSize = win_size) (hopcode : r.opcode.toNat < 256)
    (hladdr : is_device_address r.laddr = true ∨ r.laddr.toNat < 2 ^ 40) :
    let result := create_a_wqe rdma_dev heap block answers qpid wqe_idx r s
    let host_place := qp.sq.buffer + wqe_idx.setWidth 64 * 64#64
    let device_place := (qp.sq.dma_addr + wqe_idx.setWidth 64 * 64#64) &&& DEVICE_MEMORY_ADDRESS_MASK
    ∃ word < 256 ^ 64, hex_fields (r.line qpid_sq_dict qpid wqe_idx) =
        [qpid_sq_dict qpid.toNat + wqe_idx.toNat * 64, word, 64] ∧
      (is_device_address qp.sq.dma_addr = false →
        result.1 = .ok () ∧ result.2.device = s.device ∧
        result.2.host.load host_place 64 = little_endian 64 word ∧
        ∀ a, 64 ≤ (a - host_place).toNat → result.2.host a = s.host a) ∧
      (is_device_address qp.sq.dma_addr = true →
        ((answers 0).lseek = device_place.toInt → (answers 0).write = 64 → result.1 = .ok ()) ∧
        result.2.host = s.host ∧
        (result.1 = .ok () → result.2.device.load device_place 64 = little_endian 64 word) ∧
        ∀ a, 64 ≤ (a - device_place).toNat → result.2.device a = s.device a) := by
  have hentry := encode_eq_gen_rdma_wqe r hopcode hladdr
  have hword := rdma_wqe_t.word_lt (wqe_value_lt win_size r)
  rw [rdma_wqe_t_aligned.2, word_eq_hex_value r hopcode hladdr] at hword
  rw [← hwin] at hentry
  have hlength : (little_endian 64 (hex_value r.digits)).length = 64 := little_endian_length ..
  refine ⟨_, hword, r.line_fields qpid_sq_dict qpid wqe_idx, fun hhost => ?_, fun hdevice => ?_⟩
  · obtain ⟨hload, hothers⟩ := store_entry s.host
      (qp.sq.buffer + wqe_idx.setWidth 64 * 64#64) hlength
    rw [create_a_wqe_host rdma_dev heap block answers wqe_idx r s hqp hhost, hentry]
    exact ⟨rfl, rfl, hload, hothers⟩
  · obtain ⟨hsame, ⟨written, hwritten, hstored, hall⟩, hreturns⟩ :=
      create_a_wqe_device rdma_dev heap block answers wqe_idx r s hqp hdevice
    rw [hentry] at hstored
    refine ⟨hreturns, hsame, fun hreturned => ?_, fun a ha => ?_⟩
    · rw [hstored, hall hreturned, List.take_of_length_le (by omega)]
      exact (store_entry s.device _ hlength).1
    · rw [hstored]
      exact s.device.store_outside (by rw [List.length_take]; omega)

/-- Queue pairs 1 and 2. The send queue of the first is in the host memory, that of the second
in the device memory. -/
def wqe_example_dev : RdmaDev where
  rn_dev := ⟨0x7f0000000000#64, 0xa000#64, 0x9000#64⟩
  axil_ctl := 0x7e0000000000#64
  num_qp := 3
  qps_ptr := [none,
    some
      { qpid := 1
        pd_entry := 0x7d0000000000#64
        sq := ⟨0x7f0000000000#64, 0x240000000#64, 0x1000#32⟩
        cq := ⟨0x7f0000001000#64, 0x240001000#64, 0x100#32⟩
        rq := ⟨0x7f0000002000#64, 0x240002000#64, 0x8000#32⟩
        sq_psn := none
        last_rq_psn := none
        send := ⟨64, 0, 0, 0⟩
        receive := ⟨0x7f0000002000, 64, 0, 0⟩ },
    some
      { qpid := 2
        pd_entry := 0x7d0000001000#64
        sq := ⟨0xa350000000000000#64, 0xa350000000000000#64, 0x1000#32⟩
        cq := ⟨0xa350000000001000#64, 0xa350000000001000#64, 0x100#32⟩
        rq := ⟨0xa350000000002000#64, 0xa350000000002000#64, 0x8000#32⟩
        sq_psn := none
        last_rq_psn := none
        send := ⟨64, 0, 0, 0⟩
        receive := ⟨0xa350000000002000, 64, 0, 0⟩ }]
  winSize := win_size

/-- An RDMA write from a buffer in the device memory. -/
def wqe_example : WorkRequest where
  wrid := 7
  laddr := 0xa350000000001000#64
  length := 0x400
  opcode := 0
  remote_offset := 0x7f12345678ab#64
  r_key := 8
  send_small_payload0 := 0
  send_small_payload1 := 0
  send_small_payload2 := 0
  send_small_payload3 := 0
  immdt_data := 0

/-- The request is entry 3 of the first queue pair, and entry 5 of the second. -/
theorem create_a_wqe_example :
    (∃ word, hex_fields (wqe_example.line (fun _ => 0x10000) 1 3) = [0x100c0, word, 64] ∧
      (create_a_wqe wqe_example_dev (fun _ => 0) 0 (fun _ => ⟨0, 0⟩) 1 3 wqe_example
        ⟨fun _ => 0, fun _ => 0⟩).2.host.load 0x7f00000000c0#64 64 = little_endian 64 word) ∧
    ∃ word, hex_fields (wqe_example.line (fun _ => 0x20000) 2 5) = [0x20140, word, 64] ∧
      (create_a_wqe wqe_example_dev (fun _ => 0) 0 (fun _ => ⟨0x140, 64⟩) 2 5 wqe_example
        ⟨fun _ => 0, fun _ => 0⟩).2.device.load 0x140#64 64 = little_endian 64 word := by
  obtain ⟨word, -, hline, hhost, -⟩ := create_a_wqe_agrees wqe_example_dev (fun _ => 0) 0
    (fun _ => ⟨0, 0⟩) 1 3 wqe_example ⟨fun _ => 0, fun _ => 0⟩ (fun _ => 0x10000) rfl rfl (by decide)
    (.inl (by decide))
  obtain ⟨word', -, hline', -, hdevice⟩ := create_a_wqe_agrees wqe_example_dev (fun _ => 0) 0
    (fun _ => ⟨0x140, 64⟩) 2 5 wqe_example ⟨fun _ => 0, fun _ => 0⟩ (fun _ => 0x20000) rfl rfl
    (by decide) (.inl (by decide))
  obtain ⟨-, -, hstored, -⟩ := hhost (by decide)
  obtain ⟨hreturns, -, hwritten, -⟩ := hdevice (by decide)
  exact ⟨⟨word, hline, hstored⟩, word', hline', hwritten (hreturns (by decide) rfl)⟩

end reconic.rdma_api
