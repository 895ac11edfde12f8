import Mathlib.Tactic.IntervalCases
import RecoNIC.Rdma.Configuration
import RecoNIC.Rdma.WorkQueueEntry

open bits mmio
open reconic.rdma_buff (is_device_address)

namespace reconic.rdma_api

def RN_QDMA_CSR_BASE_ADDRESS : BitVec 32 := 0x00014000#32

def AXIB_BDF_ADDR_TRANSLATE_ADDR_LSB : BitVec 32 := RN_QDMA_CSR_BASE_ADDRESS + 0x00002420#32

def AXIB_BDF_ADDR_TRANSLATE_ADDR_MSB : BitVec 32 := RN_QDMA_CSR_BASE_ADDRESS + 0x00002424#32

def AXIB_BDF_PASID_RESERVED_ADDR : BitVec 32 := RN_QDMA_CSR_BASE_ADDRESS + 0x00002428#32

def AXIB_BDF_FUNCTION_NUM_ADDR : BitVec 32 := RN_QDMA_CSR_BASE_ADDRESS + 0x0000242C#32

def AXIB_BDF_MAP_CONTROL_ADDR : BitVec 32 := RN_QDMA_CSR_BASE_ADDRESS + 0x00002430#32

def AXIB_BDF_RESERVED_ADDR : BitVec 32 := RN_QDMA_CSR_BASE_ADDRESS + 0x00002434#32

def bdf_win_size_in_4Kpage : BitVec 32 :=
  ((((AXI_BAR_SIZE >>> 3) + 1#64) >>> 12) &&& 0x00000000ffffffff#64).setWidth 32

def bdf_win_config : BitVec 32 := 0xC0000000#32 ||| bdf_win_size_in_4Kpage

/-- One turn of the loop of `config_rn_dev_axib_bdf`. -/
def config_window (bdf_addr_high bdf_addr_low : BitVec 32) (i : Nat) : Program Stop Unit := do
  let step := BitVec.ofNat 32 (i * 0x20)
  write32_data (AXIB_BDF_ADDR_TRANSLATE_ADDR_LSB + step) bdf_addr_low
  write32_data (AXIB_BDF_ADDR_TRANSLATE_ADDR_MSB + step) (bdf_addr_high + step)
  write32_data (AXIB_BDF_PASID_RESERVED_ADDR + step) 0
  write32_data (AXIB_BDF_FUNCTION_NUM_ADDR + step) 0
  write32_data (AXIB_BDF_MAP_CONTROL_ADDR + step) bdf_win_config
  write32_data (AXIB_BDF_RESERVED_ADDR + step) 0

/-- `config_rn_dev_axib_bdf`. The result is what it stores in `rn_dev->winSize`. -/
def config_rn_dev_axib_bdf (high_addr low_addr : BitVec 32) : Program Stop WinSize := do
  let bdf_addr_mask_high := ADDR_MASK - win_size.win_size_msb
  let bdf_addr_mask_low := ADDR_MASK - win_size.win_size_lsb
  (List.range 8).forM (config_window (high_addr &&& bdf_addr_mask_high) (low_addr &&& bdf_addr_mask_low))
  return win_size

/-- The translation base of a window of the slave bridge. -/
def window_base (regs : Regs) (i : Nat) : BitVec 64 :=
  regs (AXIB_BDF_ADDR_TRANSLATE_ADDR_MSB + BitVec.ofNat 32 (i * 0x20)) ++
    regs (AXIB_BDF_ADDR_TRANSLATE_ADDR_LSB + BitVec.ofNat 32 (i * 0x20))

/-- Bits 25 to 0 of the map control of a window count pages of 4 KB. -/
def window_size (regs : Regs) (i : Nat) : Nat :=
  ((regs (AXIB_BDF_MAP_CONTROL_ADDR + BitVec.ofNat 32 (i * 0x20))).extractLsb 25 0).toNat * 4096

/-- The slave bridge: eight windows of `2 ^ 37` bytes, one behind the other. -/
def bridge_translate (regs : Regs) (address : BitVec 64) : BitVec 64 :=
  window_base regs (address.toNat / 2 ^ 37) + BitVec.ofNat 64 (address.toNat % 2 ^ 37)

/-- The registers that software has configured. -/
def configured (high_addr low_addr : BitVec 32) (regs : Regs) : Run Stop WinSize :=
  (config_rn_dev_axib_bdf high_addr low_addr).run (fun _ regs => regs) 0 regs

theorem configured_registers (high_addr low_addr : BitVec 32) (regs : Regs) {i : Nat} (hi : i < 8) :
    let after := (configured high_addr low_addr regs).regs
    let step := BitVec.ofNat 32 (i * 0x20)
    after (AXIB_BDF_ADDR_TRANSLATE_ADDR_MSB + step) = (high_addr &&& 0xffffff00#32) + step ∧
      after (AXIB_BDF_ADDR_TRANSLATE_ADDR_LSB + step) = low_addr &&& 0#32 ∧
      after (AXIB_BDF_MAP_CONTROL_ADDR + step) = 0xC2000000#32 := by
  interval_cases i <;> exact ⟨rfl, rfl, rfl⟩

theorem configured_outcome (high_addr low_addr : BitVec 32) (regs : Regs) :
    (configured high_addr low_addr regs).outcome = .ok win_size := rfl

theorem window_base_toNat (high_addr low_addr : BitVec 32) (regs : Regs) {i : Nat} (hi : i < 8) :
    (window_base (configured high_addr low_addr regs).regs i).toNat =
      (high_addr.toNat / 2 ^ 8 * 2 ^ 8 + i * 32) * 2 ^ 32 := by
  obtain ⟨hmsb, hlsb, -⟩ := configured_registers high_addr low_addr regs hi
  have hlow := and_mask_toNat high_addr 0x000000ff#32 8 (by decide)
  have hsplit := and_split_toNat high_addr 0xffffff00#32 0x000000ff#32 (by decide) (by decide)
  have hbound := high_addr.isLt
  rw [window_base, append_toNat, hmsb, hlsb, BitVec.toNat_add, BitVec.toNat_ofNat, BitVec.and_zero,
    BitVec.toNat_zero]
  omega

/-- The windows lie one behind the other at the masked base: the bridge puts the upper
bits of the base in front of an address. -/
theorem bridge_translate_toNat (high_addr low_addr : BitVec 32) (regs : Regs) {address : BitVec 64}
    (haddress : address.toNat < 2 ^ 40) :
    (bridge_translate (configured high_addr low_addr regs).regs address).toNat =
      high_addr.toNat / 2 ^ 8 * 2 ^ 40 + address.toNat := by
  have hwindow : address.toNat / 2 ^ 37 < 8 := by omega
  have hbase := window_base_toNat high_addr low_addr regs hwindow
  have hbound := high_addr.isLt
  rw [bridge_translate, BitVec.toNat_add, hbase, BitVec.toNat_ofNat]
  omega

theorem window_size_eq (high_addr low_addr : BitVec 32) (regs : Regs) {i : Nat} (hi : i < 8) :
    window_size (configured high_addr low_addr regs).regs i = 2 ^ 37 := by
  rw [window_size, (configured_registers high_addr low_addr regs hi).2.2]
  decide

theorem masked_baseaddr_value {address : BitVec 64} (hhost : is_device_address address = false) :
    let halves := masked_baseaddr win_size address
    (halves.2 ++ halves.1).toNat = address.toNat % 2 ^ 40 := by
  have hlow := low_word_toNat address
  have hhigh := shifted_word_toNat address
  have hlsb := and_mask_toNat ((address &&& 0x00000000ffffffff#64).setWidth 32)
    win_size.win_size_lsb 32 (by decide)
  have hmsb := and_mask_toNat (((address >>> 32) &&& 0x00000000ffffffff#64).setWidth 32)
    win_size.win_size_msb 8 (by decide)
  simp only [masked_baseaddr, hhost, Bool.false_eq_true, if_false, append_toNat, hlsb, hmsb, hlow,
    hhigh]
  omega

theorem masked_dma_addr_value {address : BitVec 64} (hhost : is_device_address address = false) :
    let halves := masked_dma_addr win_size address
    (halves.2 ++ halves.1).toNat = address.toNat % 2 ^ 40 := by
  have hlsb := and_mask_toNat (address &&& 0x00000000ffffffff#64)
    (win_size.win_size_lsb.setWidth 64) 32 (by decide)
  have hmsb := and_mask_toNat ((address >>> 32) &&& 0x00000000ffffffff#64)
    (win_size.win_size_msb.setWidth 64) 8 (by decide)
  have hlow := and_mask_toNat address 0x00000000ffffffff#64 32 (by decide)
  have hhigh := and_mask_toNat (address >>> 32) 0x00000000ffffffff#64 32 (by decide)
  simp only [masked_dma_addr, hhost, Bool.false_eq_true, if_false, append_toNat,
    BitVec.toNat_setWidth, hlsb, hmsb, hlow, hhigh, BitVec.toNat_ushiftRight,
    Nat.shiftRight_eq_div_pow]
  omega

theorem masked_laddr_low_bits {address : BitVec 64} (hhost : is_device_address address = false) :
    let halves := masked_laddr win_size address
    (halves.2 ++ halves.1).toNat = address.toNat % 2 ^ 40 := by
  have hlow := low_word_toNat address
  have hhigh := high_word_toNat address
  have hlsb := and_mask_toNat ((address &&& 0x00000000ffffffff#64).setWidth 32)
    win_size.win_size_lsb 32 (by decide)
  have hmsb := and_mask_toNat (((address &&& 0xffffffff00000000#64) >>> 32).setWidth 32)
    win_size.win_size_msb 8 (by decide)
  simp only [masked_laddr, hhost, Bool.false_eq_true, if_false, append_toNat, hlsb, hmsb, hlow, hhigh]
  omega

/-- All masks of a host address keep its lowest 40 bits. -/
theorem masked_value {address : BitVec 64} (hhost : is_device_address address = false) :
    ∀ halves ∈ [masked_baseaddr win_size address, masked_dma_addr win_size address,
        masked_laddr win_size address],
      (halves.2 ++ halves.1).toNat = address.toNat % 2 ^ 40 := by
  simp only [List.forall_mem_cons, List.not_mem_nil, false_imp_iff, implies_true, and_true]
  exact ⟨masked_baseaddr_value hhost, masked_dma_addr_value hhost, masked_laddr_low_bits hhost⟩

/-- Masking and the windows of the bridge undo each other. A host address in the same
`2 ^ 40` bytes as the base comes back from every mask of the library, and every window
has `2 ^ 37` bytes. -/
theorem window_translation (high_addr low_addr : BitVec 32) (address : BitVec 64) (regs : Regs)
    (hhost : is_device_address address = false)
    (hbase : address >>> 40 = (high_addr ++ low_addr : BitVec 64) >>> 40) :
    (configured high_addr low_addr regs).outcome = .ok win_size ∧
    (∀ halves ∈ [masked_baseaddr win_size address, masked_dma_addr win_size address,
        masked_laddr win_size address],
      bridge_translate (configured high_addr low_addr regs).regs (halves.2 ++ halves.1) = address) ∧
    ∀ i < 8, window_size (configured high_addr low_addr regs).regs i = 2 ^ 37 := by
  refine ⟨configured_outcome .., ?_, fun i hi => window_size_eq high_addr low_addr regs hi⟩
  intro halves hhalves
  have hvalue := masked_value hhost halves hhalves
  have hupper := congrArg BitVec.toNat hbase
  rw [BitVec.toNat_ushiftRight, BitVec.toNat_ushiftRight, append_toNat, Nat.shiftRight_eq_div_pow,
    Nat.shiftRight_eq_div_pow] at hupper
  have hlow := low_addr.isLt
  apply BitVec.eq_of_toNat_eq
  rw [bridge_translate_toNat high_addr low_addr regs (by omega), hvalue]
  omega

/-- The base of a region just below a window border, and an address behind the border. -/
theorem window_translation_example :
    (configured 0x1f#32 0xffe00000#32 fun _ => 0).outcome = .ok win_size ∧
    (∀ halves ∈ [masked_baseaddr win_size 0x2000001234#64, masked_dma_addr win_size 0x2000001234#64,
        masked_laddr win_size 0x2000001234#64],
      bridge_translate (configured 0x1f#32 0xffe00000#32 fun _ => 0).regs (halves.2 ++ halves.1) =
        0x2000001234#64) ∧
    ∀ i < 8, window_size (configured 0x1f#32 0xffe00000#32 fun _ => 0).regs i = 2 ^ 37 :=
  window_translation 0x1f#32 0xffe00000#32 0x2000001234#64 (fun _ => 0) (by decide) (by decide)

end reconic.rdma_api
