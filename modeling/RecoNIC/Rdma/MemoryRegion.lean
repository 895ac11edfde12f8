import RecoNIC.Bits.Numerals
import RecoNIC.Rdma.Configuration

open bits mmio
open reconic.rdma_buff (RdmaBuff BufLocation RnDev is_device_address allocate_rdma_buffer)

namespace reconic.rdma_api

/-- The entry of a protection domain in the PD table. -/
def pd_entry (regs : Regs) (pd_num : BitVec 32) (register : Pdt) : BitVec 32 :=
  regs (get_rdma_pd_config_addr register.address pd_num)

/-- The 48-bit length of the memory region. -/
def region_length (entry : Pdt → BitVec 32) : BitVec 48 :=
  (entry .ACCESSDESC).extractLsb' 16 16 ++ entry .WRRDBUFLEN

/-- The address under which the device reaches a buffer. -/
def device_view (winSize : WinSize) (dma_addr : BitVec 64) : BitVec 64 :=
  if is_device_address dma_addr then dma_addr
  else dma_addr &&& (winSize.win_size_msb ++ winSize.win_size_lsb)

/-- An entry describes the whole of a buffer of `size` bytes. -/
structure Describes (entry : Pdt → BitVec 32) (winSize : WinSize) (rdma_pd : RdmaPd)
    (rdma_buf : RdmaBuff) (size : BitVec 64) : Prop where
  length : (region_length entry).toNat = size.toNat
  access : (entry .ACCESSDESC).extractLsb' 0 16 = rdma_pd.pd_access_type
  base : (entry .BUFBASEADDRMSB ++ entry .BUFBASEADDRLSB : BitVec 64) =
    device_view winSize rdma_buf.dma_addr
  virtual : (entry .VIRTADDRMSB ++ entry .VIRTADDRLSB : BitVec 64) = rdma_buf.buffer

theorem pd_config_addr_inj (pd_num : BitVec 32) (register other : Pdt) :
    get_rdma_pd_config_addr register.address pd_num = get_rdma_pd_config_addr other.address pd_num ↔
      register = other := by
  rw [get_rdma_pd_config_addr, get_rdma_pd_config_addr, BitVec.add_left_inj]
  cases register <;> cases other <;> decide

/-- The halves of a word, put together again. -/
theorem halves_append (x : BitVec 64) :
    (((x >>> 32) &&& 0x00000000ffffffff#64).setWidth 32 ++
      (x &&& 0x00000000ffffffff#64).setWidth 32 : BitVec 64) = x := by
  have hlow := low_word_toNat x
  have hhigh := shifted_word_toNat x
  apply BitVec.eq_of_toNat_eq
  rw [append_toNat, hlow, hhigh]
  omega

theorem masked_word (word : BitVec 64) (mask : BitVec 32) :
    (word &&& mask.setWidth 64).setWidth 32 = word.setWidth 32 &&& mask := by
  rw [BitVec.setWidth_and, BitVec.setWidth_setWidth_of_le _ (by decide), BitVec.setWidth_eq]

theorem masked_dma_addr_append (winSize : WinSize) (dma_addr : BitVec 64) :
    ((masked_dma_addr winSize dma_addr).2 ++ (masked_dma_addr winSize dma_addr).1 : BitVec 64) =
      device_view winSize dma_addr := by
  rw [masked_dma_addr, device_view]
  split
  · exact halves_append dma_addr
  · simp only [masked_word]
    rw [← BitVec.and_append, halves_append]

theorem pd_entry_update (regs : Regs) (pd_num value : BitVec 32) (register other : Pdt) :
    pd_entry (Function.update regs (get_rdma_pd_config_addr register.address pd_num) value) pd_num
        other =
      if other = register then value else pd_entry regs pd_num other := by
  rw [pd_entry, Function.update_apply]
  simp only [pd_config_addr_inj, pd_entry]

theorem access_lower (pd_access_type : BitVec 16) :
    (pd_access_type.setWidth 32).extractLsb' 0 16 = pd_access_type := by
  have hlimit := pd_access_type.isLt
  apply BitVec.eq_of_toNat_eq
  rw [BitVec.extractLsb'_toNat, BitVec.toNat_setWidth, Nat.shiftRight_zero]
  omega

theorem access_upper (pd_access_type : BitVec 16) :
    (pd_access_type.setWidth 32).extractLsb' 16 16 = 0#16 := by
  have hlimit := pd_access_type.isLt
  apply BitVec.eq_of_toNat_eq
  rw [BitVec.extractLsb'_toNat, BitVec.toNat_setWidth, Nat.shiftRight_eq_div_pow, BitVec.toNat_zero]
  omega

/-- The registers of an entry after the registration, on hardware that keeps what is written
to them. -/
theorem register_memory_region_entry {hardware : Nat → Regs → Regs} {rdma_pd : RdmaPd}
    (hkept : ∀ time regs register, pd_entry (hardware time regs) rdma_pd.pd_num register =
      pd_entry regs rdma_pd.pd_num register)
    {rdma_dev : RdmaDev} (hvalid : rdma_dev.axil_ctl ≠ 0) (r_key : BitVec 32) (rdma_buf : RdmaBuff)
    (time : Nat) (regs : Regs) :
    let entry := pd_entry ((rdma_dev.rdma_register_memory_region rdma_pd r_key rdma_buf).run
      hardware time regs).regs rdma_pd.pd_num
    entry .VIRTADDRLSB = (rdma_buf.buffer &&& 0x00000000ffffffff#64).setWidth 32 ∧
      entry .VIRTADDRMSB = ((rdma_buf.buffer >>> 32) &&& 0x00000000ffffffff#64).setWidth 32 ∧
      entry .BUFBASEADDRLSB = (masked_dma_addr rdma_dev.winSize rdma_buf.dma_addr).1 ∧
      entry .BUFBASEADDRMSB = (masked_dma_addr rdma_dev.winSize rdma_buf.dma_addr).2 ∧
      entry .WRRDBUFLEN = rdma_buf.buf_size ∧
      entry .ACCESSDESC = rdma_pd.pd_access_type.setWidth 32 := by
  simp only [RdmaDev.rdma_register_memory_region, if_neg hvalid, run_write, run_last_write,
    pd_entry_update, hkept, reduceCtorEq, if_true, if_false]
  have hmsb : rdma_buf.buf_size.setWidth 64 >>> 32 = 0#64 := by
    have hlimit := rdma_buf.buf_size.isLt
    apply BitVec.eq_of_toNat_eq
    rw [BitVec.toNat_ushiftRight, BitVec.toNat_setWidth, Nat.shiftRight_eq_div_pow, BitVec.toNat_zero]
    omega
  refine ⟨trivial, trivial, trivial, trivial, ?_, ?_⟩
  · rw [BitVec.setWidth_setWidth_of_le _ (by decide), BitVec.setWidth_eq]
  · rw [hmsb, BitVec.zero_and]
    exact BitVec.zero_or

/-- An allocated buffer keeps the lower 32 bits of its size. -/
theorem allocate_rdma_buffer_buf_size {get_buffer_paddr : BitVec 64 → BitVec 64}
    {rn_dev rn_dev' : RnDev} {size : BitVec 64} {buf_location : BufLocation} {rdma_buf : RdmaBuff}
    (halloc : allocate_rdma_buffer get_buffer_paddr rn_dev size buf_location =
      some (rdma_buf, rn_dev')) : rdma_buf.buf_size.toNat = size.toNat % 2 ^ 32 := by
  have hsize : rdma_buf.buf_size = size.setWidth 32 := by
    cases buf_location with
    | host_mem =>
      cases halloc
      rfl
    | dev_mem =>
      simp only [allocate_rdma_buffer] at halloc
      split at halloc <;> cases halloc
      rfl
    | unknown => cases halloc
  rw [hsize, BitVec.toNat_setWidth]

/-- The registration of a buffer describes the whole of it exactly when its size fits in the 32
bits of `buf_size`. -/
theorem register_memory_region_describes_iff (get_buffer_paddr : BitVec 64 → BitVec 64)
    (rn_dev rn_dev' : RnDev) (size : BitVec 64) (buf_location : BufLocation) (rdma_buf : RdmaBuff)
    (halloc : allocate_rdma_buffer get_buffer_paddr rn_dev size buf_location =
      some (rdma_buf, rn_dev'))
    (hardware : Nat → Regs → Regs) (rdma_pd : RdmaPd)
    (hkept : ∀ time regs register, pd_entry (hardware time regs) rdma_pd.pd_num register =
      pd_entry regs rdma_pd.pd_num register)
    (rdma_dev : RdmaDev) (hvalid : rdma_dev.axil_ctl ≠ 0) (r_key : BitVec 32) (time : Nat)
    (regs : Regs) :
    let after := (rdma_dev.rdma_register_memory_region rdma_pd r_key rdma_buf).run hardware time regs
    Describes (pd_entry after.regs rdma_pd.pd_num) rdma_dev.winSize rdma_pd rdma_buf size ↔
      size.toNat < 2 ^ 32 := by
  intro after
  have hbuf_size := allocate_rdma_buffer_buf_size halloc
  obtain ⟨hvirt_lsb, hvirt_msb, hbase_lsb, hbase_msb, hlength, haccess⟩ :=
    register_memory_region_entry hkept hvalid r_key rdma_buf time regs
  have hregion : (region_length (pd_entry after.regs rdma_pd.pd_num)).toNat = size.toNat % 2 ^ 32 := by
    rw [region_length, append_toNat, haccess, hlength, hbuf_size, access_upper, BitVec.toNat_zero]
    omega
  refine ⟨fun hdescribes => ?_, fun hsmall => ?_⟩
  · have hwhole := hdescribes.length
    omega
  · exact
      { length := by rw [hregion, Nat.mod_eq_of_lt hsmall]
        access := by rw [haccess, access_lower]
        base := by rw [hbase_lsb, hbase_msb, masked_dma_addr_append]
        virtual := by rw [hvirt_lsb, hvirt_msb, halves_append] }

/-- The whole device memory in one buffer is registered with the length 0. -/
theorem whole_device_memory_region :
    let rdma_dev : RdmaDev := ⟨⟨0, 0, 0⟩, 1, 8, [], win_size⟩
    let rdma_buf : RdmaBuff := ⟨0xa350000000000000, 0xa350000000000000, 0⟩
    allocate_rdma_buffer id rdma_dev.rn_dev 0x100000000 .dev_mem =
        some (rdma_buf, ⟨0, 0, 0x100000000⟩) ∧
      ¬Describes (pd_entry ((rdma_dev.rdma_register_memory_region ⟨0, 2⟩ 7 rdma_buf).run
        (fun _ regs => regs) 0 fun _ => 0).regs 0) rdma_dev.winSize ⟨0, 2⟩ rdma_buf 0x100000000 := by
  intro rdma_dev rdma_buf
  refine ⟨by decide, fun hdescribes => ?_⟩
  exact absurd hdescribes.length (by decide)

/-- A buffer of two pages in the device memory. -/
theorem two_pages_memory_region :
    let rdma_dev : RdmaDev := ⟨⟨0, 0, 0⟩, 1, 8, [], win_size⟩
    let rdma_buf : RdmaBuff := ⟨0xa350000000000000, 0xa350000000000000, 8192⟩
    Describes (pd_entry ((rdma_dev.rdma_register_memory_region ⟨0, 2⟩ 7 rdma_buf).run
      (fun _ regs => regs) 0 fun _ => 0).regs 0) rdma_dev.winSize ⟨0, 2⟩ rdma_buf 8192 := by
  intro rdma_dev rdma_buf
  exact (register_memory_region_describes_iff id ⟨0, 0, 0⟩ ⟨0, 0, 8192⟩ 8192 .dev_mem rdma_buf
    (by decide) (fun _ regs => regs) ⟨0, 2⟩ (fun _ _ _ => rfl) rdma_dev (by decide) 7 0
    fun _ => 0).mpr (by decide)

end reconic.rdma_api
