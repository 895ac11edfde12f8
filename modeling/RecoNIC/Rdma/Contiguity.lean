import RecoNIC.Paging.Contiguous
import RecoNIC.Rdma.HostRegion

open bits paging

namespace reconic.rdma_buff

/-- `get_page_frame_number_of_address`. The file holds eight bytes for every page of 4 KB,
of which seven are read; a read behind its end gives -1. -/
def get_page_frame_number_of_address (pagemap : Nat → Option (BitVec 64)) (addr : BitVec 64) :
    BitVec 64 :=
  match pagemap (addr.toNat / 4096) with
  | none => BitVec.allOnes 64
  | some entry => (entry.setWidth 56).setWidth 64 &&& 0x7fffffffffffff#64

def get_buffer_paddr (pagemap : Nat → Option (BitVec 64)) (buffer : BitVec 64) : BitVec 64 :=
  let page_frame_number := get_page_frame_number_of_address pagemap buffer
  let distance_from_page_boundary := BitVec.ofNat 32 (buffer.toNat % 4096)
  (page_frame_number <<< 12) + distance_from_page_boundary.setWidth 64

/-- The region that `create_rn_dev` has mapped. Its huge pages lie in different frames of
2 MB, in a physical memory of at most `2 ^ 52` bytes, and bits 54 to 0 of a pagemap entry
are the number of the frame of 4 KB. -/
structure HugePages where
  base_buf : BitVec 64
  num_hugepages_request : BitVec 32
  frame : Nat → Nat
  pagemap : Nat → Option (BitVec 64)
  aligned : base_buf.toNat % 2 ^ 21 = 0
  room : base_buf.toNat + (mapped_bytes num_hugepages_request).toNat ≤ 2 ^ 64
  injective : ∀ h h', h * 2 ^ 21 < (mapped_bytes num_hugepages_request).toNat →
    h' * 2 ^ 21 < (mapped_bytes num_hugepages_request).toNat → frame h = frame h' → h = h'
  physical : ∀ h, h * 2 ^ 21 < (mapped_bytes num_hugepages_request).toNat → frame h < 2 ^ 31
  entries : ∀ o < (mapped_bytes num_hugepages_request).toNat, ∃ entry,
    pagemap ((base_buf.toNat + o) / 4096) = some entry ∧
      entry.toNat % 2 ^ 55 = frame (o / 2 ^ 21) * 512 + o % 2 ^ 21 / 4096

def HugePages.region (pages : HugePages) : Nat := (mapped_bytes pages.num_hugepages_request).toNat

/-- What `get_buffer_paddr` reads in the region. -/
theorem get_buffer_paddr_toNat (pages : HugePages) {o : Nat} (ho : o < pages.region) :
    (get_buffer_paddr pages.pagemap (pages.base_buf + BitVec.ofNat 64 o)).toNat =
      phys (2 ^ 21) pages.frame o := by
  have hroom := pages.room
  have haligned := pages.aligned
  obtain ⟨entry, hentry, hvalue⟩ := pages.entries o ho
  have hframe := pages.physical (o / 2 ^ 21) (by rw [HugePages.region] at ho; omega)
  have haddress : (pages.base_buf + BitVec.ofNat 64 o).toNat = pages.base_buf.toNat + o := by
    rw [HugePages.region] at ho
    rw [BitVec.toNat_add, BitVec.toNat_ofNat]
    omega
  have hnumber : (get_page_frame_number_of_address pages.pagemap
      (pages.base_buf + BitVec.ofNat 64 o)).toNat =
        pages.frame (o / 2 ^ 21) * 512 + o % 2 ^ 21 / 4096 := by
    rw [get_page_frame_number_of_address, haddress, hentry]
    simp only
    rw [and_mask_toNat _ _ 55 (by decide), BitVec.toNat_setWidth, BitVec.toNat_setWidth]
    omega
  rw [get_buffer_paddr, phys, BitVec.toNat_add, BitVec.toNat_shiftLeft, hnumber, haddress,
    BitVec.toNat_setWidth, BitVec.toNat_ofNat, Nat.shiftLeft_eq]
  omega

/-- A block of the region is contiguous for the hardware when it is in the frames. -/
theorem contiguous_at (pages : HugePages) {start size : Nat} (hend : start + size ≤ pages.region) :
    (∀ k < size,
        get_buffer_paddr pages.pagemap (pages.base_buf + BitVec.ofNat 64 start + BitVec.ofNat 64 k) =
          get_buffer_paddr pages.pagemap (pages.base_buf + BitVec.ofNat 64 start) +
            BitVec.ofNat 64 k) ↔
      ∀ k < size, phys (2 ^ 21) pages.frame (start + k) = phys (2 ^ 21) pages.frame start + k := by
  refine forall_congr' fun k => imp_congr_right fun hk => ?_
  have hregion : pages.region < 2 ^ 32 := BitVec.isLt _
  have hthere := get_buffer_paddr_toNat pages (o := start + k) (by omega)
  have hstart := get_buffer_paddr_toNat pages (o := start) (by omega)
  have hsum : pages.base_buf + BitVec.ofNat 64 start + BitVec.ofNat 64 k =
      pages.base_buf + BitVec.ofNat 64 (start + k) := by
    rw [BitVec.ofNat_add, BitVec.add_assoc]
  have hbound : phys (2 ^ 21) pages.frame start < 2 ^ 52 := by
    have hframe := pages.physical (start / 2 ^ 21) (by rw [HugePages.region] at hend; omega)
    rw [phys]
    omega
  rw [hsum, ← BitVec.toNat_inj, hthere, BitVec.toNat_add, hstart, BitVec.toNat_ofNat,
    Nat.mod_eq_of_lt (by omega), Nat.mod_eq_of_lt (by omega)]

/-- What the hardware assumes of a buffer: the page mapping follows its DMA address. -/
def Contiguous (pages : HugePages) (a : Allocation) : Prop :=
  ∀ k < a.size.toNat, get_buffer_paddr pages.pagemap (a.buff.buffer + BitVec.ofNat 64 k) =
    a.buff.dma_addr + BitVec.ofNat 64 k

theorem contiguous_allocation_iff (pages : HugePages) {a : Allocation}
    (hbuffer : a.buff.buffer = pages.base_buf + a.offset)
    (hdma : a.buff.dma_addr = get_buffer_paddr pages.pagemap a.buff.buffer)
    (hend : a.offset.toNat + a.size.toNat ≤ pages.region) :
    Contiguous pages a ↔ ∀ h, a.offset.toNat / 2 ^ 21 ≤ h →
      (h + 1) * 2 ^ 21 < a.offset.toNat + a.size.toNat → pages.frame (h + 1) = pages.frame h + 1 := by
  have hoffset : BitVec.ofNat 64 a.offset.toNat = a.offset := by
    rw [BitVec.ofNat_toNat, BitVec.setWidth_eq]
  have hblock := contiguous_at pages hend
  rw [hoffset] at hblock
  rw [Contiguous, hdma, hbuffer]
  exact hblock.trans (contiguous_iff (by decide) _ _)

/-- When host buffers are physically contiguous, in a region that holds them all: exactly
when the huge pages under each of them lie in consecutive frames. The allocator aligns to
4 KB and looks at no frame. -/
theorem host_buffers_contiguous_iff (pages : HugePages) (sizes : List (BitVec 64))
    (hstay : packed 4096 (sizes.map BitVec.toNat) ≤ pages.region) :
    (∀ a ∈ (host_run (get_buffer_paddr pages.pagemap) pages.base_buf sizes).buffers,
        Contiguous pages a) ↔
      ∀ block ∈ places 4096 (sizes.map BitVec.toNat), ∀ h, block.1 / 2 ^ 21 ≤ h →
        (h + 1) * 2 ^ 21 < block.1 + block.2 → pages.frame (h + 1) = pages.frame h + 1 := by
  have hregion : pages.region < 2 ^ 32 := BitVec.isLt _
  obtain ⟨-, -, hbuffers, hoffset⟩ :=
    packed_host_run (get_buffer_paddr pages.pagemap) pages.base_buf sizes
  have hplaces := (hoffset (by omega)).2
  rw [← hplaces, List.forall_mem_map]
  refine forall_congr' fun a => imp_congr_right fun ha => ?_
  have hblock : (a.offset.toNat, a.size.toNat) ∈ places 4096 (sizes.map BitVec.toNat) := by
    rw [← hplaces]
    exact List.mem_map_of_mem ha
  have hend := places_end (by decide) _ _ hblock
  exact contiguous_allocation_iff pages (hbuffers a ha).1 (hbuffers a ha).2.1 (by omega)

/-- Two huge pages, the second one `step` frames behind the first. -/
def spread_pages (step : Nat) (hpositive : 0 < step) (hsmall : step < 1024) : HugePages where
  base_buf := 0x7f0000000000#64
  num_hugepages_request := 2
  frame h := 5 + step * h
  pagemap page := some (BitVec.ofNat 64 ((5 + step * ((page - 0x7f0000000) / 512)) * 512 +
    (page - 0x7f0000000) % 512))
  aligned := by decide
  room := by decide
  injective := by
    intro h h' _ _ hframe
    exact Nat.eq_of_mul_eq_mul_left hpositive (Nat.add_left_cancel hframe)
  physical := by
    intro h hh
    have hregion : (mapped_bytes 2).toNat = 4194304 := by decide
    obtain rfl | rfl : h = 0 ∨ h = 1 := by omega
    · omega
    · omega
  entries := by
    intro o ho
    have hregion : (mapped_bytes 2).toNat = 4194304 := by decide
    have hpage : (0x7f0000000000#64).toNat = 0x7f0000000 * 4096 := by decide
    have hnumber : ((0x7f0000000000#64).toNat + o) / 4096 - 0x7f0000000 = o / 4096 := by omega
    refine ⟨_, rfl, ?_⟩
    have hquotient : o / 4096 / 512 = o / 2 ^ 21 := Nat.div_div_eq_div_mul ..
    rw [hnumber, hquotient, BitVec.toNat_ofNat]
    obtain hfirst | hsecond : o / 2 ^ 21 = 0 ∨ o / 2 ^ 21 = 1 := by omega
    · rw [hfirst]
      omega
    · rw [hsecond]
      omega

theorem spread_pages_region (step : Nat) (hpositive : 0 < step) (hsmall : step < 1024) :
    (spread_pages step hpositive hsmall).region = 0x400000 := by
  change (mapped_bytes 2).toNat = 0x400000
  decide

/-- A buffer of 3 MB in adjacent frames. -/
theorem adjacent_frames_contiguous :
    Contiguous (spread_pages 1 (by decide) (by decide))
      ⟨.host_mem, 0#64, 0x300000#64, ⟨0x7f0000000000#64, 0xa00000#64, 0x300000#32⟩⟩ := by
  have hall := (host_buffers_contiguous_iff (spread_pages 1 (by decide) (by decide)) [0x300000#64]
    (by rw [spread_pages_region]; decide)).mpr
    (by
      intro block _ h _ _
      simp only [spread_pages]
      omega)
  exact hall _ (by decide)

/-- The same buffer in frames that are not adjacent: the first byte of the second huge page
is not where the hardware looks for it. -/
theorem buffer_not_contiguous : ¬∀ (pages : HugePages) (sizes : List (BitVec 64)),
    packed 4096 (sizes.map BitVec.toNat) ≤ pages.region →
      ∀ a ∈ (host_run (get_buffer_paddr pages.pagemap) pages.base_buf sizes).buffers,
        Contiguous pages a := by
  intro hclaim
  have hall := hclaim (spread_pages 4 (by decide) (by decide)) [0x300000#64]
    (by rw [spread_pages_region]; decide)
  have hbyte := hall ⟨.host_mem, 0#64, 0x300000#64, ⟨0x7f0000000000#64, 0xa00000#64, 0x300000#32⟩⟩
    (by decide) 0x200000 (by decide)
  exact absurd hbyte (by decide)

end reconic.rdma_buff
