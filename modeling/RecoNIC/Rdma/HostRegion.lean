import RecoNIC.Paging.Packing
import RecoNIC.Rdma.Configuration

open clocked paging

namespace reconic.rdma_buff

/-- The length that `create_rn_dev` maps and locks, a product of `uint32_t`s. -/
def mapped_bytes (num_hugepages_request : BitVec 32) : BitVec 32 :=
  num_hugepages_request * (1#32 <<< 21)

/-- A call that allocates in the host memory. -/
inductive HostCall where
  | allocate_rdma_buffer (buf_size : BitVec 64)
  | allocate_rdma_qp (qdepth : BitVec 32)
  deriving DecidableEq

/-- The sizes that `allocate_rdma_qp` asks for: those of the send queue, the completion
queue and the receive queue. -/
def qp_sizes (num_qp qdepth : BitVec 32) : List (BitVec 64) :=
  [(num_qp * qdepth * 64#32).setWidth 64, (num_qp * qdepth * 4#32).setWidth 64,
    (num_qp * qdepth * BitVec.ofNat 32 rdma_api.RQE_SIZE).setWidth 64]

def HostCall.sizes (num_qp : BitVec 32) : HostCall → List (BitVec 64)
  | .allocate_rdma_buffer buf_size => [buf_size]
  | .allocate_rdma_qp qdepth => qp_sizes num_qp qdepth

/-- The device after allocations of these sizes in the host memory. -/
def host_run (get_buffer_paddr : BitVec 64 → BitVec 64) (base_buf : BitVec 64)
    (sizes : List (BitVec 64)) : Allocator :=
  (allocMachine get_buffer_paddr base_buf).run (sizes.map (⟨·, .host_mem⟩))

/-- The whole buffer lies in the first `region` bytes from `base_buf` on. -/
def Inside (base_buf : BitVec 64) (region : Nat) (a : Allocation) : Prop :=
  (a.buff.buffer - base_buf).toNat + a.size.toNat ≤ region

def Recorded (a : Allocation) : Prop := a.buff.buf_size.toNat = a.size.toNat

/-- `allocate_rdma_qp` makes these three calls, one after the other. -/
theorem create_qp_allocates {get_buffer_paddr : BitVec 64 → BitVec 64}
    {rdma_dev rdma_dev' : rdma_api.RdmaDev} {request : rdma_api.QpRequest} {qp : rdma_api.QueuePair}
    (hcall : rdma_dev.create_qp get_buffer_paddr request = .ok (qp, rdma_dev'))
    (hhost : request.buf_location = .host_mem) :
    let s := (qp_sizes rdma_dev.num_qp request.qdepth).foldl
      (fun s size => allocate_step get_buffer_paddr s ⟨size, .host_mem⟩) ⟨rdma_dev.rn_dev, [], true⟩
    s.rn_dev = rdma_dev'.rn_dev ∧ s.buffers.map (·.buff) = [qp.sq, qp.cq, qp.rq] := by
  obtain ⟨sq_dev, cq_dev, rq_dev, hsq, hcq, hrq, -, -, hset⟩ := rdma_api.create_qp_ok hcall
  rw [hhost] at hsq hcq hrq
  obtain ⟨sq_rn_dev, hsq_buff, rfl⟩ := rdma_api.allocate_rdma_buffer_ok hsq
  obtain ⟨cq_rn_dev, hcq_buff, rfl⟩ := rdma_api.allocate_rdma_buffer_ok hcq
  obtain ⟨rq_rn_dev, hrq_buff, rfl⟩ := rdma_api.allocate_rdma_buffer_ok hrq
  obtain ⟨-, rfl⟩ := rdma_api.set_qp_ok hset
  simp only [rdma_api.RdmaDev.queue_size, BitVec.ofNat_eq_ofNat] at hsq_buff hcq_buff hrq_buff
  simp only [qp_sizes, List.foldl_cons, List.foldl_nil, allocate_step, if_true, hsq_buff, hcq_buff,
    hrq_buff]
  exact ⟨trivial, rfl⟩

theorem aligned_offset_toNat {offset : BitVec 64} (hoffset : offset.toNat < 2 ^ 63)
    (buf_size : BitVec 64) :
    (aligned_offset offset buf_size).toNat = place 4096 offset.toNat buf_size.toNat := by
  have hinside := address_mask_toNat offset
  have hnext : ((offset + HARDWARE_PAGE_SIZE) &&& HARDWARE_PAGE_SIZE_ALIGNMENT_MASK).toNat =
      (offset.toNat / 4096 + 1) * 4096 := next_page_toNat (by omega)
  have hpage : HARDWARE_PAGE_SIZE.toNat = 4096 := rfl
  have hunaligned : (offset &&& HARDWARE_PAGE_SIZE_ADDRESS_MASK) ≠ 0#64 ↔ offset.toNat % 4096 ≠ 0 := by
    rw [← hinside, ne_eq, ne_eq, ← BitVec.toNat_inj]
    rfl
  rw [aligned_offset, place]
  simp only [BitVec.le_def, gt_iff_lt, BitVec.lt_def, hpage, hunaligned]
  by_cases hsmall : buf_size.toNat ≤ 4096
  · have hsum : ((offset &&& HARDWARE_PAGE_SIZE_ADDRESS_MASK) + buf_size).toNat =
        offset.toNat % 4096 + buf_size.toNat := by
      rw [BitVec.toNat_add, hinside]
      omega
    rw [if_pos hsmall, if_pos hsmall, hsum]
    split
    · exact hnext
    · rfl
  · rw [if_neg hsmall, if_neg hsmall]
    split
    · exact hnext
    · rfl

theorem host_run_snoc (get_buffer_paddr : BitVec 64 → BitVec 64) (base_buf : BitVec 64)
    (sizes : List (BitVec 64)) (size : BitVec 64) :
    host_run get_buffer_paddr base_buf (sizes ++ [size]) =
      allocate_step get_buffer_paddr (host_run get_buffer_paddr base_buf sizes) ⟨size, .host_mem⟩ := by
  rw [host_run, List.map_append, List.map_singleton, Machine.run_snoc]
  rfl

/-- What is known of the device after host allocations: every buffer is where the base
and its offset say, and as long as the offset cannot wrap the buffers are packed. -/
structure Packed (get_buffer_paddr : BitVec 64 → BitVec 64) (base_buf : BitVec 64)
    (sizes : List (BitVec 64)) (s : Allocator) : Prop where
  alive : s.alive = true
  base : s.rn_dev.base_buf = base_buf
  buffers : ∀ a ∈ s.buffers, a.buff.buffer = base_buf + a.offset ∧
    a.buff.dma_addr = get_buffer_paddr a.buff.buffer ∧ a.buff.buf_size = a.size.setWidth 32
  offset : packed 4096 (sizes.map BitVec.toNat) < 2 ^ 63 →
    s.rn_dev.buffer_offset.toNat = packed 4096 (sizes.map BitVec.toNat) ∧
    s.buffers.map (fun a => (a.offset.toNat, a.size.toNat)) = places 4096 (sizes.map BitVec.toNat)

theorem packed_host_run (get_buffer_paddr : BitVec 64 → BitVec 64) (base_buf : BitVec 64)
    (sizes : List (BitVec 64)) :
    Packed get_buffer_paddr base_buf sizes (host_run get_buffer_paddr base_buf sizes) := by
  induction sizes using List.reverseRecOn with
  | nil => exact ⟨rfl, rfl, by simp [host_run, allocMachine], fun _ => ⟨rfl, rfl⟩⟩
  | append_singleton sizes size ih =>
    obtain ⟨halive, hbase, hbuffers, hoffset⟩ := ih
    rw [host_run_snoc]
    simp only [allocate_step, halive, if_true, allocate_rdma_buffer]
    refine ⟨rfl, hbase, ?_, ?_⟩
    · simp only [List.mem_append, List.mem_singleton, or_imp, forall_and, forall_eq] at hbuffers ⊢
      exact ⟨⟨hbuffers.1, by rw [hbase]; rfl⟩, ⟨hbuffers.2.1, trivial⟩, hbuffers.2.2, trivial⟩
    · rw [List.map_append, List.map_singleton]
      intro hsmall
      have hle : packed 4096 (sizes.map BitVec.toNat) ≤
          packed 4096 (sizes.map BitVec.toNat ++ [size.toNat]) := packed_le_snoc (by decide) _ _
      obtain ⟨hnow, hplaces⟩ := hoffset (by omega)
      have hroom : (host_run get_buffer_paddr base_buf sizes).rn_dev.buffer_offset.toNat < 2 ^ 63 := by
        omega
      have haligned := aligned_offset_toNat hroom size
      rw [hnow] at haligned
      rw [packed_snoc] at hsmall ⊢
      refine ⟨?_, ?_⟩
      · rw [BitVec.toNat_add, haligned, Nat.mod_eq_of_lt (by omega)]
      · rw [List.map_append, List.map_singleton, hplaces, places_snoc]
        simp only [RnDev.offset, haligned]

/-- A host buffer at an offset. -/
def host_allocation (get_buffer_paddr : BitVec 64 → BitVec 64) (base_buf offset size : BitVec 64) :
    Allocation :=
  ⟨.host_mem, offset, size,
    ⟨base_buf + offset, get_buffer_paddr (base_buf + offset), size.setWidth 32⟩⟩

/-- A call adds one buffer, at the aligned offset. -/
theorem host_run_buffers (get_buffer_paddr : BitVec 64 → BitVec 64) (base_buf : BitVec 64)
    (sizes : List (BitVec 64)) (size : BitVec 64) :
    (host_run get_buffer_paddr base_buf (sizes ++ [size])).buffers =
      (host_run get_buffer_paddr base_buf sizes).buffers ++
        [host_allocation get_buffer_paddr base_buf
          (aligned_offset (host_run get_buffer_paddr base_buf sizes).rn_dev.buffer_offset size) size] := by
  obtain ⟨halive, hbase, -⟩ := packed_host_run get_buffer_paddr base_buf sizes
  rw [host_run_snoc]
  simp only [allocate_step, halive, if_true, allocate_rdma_buffer, hbase]
  rfl

/-- As long as the offset cannot wrap, the aligned offset is the place of the packing. -/
theorem host_run_place (get_buffer_paddr : BitVec 64 → BitVec 64) (base_buf : BitVec 64)
    {sizes : List (BitVec 64)} (hsmall : packed 4096 (sizes.map BitVec.toNat) < 2 ^ 63)
    (size : BitVec 64) :
    (aligned_offset (host_run get_buffer_paddr base_buf sizes).rn_dev.buffer_offset size).toNat =
      place 4096 (packed 4096 (sizes.map BitVec.toNat)) size.toNat := by
  have hnow := ((packed_host_run get_buffer_paddr base_buf sizes).offset hsmall).1
  rw [aligned_offset_toNat (by omega) size, hnow]

theorem inside_recorded_iff (get_buffer_paddr : BitVec 64 → BitVec 64) (base_buf : BitVec 64)
    {region : Nat} (hregion : region < 2 ^ 32) (sizes : List (BitVec 64)) :
    (∀ a ∈ (host_run get_buffer_paddr base_buf sizes).buffers,
        Inside base_buf region a ∧ Recorded a) ↔ packed 4096 (sizes.map BitVec.toNat) ≤ region := by
  induction sizes using List.reverseRecOn with
  | nil => simp [host_run, allocMachine]
  | append_singleton sizes size ih =>
    have hle : packed 4096 (sizes.map BitVec.toNat) ≤
        packed 4096 (sizes.map BitVec.toNat ++ [size.toNat]) := packed_le_snoc (by decide) _ _
    rw [host_run_buffers, List.forall_mem_append, List.forall_mem_singleton, ih, List.map_append,
      List.map_singleton]
    -- The last buffer, when the earlier ones end inside the region.
    have hlast : packed 4096 (sizes.map BitVec.toNat) ≤ region →
        (Inside base_buf region (host_allocation get_buffer_paddr base_buf
            (aligned_offset (host_run get_buffer_paddr base_buf sizes).rn_dev.buffer_offset size) size) ↔
          packed 4096 (sizes.map BitVec.toNat ++ [size.toNat]) ≤ region) := by
      intro hearlier
      have hsmall : packed 4096 (sizes.map BitVec.toNat) < 2 ^ 63 := by omega
      have hplace := host_run_place get_buffer_paddr base_buf hsmall size
      rw [Inside, host_allocation, BitVec.add_comm, BitVec.add_sub_cancel, hplace, packed_snoc]
    constructor
    · rintro ⟨hearlier, hinside, -⟩
      exact (hlast hearlier).mp hinside
    · intro hfits
      refine ⟨hle.trans hfits, (hlast (hle.trans hfits)).mpr hfits, ?_⟩
      rw [packed_snoc] at hfits
      rw [Recorded, host_allocation, BitVec.toNat_setWidth]
      exact Nat.mod_eq_of_lt (by omega)

/-- When host buffers stay inside the region that has been mapped for them, and their
descriptors record the sizes that were asked for: exactly when the requests, packed from
its start by the page rule, end inside it. -/
theorem host_buffers_inside_iff (get_buffer_paddr : BitVec 64 → BitVec 64) (base_buf : BitVec 64)
    (num_hugepages_request num_qp : BitVec 32) (calls : List HostCall) :
    let sizes := calls.flatMap (HostCall.sizes num_qp)
    (∀ a ∈ (host_run get_buffer_paddr base_buf sizes).buffers,
        Inside base_buf (mapped_bytes num_hugepages_request).toNat a ∧ Recorded a) ↔
      packed 4096 (sizes.map BitVec.toNat) ≤ (mapped_bytes num_hugepages_request).toNat :=
  inside_recorded_iff get_buffer_paddr base_buf (mapped_bytes num_hugepages_request).isLt _

/-- One huge page: a first buffer takes all of it, and the second one is returned all the
same. -/
theorem host_buffer_outside : ¬∀ (get_buffer_paddr : BitVec 64 → BitVec 64) (base_buf : BitVec 64)
    (num_hugepages_request num_qp : BitVec 32) (calls : List HostCall),
    ∀ a ∈ (host_run get_buffer_paddr base_buf (calls.flatMap (HostCall.sizes num_qp))).buffers,
      Inside base_buf (num_hugepages_request.toNat * 2 ^ 21) a ∧ Recorded a := by
  intro hclaim
  have hall := hclaim id 0x7f0000000000#64 1 8
    [.allocate_rdma_buffer 0x200000#64, .allocate_rdma_buffer 0x1000#64]
  have hinside := (hall ⟨.host_mem, 0x200000#64, 0x1000#64,
    ⟨0x7f0000200000#64, 0x7f0000200000#64, 0x1000#32⟩⟩ (by decide)).1
  exact absurd hinside (by rw [Inside]; decide)

end reconic.rdma_buff
