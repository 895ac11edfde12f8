import RecoNIC.Rdma.ReceiveQueue

namespace reconic.rdma_api

/-- The size that `allocate_rdma_qp` asks for when it allocates `qp->rq`, a `uint32_t`. -/
def rq_size (num_qp qdepth : Nat) : Nat := num_qp * qdepth * RQE_SIZE % 2 ^ 32

/-- The value that `allocate_rdma_qp` stores in QPCONF. -/
def qp_config : BitVec 32 :=
  let en_qp := 1#32
  let mtu_config := 4#32
  let rq_buffer_entry_size := BitVec.ofNat 32 RQE_SIZE
  (en_qp &&& 0x00000001#32) |||
    (0xc#32 &&& 0x0000000c#32) |||
    (0x30#32 &&& 0x000000f0#32) |||
    ((mtu_config <<< 8) &&& 0x0000ff00#32) |||
    ((rq_buffer_entry_size <<< 16) &&& 0xffff0000#32)

/-- The size of a receive queue element that a value of QPCONF stands for: bits 31 to 16
count multiples of 256 bytes. -/
def element_size (qpconf : BitVec 32) : Nat := (qpconf.extractLsb 31 16).toNat * 256

/-- Where the hardware places element `i` of the receive queue at RQBA. -/
def element_address (rqba i : Nat) : Nat := rqba + i * element_size qp_config

/-- Every element lies inside the buffer of the receive queue. -/
def ElementsInside (rq_buffer num_qp qdepth : Nat) : Prop :=
  ∀ i < qdepth, rq_buffer ≤ element_address rq_buffer i ∧
    element_address rq_buffer i + element_size qp_config ≤ rq_buffer + rq_size num_qp qdepth

/-- `rdma_post_receive` returns the address of element `i` for the producer index behind
it, which is 0 behind the last element. -/
def ElementsFound (rq_buffer qdepth : Nat) : Prop :=
  ∀ i < qdepth, rqe_address ⟨rq_buffer, qdepth, 0, 0⟩ ((i + 1) % qdepth) =
    element_address rq_buffer i

theorem element_size_qp_config : element_size qp_config = 131072 := rfl

/-- An element has 256 times the bytes that it has been given. -/
theorem elements_inside_iff {rq_buffer num_qp qdepth : Nat} (hqps : num_qp ≤ 255)
    (hfits : num_qp * qdepth * RQE_SIZE < 2 ^ 32) :
    ElementsInside rq_buffer num_qp qdepth ↔ qdepth = 0 := by
  constructor
  · intro hinside
    by_contra hsome
    obtain ⟨-, hlast⟩ := hinside (qdepth - 1) (by omega)
    have hsize : num_qp * qdepth ≤ 255 * qdepth := Nat.mul_le_mul_right qdepth hqps
    rw [element_address, element_size_qp_config, rq_size, Nat.mod_eq_of_lt hfits, RQE_SIZE] at hlast
    omega
  · rintro rfl i hi
    omega

/-- When host and hardware agree on the receive queue: only when it has no element.
`RQE_SIZE` counts bytes in the allocation and in the pointers, and multiples of 256
bytes in QPCONF. -/
theorem receive_layout_agrees_iff (rq_buffer num_qp qdepth : Nat) (hqps : num_qp ≤ 255)
    (hfits : num_qp * qdepth * RQE_SIZE < 2 ^ 32) :
    ElementsInside rq_buffer num_qp qdepth ∧ ElementsFound rq_buffer qdepth ↔ qdepth = 0 := by
  rw [elements_inside_iff hqps hfits]
  refine and_iff_left_of_imp ?_
  rintro rfl i hi
  omega

/-- A queue of 64 elements for 8 queue pairs has no agreed layout. -/
theorem receive_layout_of_example :
    ¬(ElementsInside 0 8 64 ∧ ElementsFound 0 64) := by
  rw [receive_layout_agrees_iff 0 8 64 (by decide) (by decide)]
  decide

/-- Its second element is not where `rdma_post_receive` looks for it. -/
theorem receive_layout_disagrees : ¬∀ rq_buffer num_qp qdepth : Nat, 1 ≤ num_qp → num_qp ≤ 255 →
    num_qp * qdepth * RQE_SIZE < 2 ^ 32 →
      ElementsInside rq_buffer num_qp qdepth ∧ ElementsFound rq_buffer qdepth := by
  intro hclaim
  have hfound := (hclaim 0 8 64 (by decide) (by decide) (by decide)).2 1 (by decide)
  exact absurd hfound (by decide)

end reconic.rdma_api
