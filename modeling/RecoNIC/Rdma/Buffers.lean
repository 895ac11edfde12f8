import Mathlib.Algebra.Order.Ring.Nat
import RecoNIC.Bits.Numerals
import RecoNIC.Clocked.Machine

open bits clocked

namespace reconic.rdma_buff

def DEVICE_MEM_SIZE : BitVec 64 := 4294967296#64

def HARDWARE_PAGE_SIZE : BitVec 64 := 4096#64

def HARDWARE_PAGE_SIZE_ALIGNMENT_MASK : BitVec 64 := 0xfffffffffffff000#64

def HARDWARE_PAGE_SIZE_ADDRESS_MASK : BitVec 64 := 0x0000000000000fff#64

def DEVICE_MEM_OFFSET : BitVec 64 := 0xa350000000000000#64

def DEVICE_MEMORY_ADDRESS_MASK : BitVec 64 := 0x0000001fffffffff#64

def is_device_address (address : BitVec 64) : Bool :=
  (address &&& 0xfff0000000000000#64) == DEVICE_MEM_OFFSET

/-- `rdma_buff_t`. -/
structure RdmaBuff where
  buffer : BitVec 64
  dma_addr : BitVec 64
  buf_size : BitVec 32
  deriving DecidableEq

/-- What buffer allocation reads and writes of an `rn_dev_t`. -/
structure RnDev where
  base_buf : BitVec 64
  buffer_offset : BitVec 64
  dev_buffer_offset : BitVec 64
  deriving DecidableEq

/-- The meaning of the string `buf_location`. -/
inductive BufLocation where
  | host_mem
  | dev_mem
  | unknown
  deriving DecidableEq

/-- The alignment step of `allocate_rdma_buffer`, the same for both offsets. -/
def aligned_offset (offset buf_size : BitVec 64) : BitVec 64 :=
  if buf_size ≤ HARDWARE_PAGE_SIZE then
    if (offset &&& HARDWARE_PAGE_SIZE_ADDRESS_MASK) + buf_size > HARDWARE_PAGE_SIZE then
      (offset + HARDWARE_PAGE_SIZE) &&& HARDWARE_PAGE_SIZE_ALIGNMENT_MASK
    else offset
  else
    if (offset &&& HARDWARE_PAGE_SIZE_ADDRESS_MASK) ≠ 0#64 then
      (offset + HARDWARE_PAGE_SIZE) &&& HARDWARE_PAGE_SIZE_ALIGNMENT_MASK
    else offset

/-- `allocate_rdma_buffer`, over the page mapping that `get_buffer_paddr` reads. There is
no result when the call exits or its assertion fails. -/
def allocate_rdma_buffer (get_buffer_paddr : BitVec 64 → BitVec 64) (rn_dev : RnDev)
    (buf_size : BitVec 64) (buf_location : BufLocation) : Option (RdmaBuff × RnDev) :=
  match buf_location with
  | .host_mem =>
    let rn_dev := { rn_dev with buffer_offset := aligned_offset rn_dev.buffer_offset buf_size }
    let buffer := rn_dev.base_buf + rn_dev.buffer_offset
    let rn_dev := { rn_dev with buffer_offset := rn_dev.buffer_offset + buf_size }
    some (⟨buffer, get_buffer_paddr buffer, buf_size.setWidth 32⟩, rn_dev)
  | .dev_mem =>
    let rn_dev :=
      { rn_dev with dev_buffer_offset := aligned_offset rn_dev.dev_buffer_offset buf_size }
    let buffer := rn_dev.dev_buffer_offset ||| DEVICE_MEM_OFFSET
    let rn_dev := { rn_dev with dev_buffer_offset := rn_dev.dev_buffer_offset + buf_size }
    if rn_dev.dev_buffer_offset ≤ DEVICE_MEM_SIZE then
      some (⟨buffer, buffer, buf_size.setWidth 32⟩, rn_dev)
    else none
  | .unknown => none

theorem address_mask_toNat (x : BitVec 64) :
    (x &&& HARDWARE_PAGE_SIZE_ADDRESS_MASK).toNat = x.toNat % 4096 := by
  rw [BitVec.toNat_and]
  exact Nat.and_two_pow_sub_one_eq_mod x.toNat 12

/-- The two page masks split an address into its page and its place in the page. -/
theorem alignment_mask_toNat (x : BitVec 64) :
    (x &&& HARDWARE_PAGE_SIZE_ALIGNMENT_MASK).toNat = x.toNat / 4096 * 4096 := by
  have hsplit := and_split_toNat x HARDWARE_PAGE_SIZE_ALIGNMENT_MASK
    HARDWARE_PAGE_SIZE_ADDRESS_MASK (by decide) (by decide)
  rw [address_mask_toNat] at hsplit
  omega

/-- Neither the alignment of an offset nor its advance passes `2 ^ 64`. -/
structure NoWrap (offset buf_size : BitVec 64) : Prop where
  alignment : aligned_offset offset buf_size ≠ offset → offset.toNat + 4096 < 2 ^ 64
  advance : (aligned_offset offset buf_size).toNat + buf_size.toNat < 2 ^ 64

/-- The page rule: a buffer of at most a page lies in one page, and a larger one starts
a page. -/
def PageRule (offset buf_size : Nat) : Prop :=
  if buf_size ≤ 4096 then offset % 4096 + buf_size ≤ 4096 else offset % 4096 = 0

theorem next_page_toNat {offset : BitVec 64} (hroom : offset.toNat + 4096 < 2 ^ 64) :
    ((offset + HARDWARE_PAGE_SIZE) &&& HARDWARE_PAGE_SIZE_ALIGNMENT_MASK).toNat =
      (offset.toNat / 4096 + 1) * 4096 := by
  have hsum : (offset + HARDWARE_PAGE_SIZE).toNat = offset.toNat + 4096 := by
    rw [BitVec.toNat_add]
    exact Nat.mod_eq_of_lt hroom
  rw [alignment_mask_toNat, hsum]
  omega

theorem next_page_ne (offset : BitVec 64) :
    (offset + HARDWARE_PAGE_SIZE) &&& HARDWARE_PAGE_SIZE_ALIGNMENT_MASK ≠ offset := by
  intro heq
  have hvalue := congrArg BitVec.toNat heq
  rw [alignment_mask_toNat, BitVec.toNat_add] at hvalue
  have hpage : HARDWARE_PAGE_SIZE.toNat = 4096 := rfl
  have hbound := offset.isLt
  omega

/-- What the alignment step gives: a place at or behind the offset that obeys the page
rule. -/
theorem aligned_offset_spec {offset buf_size : BitVec 64} (hwrap : NoWrap offset buf_size) :
    offset.toNat ≤ (aligned_offset offset buf_size).toNat ∧
      PageRule (aligned_offset offset buf_size).toNat buf_size.toNat := by
  have hinside := address_mask_toNat offset
  have hnext : aligned_offset offset buf_size =
      (offset + HARDWARE_PAGE_SIZE) &&& HARDWARE_PAGE_SIZE_ALIGNMENT_MASK →
        (aligned_offset offset buf_size).toNat = (offset.toNat / 4096 + 1) * 4096 := by
    intro hmoved
    have hroom := hwrap.alignment (by rw [hmoved]; exact next_page_ne offset)
    rw [hmoved, next_page_toNat hroom]
  by_cases hsmall : buf_size ≤ HARDWARE_PAGE_SIZE
  · have hsize : buf_size.toNat ≤ 4096 := hsmall
    have hsum : ((offset &&& HARDWARE_PAGE_SIZE_ADDRESS_MASK) + buf_size).toNat =
        offset.toNat % 4096 + buf_size.toNat := by
      rw [BitVec.toNat_add, hinside]
      omega
    by_cases hcross : (offset &&& HARDWARE_PAGE_SIZE_ADDRESS_MASK) + buf_size > HARDWARE_PAGE_SIZE
    · have hvalue := hnext (by rw [aligned_offset, if_pos hsmall, if_pos hcross])
      rw [hvalue, PageRule, if_pos hsize]
      omega
    · have hfits : offset.toNat % 4096 + buf_size.toNat ≤ 4096 := by
        rw [← hsum]
        exact BitVec.not_lt.mp hcross
      rw [aligned_offset, if_pos hsmall, if_neg hcross, PageRule, if_pos hsize]
      exact ⟨Nat.le_refl _, hfits⟩
  · have hsize : ¬buf_size.toNat ≤ 4096 := hsmall
    by_cases hunaligned : (offset &&& HARDWARE_PAGE_SIZE_ADDRESS_MASK) ≠ 0#64
    · have hvalue := hnext (by rw [aligned_offset, if_neg hsmall, if_pos hunaligned])
      rw [hvalue, PageRule, if_neg hsize]
      omega
    · have hstart : offset.toNat % 4096 = 0 := by
        rw [← hinside, not_not.mp hunaligned]
        rfl
      rw [aligned_offset, if_neg hsmall, if_neg hunaligned, PageRule, if_neg hsize]
      exact ⟨Nat.le_refl _, hstart⟩

/-- An offset into the device memory and the mark of device addresses share no bit, so
the address is their sum, it carries the mark, and the mask gives the offset back. -/
theorem device_address_parts {offset : BitVec 64} (hinside : offset ≤ DEVICE_MEM_SIZE) :
    is_device_address (offset ||| DEVICE_MEM_OFFSET) = true ∧
      (offset ||| DEVICE_MEM_OFFSET) &&& DEVICE_MEMORY_ADDRESS_MASK = offset ∧
      offset ||| DEVICE_MEM_OFFSET = DEVICE_MEM_OFFSET + offset := by
  have hbound : offset.toNat ≤ 4294967296 := hinside
  have hlow : offset &&& DEVICE_MEMORY_ADDRESS_MASK = offset := by
    apply BitVec.eq_of_toNat_eq
    rw [BitVec.toNat_and]
    exact (Nat.and_two_pow_sub_one_eq_mod offset.toNat 37).trans (Nat.mod_eq_of_lt (by omega))
  have hhigh : offset &&& 0xfff0000000000000#64 = 0#64 := by
    rw [← hlow, BitVec.and_assoc]
    exact BitVec.and_zero
  refine ⟨?_, ?_, ?_⟩
  · rw [is_device_address, BitVec.and_or_distrib_right, hhigh, BitVec.zero_or]
    rfl
  · rw [BitVec.and_or_distrib_right, hlow]
    exact BitVec.or_zero
  · have hapart : DEVICE_MEM_OFFSET &&& offset = 0#64 := by
      rw [← hlow, BitVec.and_comm, BitVec.and_assoc]
      exact BitVec.and_zero
    rw [BitVec.add_eq_or_of_and_eq_zero _ _ hapart, BitVec.or_comm]

/-- Bytes of two extents that follow one another without passing `2 ^ 64` have different
addresses, wherever the extents are based. -/
theorem bytes_distinct (base first second : BitVec 64) {first_size second_size k l : Nat}
    (hbefore : first.toNat + first_size ≤ second.toNat)
    (hroom : second.toNat + second_size < 2 ^ 64) (hk : k < first_size) (hl : l < second_size) :
    base + first + BitVec.ofNat 64 k ≠ base + second + BitVec.ofNat 64 l := by
  intro heq
  rw [BitVec.add_assoc, BitVec.add_assoc] at heq
  have hvalue := congrArg BitVec.toNat (BitVec.add_right_inj base |>.mp heq)
  simp only [BitVec.toNat_add, BitVec.toNat_ofNat] at hvalue
  omega

/-- A call that has returned: its arguments, the offset at which the buffer was placed,
and the buffer. -/
structure Allocation where
  location : BufLocation
  offset : BitVec 64
  size : BitVec 64
  buff : RdmaBuff
  deriving DecidableEq

structure Request where
  buf_size : BitVec 64
  buf_location : BufLocation
  deriving DecidableEq

/-- The device and the buffers that have been allocated, oldest first, while the program
lives. -/
structure Allocator where
  rn_dev : RnDev
  buffers : List Allocation
  alive : Bool
  deriving DecidableEq

def RnDev.offset (rn_dev : RnDev) : BufLocation → BitVec 64
  | .host_mem => rn_dev.buffer_offset
  | .dev_mem => rn_dev.dev_buffer_offset
  | .unknown => 0#64

/-- The address of an offset in a location. -/
def RnDev.address (rn_dev : RnDev) (offset : BitVec 64) : BufLocation → BitVec 64
  | .host_mem => rn_dev.base_buf + offset
  | .dev_mem => offset ||| DEVICE_MEM_OFFSET
  | .unknown => 0#64

def allocate_step (get_buffer_paddr : BitVec 64 → BitVec 64) (s : Allocator) (r : Request) :
    Allocator :=
  if s.alive then
    match allocate_rdma_buffer get_buffer_paddr s.rn_dev r.buf_size r.buf_location with
    | none => { s with alive := false }
    | some (buff, rn_dev) =>
      { rn_dev := rn_dev
        buffers := s.buffers ++
          [⟨r.buf_location, aligned_offset (s.rn_dev.offset r.buf_location) r.buf_size,
            r.buf_size, buff⟩]
        alive := true }
  else s

/-- The device as `create_rn_dev` leaves it, and the allocations made on it. -/
def allocMachine (get_buffer_paddr : BitVec 64 → BitVec 64) (base_buf : BitVec 64) :
    Machine Allocator Request where
  reset := { rn_dev := ⟨base_buf, 0#64, 0#64⟩, buffers := [], alive := true }
  step := allocate_step get_buffer_paddr

/-- What a call that returns does, for either location. -/
theorem allocate_rdma_buffer_spec {get_buffer_paddr : BitVec 64 → BitVec 64} {rn_dev rn_dev' : RnDev}
    {buf_size : BitVec 64} {location : BufLocation} {buff : RdmaBuff}
    (hcall : allocate_rdma_buffer get_buffer_paddr rn_dev buf_size location = some (buff, rn_dev')) :
    rn_dev'.base_buf = rn_dev.base_buf ∧
      rn_dev'.offset location = aligned_offset (rn_dev.offset location) buf_size + buf_size ∧
      (∀ other, other ≠ location → rn_dev'.offset other = rn_dev.offset other) ∧
      buff.buffer = rn_dev.address (aligned_offset (rn_dev.offset location) buf_size) location ∧
      (location = .dev_mem → buff.dma_addr = buff.buffer ∧
        rn_dev'.dev_buffer_offset ≤ DEVICE_MEM_SIZE) := by
  cases location with
  | host_mem =>
    simp only [allocate_rdma_buffer, Option.some.injEq, Prod.mk.injEq] at hcall
    obtain ⟨rfl, rfl⟩ := hcall
    refine ⟨rfl, rfl, ?_, rfl, by simp⟩
    intro other hother
    cases other <;> first | rfl | exact absurd rfl hother
  | dev_mem =>
    simp only [allocate_rdma_buffer] at hcall
    split at hcall
    · rename_i hassert
      simp only [Option.some.injEq, Prod.mk.injEq] at hcall
      obtain ⟨rfl, rfl⟩ := hcall
      refine ⟨rfl, rfl, ?_, rfl, fun _ => ⟨rfl, hassert⟩⟩
      intro other hother
      cases other <;> first | rfl | exact absurd rfl hother
    · simp at hcall
  | unknown => simp [allocate_rdma_buffer] at hcall

/-- The invariant of all runs without a wrap. The buffers of a location lie one behind
the other, below the offset of the location. -/
structure AllocatorInv (base_buf : BitVec 64) (s : Allocator) : Prop where
  base : s.rn_dev.base_buf = base_buf
  device : s.rn_dev.dev_buffer_offset ≤ DEVICE_MEM_SIZE
  below : ∀ a ∈ s.buffers, a.offset.toNat + a.size.toNat ≤ (s.rn_dev.offset a.location).toNat
  ordered : s.buffers.Pairwise fun a b => a.location = b.location →
    a.offset.toNat + a.size.toNat ≤ b.offset.toNat
  placed : ∀ a ∈ s.buffers, a.buff.buffer = s.rn_dev.address a.offset a.location
  pages : ∀ a ∈ s.buffers, PageRule a.offset.toNat a.size.toNat
  dma : ∀ a ∈ s.buffers, a.location = .dev_mem → a.buff.dma_addr = a.buff.buffer

theorem address_of_base {rn_dev rn_dev' : RnDev} (hbase : rn_dev'.base_buf = rn_dev.base_buf)
    (offset : BitVec 64) (location : BufLocation) :
    rn_dev'.address offset location = rn_dev.address offset location := by
  cases location <;> simp [RnDev.address, hbase]

theorem AllocatorInv.step {base_buf : BitVec 64} {get_buffer_paddr : BitVec 64 → BitVec 64}
    {s : Allocator} {r : Request} (hinv : AllocatorInv base_buf s)
    (hnowrap : s.alive = true → NoWrap (s.rn_dev.offset r.buf_location) r.buf_size) :
    AllocatorInv base_buf (allocate_step get_buffer_paddr s r) := by
  obtain ⟨hbase, hdevice, hbelow, hordered, hplaced, hpages, hdma⟩ := hinv
  cases halive : s.alive with
  | false =>
    simp only [allocate_step, halive, Bool.false_eq_true, if_false]
    exact ⟨hbase, hdevice, hbelow, hordered, hplaced, hpages, hdma⟩
  | true =>
    cases hcall : allocate_rdma_buffer get_buffer_paddr s.rn_dev r.buf_size r.buf_location with
    | none =>
      simp only [allocate_step, halive, if_true, hcall]
      exact ⟨hbase, hdevice, hbelow, hordered, hplaced, hpages, hdma⟩
    | some result =>
      obtain ⟨buff, rn_dev⟩ := result
      obtain ⟨hkept, hoffset, hother, hbuffer, hdev⟩ := allocate_rdma_buffer_spec hcall
      have hwrap := hnowrap halive
      obtain ⟨hforward, hpage⟩ := aligned_offset_spec hwrap
      have hadvance : (rn_dev.offset r.buf_location).toNat =
          (aligned_offset (s.rn_dev.offset r.buf_location) r.buf_size).toNat + r.buf_size.toNat := by
        rw [hoffset, BitVec.toNat_add]
        exact Nat.mod_eq_of_lt hwrap.advance
      have hgrows : ∀ location, (s.rn_dev.offset location).toNat ≤ (rn_dev.offset location).toNat := by
        intro location
        by_cases hsame : location = r.buf_location
        · rw [hsame]
          omega
        · exact Nat.le_of_eq (congrArg BitVec.toNat (hother location hsame).symm)
      simp only [allocate_step, halive, if_true, hcall]
      refine ⟨hkept.trans hbase, ?_, ?_, ?_, ?_, ?_, ?_⟩
      · by_cases hlocation : r.buf_location = .dev_mem
        · exact (hdev hlocation).2
        · have hsame := hother .dev_mem (Ne.symm hlocation)
          simp only [RnDev.offset] at hsame
          rwa [hsame]
      · simp only [List.mem_append, List.mem_singleton, or_imp, forall_and, forall_eq]
        exact ⟨fun a ha => Nat.le_trans (hbelow a ha) (hgrows a.location),
          Nat.le_of_eq hadvance.symm⟩
      · rw [List.pairwise_append]
        refine ⟨hordered, by simp, ?_⟩
        intro a ha b hb hsame
        obtain rfl := List.mem_singleton.mp hb
        have hroom := hbelow a ha
        rw [hsame] at hroom
        exact Nat.le_trans hroom hforward
      · simp only [List.mem_append, List.mem_singleton, or_imp, forall_and, forall_eq]
        exact ⟨fun a ha => (hplaced a ha).trans (address_of_base hkept ..).symm,
          hbuffer.trans (address_of_base hkept ..).symm⟩
      · simp only [List.mem_append, List.mem_singleton, or_imp, forall_and, forall_eq]
        exact ⟨hpages, hpage⟩
      · simp only [List.mem_append, List.mem_singleton, or_imp, forall_and, forall_eq]
        exact ⟨hdma, fun hlocation => (hdev hlocation).1⟩

/-- What the buffers of a device have in common in every reachable state. -/
structure AllocationInvariant (base_buf : BitVec 64) (buffers : List Allocation) : Prop where
  disjoint : buffers.Pairwise fun a b => a.location = b.location →
    a.offset.toNat + a.size.toNat ≤ b.offset.toNat ∧
      ∀ k l, k < a.size.toNat → l < b.size.toNat →
        a.buff.buffer + BitVec.ofNat 64 k ≠ b.buff.buffer + BitVec.ofNat 64 l
  page_rule : ∀ a ∈ buffers, PageRule a.offset.toNat a.size.toNat
  host : ∀ a ∈ buffers, a.location = .host_mem → a.buff.buffer = base_buf + a.offset
  device : ∀ a ∈ buffers, a.location = .dev_mem →
    a.offset.toNat + a.size.toNat ≤ DEVICE_MEM_SIZE.toNat ∧
      a.buff.dma_addr = a.buff.buffer ∧ is_device_address a.buff.dma_addr = true ∧
      a.buff.dma_addr &&& DEVICE_MEMORY_ADDRESS_MASK = a.offset

theorem AllocatorInv.allocations {base_buf : BitVec 64} {s : Allocator}
    (hinv : AllocatorInv base_buf s) : AllocationInvariant base_buf s.buffers := by
  obtain ⟨hbase, hdevice, hbelow, hordered, hplaced, hpages, hdma⟩ := hinv
  have hinside : ∀ a ∈ s.buffers, a.location = .dev_mem →
      a.offset.toNat + a.size.toNat ≤ DEVICE_MEM_SIZE.toNat := by
    intro a ha hlocation
    have hend := hbelow a ha
    rw [hlocation] at hend
    exact Nat.le_trans hend hdevice
  have hparts : ∀ a ∈ s.buffers, a.location = .dev_mem → a.offset ≤ DEVICE_MEM_SIZE := by
    intro a ha hlocation
    have hend := hinside a ha hlocation
    exact Nat.le_trans (Nat.le_add_right ..) hend
  refine ⟨?_, hpages, ?_, ?_⟩
  · refine hordered.imp_of_mem ?_
    intro a b ha hb hbefore hlocation
    refine ⟨hbefore hlocation, ?_⟩
    intro k l hk hl
    have hroom : b.offset.toNat + b.size.toNat < 2 ^ 64 :=
      Nat.lt_of_le_of_lt (hbelow b hb) (BitVec.isLt _)
    rw [hplaced a ha, hplaced b hb, hlocation]
    cases hcase : b.location with
    | host_mem => exact bytes_distinct _ _ _ (hbefore hlocation) hroom hk hl
    | dev_mem =>
      rw [RnDev.address, RnDev.address, (device_address_parts (hparts a ha (hlocation.trans hcase))).2.2,
        (device_address_parts (hparts b hb hcase)).2.2]
      exact bytes_distinct _ _ _ (hbefore hlocation) hroom hk hl
    | unknown =>
      have hend := hbelow b hb
      rw [hcase] at hend
      simp only [RnDev.offset, BitVec.toNat_ofNat, Nat.zero_mod] at hend
      omega
  · intro a ha hlocation
    rw [hplaced a ha, hlocation, RnDev.address, hbase]
  · intro a ha hlocation
    obtain ⟨hmark, hmask, -⟩ := device_address_parts (hparts a ha hlocation)
    have haddress : a.buff.dma_addr = a.offset ||| DEVICE_MEM_OFFSET := by
      rw [hdma a ha hlocation, hplaced a ha, hlocation, RnDev.address]
    rw [haddress]
    exact ⟨hinside a ha hlocation, haddress ▸ hdma a ha hlocation, hmark, hmask⟩

/-- What one location contributes to a state. -/
def Allocator.part (s : Allocator) (location : BufLocation) : BitVec 64 × List Allocation :=
  (s.rn_dev.offset location, s.buffers.filter (·.location = location))

/-- A call for another location leaves a location as it is. -/
theorem part_of_other {get_buffer_paddr : BitVec 64 → BitVec 64} {s : Allocator} {r : Request}
    {location : BufLocation} (hother : r.buf_location ≠ location) :
    (allocate_step get_buffer_paddr s r).part location = s.part location := by
  cases halive : s.alive with
  | false => simp [allocate_step, halive]
  | true =>
    cases hcall : allocate_rdma_buffer get_buffer_paddr s.rn_dev r.buf_size r.buf_location with
    | none => simp [allocate_step, halive, hcall, Allocator.part]
    | some result =>
      obtain ⟨buff, rn_dev⟩ := result
      obtain ⟨-, -, hkept, -⟩ := allocate_rdma_buffer_spec hcall
      simp [allocate_step, halive, hcall, Allocator.part, hkept location (Ne.symm hother), hother]

/-- A call for a location depends on that location and the base of the region only. -/
theorem allocate_rdma_buffer_congr (get_buffer_paddr : BitVec 64 → BitVec 64) {first second : RnDev}
    (buf_size : BitVec 64) (location : BufLocation) (hbase : first.base_buf = second.base_buf)
    (hoffset : first.offset location = second.offset location) :
    (allocate_rdma_buffer get_buffer_paddr first buf_size location).map
        (fun result => (result.1, result.2.offset location)) =
      (allocate_rdma_buffer get_buffer_paddr second buf_size location).map
        fun result => (result.1, result.2.offset location) := by
  cases location with
  | host_mem =>
    simp only [RnDev.offset] at hoffset
    simp [allocate_rdma_buffer, hbase, hoffset, RnDev.offset]
  | dev_mem =>
    simp only [RnDev.offset] at hoffset
    by_cases hassert : aligned_offset second.dev_buffer_offset buf_size + buf_size ≤ DEVICE_MEM_SIZE
    · simp [allocate_rdma_buffer, hoffset, hassert, RnDev.offset]
    · simp [allocate_rdma_buffer, hoffset, hassert]
  | unknown => rfl

theorem step_of_alive {get_buffer_paddr : BitVec 64 → BitVec 64} {s : Allocator} {r : Request}
    (halive : (allocate_step get_buffer_paddr s r).alive = true) :
    s.alive = true ∧ ∃ buff rn_dev,
      allocate_rdma_buffer get_buffer_paddr s.rn_dev r.buf_size r.buf_location =
        some (buff, rn_dev) := by
  cases hbefore : s.alive with
  | false => simp [allocate_step, hbefore] at halive
  | true =>
    cases hcall : allocate_rdma_buffer get_buffer_paddr s.rn_dev r.buf_size r.buf_location with
    | none => simp [allocate_step, hbefore, hcall] at halive
    | some result => exact ⟨rfl, result.1, result.2, rfl⟩

/-- Two devices that agree on a location still agree on it after the same call for it. -/
theorem part_step_congr {get_buffer_paddr : BitVec 64 → BitVec 64} {s s' : Allocator} {r : Request}
    (hbase : s.rn_dev.base_buf = s'.rn_dev.base_buf)
    (hpart : s.part r.buf_location = s'.part r.buf_location)
    (halive : (allocate_step get_buffer_paddr s r).alive = true) (halive' : s'.alive = true) :
    (allocate_step get_buffer_paddr s' r).alive = true ∧
      (allocate_step get_buffer_paddr s r).part r.buf_location =
        (allocate_step get_buffer_paddr s' r).part r.buf_location := by
  obtain ⟨hbefore, buff, rn_dev, hcall⟩ := step_of_alive halive
  simp only [Allocator.part, Prod.mk.injEq] at hpart
  obtain ⟨hoffset, hbuffers⟩ := hpart
  have hcongr := allocate_rdma_buffer_congr get_buffer_paddr r.buf_size r.buf_location hbase hoffset
  rw [hcall, Option.map_some] at hcongr
  obtain ⟨result, hcall', hsame⟩ := Option.map_eq_some_iff.mp hcongr.symm
  simp only [Prod.mk.injEq] at hsame
  simp only [allocate_step, hbefore, halive', if_true, hcall, hcall', Allocator.part, hoffset,
    hbuffers, hsame.1, hsame.2, List.filter_append, true_and]

theorem base_step {get_buffer_paddr : BitVec 64 → BitVec 64} (s : Allocator) (r : Request) :
    (allocate_step get_buffer_paddr s r).rn_dev.base_buf = s.rn_dev.base_buf := by
  cases halive : s.alive with
  | false => simp [allocate_step, halive]
  | true =>
    cases hcall : allocate_rdma_buffer get_buffer_paddr s.rn_dev r.buf_size r.buf_location with
    | none => simp [allocate_step, halive, hcall]
    | some result =>
      obtain ⟨buff, rn_dev⟩ := result
      have hkept := (allocate_rdma_buffer_spec hcall).1
      simpa [allocate_step, halive, hcall] using hkept

theorem base_run (get_buffer_paddr : BitVec 64 → BitVec 64) (base_buf : BitVec 64)
    (requests : List Request) :
    ((allocMachine get_buffer_paddr base_buf).run requests).rn_dev.base_buf = base_buf := by
  induction requests using List.reverseRecOn with
  | nil => rfl
  | append_singleton requests r ih =>
    rw [Machine.run_snoc]
    exact (base_step _ r).trans ih

/-- What a location holds after a run is what it holds after the calls for it alone. -/
theorem part_independent (get_buffer_paddr : BitVec 64 → BitVec 64) (base_buf : BitVec 64)
    (requests : List Request) (location : BufLocation)
    (halive : ((allocMachine get_buffer_paddr base_buf).run requests).alive = true) :
    let own := (allocMachine get_buffer_paddr base_buf).run (requests.filter (·.buf_location = location))
    own.alive = true ∧
      ((allocMachine get_buffer_paddr base_buf).run requests).part location = own.part location := by
  induction requests using List.reverseRecOn with
  | nil => exact ⟨rfl, rfl⟩
  | append_singleton requests r ih =>
    rw [Machine.run_snoc] at halive ⊢
    obtain ⟨halive', hpart⟩ := ih (step_of_alive halive).1
    by_cases hlocation : r.buf_location = location
    · subst hlocation
      simp only [List.filter_append, List.filter_cons, decide_true, if_true, List.filter_nil,
        Machine.run_snoc]
      exact part_step_congr ((base_run ..).trans (base_run ..).symm) hpart halive halive'
    · simp only [List.filter_append, List.filter_cons, hlocation, decide_false, Bool.false_eq_true,
        if_false, List.filter_nil, List.append_nil]
      exact ⟨halive', (part_of_other hlocation).trans hpart⟩

/-- Buffers of one location never overlap and obey the page rule, those in the device
memory lie inside it under addresses that name it and their offset, and what one
location holds does not depend on the calls for the other. -/
theorem allocation_invariant (get_buffer_paddr : BitVec 64 → BitVec 64) (base_buf : BitVec 64)
    (requests : List Request)
    (hwrap : ∀ c ∈ (allocMachine get_buffer_paddr base_buf).trace requests, c.state.alive = true →
      NoWrap (c.state.rn_dev.offset c.input.buf_location) c.input.buf_size) :
    let s := (allocMachine get_buffer_paddr base_buf).run requests
    AllocationInvariant base_buf s.buffers ∧
      (s.alive = true → ∀ location, s.part location =
        ((allocMachine get_buffer_paddr base_buf).run
          (requests.filter (·.buf_location = location))).part location) := by
  refine ⟨?_, fun halive location =>
    (part_independent get_buffer_paddr base_buf requests location halive).2⟩
  have hreset : AllocatorInv base_buf (allocMachine get_buffer_paddr base_buf).reset :=
    ⟨rfl, Nat.zero_le _, by simp [allocMachine], by simp [allocMachine], by simp [allocMachine],
      by simp [allocMachine], by simp [allocMachine]⟩
  have hinv := ((allocMachine get_buffer_paddr base_buf).promise_induction
    (fun c => c.state.alive = true →
      NoWrap (c.state.rn_dev.offset c.input.buf_location) c.input.buf_size)
    (AllocatorInv base_buf) hreset (fun _ _ hpromise hinv => hinv.step hpromise) requests hwrap).2
  exact hinv.allocations

/-- A host buffer, a device buffer, and a host buffer that does not fit into the rest of
its page any more. -/
theorem allocation_invariant_mixed : AllocationInvariant 0x7f0000000000#64
    ((allocMachine id 0x7f0000000000#64).run
      [⟨0xff0#64, .host_mem⟩, ⟨0x2000#64, .dev_mem⟩, ⟨0x40#64, .host_mem⟩]).buffers := by
  refine (allocation_invariant id 0x7f0000000000#64 _ ?_).1
  intro c hc _
  obtain rfl | rfl | rfl : c = _ ∨ c = _ ∨ c = _ := by
    simpa [Machine.trace, Machine.traceFrom] using hc
  · exact ⟨by decide, by decide⟩
  · exact ⟨by decide, by decide⟩
  · exact ⟨by decide, by decide⟩

end reconic.rdma_buff
