import RecoNIC.Bits.ChunkedCopy
import RecoNIC.Rdma.Buffers

open bits
open reconic.rdma_buff (DEVICE_MEMORY_ADDRESS_MASK)

namespace reconic.memory_api

def RW_MAX_SIZE : Nat := 0x7ffff000

/-- What the character device answers to the two calls of one turn. -/
structure Answer where
  lseek : Int
  write : Int

/-- The loop of `write_from_buffer`. It gives the number of bytes written, or nothing
for `-EIO`, and the device memory. -/
def write_loop (host : Memory) (size : Nat) (answers : Nat → Answer) (turn count : Nat)
    (buf offset : BitVec 64) (device : Memory) : Option Nat × Memory :=
  let bytes := min (size - count) RW_MAX_SIZE
  if (answers turn).lseek < 0 ∨ (answers turn).lseek ≠ offset.toInt then (none, device)
  else
    let rc := (answers turn).write
    -- an answer below `bytes` is a short write
    let device := device.store offset (host.load buf (min rc.toNat bytes))
    if rc < 0 ∨ rc ≠ bytes then (none, device)
    else if count + bytes < size then
      write_loop host size answers (turn + 1) (count + bytes) (buf + BitVec.ofNat 64 bytes)
        (offset + BitVec.ofNat 64 bytes) device
    else if count + bytes ≠ size then (none, device)
    else (some (count + bytes), device)
termination_by size - count
decreasing_by
  simp only [RW_MAX_SIZE] at *
  omega

def write_from_buffer (host : Memory) (answers : Nat → Answer) (buffer : BitVec 64) (size : Nat)
    (dev_offset : BitVec 64) (device : Memory) : Option Nat × Memory :=
  write_loop host size answers 0 0 buffer (dev_offset &&& DEVICE_MEMORY_ADDRESS_MASK) device

/-- The same for `read`. -/
structure ReadAnswer where
  lseek : Int
  read : Int

/-- The loop of `read_to_buffer`, which stores into the host memory. -/
def read_loop (device : Memory) (size : Nat) (answers : Nat → ReadAnswer) (turn count : Nat)
    (buf offset : BitVec 64) (host : Memory) : Option Nat × Memory :=
  let bytes := min (size - count) RW_MAX_SIZE
  if (answers turn).lseek < 0 ∨ (answers turn).lseek ≠ offset.toInt then (none, host)
  else
    let rc := (answers turn).read
    let host := host.store buf (device.load offset (min rc.toNat bytes))
    if rc < 0 ∨ rc ≠ bytes then (none, host)
    else if count + bytes < size then
      read_loop device size answers (turn + 1) (count + bytes) (buf + BitVec.ofNat 64 bytes)
        (offset + BitVec.ofNat 64 bytes) host
    else if count + bytes ≠ size then (none, host)
    else (some (count + bytes), host)
termination_by size - count
decreasing_by
  simp only [RW_MAX_SIZE] at *
  omega

def read_to_buffer (device : Memory) (answers : Nat → ReadAnswer) (buffer : BitVec 64) (size : Nat)
    (dev_offset : BitVec 64) (host : Memory) : Option Nat × Memory :=
  read_loop device size answers 0 0 buffer (dev_offset &&& DEVICE_MEMORY_ADDRESS_MASK) host

def EIO : Int := 5

/-- What a call returns. -/
def returned (result : Option Nat) : Int :=
  match result with
  | some count => count
  | none => - EIO

theorem rw_max_pos : 0 < RW_MAX_SIZE := by decide

/-- The answer to a chunk: nothing when the seek does not find its place. -/
def seek_answer (lseek rc : Int) (offset : BitVec 64) : Option Int :=
  if lseek < 0 ∨ lseek ≠ offset.toInt then none else some rc

theorem seek_answer_eq_some {lseek rc : Int} {offset : BitVec 64} {n : Int} :
    seek_answer lseek rc offset = some n ↔ 0 ≤ lseek ∧ lseek = offset.toInt ∧ rc = n := by
  rw [seek_answer, Option.ite_none_left_eq_some, not_or, not_not, Int.not_lt, Option.some.injEq,
    and_assoc]

/-- The loop of `write_from_buffer` is a copy in chunks. -/
theorem write_loop_eq (host : Memory) {size : Nat} (answers : Nat → Answer)
    (buffer start : BitVec 64) (turn : Nat) {count : Nat} (hcount : count ≤ size)
    (device : Memory) :
    write_loop host size answers turn count (buffer + BitVec.ofNat 64 count)
        (start + BitVec.ofNat 64 count) device =
      chunked_copy rw_max_pos host size
        (fun turn count => seek_answer (answers turn).lseek (answers turn).write
          (start + BitVec.ofNat 64 count)) buffer start turn count device := by
  induction hrest : size - count using Nat.strongRecOn generalizing turn count device with
  | ind rest ih =>
    have hlimit := rw_max_pos
    rw [write_loop, chunked_copy, seek_answer]
    by_cases hseek : (answers turn).lseek < 0 ∨
        (answers turn).lseek ≠ (start + BitVec.ofNat 64 count).toInt
    · rw [if_pos hseek, if_pos hseek]
    · have hshort : ((answers turn).write < 0 ∨
          (answers turn).write ≠ (min (size - count) RW_MAX_SIZE : Nat)) ↔
            (answers turn).write ≠ (min (size - count) RW_MAX_SIZE : Nat) := by omega
      have hend : ¬count + min (size - count) RW_MAX_SIZE < size →
          ¬count + min (size - count) RW_MAX_SIZE ≠ size := by omega
      rw [if_neg hseek, if_neg hseek]
      simp only [hshort]
      split
      · rfl
      · split
        · have hinside : count + min (size - count) RW_MAX_SIZE ≤ size := by omega
          rw [← ih _ (by omega) (turn + 1) hinside _ rfl, BitVec.add_assoc, BitVec.add_assoc,
            ← BitVec.ofNat_add]
        · rw [if_neg (hend ‹_›)]

/-- So is that of `read_to_buffer`, in the other direction. -/
theorem read_loop_eq (device : Memory) {size : Nat} (answers : Nat → ReadAnswer)
    (buffer start : BitVec 64) (turn : Nat) {count : Nat} (hcount : count ≤ size)
    (host : Memory) :
    read_loop device size answers turn count (buffer + BitVec.ofNat 64 count)
        (start + BitVec.ofNat 64 count) host =
      chunked_copy rw_max_pos device size
        (fun turn count => seek_answer (answers turn).lseek (answers turn).read
          (start + BitVec.ofNat 64 count)) start buffer turn count host := by
  induction hrest : size - count using Nat.strongRecOn generalizing turn count host with
  | ind rest ih =>
    have hlimit := rw_max_pos
    rw [read_loop, chunked_copy, seek_answer]
    by_cases hseek : (answers turn).lseek < 0 ∨
        (answers turn).lseek ≠ (start + BitVec.ofNat 64 count).toInt
    · rw [if_pos hseek, if_pos hseek]
    · have hshort : ((answers turn).read < 0 ∨
          (answers turn).read ≠ (min (size - count) RW_MAX_SIZE : Nat)) ↔
            (answers turn).read ≠ (min (size - count) RW_MAX_SIZE : Nat) := by omega
      have hend : ¬count + min (size - count) RW_MAX_SIZE < size →
          ¬count + min (size - count) RW_MAX_SIZE ≠ size := by omega
      rw [if_neg hseek, if_neg hseek]
      simp only [hshort]
      split
      · rfl
      · split
        · have hinside : count + min (size - count) RW_MAX_SIZE ≤ size := by omega
          rw [← ih _ (by omega) (turn + 1) hinside _ rfl, BitVec.add_assoc, BitVec.add_assoc,
            ← BitVec.ofNat_add]
        · rw [if_neg (hend ‹_›)]

/-- Every chunk is moved whole: the seek finds its place on the device, and the call that moves
it returns its size. -/
def InFull (lseek rc : Nat → Int) (size : Nat) (dev_offset : BitVec 64) : Prop :=
  ∀ turn < chunks RW_MAX_SIZE size, 0 ≤ lseek turn ∧
    lseek turn = ((dev_offset &&& DEVICE_MEMORY_ADDRESS_MASK) +
      BitVec.ofNat 64 (turn * RW_MAX_SIZE)).toInt ∧
    rc turn = chunk_bytes RW_MAX_SIZE size turn

/-- The bytes from `source` on stand from `target` on, and no other byte has changed. -/
def Transferred (src : Memory) (source : BitVec 64) (size : Nat) (target : BitVec 64)
    (dst dst' : Memory) : Prop :=
  dst'.load target size = src.load source size ∧ ∀ a, size ≤ (a - target).toNat → dst' a = dst a

theorem store_load_transferred (src dst : Memory) (source target : BitVec 64) {size : Nat}
    (hsize : size < 2 ^ 64) :
    Transferred src source size target dst (dst.store target (src.load source size)) := by
  have hstored := dst.load_store target (src.load source size) (by simp; omega)
  rw [Memory.load_length] at hstored
  exact ⟨hstored, fun a ha => dst.store_outside (by simpa using ha)⟩

theorem write_from_buffer_eq (host : Memory) (answers : Nat → Answer) (buffer : BitVec 64)
    (size : Nat) (dev_offset : BitVec 64) (device : Memory) :
    write_from_buffer host answers buffer size dev_offset device =
      chunked_copy rw_max_pos host size
        (fun turn count => seek_answer (answers turn).lseek (answers turn).write
          ((dev_offset &&& DEVICE_MEMORY_ADDRESS_MASK) + BitVec.ofNat 64 count)) buffer
        (dev_offset &&& DEVICE_MEMORY_ADDRESS_MASK) 0 0 device := by
  have hloop := write_loop_eq host answers buffer (dev_offset &&& DEVICE_MEMORY_ADDRESS_MASK) 0
    (Nat.zero_le size) device
  rwa [BitVec.add_zero, BitVec.add_zero] at hloop

theorem read_to_buffer_eq (device : Memory) (answers : Nat → ReadAnswer) (buffer : BitVec 64)
    (size : Nat) (dev_offset : BitVec 64) (host : Memory) :
    read_to_buffer device answers buffer size dev_offset host =
      chunked_copy rw_max_pos device size
        (fun turn count => seek_answer (answers turn).lseek (answers turn).read
          ((dev_offset &&& DEVICE_MEMORY_ADDRESS_MASK) + BitVec.ofNat 64 count))
        (dev_offset &&& DEVICE_MEMORY_ADDRESS_MASK) buffer 0 0 host := by
  have hloop := read_loop_eq device answers buffer (dev_offset &&& DEVICE_MEMORY_ADDRESS_MASK) 0
    (Nat.zero_le size) host
  rwa [BitVec.add_zero, BitVec.add_zero] at hloop

/-- The call writes a first part of the buffer at the masked offset, and the whole of it
when it returns. -/
theorem write_from_buffer_spec (host : Memory) (answers : Nat → Answer) (buffer : BitVec 64)
    (size : Nat) (hsize : size < 2 ^ 64) (dev_offset : BitVec 64) (device : Memory) :
    let result := write_from_buffer host answers buffer size dev_offset device
    ∃ written ≤ size, result.2 =
        device.store (dev_offset &&& DEVICE_MEMORY_ADDRESS_MASK) (host.load buffer written) ∧
      ∀ n, result.1 = some n → n = size ∧ written = size := by
  rw [write_from_buffer_eq]
  exact chunked_copy_copies _ _ _ _ _ hsize device

theorem read_to_buffer_spec (device : Memory) (answers : Nat → ReadAnswer) (buffer : BitVec 64)
    (size : Nat) (hsize : size < 2 ^ 64) (dev_offset : BitVec 64) (host : Memory) :
    let result := read_to_buffer device answers buffer size dev_offset host
    ∃ copied ≤ size, result.2 =
        host.store buffer (device.load (dev_offset &&& DEVICE_MEMORY_ADDRESS_MASK) copied) ∧
      ∀ n, result.1 = some n → n = size ∧ copied = size := by
  rw [read_to_buffer_eq]
  exact chunked_copy_copies _ _ _ _ _ hsize host

theorem write_from_buffer_some_iff (host : Memory) (answers : Nat → Answer) (buffer : BitVec 64)
    (size : Nat) (dev_offset : BitVec 64) (device : Memory) (n : Nat) :
    (write_from_buffer host answers buffer size dev_offset device).1 = some n ↔
      n = size ∧ InFull (fun turn => (answers turn).lseek) (fun turn => (answers turn).write) size
        dev_offset := by
  rw [write_from_buffer_eq, chunked_copy_some_iff]
  simp only [seek_answer_eq_some, InFull]

theorem read_to_buffer_some_iff (device : Memory) (answers : Nat → ReadAnswer) (buffer : BitVec 64)
    (size : Nat) (dev_offset : BitVec 64) (host : Memory) (n : Nat) :
    (read_to_buffer device answers buffer size dev_offset host).1 = some n ↔
      n = size ∧ InFull (fun turn => (answers turn).lseek) (fun turn => (answers turn).read) size
        dev_offset := by
  rw [read_to_buffer_eq, chunked_copy_some_iff]
  simp only [seek_answer_eq_some, InFull]

/-- What is returned, when a result exists exactly under a condition. -/
theorem returned_eq_size_iff {result : Option Nat} {size : Nat} {Condition : Prop}
    (hsome : ∀ n, result = some n ↔ n = size ∧ Condition) :
    (returned result = size ↔ Condition) ∧ (¬Condition → returned result = - EIO) := by
  cases result with
  | none =>
    have hnot : ¬Condition := fun hcondition => by simpa using (hsome size).mpr ⟨rfl, hcondition⟩
    exact ⟨iff_of_false (by simp only [returned, EIO]; omega) hnot, fun _ => rfl⟩
  | some n =>
    obtain ⟨rfl, hcondition⟩ := (hsome n).mp rfl
    exact ⟨iff_of_true rfl hcondition, fun hnot => absurd hcondition hnot⟩

/-- A call that returns the size has moved the whole buffer. -/
theorem write_from_buffer_transfers (host : Memory) (answers : Nat → Answer) (buffer : BitVec 64)
    {size : Nat} (hsize : size < 2 ^ 64) (dev_offset : BitVec 64) (device : Memory)
    (hreturned :
      returned (write_from_buffer host answers buffer size dev_offset device).1 = size) :
    Transferred host buffer size (dev_offset &&& DEVICE_MEMORY_ADDRESS_MASK) device
      (write_from_buffer host answers buffer size dev_offset device).2 := by
  have hsome := write_from_buffer_some_iff host answers buffer size dev_offset device
  have hfull := (returned_eq_size_iff hsome).1.mp hreturned
  obtain ⟨written, -, hdevice, hwhole⟩ :=
    write_from_buffer_spec host answers buffer size hsize dev_offset device
  obtain ⟨-, rfl⟩ := hwhole size ((hsome size).mpr ⟨rfl, hfull⟩)
  rw [hdevice]
  exact store_load_transferred host device buffer _ hsize

theorem read_to_buffer_transfers (device : Memory) (answers : Nat → ReadAnswer)
    (buffer : BitVec 64) {size : Nat} (hsize : size < 2 ^ 64) (dev_offset : BitVec 64)
    (host : Memory)
    (hreturned : returned (read_to_buffer device answers buffer size dev_offset host).1 = size) :
    Transferred device (dev_offset &&& DEVICE_MEMORY_ADDRESS_MASK) size buffer host
      (read_to_buffer device answers buffer size dev_offset host).2 := by
  have hsome := read_to_buffer_some_iff device answers buffer size dev_offset host
  have hfull := (returned_eq_size_iff hsome).1.mp hreturned
  obtain ⟨copied, -, hhost, hwhole⟩ :=
    read_to_buffer_spec device answers buffer size hsize dev_offset host
  obtain ⟨-, rfl⟩ := hwhole size ((hsome size).mpr ⟨rfl, hfull⟩)
  rw [hhost]
  exact store_load_transferred device host _ buffer hsize

/-- A buffer of at most `RW_MAX_SIZE` bytes is written in one turn. -/
theorem write_from_buffer_returns (host : Memory) (answers : Nat → Answer) (buffer : BitVec 64)
    (size : Nat) (hsize : size ≤ RW_MAX_SIZE) (dev_offset : BitVec 64) (device : Memory)
    (hseek : (answers 0).lseek = (dev_offset &&& DEVICE_MEMORY_ADDRESS_MASK).toInt)
    (hwrite : (answers 0).write = size) :
    (write_from_buffer host answers buffer size dev_offset device).1 = some size := by
  have hpositive : 0 ≤ (dev_offset &&& DEVICE_MEMORY_ADDRESS_MASK).toInt := by
    rw [BitVec.toInt_eq_toNat_of_msb]
    · omega
    · rw [BitVec.msb_and]
      exact Bool.and_false _
  refine (write_from_buffer_some_iff ..).mpr ⟨rfl, fun turn hturn => ?_⟩
  have hfirst : turn = 0 := by
    rw [lt_chunks_iff rw_max_pos] at hturn
    by_contra hlater
    have hbehind := Nat.le_mul_of_pos_left RW_MAX_SIZE (Nat.pos_of_ne_zero hlater)
    omega
  subst hfirst
  rw [Nat.zero_mul, BitVec.add_zero, chunk_bytes, Nat.zero_mul, Nat.sub_zero, Nat.min_eq_left hsize]
  exact ⟨le_of_le_of_eq hpositive hseek.symm, hseek, hwrite⟩

/-- `write_from_buffer` and `read_to_buffer` return the size exactly when every chunk is moved
whole, and `-EIO` otherwise. What they move are then exactly the bytes asked for, and what has
been written is read again. -/
theorem transfers_exact (host device : Memory) (w : Nat → Answer) (r : Nat → ReadAnswer)
    (buffer : BitVec 64) (size : Nat) (hsize : size < 2 ^ 63) (dev_offset : BitVec 64) :
    let o := dev_offset &&& DEVICE_MEMORY_ADDRESS_MASK
    let written := write_from_buffer host w buffer size dev_offset device
    let read := read_to_buffer device r buffer size dev_offset host
    let written_in_full := InFull (fun turn => (w turn).lseek) (fun turn => (w turn).write) size
      dev_offset
    let read_in_full := InFull (fun turn => (r turn).lseek) (fun turn => (r turn).read) size dev_offset
    ((returned written.1 = size ↔ written_in_full) ∧
      (¬written_in_full → returned written.1 = - EIO) ∧
      (returned written.1 = size → Transferred host buffer size o device written.2)) ∧
    ((returned read.1 = size ↔ read_in_full) ∧
      (¬read_in_full → returned read.1 = - EIO) ∧
      (returned read.1 = size → Transferred device o size buffer host read.2)) ∧
    ∀ (host' : Memory) (r' : Nat → ReadAnswer) (buffer' : BitVec 64),
      let again := read_to_buffer written.2 r' buffer' size dev_offset host'
      returned written.1 = size → returned again.1 = size →
        again.2.load buffer' size = host.load buffer size := by
  intro o written read written_in_full read_in_full
  obtain ⟨hwritten, hwrite_fails⟩ :=
    returned_eq_size_iff (write_from_buffer_some_iff host w buffer size dev_offset device)
  obtain ⟨hread, hread_fails⟩ :=
    returned_eq_size_iff (read_to_buffer_some_iff device r buffer size dev_offset host)
  have hwrites : returned written.1 = size → Transferred host buffer size o device written.2 :=
    fun hreturned => write_from_buffer_transfers host w buffer (by omega) dev_offset device hreturned
  have hreads : returned read.1 = size → Transferred device o size buffer host read.2 :=
    fun hreturned => read_to_buffer_transfers device r buffer (by omega) dev_offset host hreturned
  refine ⟨⟨hwritten, hwrite_fails, hwrites⟩, ⟨hread, hread_fails, hreads⟩, ?_⟩
  intro host' r' buffer' again hwrote hagain
  have hback := read_to_buffer_transfers written.2 r' buffer' (by omega) dev_offset host' hagain
  exact hback.1.trans (hwrites hwrote).1

/-- Three bytes are written and read again into another buffer. -/
theorem transfers_exact_three :
    let host : Memory := fun a => a.setWidth 8
    let device : Memory := fun _ => 0
    let written := write_from_buffer host (fun _ => ⟨64, 3⟩) 7 3 64 device
    let again := read_to_buffer written.2 (fun _ => ⟨64, 3⟩) 1000 3 64 host
    returned written.1 = 3 ∧ returned again.1 = 3 ∧ again.2.load 1000 3 = [7, 8, 9] := by
  intro host device written again
  have hfull : InFull (fun _ => 64) (fun _ => 3) 3 64 := by
    unfold InFull
    decide
  have hwritten := transfers_exact host device (fun _ => ⟨64, 3⟩) (fun _ => ⟨64, 3⟩) 7 3 (by decide) 64
  have hagain :=
    transfers_exact host written.2 (fun _ => ⟨64, 3⟩) (fun _ => ⟨64, 3⟩) 1000 3 (by decide) 64
  have hwrote : returned written.1 = 3 := hwritten.1.1.mpr hfull
  have hread : returned again.1 = 3 := hagain.2.1.1.mpr hfull
  refine ⟨hwrote, hread, ?_⟩
  rw [hwritten.2.2 host (fun _ => ⟨64, 3⟩) 1000 hwrote hread]
  rfl

end reconic.memory_api
