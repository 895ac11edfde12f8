import RecoNIC.Bits.Memory

namespace bits

/-- A copy of `size` bytes in chunks of at most `limit`. What is answered for a chunk is
nothing when it cannot be started, and else the number of bytes moved or an error below 0.
The copy ends at the first chunk that is not moved whole. -/
def chunked_copy {limit : Nat} (hlimit : 0 < limit) (src : Memory) (size : Nat)
    (answer : Nat → Nat → Option Int) (source target : BitVec 64) (turn count : Nat)
    (dst : Memory) : Option Nat × Memory :=
  let bytes := min (size - count) limit
  match answer turn count with
  | none => (none, dst)
  | some rc =>
    let dst := dst.store (target + BitVec.ofNat 64 count)
      (src.load (source + BitVec.ofNat 64 count) (min rc.toNat bytes))
    if rc ≠ bytes then (none, dst)
    else if count + bytes < size then
      chunked_copy hlimit src size answer source target (turn + 1) (count + bytes) dst
    else (some (count + bytes), dst)
termination_by size - count
decreasing_by omega

/-- How many chunks there are. A copy of nothing has one. -/
def chunks (limit size : Nat) : Nat := (size - 1) / limit + 1

/-- The bytes of a chunk. -/
def chunk_bytes (limit size turn : Nat) : Nat := min (size - turn * limit) limit

section ChunkedCopy

variable {limit : Nat} (hlimit : 0 < limit) (src : Memory) {size : Nat}
  (answer : Nat → Nat → Option Int) (source target : BitVec 64)

/-- What one chunk adds to the part that has been copied. -/
theorem store_chunk (dst : Memory) {count n : Nat} (hfits : count + n < 2 ^ 64) :
    (dst.store target (src.load source count)).store (target + BitVec.ofNat 64 count)
        (src.load (source + BitVec.ofNat 64 count) n) =
      dst.store target (src.load source (count + n)) := by
  have happend := dst.store_append target (src.load source count)
    (src.load (source + BitVec.ofNat 64 count) n) (by simpa using hfits)
  rwa [Memory.load_length, ← Memory.load_add] at happend

/-- A first part of the source has been copied, and the whole of it when the copy returns. -/
theorem chunked_copy_spec (hsize : size < 2 ^ 64) (dst : Memory) (turn : Nat) {count : Nat}
    (hcount : count ≤ size) :
    let result := chunked_copy hlimit src size answer source target turn count
      (dst.store target (src.load source count))
    ∃ copied ≤ size, result.2 = dst.store target (src.load source copied) ∧
      ∀ n, result.1 = some n → n = size ∧ copied = size := by
  induction hrest : size - count using Nat.strongRecOn generalizing turn count with
  | ind rest ih =>
    intro result
    have hbytes : count + min (size - count) limit ≤ size := by omega
    cases hanswer : answer turn count with
    | none =>
      refine ⟨count, hcount, ?_⟩
      simp only [result]
      rw [chunked_copy, hanswer]
      exact ⟨rfl, by simp⟩
    | some rc =>
      by_cases hshort : rc ≠ (min (size - count) limit : Nat)
      · refine ⟨count + min rc.toNat (min (size - count) limit), by omega, ?_⟩
        simp only [result]
        rw [chunked_copy, hanswer]
        simp only [if_pos hshort]
        exact ⟨store_chunk src source target dst (by omega), by simp⟩
      have hwhole : min rc.toNat (min (size - count) limit) = min (size - count) limit := by omega
      by_cases hmore : count + min (size - count) limit < size
      · have hnext := ih _ (by omega) (turn + 1) hbytes rfl
        simp only [result]
        rw [chunked_copy, hanswer]
        simp only [if_neg hshort, if_pos hmore, hwhole]
        rwa [store_chunk src source target dst (by omega)]
      · have hend : count + min (size - count) limit = size := by omega
        refine ⟨size, le_rfl, ?_⟩
        simp only [result]
        rw [chunked_copy, hanswer]
        simp only [if_neg hshort, if_neg hmore, hwhole]
        rw [store_chunk src source target dst (by omega), hend]
        exact ⟨rfl, fun n hn => ⟨(Option.some.inj hn).symm, trivial⟩⟩

theorem lt_chunks_iff {turn : Nat} (hlimit : 0 < limit) :
    turn < chunks limit size ↔ turn = 0 ∨ turn * limit < size := by
  rw [chunks, Nat.lt_succ_iff, Nat.le_div_iff_mul_le hlimit]
  by_cases hzero : turn = 0
  · simp [hzero]
  · have hpos : 0 < turn * limit := Nat.mul_pos (Nat.pos_of_ne_zero hzero) hlimit
    omega

/-- The copy returns exactly when every chunk is moved whole. -/
theorem chunked_copy_returns_iff (dst : Memory) {turn : Nat} (hturn : turn < chunks limit size)
    (n : Nat) :
    (chunked_copy hlimit src size answer source target turn (turn * limit) dst).1 = some n ↔
      n = size ∧ ∀ k, turn ≤ k → k < chunks limit size →
        answer k (k * limit) = some (chunk_bytes limit size k : Int) := by
  induction hrest : size - turn * limit using Nat.strongRecOn generalizing turn dst with
  | ind rest ih =>
    have hnext : turn + 1 < chunks limit size ↔ turn + 1 = 0 ∨ (turn + 1) * limit < size :=
      lt_chunks_iff hlimit
    have hsucc : (turn + 1) * limit = turn * limit + limit := Nat.succ_mul turn limit
    rw [chunked_copy, ← chunk_bytes]
    have hbytes : chunk_bytes limit size turn = min (size - turn * limit) limit := rfl
    cases hanswer : answer turn (turn * limit) with
    | none =>
      refine iff_of_false (by simp) fun hall => ?_
      have hnow := hall.2 turn le_rfl hturn
      rw [hanswer] at hnow
      cases hnow
    | some rc =>
      by_cases hshort : rc ≠ chunk_bytes limit size turn
      · simp only [if_pos hshort]
        refine iff_of_false (by simp) fun hall => ?_
        have hnow := hall.2 turn le_rfl hturn
        rw [hanswer] at hnow
        exact hshort (Option.some.inj hnow)
      rw [not_not] at hshort
      by_cases hmore : (turn + 1) * limit < size
      · have hcount : turn * limit + chunk_bytes limit size turn = (turn + 1) * limit := by omega
        simp only [hshort, ne_eq, not_true_eq_false, if_false, hcount, if_pos hmore]
        rw [ih _ (by omega) _ (hnext.mpr (.inr hmore)) rfl]
        refine and_congr_right fun _ => ⟨fun hall k hk hlt => ?_, fun hall k hk => hall k (by omega)⟩
        obtain rfl | hlater := Nat.eq_or_lt_of_le hk
        · rw [hanswer, hshort]
        · exact hall k hlater hlt
      · have hend : turn * limit + chunk_bytes limit size turn = size := by
          obtain rfl | hinside := (lt_chunks_iff hlimit).mp hturn <;> omega
        simp only [hshort, ne_eq, not_true_eq_false, if_false, hend, Nat.lt_irrefl]
        refine ⟨fun hn => ⟨(Option.some.inj hn).symm, fun k hk hlt => ?_⟩, fun hall => by rw [hall.1]⟩
        obtain rfl | hlater := Nat.eq_or_lt_of_le hk
        · rw [hanswer, hshort]
        · -- there is no chunk behind the end
          have hinside : turn + 1 < chunks limit size := by omega
          obtain hzero | hpast := hnext.mp hinside <;> omega

/-- A copy from the start leaves a first part of the source at the target, and the whole of it
when it returns. -/
theorem chunked_copy_copies (hsize : size < 2 ^ 64) (dst : Memory) :
    ∃ copied ≤ size, (chunked_copy hlimit src size answer source target 0 0 dst).2 =
        dst.store target (src.load source copied) ∧
      ∀ n, (chunked_copy hlimit src size answer source target 0 0 dst).1 = some n →
        n = size ∧ copied = size :=
  chunked_copy_spec hlimit src answer source target hsize dst 0 (Nat.zero_le size)

theorem chunked_copy_some_iff (dst : Memory) (n : Nat) :
    (chunked_copy hlimit src size answer source target 0 0 dst).1 = some n ↔
      n = size ∧ ∀ turn < chunks limit size,
        answer turn (turn * limit) = some (chunk_bytes limit size turn : Int) := by
  have hfirst : 0 < chunks limit size := Nat.succ_pos _
  have hcopy := chunked_copy_returns_iff hlimit src answer source target dst hfirst n
  rw [Nat.zero_mul] at hcopy
  simpa only [Nat.zero_le, forall_const] using hcopy

end ChunkedCopy

end bits
