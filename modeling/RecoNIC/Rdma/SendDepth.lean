import RecoNIC.Rdma.SendQueue

open clocked

namespace reconic.rdma_api

/-- A batch that fits into the queue is not rejected once all earlier WQEs have
completed, and from the doorbell of a call to its last read of CQHEAD no more than
`qdepth` WQEs are posted but uncompleted. -/
structure RespectsDepth (qdepth : Nat) (c : Cycle SendQueue Call) : Prop where
  never_rejected : ∀ batch_size, c.input.op = .rdma_post_batch_send batch_size →
    batch_size ≤ qdepth → c.input.cqhead = c.state.SQPI →
    (c.input.effect c.state.qp).doorbell ≠ none
  outstanding : ∀ sq_pidb, (c.input.effect c.state.qp).doorbell = some sq_pidb →
    ∀ cqhead ∈ c.input.cqhead :: c.input.reads, sq_pidb - cqhead ≤ qdepth

/-- A single send finds a free slot, and a batch that fits into the empty queue does
not take the number of all WQEs ever posted above the depth. -/
def WithinDepth (qdepth : Nat) (c : Cycle SendQueue Call) : Prop :=
  match c.input.op with
  | .rdma_post_send => c.state.SQPI < c.input.cqhead + qdepth
  | .rdma_post_batch_send batch_size =>
    batch_size ≤ qdepth → c.input.cqhead = c.state.SQPI → c.state.SQPI + batch_size ≤ qdepth

theorem head_le_reads {c : Call} (hincreases : (c.cqhead :: c.reads).Pairwise (· ≤ ·)) :
    ∀ cqhead ∈ c.cqhead :: c.reads, c.cqhead ≤ cqhead := by
  intro cqhead hmem
  obtain rfl | hread := List.mem_cons.mp hmem
  · exact Nat.le_refl _
  · exact (List.pairwise_cons.mp hincreases).1 cqhead hread

/-- When calls respect the depth of the queue, as long as the depth and the number of
WQEs ever posted are `int`s. A single send does not look at the depth at all, and a batch
compares the depth with the number of all WQEs ever posted. -/
theorem respects_depth_iff (qdepth : Nat) (calls : List Call)
    (hcounts : ∀ c ∈ (sendMachine qdepth).trace calls, CountsCompleted c)
    (hfits : ∀ c ∈ (sendMachine qdepth).trace calls, IndexFits c) :
    ∀ c ∈ (sendMachine qdepth).trace calls, c.state.idle = true →
      (RespectsDepth qdepth c ↔ WithinDepth qdepth c) := by
  intro c hc hidle
  obtain ⟨hqdepth, hposted, hsmall, -⟩ := queue_inv qdepth calls hcounts hfits c hc hidle
  have hfirst := head_le_reads (hcounts c hc).increases
  have hfits := hfits c hc
  obtain ⟨s, op, cqhead, reads⟩ := c
  simp only at hqdepth hposted hsmall hfirst
  cases op with
  | rdma_post_send =>
    simp only [WithinDepth]
    constructor
    · intro hrespects
      have hnext : s.qp.sq_pidb + 1 < 2 ^ 31 := hfits
      have hdoorbell := hrespects.outstanding (to_int (s.qp.sq_pidb + 1)) rfl cqhead
        (List.mem_cons_self ..)
      rw [to_int_eq (by omega) hnext] at hdoorbell
      omega
    · intro hroom
      refine ⟨by simp, ?_⟩
      intro sq_pidb hdoorbell later hlater
      obtain ⟨hpidb, -⟩ := effect_doorbell hfits (by omega) (by omega) hdoorbell
      have hle := hfirst later hlater
      simp only [Op.posts] at hpidb
      omega
  | rdma_post_batch_send batch_size =>
    have hrejected := @post_batch_send_rejected_iff s.qp batch_size reads (by omega) (by omega) hfits
    simp only [WithinDepth]
    constructor
    · intro hrespects hfits hcompleted
      have haccepted := hrespects.never_rejected batch_size rfl hfits hcompleted
      simp only [Call.effect, ne_eq, hrejected] at haccepted
      omega
    · intro hroom
      refine ⟨?_, ?_⟩
      · intro size hsize hfits hcompleted
        obtain rfl : batch_size = size := by simpa using hsize
        have htotal := hroom hfits hcompleted
        simp only [Call.effect, ne_eq, hrejected]
        omega
      · intro sq_pidb hdoorbell later _
        obtain ⟨hpidb, -⟩ := effect_doorbell hfits (by omega) (by omega) hdoorbell
        simp only [Call.effect] at hdoorbell
        have haccepted := hrejected.not.mp (by simp [hdoorbell])
        simp only [Op.posts] at hpidb
        omega

/-- In a queue of depth 4 a batch of 2 passes after a single send. -/
theorem respects_depth_in_room : RespectsDepth 4
    ⟨⟨⟨4, 1, 1, 1⟩, 1, 1, true⟩, ⟨.rdma_post_batch_send 2, 1, [2, 3]⟩⟩ := by
  have htrace : (sendMachine 4).trace
      [⟨.rdma_post_send, 0, [1]⟩, ⟨.rdma_post_batch_send 2, 1, [2, 3]⟩] =
      [⟨(sendMachine 4).reset, ⟨.rdma_post_send, 0, [1]⟩⟩,
        ⟨⟨⟨4, 1, 1, 1⟩, 1, 1, true⟩, ⟨.rdma_post_batch_send 2, 1, [2, 3]⟩⟩] := rfl
  refine (respects_depth_iff 4 [⟨.rdma_post_send, 0, [1]⟩, ⟨.rdma_post_batch_send 2, 1, [2, 3]⟩]
    ?_ ?_ _ (List.mem_cons_of_mem _ (List.mem_singleton_self _)) rfl).mpr ?_
  · rw [htrace]
    intro c hc
    obtain rfl | rfl : c = _ ∨ c = _ := by simpa using hc
    · exact ⟨Nat.le_refl 0, Nat.le_refl 0, by simp, by
        intro sq_pidb hdoorbell
        obtain rfl : to_int 1 = sq_pidb := Option.some.inj hdoorbell
        decide⟩
    · exact ⟨Nat.le_refl 1, Nat.le_refl 1, by simp, by
        intro sq_pidb hdoorbell
        obtain rfl : to_int 3 = sq_pidb := Option.some.inj hdoorbell
        decide⟩
  · rw [htrace]
    intro c hc
    obtain rfl | rfl : c = _ ∨ c = _ := by simpa using hc
    · simp [IndexFits, sendMachine]
    · simp [IndexFits]
  · intro hfits hcompleted
    exact Nat.le_of_ble_eq_true rfl

/-- Two completed batches of 1 are one too many for a queue of depth 1, and a call that
times out does not keep the next one from overfilling it. -/
theorem depth_not_respected :
    (¬∀ (qdepth : Nat) (calls : List Call),
      (∀ c ∈ (sendMachine qdepth).trace calls, CountsCompleted c) →
      (∀ c ∈ (sendMachine qdepth).trace calls, IndexFits c) →
      ∀ c ∈ (sendMachine qdepth).trace calls, c.state.idle = true →
        ∀ batch_size, c.input.op = .rdma_post_batch_send batch_size → batch_size ≤ qdepth →
          c.input.cqhead = c.state.SQPI → (c.input.effect c.state.qp).doorbell ≠ none) ∧
    ¬∀ (qdepth : Nat) (calls : List Call),
      (∀ c ∈ (sendMachine qdepth).trace calls, CountsCompleted c) →
      (∀ c ∈ (sendMachine qdepth).trace calls, IndexFits c) →
      ∀ c ∈ (sendMachine qdepth).trace calls, c.state.idle = true →
        ∀ sq_pidb, (c.input.effect c.state.qp).doorbell = some sq_pidb →
          ∀ cqhead ∈ c.input.cqhead :: c.input.reads, sq_pidb - cqhead ≤ qdepth := by
  refine ⟨?_, ?_⟩
  · intro hclaim
    have htrace : (sendMachine 1).trace
        [⟨.rdma_post_batch_send 1, 0, [1]⟩, ⟨.rdma_post_batch_send 1, 1, []⟩] =
        [⟨(sendMachine 1).reset, ⟨.rdma_post_batch_send 1, 0, [1]⟩⟩,
          ⟨⟨⟨1, 1, 1, 1⟩, 1, 1, true⟩, ⟨.rdma_post_batch_send 1, 1, []⟩⟩] := rfl
    have hsecond := hclaim 1 [⟨.rdma_post_batch_send 1, 0, [1]⟩, ⟨.rdma_post_batch_send 1, 1, []⟩]
    rw [htrace] at hsecond
    refine hsecond ?_ ?_ _ (List.mem_cons_of_mem _ (List.mem_singleton_self _)) rfl 1 rfl
      (Nat.le_refl 1) rfl rfl
    · intro c hc
      obtain rfl | rfl : c = _ ∨ c = _ := by simpa using hc
      · exact ⟨Nat.le_refl 0, Nat.le_refl 0, by simp, by
          intro sq_pidb hdoorbell
          obtain rfl : to_int 1 = sq_pidb := Option.some.inj hdoorbell
          decide⟩
      · exact ⟨Nat.le_refl 1, Nat.le_refl 1, by simp, by simp⟩
    · intro c hc
      obtain rfl | rfl : c = _ ∨ c = _ := by simpa using hc
      · simp [IndexFits, sendMachine]
      · simp [IndexFits]
  · intro hclaim
    have hsecond := hclaim 1 [unanswered_send, ⟨.rdma_post_send, 0, []⟩]
    rw [unanswered_send_trace] at hsecond
    have hdepth : (2 : Int) - (0 : Nat) ≤ (1 : Nat) :=
      hsecond ?_ ?_ _ (List.mem_cons_of_mem _ (List.mem_singleton_self _)) rfl 2 rfl 0
        (List.mem_cons_self ..)
    · omega
    · intro c hc
      obtain rfl | rfl : c = _ ∨ c = _ := by simpa using hc
      · exact unanswered_send_counts 1
      · exact ⟨Nat.le_refl 0, Nat.zero_le 1, by simp, by simp⟩
    · intro c hc
      obtain rfl | rfl : c = _ ∨ c = _ := by simpa using hc
      · exact unanswered_send_fits 1
      · simp [IndexFits]

end reconic.rdma_api
