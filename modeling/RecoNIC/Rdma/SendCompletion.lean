import RecoNIC.Rdma.SendQueue

open clocked

namespace reconic.rdma_api

/-- A call returns 0 only if CQHEAD has reached the value it stored in SQPI, and -1
only if CQHEAD had not when it gave up. -/
def ReportsOwnWqe (c : Cycle SendQueue Call) (rc : Int) : Prop :=
  ∀ sq_pidb, (c.input.effect c.state.qp).doorbell = some sq_pidb →
    (rc = 0 → sq_pidb ≤ c.input.final_cqhead) ∧ (rc = -1 → (c.input.final_cqhead : Int) < sq_pidb)

/-- When a call first reads CQHEAD, the WQEs posted before it have completed, and its
own WQE does not complete just between the last read that the call compares and the
one that it no longer looks at. -/
structure InTime (c : Cycle SendQueue Call) : Prop where
  earlier_completed : ∀ value, c.input.reads.head? = some value → c.state.SQPI ≤ value
  not_on_last_read : ¬(c.input.reads[TIMEOUT_THRESHOLD]? = some c.state.SQPI ∧
    c.input.reads[TIMEOUT_THRESHOLD + 1]? = some (c.state.SQPI + 1))

/-- When nothing but `rdma_post_send` is called, the software copy of the completion
counter is the number of calls, whatever became of them. -/
structure SendsInv (s : SendQueue) : Prop where
  posted : s.qp.sq_pidb = s.SQPI
  fits : s.SQPI < 2 ^ 31
  polled : s.qp.sq_cidb = s.qp.sq_pidb

theorem SendsInv.step {s : SendQueue} {c : Call}
    (hsend : c.op = .rdma_post_send ∧ IndexFits ⟨s, c⟩)
    (hinv : s.idle = true → SendsInv s) (hidle : (post_call s c).idle = true) :
    SendsInv (post_call s c) := by
  obtain ⟨hop, hfits⟩ := hsend
  obtain ⟨hbefore, rc, qp, hreturned⟩ := idle_of_post_call hidle
  obtain ⟨hposted, -, hpolled⟩ := hinv hbefore
  rw [post_call_returned hbefore hreturned]
  simp only [Call.effect, hop] at hreturned
  obtain ⟨cq_cidb, -, -, rfl⟩ := post_send_returned hreturned
  simp only [IndexFits, hop] at hfits
  rw [to_int_eq (x := s.qp.sq_pidb + 1) (by omega) hfits]
  refine ⟨?_, ?_, ?_⟩
  · simp only
    omega
  · simp only
    omega
  · simp only [hpolled]
    exact to_int_eq (by omega) hfits

theorem sends_inv (qdepth : Nat) (calls : List Call) (hsends : ∀ c ∈ calls, c.op = .rdma_post_send)
    (hfits : ∀ c ∈ (sendMachine qdepth).trace calls, IndexFits c) :
    ∀ c ∈ (sendMachine qdepth).trace calls, c.state.idle = true → SendsInv c.state := by
  refine ((sendMachine qdepth).promise_induction
    (fun c => c.input.op = .rdma_post_send ∧ IndexFits c)
    (fun s => s.idle = true → SendsInv s) (fun _ => ⟨rfl, Nat.two_pow_pos 31, rfl⟩)
    (fun _ _ hsend hinv => SendsInv.step hsend hinv) calls ?_).1
  intro c hc
  exact ⟨hsends _ ((sendMachine qdepth).input_mem hc), hfits c hc⟩

/-- What a poll has read, when no value of CQHEAD is too large for an `int`. -/
theorem Polled.of_values {sq_cidb result : Int} {reads : List Nat}
    (hpolled : Polled sq_cidb (reads.map fun value : Nat => (value : Int)) result) :
    ∃ (waited : List Nat) (last : Nat), reads = waited ++ [last] ∧
      (∀ value ∈ waited, (value : Int) = sq_cidb) ∧
      ((waited.length ≤ TIMEOUT_THRESHOLD ∧ (last : Int) ≠ sq_cidb ∧ result = last) ∨
        (waited.length = TIMEOUT_THRESHOLD + 1 ∧ result = -1)) := by
  generalize hused : reads.map (fun value : Nat => (value : Int)) = used at hpolled
  cases hpolled with
  | answered hwaited hshort hlast =>
    obtain ⟨first, _, rfl, rfl, hend⟩ := List.map_eq_append_iff.mp hused
    obtain ⟨last, rfl, rfl⟩ := List.map_eq_singleton_iff.mp hend
    rw [List.length_map] at hshort
    exact ⟨first, last, rfl, fun value hvalue => hwaited _ (List.mem_map_of_mem hvalue),
      .inl ⟨hshort, hlast, rfl⟩⟩
  | timed_out hwaited hlong =>
    obtain ⟨first, _, rfl, rfl, hend⟩ := List.map_eq_append_iff.mp hused
    obtain ⟨last, rfl, rfl⟩ := List.map_eq_singleton_iff.mp hend
    rw [List.length_map] at hlong
    exact ⟨first, last, rfl, fun value hvalue => hwaited _ (List.mem_map_of_mem hvalue),
      .inr ⟨hlong, rfl⟩⟩

/-- A poll that gets its answer has reached the next WQE exactly when it starts with all earlier
WQEs completed. -/
theorem answered_reached_iff {posted last : Nat} {waited : List Nat}
    (hwaited : ∀ value ∈ waited, (value : Int) = posted) (hlast : (last : Int) ≠ posted)
    (hincreases : (waited ++ [last]).Pairwise (· ≤ ·)) :
    posted + 1 ≤ last ↔ ∀ value, (waited ++ [last]).head? = some value → posted ≤ value := by
  cases waited with
  | nil =>
    simp only [List.nil_append, List.head?_cons, Option.some.injEq, forall_eq']
    omega
  | cons first waited =>
    have hfirst := hwaited first (List.mem_cons_self ..)
    have hle : first ≤ last := by
      rw [List.pairwise_append] at hincreases
      exact hincreases.2.2 first (List.mem_cons_self ..) last (List.mem_singleton_self _)
    simp only [List.cons_append, List.head?_cons, Option.some.injEq, forall_eq']
    omega

/-- A poll that gives up has read the value it waits on up to its last read, which it does not
look at. -/
theorem timed_out_reads {posted last : Nat} {waited : List Nat}
    (hwaited : ∀ value ∈ waited, (value : Int) = posted)
    (hlong : waited.length = TIMEOUT_THRESHOLD + 1) :
    (waited ++ [last])[TIMEOUT_THRESHOLD]? = some posted ∧
      (waited ++ [last])[TIMEOUT_THRESHOLD + 1]? = some last ∧
      (waited ++ [last]).head? = some posted := by
  have hposted (value : Nat) (hvalue : value ∈ waited) : value = posted := by
    have hsame := hwaited value hvalue
    omega
  refine ⟨?_, ?_, ?_⟩
  · have hinside : TIMEOUT_THRESHOLD < waited.length := by omega
    rw [List.getElem?_append_left hinside, List.getElem?_eq_getElem hinside,
      hposted _ (List.getElem_mem hinside)]
  · rw [← hlong]
    simp
  · cases waited with
    | nil => simp at hlong
    | cons first waited =>
      rw [List.cons_append, List.head?_cons, hposted first (List.mem_cons_self ..)]

/-- A poll that waits for the WQE `posted + 1`, on values that increase and do not pass
it, tells the truth exactly when it starts with all earlier WQEs completed and does not
miss the completion on its last read. -/
theorem polled_truth_iff {posted : Nat} (before : Nat) {reads : List Nat} {cq_cidb : Int}
    (hpolled : Polled posted (reads.map fun value : Nat => (value : Int)) cq_cidb)
    (hincreases : reads.Pairwise (· ≤ ·))
    (hfollows : ∀ value ∈ reads, value ≤ posted + 1) :
    ((return_code cq_cidb = 0 → posted + 1 ≤ reads.getLastD before) ∧
      (return_code cq_cidb = -1 → reads.getLastD before < posted + 1)) ↔
    (∀ value, reads.head? = some value → posted ≤ value) ∧
      ¬(reads[TIMEOUT_THRESHOLD]? = some posted ∧
        reads[TIMEOUT_THRESHOLD + 1]? = some (posted + 1)) := by
  obtain ⟨waited, last, rfl, hwaited, ⟨hshort, hlast, rfl⟩ | ⟨hlong, rfl⟩⟩ := hpolled.of_values
  · have hcode : return_code (last : Int) = 0 := by simp [return_code]
    have hend : (waited ++ [last])[TIMEOUT_THRESHOLD + 1]? = none := by
      rw [List.getElem?_eq_none_iff]
      simp only [List.length_append, List.length_singleton]
      omega
    have hlastread : (waited ++ [last]).getLastD before = last := by simp
    rw [hcode, hend, hlastread, ← answered_reached_iff hwaited hlast hincreases]
    simp
  · have hcode : return_code (-1) = -1 := rfl
    have hlastread : (waited ++ [last]).getLastD before = last := by simp
    have hbound := hfollows last (by simp)
    obtain ⟨hwait, hfinal, hhead⟩ := @timed_out_reads posted last waited hwaited hlong
    rw [hcode, hlastread, hwait, hfinal, hhead]
    have hfailed : ¬(-1 : Int) = 0 := by decide
    simp only [Option.some.injEq, forall_eq', Nat.le_refl, true_and, hfailed, false_imp_iff,
      true_imp_iff]
    omega

/-- Which calls of `rdma_post_send` report the completion of their own WQE, as long as the number
of WQEs ever posted is an `int`. It is inferred from CQHEAD not being the number of earlier calls,
so a call that finds earlier WQEs uncompleted takes their backlog for its completion. -/
theorem post_send_reports_own_wqe_iff (qdepth : Nat) (calls : List Call)
    (hsends : ∀ c ∈ calls, c.op = .rdma_post_send)
    (hcounts : ∀ c ∈ (sendMachine qdepth).trace calls, CountsCompleted c)
    (hfits : ∀ c ∈ (sendMachine qdepth).trace calls, IndexFits c) :
    ∀ c ∈ (sendMachine qdepth).trace calls, c.state.idle = true →
      ∀ rc qp, (c.input.effect c.state.qp).returned = some (rc, qp) →
        (ReportsOwnWqe c rc ↔ InTime c) := by
  intro c hc hidle rc qp hreturned
  obtain ⟨hposted, hsmall, hpolled⟩ := sends_inv qdepth calls hsends hfits c hc hidle
  have hpromised := hcounts c hc
  have hop := hsends _ ((sendMachine qdepth).input_mem hc)
  obtain ⟨hdoorbell, -⟩ := effect_returned hreturned
  obtain ⟨hpidb, hnext⟩ := effect_doorbell (hfits c hc) (by omega) (by omega) hdoorbell
  simp only [Call.effect, hop] at hreturned
  obtain ⟨cq_cidb, hpoll, rfl, -⟩ := post_send_returned hreturned
  have hnew : qp.sq_pidb = (c.state.SQPI + 1 : Nat) := by
    rw [hpidb, hposted, hop]
    rfl
  rw [hnew] at hdoorbell hnext
  have hbound : ∀ value ∈ c.input.reads, value ≤ c.state.SQPI + 1 := by
    intro value hvalue
    have hfollows := hpromised.follows _ hdoorbell value hvalue
    omega
  obtain ⟨used, hreads, htruth⟩ := poll_cq_cidb_spec hpoll
  rw [List.append_nil, int_values_eq fun value hvalue => by
    have hsmall := hbound value hvalue
    omega] at hreads
  rw [← hreads, hpolled, hposted] at htruth
  have hiff := polled_truth_iff c.input.cqhead htruth
    (List.pairwise_cons.mp hpromised.increases).2 hbound
  constructor
  · intro hreports
    obtain ⟨hzero, hminus⟩ := hreports _ hdoorbell
    obtain ⟨hearlier, hlast⟩ := hiff.mp ⟨fun hrc => by exact_mod_cast hzero hrc,
      fun hrc => by exact_mod_cast hminus hrc⟩
    exact ⟨hearlier, hlast⟩
  · intro htime sq_pidb hsame
    obtain rfl := Option.some.inj (hdoorbell.symm.trans hsame)
    obtain ⟨hzero, hminus⟩ := hiff.mpr ⟨htime.earlier_completed, htime.not_on_last_read⟩
    exact ⟨fun hrc => by exact_mod_cast hzero hrc, fun hrc => by exact_mod_cast hminus hrc⟩

/-- A call that times out, whose WQE has completed by the time of a second call. -/
theorem post_send_reports_in_time :
    ReportsOwnWqe ⟨⟨⟨8, 1, 1, -1⟩, 1, 0, true⟩, ⟨.rdma_post_send, 1, [1, 2]⟩⟩ 0 := by
  refine (post_send_reports_own_wqe_iff 8 [unanswered_send, ⟨.rdma_post_send, 1, [1, 2]⟩]
    (by simp [unanswered_send]) ?_ ?_ _ (by rw [unanswered_send_trace]; simp) rfl 0 ⟨8, 2, 2, 2⟩
    rfl).mpr ⟨?_, ?_⟩
  · rw [unanswered_send_trace]
    intro c hc
    obtain rfl | rfl : c = _ ∨ c = _ := by simpa using hc
    · exact unanswered_send_counts 8
    · exact ⟨Nat.zero_le 1, Nat.le_refl 1, by simp, by
        intro sq_pidb hdoorbell
        obtain rfl : to_int 2 = sq_pidb := Option.some.inj hdoorbell
        decide⟩
  · rw [unanswered_send_trace]
    intro c hc
    obtain rfl | rfl : c = _ ∨ c = _ := by simpa using hc
    · exact unanswered_send_fits 8
    · simp [IndexFits]
  · simp
  · simp [TIMEOUT_THRESHOLD]

/-- A call that times out leaves its WQE behind, and the next call reports success as
soon as it looks: nothing has completed by then. -/
theorem post_send_reports_backlog : ¬∀ (qdepth : Nat) (calls : List Call),
    (∀ c ∈ calls, c.op = .rdma_post_send) →
    (∀ c ∈ (sendMachine qdepth).trace calls, CountsCompleted c) →
    (∀ c ∈ (sendMachine qdepth).trace calls, IndexFits c) →
    ∀ c ∈ (sendMachine qdepth).trace calls, c.state.idle = true →
      ∀ rc qp, (c.input.effect c.state.qp).returned = some (rc, qp) → ReportsOwnWqe c rc := by
  intro hclaim
  have hsends : ∀ c ∈ [unanswered_send, ⟨.rdma_post_send, 0, [0]⟩], c.op = .rdma_post_send := by
    simp [unanswered_send]
  have hsecond := hclaim 8 _ hsends
  rw [unanswered_send_trace] at hsecond
  have hreports := hsecond ?_ ?_ _ (List.mem_cons_of_mem _ (List.mem_singleton_self _)) rfl 0
    ⟨8, 2, 2, 0⟩ rfl
  · have hreached : (2 : Int) ≤ 0 := (hreports 2 rfl).1 rfl
    omega
  · intro c hc
    obtain rfl | rfl : c = _ ∨ c = _ := by simpa using hc
    · exact unanswered_send_counts 8
    · exact ⟨Nat.le_refl 0, Nat.zero_le 1, by simp, by
        intro sq_pidb hdoorbell
        obtain rfl : to_int 2 = sq_pidb := Option.some.inj hdoorbell
        decide⟩
  · intro c hc
    obtain rfl | rfl : c = _ ∨ c = _ := by simpa using hc
    · exact unanswered_send_fits 8
    · simp [IndexFits]

end reconic.rdma_api
