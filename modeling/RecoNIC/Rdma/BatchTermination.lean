import Mathlib.Order.Monotone.Basic
import RecoNIC.Rdma.SendQueue

open clocked

namespace reconic.rdma_api

/-- CQHEAD only increases, from call to call and from read to read. -/
def Increases (c : Cycle SendQueue Call) : Prop :=
  (c.state.CQHEAD :: c.input.cqhead :: c.input.reads).Pairwise (· ≤ ·)

/-- What later reads of CQHEAD return, the first one first: a counter that increases
up to a final value and stays there. -/
structure Settles (start : Nat) (cqhead : Nat → Nat) (final : Nat) : Prop where
  begins : start ≤ cqhead 0
  increases : Monotone cqhead
  settled : ∃ n, ∀ k, n ≤ k → cqhead k = final

/-- The first `n` values that are read. -/
def readsOf {α : Type} (cqhead : Nat → α) (n : Nat) : List α := (List.range n).map cqhead

/-- A batch that returns after finitely many reads, with 0 only if CQHEAD has reached
the posted index by the last of them, and with -1 when completions stop before it. -/
def ReturnsAndReports (s : SendQueue) (batch_size : Nat) (cqhead : Nat → Nat) (final : Nat) : Prop :=
  ∃ n rc qp, (rdma_post_batch_send s.qp batch_size (readsOf cqhead n)).returned = some (rc, qp) ∧
    (rc = 0 → s.qp.sq_pidb + batch_size ≤ (readsOf cqhead n).getLastD s.CQHEAD) ∧
    ((final : Int) < s.qp.sq_pidb + batch_size → rc = -1)

theorem Settles.le_final {start final : Nat} {cqhead : Nat → Nat} (h : Settles start cqhead final)
    (k : Nat) : cqhead k ≤ final := by
  obtain ⟨n, hsettled⟩ := h.settled
  rw [← hsettled (max n k) (Nat.le_max_left ..)]
  exact h.increases (Nat.le_max_right ..)

theorem Settles.start_le_final {start final : Nat} {cqhead : Nat → Nat}
    (h : Settles start cqhead final) : start ≤ final :=
  h.begins.trans (h.le_final 0)

theorem readsOf_length {α : Type} (cqhead : Nat → α) (n : Nat) : (readsOf cqhead n).length = n := by
  rw [readsOf, List.length_map, List.length_range]

theorem readsOf_add {α : Type} (cqhead : Nat → α) (n m : Nat) :
    readsOf cqhead (n + m) = readsOf cqhead n ++ readsOf (fun k => cqhead (n + k)) m := by
  rw [readsOf, List.range_add, List.map_append, List.map_map]
  rfl

theorem int_values_readsOf (cqhead : Nat → Nat) (n : Nat) :
    int_values (readsOf cqhead n) = readsOf (fun k => to_int (cqhead k)) n := by
  simp only [int_values, readsOf, List.map_map, Function.comp_def]

/-- The last of the reads shows at most the final value. -/
theorem Settles.last_le {start final : Nat} {cqhead : Nat → Nat} (h : Settles start cqhead final)
    (n : Nat) : (readsOf cqhead n).getLastD start ≤ final := by
  cases n with
  | zero => exact h.start_le_final
  | succ n =>
    rw [readsOf, List.range_succ, List.map_append]
    simpa using h.le_final n

/-- A poll that has what it waits for leaves the later reads alone. -/
theorem poll_loop_of_waited {sq_cidb : Int} {waited : List Int} (first last : Int)
    (timeout_cnt : Nat) (rest : List Int) (hfirst : first = sq_cidb)
    (hwaited : ∀ value ∈ waited, value = sq_cidb) :
    (timeout_cnt + waited.length < TIMEOUT_THRESHOLD → last ≠ sq_cidb →
      poll_loop sq_cidb first timeout_cnt (waited ++ last :: rest) = some (last, rest)) ∧
    (timeout_cnt + waited.length = TIMEOUT_THRESHOLD →
      poll_loop sq_cidb first timeout_cnt (waited ++ last :: rest) = some (-1, rest)) := by
  induction waited generalizing first timeout_cnt with
  | nil =>
    simp only [List.length_nil, Nat.add_zero, List.nil_append, poll_loop, hfirst, if_true]
    constructor
    · intro hshort hlast
      rw [if_neg (by omega)]
      cases rest with
      | nil => rw [poll_loop, if_neg hlast]
      | cons value rest => rw [poll_loop, if_neg hlast]
    · rintro rfl
      rw [if_pos (by omega)]
  | cons value waited ih =>
    obtain ⟨hsoon, hlate⟩ := ih value (timeout_cnt + 1) (hwaited value (List.mem_cons_self ..))
      fun v hv => hwaited v (List.mem_cons_of_mem _ hv)
    simp only [List.length_cons, List.cons_append, poll_loop, hfirst, if_true]
    constructor
    · intro hshort hlast
      rw [if_neg (by omega)]
      exact hsoon (by omega) hlast
    · intro hlong
      rw [if_neg (by omega)]
      exact hlate (by omega)

/-- The values that a poll reads determine what it returns. -/
theorem Polled.poll {sq_cidb result : Int} {used : List Int} (hpolled : Polled sq_cidb used result)
    (rest : List Int) : poll_cq_cidb sq_cidb (used ++ rest) = some (result, rest) := by
  cases hpolled with
  | @answered waited _ hwaited hshort hlast =>
    cases waited with
    | nil => cases rest <;> simp [poll_cq_cidb, poll_loop, hlast]
    | cons first waited =>
      have hloop := poll_loop_of_waited first result 0 rest (hwaited first (List.mem_cons_self ..))
        fun v hv => hwaited v (List.mem_cons_of_mem _ hv)
      simp only [List.length_cons] at hshort
      simpa [poll_cq_cidb] using hloop.1 (by omega) hlast
  | @timed_out waited last hwaited hlong =>
    cases waited with
    | nil => simp at hlong
    | cons first waited =>
      have hloop := poll_loop_of_waited first last 0 rest (hwaited first (List.mem_cons_self ..))
        fun v hv => hwaited v (List.mem_cons_of_mem _ hv)
      simp only [List.length_cons] at hlong
      simpa [poll_cq_cidb] using hloop.2 (by omega)

theorem Polled.used_pos {sq_cidb result : Int} {used : List Int}
    (hpolled : Polled sq_cidb used result) : 0 < used.length := by
  cases hpolled <;> simp

/-- A poll returns the last value it has read, or -1. -/
theorem Polled.result_eq {sq_cidb result : Int} {used : List Int}
    (hpolled : Polled sq_cidb used result) :
    result = -1 ∨ used.getLast? = some result := by
  cases hpolled with
  | answered hwaited hshort hlast => exact .inr (List.getLast?_concat ..)
  | timed_out hwaited hlong => exact .inl rfl

/-- Every poll on a stream of reads returns. -/
theorem polled_of_stream (cqhead : Nat → Int) (sq_cidb : Int) :
    ∃ m result, Polled sq_cidb (readsOf cqhead m) result := by
  have henough : TIMEOUT_THRESHOLD + 2 ≤ (readsOf cqhead (TIMEOUT_THRESHOLD + 2)).length := by
    rw [readsOf_length]
  obtain ⟨⟨result, rest⟩, hpoll⟩ :=
    Option.isSome_iff_exists.mp (poll_cq_cidb_returns sq_cidb _ henough)
  obtain ⟨used, hreads, hpolled⟩ := poll_cq_cidb_spec hpoll
  refine ⟨used.length, result, ?_⟩
  have hlength := congrArg List.length hreads
  rw [readsOf_length, List.length_append] at hlength
  rw [hlength, readsOf_add] at hreads
  have hused := (List.append_inj hreads (readsOf_length ..)).1
  rwa [hused]

/-- One turn of the batch loop. -/
theorem batch_loop_polled {qp : RdmaQp} {used : List Int} {result : Int}
    (hbehind : qp.cq_cidb < qp.sq_pidb) (hpolled : Polled qp.sq_cidb used result)
    (rest : List Int) :
    batch_loop (used ++ rest).length qp (used ++ rest) =
      batch_loop rest.length { qp with cq_cidb := result, sq_cidb := result } rest := by
  have hpos := hpolled.used_pos
  obtain ⟨spare, hspare⟩ : ∃ spare, (used ++ rest).length = rest.length + spare + 1 :=
    ⟨used.length - 1, by rw [List.length_append]; omega⟩
  rw [hspare, batch_loop, if_pos hbehind, hpolled.poll rest]
  exact batch_loop_turns spare _ rest (Nat.le_refl _)

/-- The batch loop returns when it reads these values and no more. -/
def LoopReturns (qp : RdmaQp) (cqhead : Nat → Int) : Prop :=
  ∃ n qp', batch_loop n qp (readsOf cqhead n) = some (qp', [])

theorem LoopReturns.of_completed {qp : RdmaQp} (cqhead : Nat → Int) (hdone : qp.sq_pidb ≤ qp.cq_cidb) :
    LoopReturns qp cqhead := by
  refine ⟨0, qp, ?_⟩
  rw [batch_loop, if_neg (by omega)]
  rfl

theorem LoopReturns.turn {qp : RdmaQp} {cqhead : Nat → Int} {m : Nat} {result : Int}
    (hbehind : qp.cq_cidb < qp.sq_pidb) (hpolled : Polled qp.sq_cidb (readsOf cqhead m) result)
    (hrest : LoopReturns { qp with cq_cidb := result, sq_cidb := result } fun k => cqhead (m + k)) :
    LoopReturns qp cqhead := by
  obtain ⟨n, qp', hloop⟩ := hrest
  refine ⟨m + n, qp', ?_⟩
  have hturn := batch_loop_polled hbehind hpolled (readsOf (fun k => cqhead (m + k)) n)
  rw [← readsOf_add, readsOf_length, readsOf_length] at hturn
  rw [hturn, hloop]

/-- The poll after a timeout compares with -1, which no read shows. -/
theorem Polled.after_timeout {result : Int} {used : List Int} (hpolled : Polled (-1) used result)
    (hused : ∀ value ∈ used, 0 ≤ value) : used.getLast? = some result := by
  cases hpolled with
  | answered hwaited hshort hlast => exact List.getLast?_concat ..
  | @timed_out waited last hwaited hlong =>
    cases waited with
    | nil => simp at hlong
    | cons first waited =>
      have hfirst := hwaited first (List.mem_cons_self ..)
      have hvalue := hused first (List.mem_append_left _ (List.mem_cons_self ..))
      omega

theorem readsOf_mem {α : Type} {cqhead : Nat → α} {m : Nat} {value : α}
    (hvalue : value ∈ readsOf cqhead m) : ∃ k, value = cqhead k := by
  obtain ⟨k, -, hk⟩ := List.mem_map.mp hvalue
  exact ⟨k, hk.symm⟩

/-- Once CQHEAD has settled, one poll sees the final value, or it times out and the
next one does. -/
theorem loop_returns_settled {qp : RdmaQp} {cqhead : Nat → Int} {final : Int} (hpos : 0 ≤ final)
    (hsettled : ∀ k, cqhead k = final) (hreached : qp.sq_pidb ≤ final) : LoopReturns qp cqhead := by
  obtain hdone | hbehind : qp.sq_pidb ≤ qp.cq_cidb ∨ qp.cq_cidb < qp.sq_pidb := by omega
  · exact .of_completed cqhead hdone
  obtain ⟨m, result, hpolled⟩ := polled_of_stream cqhead qp.sq_cidb
  apply LoopReturns.turn hbehind hpolled
  obtain rfl | hlast := hpolled.result_eq
  · -- the first poll has timed out
    obtain hbehind | hdone : -1 < qp.sq_pidb ∨ qp.sq_pidb ≤ -1 := by omega
    · obtain ⟨m', result', hpolled'⟩ := polled_of_stream (fun k => cqhead (m + k)) (-1)
      apply LoopReturns.turn hbehind hpolled'
      apply LoopReturns.of_completed
      have hlast := hpolled'.after_timeout fun value hvalue => by
        obtain ⟨k, rfl⟩ := readsOf_mem hvalue
        rwa [hsettled]
      obtain ⟨k, rfl⟩ := readsOf_mem (List.mem_of_getLast? hlast)
      simpa only [hsettled] using hreached
    · exact .of_completed _ hdone
  · apply LoopReturns.of_completed
    obtain ⟨k, rfl⟩ := readsOf_mem (List.mem_of_getLast? hlast)
    simpa only [hsettled] using hreached

/-- Every turn makes a read, so the loop leaves the part in which CQHEAD moves. -/
theorem loop_returns {qp : RdmaQp} {cqhead : Nat → Int} {n : Nat} {final : Int} (hpos : 0 ≤ final)
    (hsettled : ∀ k, n ≤ k → cqhead k = final) (hreached : qp.sq_pidb ≤ final) :
    LoopReturns qp cqhead := by
  induction n using Nat.strong_induction_on generalizing qp cqhead with
  | h n ih =>
    cases n with
    | zero => exact loop_returns_settled hpos (fun k => hsettled k (Nat.zero_le k)) hreached
    | succ n =>
      obtain hdone | hbehind : qp.sq_pidb ≤ qp.cq_cidb ∨ qp.cq_cidb < qp.sq_pidb := by omega
      · exact .of_completed cqhead hdone
      obtain ⟨m, result, hpolled⟩ := polled_of_stream cqhead qp.sq_cidb
      have hm : 0 < m := by
        have hused := hpolled.used_pos
        rwa [readsOf_length] at hused
      refine LoopReturns.turn hbehind hpolled (ih (n + 1 - m) (by omega) ?_ hreached)
      intro k hk
      exact hsettled (m + k) (by omega)

/-- What a loop that has used up its reads leaves in `cq_cidb`: it has not polled, its
last poll timed out, or it is the last value read. -/
theorem batch_loop_last {turns : Nat} {qp qp' : RdmaQp} {reads : List Int}
    (hloop : batch_loop turns qp reads = some (qp', [])) :
    (reads = [] ∧ qp' = qp) ∨ qp'.cq_cidb = -1 ∨ reads.getLast? = some qp'.cq_cidb := by
  induction turns generalizing qp reads with
  | zero =>
    by_cases hbehind : qp.cq_cidb < qp.sq_pidb
    · simp [batch_loop, hbehind] at hloop
    · simp only [batch_loop, hbehind, if_false, Option.some.injEq, Prod.mk.injEq] at hloop
      exact .inl ⟨hloop.2, hloop.1.symm⟩
  | succ turns ih =>
    by_cases hbehind : qp.cq_cidb < qp.sq_pidb
    · simp only [batch_loop, hbehind, if_true] at hloop
      cases hpoll : poll_cq_cidb qp.sq_cidb reads with
      | none => simp [hpoll] at hloop
      | some polled =>
        obtain ⟨result, rest⟩ := polled
        obtain ⟨used, rfl, hpolled⟩ := poll_cq_cidb_spec hpoll
        simp only [hpoll] at hloop
        right
        obtain ⟨rfl, rfl⟩ | htimeout | hlast := ih hloop
        · rw [List.append_nil]
          exact hpolled.result_eq
        · exact .inl htimeout
        · refine .inr ?_
          rw [List.getLast?_append, hlast]
          rfl
    · simp only [batch_loop, hbehind, if_false, Option.some.injEq, Prod.mk.injEq] at hloop
      exact .inl ⟨hloop.2, hloop.1.symm⟩

/-- Between two calls the producer index is that of an `int`, and the software copy of CQHEAD is
not ahead of it. -/
structure CopyInv (s : SendQueue) : Prop where
  posted : 0 ≤ s.qp.sq_pidb
  fits : s.qp.sq_pidb < 2 ^ 31
  copied : s.qp.cq_cidb ≤ s.CQHEAD

/-- As an `int` the last value that is read is not more than it was in the register. -/
theorem int_values_last_le {reads : List Nat} {last : Int}
    (hlast : (int_values reads).getLast? = some last) (before : Nat) :
    last ≤ (reads.getLastD before : Nat) := by
  rw [int_values, List.getLast?_map, Option.map_eq_some_iff] at hlast
  obtain ⟨value, hvalue, rfl⟩ := hlast
  rw [List.getLastD_eq_getLast?, hvalue]
  exact to_int_natCast_le value

theorem post_batch_send_returned_iff {qp qp' : RdmaQp} {batch_size : Nat} {reads : List Nat}
    {rc : Int} :
    (rdma_post_batch_send qp batch_size reads).returned = some (rc, qp') ↔
      (rdma_post_batch_send qp batch_size reads).doorbell ≠ none ∧
        batch_loop reads.length { qp with sq_pidb := to_int (qp.sq_pidb + batch_size) }
          (int_values reads) = some (qp', []) ∧ rc = return_code qp'.cq_cidb := by
  simp only [rdma_post_batch_send]
  by_cases hoverflow : qp.qdepth < batch_size ∨
      to_int (qp.sq_pidb + batch_size) % 2 ^ 32 > (qp.qdepth : Int)
  · simp only [hoverflow, if_true, reduceCtorEq, ne_eq, not_true_eq_false, false_and]
  · simp only [hoverflow, if_false]
    constructor
    · intro hreturned
      split at hreturned
      · rename_i final hloop
        simp only [Option.some.injEq, Prod.mk.injEq] at hreturned
        obtain ⟨rfl, rfl⟩ := hreturned
        exact ⟨by simp, hloop, rfl⟩
      · simp at hreturned
    · rintro ⟨-, hloop, rfl⟩
      rw [hloop]

/-- The `cq_cidb` that a returned call leaves is not ahead of its last read. -/
theorem effect_copied {c : Call} {qp qp' : RdmaQp} {rc : Int}
    (hreturned : (c.effect qp).returned = some (rc, qp')) (hcopied : qp.cq_cidb ≤ c.cqhead) :
    qp'.cq_cidb ≤ c.final_cqhead := by
  obtain ⟨op, cqhead, reads⟩ := c
  cases op with
  | rdma_post_send =>
    obtain ⟨cq_cidb, hpoll, -, rfl⟩ := post_send_returned hreturned
    obtain ⟨used, hused, hpolled⟩ := poll_cq_cidb_spec hpoll
    rw [List.append_nil] at hused
    rw [← hused] at hpolled
    rw [Call.final_cqhead]
    obtain rfl | hlast := hpolled.result_eq
    · simp only
      omega
    · exact int_values_last_le hlast _
  | rdma_post_batch_send batch_size =>
    obtain ⟨-, hloop, -⟩ := post_batch_send_returned_iff.mp hreturned
    rw [Call.final_cqhead]
    obtain ⟨hnone, rfl⟩ | htimeout | hlast := batch_loop_last hloop
    · obtain rfl : reads = [] := List.map_eq_nil_iff.mp hnone
      exact hcopied
    · simp only
      omega
    · exact int_values_last_le hlast _

theorem CopyInv.step {s : SendQueue} {c : Call} (hinv : s.idle = true → CopyInv s)
    (hpromise : Increases ⟨s, c⟩ ∧ IndexFits ⟨s, c⟩) (hidle : (post_call s c).idle = true) :
    CopyInv (post_call s c) := by
  obtain ⟨hincreases, hfits⟩ := hpromise
  obtain ⟨hbefore, rc, qp, hreturned⟩ := idle_of_post_call hidle
  obtain ⟨hposted, hsmall, hcopied⟩ := hinv hbefore
  obtain ⟨hpidb, hnext⟩ := effect_doorbell hfits hposted hsmall (effect_returned hreturned).1
  rw [post_call_returned hbefore hreturned]
  refine ⟨?_, hnext, ?_⟩
  · simp only
    omega
  · have hnow : s.CQHEAD ≤ c.cqhead :=
      (List.pairwise_cons.mp hincreases).1 c.cqhead (List.mem_cons_self ..)
    have hcurrent : s.qp.cq_cidb ≤ c.cqhead := by omega
    exact effect_copied hreturned hcurrent

theorem copy_inv (qdepth : Nat) (calls : List Call)
    (hincreases : ∀ c ∈ (sendMachine qdepth).trace calls, Increases c)
    (hfits : ∀ c ∈ (sendMachine qdepth).trace calls, IndexFits c) :
    ((sendMachine qdepth).run calls).idle = true → CopyInv ((sendMachine qdepth).run calls) :=
  ((sendMachine qdepth).promise_induction (fun c => Increases c ∧ IndexFits c)
    (fun s => s.idle = true → CopyInv s)
    (fun _ => ⟨Int.le_refl 0, by simp [sendMachine], Int.le_refl 0⟩)
    (fun _ _ hpromise hinv => CopyInv.step hinv hpromise) calls
    fun c hc => ⟨hincreases c hc, hfits c hc⟩).2

/-- The calls leave the depth as it is. -/
theorem run_qdepth (qdepth : Nat) (calls : List Call) :
    ((sendMachine qdepth).run calls).qp.qdepth = qdepth := by
  refine ((sendMachine qdepth).promise_induction (fun _ => True) (fun s => s.qp.qdepth = qdepth) rfl
    (fun s c _ hsame => ?_) calls fun _ _ => trivial).2
  change (post_call s c).qp.qdepth = qdepth
  unfold post_call
  split
  · split
    · exact hsame
    · exact hsame
    · next heffect =>
      have hreturned := congrArg Effect.returned heffect
      exact (effect_returned hreturned).2.trans hsame
  · exact hsame

/-- The index that an accepted batch posts. -/
theorem accepted_index {s : SendQueue} {batch_size : Nat} {reads : List Nat} (hinv : CopyInv s)
    (hqdepth : s.qp.qdepth < 2 ^ 31)
    (haccepted : (rdma_post_batch_send s.qp batch_size reads).doorbell ≠ none) :
    to_int (s.qp.sq_pidb + batch_size) = s.qp.sq_pidb + batch_size := by
  have hposted := hinv.posted
  have hrejected := post_batch_send_rejected_iff batch_size reads hposted hinv.fits hqdepth
  rw [Ne, hrejected] at haccepted
  exact to_int_eq (by omega) (by omega)

/-- Whatever a batch returns, CQHEAD has reached the posted index by its last read. -/
theorem returned_reached {s : SendQueue} {batch_size : Nat} {reads : List Nat} {rc : Int}
    {qp : RdmaQp} (hinv : CopyInv s) (hqdepth : s.qp.qdepth < 2 ^ 31)
    (hreturned : (rdma_post_batch_send s.qp batch_size reads).returned = some (rc, qp)) :
    rc = 0 ∧ s.qp.sq_pidb + batch_size ≤ (reads.getLastD s.CQHEAD : Nat) := by
  obtain ⟨hdoorbell, hpidb, -, hcompleted⟩ := post_batch_send_returned hreturned
  obtain ⟨haccepted, -, rfl⟩ := post_batch_send_returned_iff.mp hreturned
  rw [accepted_index hinv hqdepth haccepted] at hpidb
  have hlast : qp.cq_cidb ≤ (reads.getLastD s.CQHEAD : Nat) :=
    effect_copied (c := ⟨.rdma_post_batch_send batch_size, s.CQHEAD, reads⟩) hreturned hinv.copied
  have hposted := hinv.posted
  refine ⟨?_, by omega⟩
  rw [return_code, if_neg (by omega)]

/-- `rdma_post_batch_send` returns, and reports, exactly when CQHEAD settles at the
posted index or behind it; otherwise it polls for ever. The depth, the number of WQEs ever
posted and CQHEAD are `int`s. -/
theorem post_batch_send_returns_iff (qdepth : Nat) (hqdepth : qdepth < 2 ^ 31) (calls : List Call)
    (hincreases : ∀ c ∈ (sendMachine qdepth).trace calls, Increases c)
    (hfits : ∀ c ∈ (sendMachine qdepth).trace calls, IndexFits c)
    (hidle : ((sendMachine qdepth).run calls).idle = true) (batch_size : Nat)
    (haccepted : (rdma_post_batch_send ((sendMachine qdepth).run calls).qp batch_size []).doorbell ≠
      none)
    (cqhead : Nat → Nat) (final : Nat)
    (hsettles : Settles ((sendMachine qdepth).run calls).CQHEAD cqhead final)
    (hfinal : final < 2 ^ 31) :
    ReturnsAndReports ((sendMachine qdepth).run calls) batch_size cqhead final ↔
      ((sendMachine qdepth).run calls).qp.sq_pidb + batch_size ≤ final := by
  have hinv := copy_inv qdepth calls hincreases hfits hidle
  have hdepth := run_qdepth qdepth calls
  rw [← hdepth] at hqdepth
  generalize (sendMachine qdepth).run calls = s at *
  constructor
  · rintro ⟨n, rc, qp, hreturned, -, -⟩
    obtain ⟨-, hreached⟩ := returned_reached hinv hqdepth hreturned
    have hlast := hsettles.last_le n
    omega
  · intro hreached
    obtain ⟨n, hsettled⟩ := hsettles.settled
    have hindex := accepted_index hinv hqdepth haccepted
    obtain ⟨reads, qp', hloop⟩ :
        LoopReturns { s.qp with sq_pidb := to_int (s.qp.sq_pidb + batch_size) }
          fun k => to_int (cqhead k) := by
      refine @loop_returns _ _ n final (by omega) (fun k hk => ?_) (by rwa [hindex])
      rw [hsettled k hk]
      exact to_int_eq (by omega) (by omega)
    have hreturned : (rdma_post_batch_send s.qp batch_size (readsOf cqhead reads)).returned =
        some (return_code qp'.cq_cidb, qp') := by
      rw [post_batch_send_returned_iff, readsOf_length, int_values_readsOf]
      refine ⟨?_, hloop, rfl⟩
      rw [Ne, post_batch_send_rejected_iff _ _ hinv.posted hinv.fits hqdepth] at haccepted ⊢
      exact haccepted
    refine ⟨reads, _, qp', hreturned, ?_, by omega⟩
    intro _
    exact (returned_reached hinv hqdepth hreturned).2

/-- A first batch of 2 on hardware that completes one WQE after the other. -/
theorem post_batch_send_returns_two :
    ReturnsAndReports (sendMachine 8).reset 2 (fun k => min k 2) 2 := by
  refine (post_batch_send_returns_iff 8 (by decide) [] (by simp) (by simp) rfl 2 (by decide)
    (fun k => min k 2) 2 ⟨Nat.zero_le _, ?_, 2, ?_⟩ (by decide)).mpr (by decide)
  · intro k k' hk
    simp only
    omega
  · intro k hk
    exact Nat.min_eq_right hk

/-- A first batch of 2 on hardware that completes only the first of its WQEs. -/
theorem post_batch_send_polls_forever :
    Settles (sendMachine 8).reset.CQHEAD (fun _ => 1) 1 ∧
      (rdma_post_batch_send (sendMachine 8).reset.qp 2 []).doorbell = some 2 ∧
      ¬∃ n rc qp, (rdma_post_batch_send (sendMachine 8).reset.qp 2
        (readsOf (fun _ => 1) n)).returned = some (rc, qp) := by
  have hsettles : Settles (sendMachine 8).reset.CQHEAD (fun _ => 1) 1 :=
    ⟨Nat.zero_le _, fun _ _ _ => Nat.le_refl 1, 0, fun _ _ => rfl⟩
  refine ⟨hsettles, rfl, ?_⟩
  rintro ⟨n, rc, qp, hreturned⟩
  obtain ⟨-, hreached⟩ := returned_reached (copy_inv 8 [] (by simp) (by simp) rfl)
    (by decide : (sendMachine 8).reset.qp.qdepth < 2 ^ 31) hreturned
  have hfinal := hsettles.last_le n
  simp only [sendMachine, Machine.run_nil] at hreached hfinal
  omega

end reconic.rdma_api
