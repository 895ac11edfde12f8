import Mathlib.Algebra.Order.Ring.Int
import RecoNIC.Clocked.Machine

open clocked

namespace reconic.rdma_api

def TIMEOUT_THRESHOLD : Nat := 1000

/-- What an `int` holds when `x` is stored in it. An `int` operation that overflows, which
has no meaning in C, wraps in the same way. -/
def to_int (x : Int) : Int := x.bmod (2 ^ 32)

/-- What the send path keeps of a queue pair, `rdma_qp_t`: the depth, a `uint32_t`, and the
indices, which are `int`s. -/
structure RdmaQp where
  qdepth : Nat
  sq_pidb : Int
  sq_cidb : Int
  cq_cidb : Int
  deriving DecidableEq

/-- The values of a register, as they are assigned to an `int`. -/
def int_values (reads : List Nat) : List Int := reads.map fun value : Nat => to_int value

/-- The loop of `poll_cq_cidb`, and the reads of CQHEAD that it leaves over. There is
no result while the loop still waits for a read. -/
def poll_loop (sq_cidb : Int) : Int → Nat → List Int → Option (Int × List Int)
  | cq_cidb, _, [] => if cq_cidb = sq_cidb then none else some (cq_cidb, [])
  | cq_cidb, timeout_cnt, value :: reads =>
    if cq_cidb = sq_cidb then
      if timeout_cnt + 1 > TIMEOUT_THRESHOLD then some (-1, reads)
      else poll_loop sq_cidb value (timeout_cnt + 1) reads
    else some (cq_cidb, value :: reads)

def poll_cq_cidb (sq_cidb : Int) : List Int → Option (Int × List Int)
  | [] => none
  | value :: reads => poll_loop sq_cidb value 0 reads

/-- What a call does for its caller and for the hardware: the value it stores in SQPI,
unless it exits before that, and its return code with the queue pair it leaves, once
it has returned. -/
structure Effect where
  doorbell : Option Int
  returned : Option (Int × RdmaQp)

def return_code (cq_cidb : Int) : Int := if cq_cidb < 0 then -1 else 0

/-- `rdma_post_send`, given the values of CQHEAD that the call reads. -/
def rdma_post_send (qp : RdmaQp) (reads : List Nat) : Effect :=
  let qp := { qp with sq_pidb := to_int (qp.sq_pidb + 1) }
  { doorbell := some qp.sq_pidb
    returned :=
      match poll_cq_cidb qp.sq_cidb (int_values reads) with
      | some (cq_cidb, []) =>
        some (return_code cq_cidb,
          { qp with cq_cidb := cq_cidb, sq_cidb := to_int (qp.sq_cidb + 1) })
      | _ => none }

/-- The loop of `rdma_post_batch_send`. Every turn reads CQHEAD, so as many turns as
there are reads are enough. -/
def batch_loop : Nat → RdmaQp → List Int → Option (RdmaQp × List Int)
  | 0, qp, reads => if qp.cq_cidb < qp.sq_pidb then none else some (qp, reads)
  | turns + 1, qp, reads =>
    if qp.cq_cidb < qp.sq_pidb then
      match poll_cq_cidb qp.sq_cidb reads with
      | none => none
      | some (cq_cidb, reads) =>
        batch_loop turns { qp with cq_cidb := cq_cidb, sq_cidb := cq_cidb } reads
    else some (qp, reads)

/-- `rdma_post_batch_send`, given the values of CQHEAD that the call reads. -/
def rdma_post_batch_send (qp : RdmaQp) (batch_size : Nat) (reads : List Nat) : Effect :=
  let qp := { qp with sq_pidb := to_int (qp.sq_pidb + batch_size) }
  -- beside the depth the index counts as a `uint32_t`
  if qp.qdepth < batch_size ∨ qp.sq_pidb % 2 ^ 32 > (qp.qdepth : Int) then
    -- SQ overflow
    { doorbell := none, returned := none }
  else
    { doorbell := some qp.sq_pidb
      returned :=
        match batch_loop reads.length qp (int_values reads) with
        | some (qp, []) => some (return_code qp.cq_cidb, qp)
        | _ => none }

inductive Op where
  | rdma_post_send
  | rdma_post_batch_send (batch_size : Nat)
  deriving DecidableEq

/-- A call, the value of CQHEAD when the call rings the doorbell, and the values that
its reads of CQHEAD then return. -/
structure Call where
  op : Op
  cqhead : Nat
  reads : List Nat

def Call.effect (c : Call) (qp : RdmaQp) : Effect :=
  match c.op with
  | .rdma_post_send => rdma_post_send qp c.reads
  | .rdma_post_batch_send batch_size => rdma_post_batch_send qp batch_size c.reads

/-- CQHEAD when the call makes its last read. -/
def Call.final_cqhead (c : Call) : Nat := c.reads.getLastD c.cqhead

/-- The queue pair of the host and its registers. It is idle unless a call has exited
the program or is still polling. -/
structure SendQueue where
  qp : RdmaQp
  SQPI : Nat
  CQHEAD : Nat
  idle : Bool
  deriving DecidableEq

/-- A call that starts once the call before it has returned. -/
def post_call (s : SendQueue) (c : Call) : SendQueue :=
  if s.idle then
    match c.effect s.qp with
    | ⟨none, _⟩ => { s with idle := false }
    | ⟨some sq_pidb, none⟩ =>
      { s with SQPI := (sq_pidb % 2 ^ 32).toNat, CQHEAD := c.final_cqhead, idle := false }
    | ⟨some sq_pidb, some (_, qp)⟩ =>
      { qp := qp, SQPI := (sq_pidb % 2 ^ 32).toNat, CQHEAD := c.final_cqhead, idle := true }
  else s

/-- A queue pair as `allocate_rdma_qp` leaves it, and the calls made on it. -/
def sendMachine (qdepth : Nat) : Machine SendQueue Call where
  reset := { qp := ⟨qdepth, 0, 0, 0⟩, SQPI := 0, CQHEAD := 0, idle := true }
  step := post_call

/-- CQHEAD counts completed WQEs: it only increases, and it never passes SQPI. -/
structure CountsCompleted (c : Cycle SendQueue Call) : Prop where
  before : c.state.CQHEAD ≤ c.input.cqhead
  posted : c.input.cqhead ≤ c.state.SQPI
  increases : (c.input.cqhead :: c.input.reads).Pairwise (· ≤ ·)
  follows : ∀ sq_pidb, (c.input.effect c.state.qp).doorbell = some sq_pidb →
    ∀ value ∈ c.input.reads, (value : Int) ≤ sq_pidb

/-- The producer index does not leave the range of an `int`: a single send does not overflow
it, and a batch is held by the depth. -/
def IndexFits (c : Cycle SendQueue Call) : Prop :=
  match c.input.op with
  | .rdma_post_send => c.state.qp.sq_pidb + 1 < 2 ^ 31
  | .rdma_post_batch_send _ => c.state.qp.qdepth < 2 ^ 31

/-- A value in the range of an `int` is kept. -/
theorem to_int_eq {x : Int} (hlow : 0 ≤ x) (hhigh : x < 2 ^ 31) : to_int x = x :=
  Int.bmod_eq_of_le (by omega) (by omega)

/-- A register value that is too large for an `int` becomes negative. -/
theorem to_int_natCast_le (value : Nat) : to_int value ≤ value := by
  rw [to_int, Int.bmod_def]
  split <;> omega

/-- Register values below 2^31 are read as they are. -/
theorem int_values_eq {reads : List Nat} (hreads : ∀ value ∈ reads, value < 2 ^ 31) :
    int_values reads = reads.map fun value : Nat => (value : Int) := by
  refine List.map_congr_left fun value hvalue => to_int_eq (by omega) ?_
  have hsmall := hreads value hvalue
  omega

/-- A poll that returns has read CQHEAD as long as it showed `sq_cidb`: it returns the
first other value, or gives up on the read that follows `TIMEOUT_THRESHOLD` reads in
the loop, whatever that read shows. -/
theorem poll_loop_spec {sq_cidb cq_cidb result : Int} {timeout_cnt : Nat} {reads rest : List Int}
    (hpoll : poll_loop sq_cidb cq_cidb timeout_cnt reads = some (result, rest)) :
    (cq_cidb ≠ sq_cidb ∧ result = cq_cidb ∧ reads = rest) ∨
    (cq_cidb = sq_cidb ∧ ∃ waited last, reads = waited ++ last :: rest ∧
      (∀ value ∈ waited, value = sq_cidb) ∧
      ((timeout_cnt + waited.length < TIMEOUT_THRESHOLD ∧ result = last ∧ last ≠ sq_cidb) ∨
        (TIMEOUT_THRESHOLD ≤ timeout_cnt + waited.length ∧ result = -1 ∧
          (timeout_cnt ≤ TIMEOUT_THRESHOLD →
            timeout_cnt + waited.length = TIMEOUT_THRESHOLD)))) := by
  induction reads generalizing cq_cidb timeout_cnt with
  | nil =>
    by_cases heq : cq_cidb = sq_cidb
    · simp [poll_loop, heq] at hpoll
    · simp only [poll_loop, heq, if_false, Option.some.injEq, Prod.mk.injEq] at hpoll
      exact .inl ⟨heq, hpoll.1.symm, hpoll.2⟩
  | cons value reads ih =>
    by_cases heq : cq_cidb = sq_cidb
    · simp only [poll_loop, heq, if_true] at hpoll
      refine .inr ⟨heq, ?_⟩
      by_cases hlate : timeout_cnt + 1 > TIMEOUT_THRESHOLD
      · simp only [hlate, if_true, Option.some.injEq, Prod.mk.injEq] at hpoll
        obtain ⟨rfl, rfl⟩ := hpoll
        refine ⟨[], value, rfl, by simp, .inr ⟨by simp; omega, rfl, ?_⟩⟩
        simp only [List.length_nil]
        omega
      · simp only [hlate, if_false] at hpoll
        obtain ⟨hne, rfl, rfl⟩ | ⟨hsame, waited, last, rfl, hwaited, hend⟩ := ih hpoll
        · exact ⟨[], _, rfl, by simp, .inl ⟨by simp; omega, rfl, hne⟩⟩
        · refine ⟨value :: waited, last, rfl, ?_, ?_⟩
          · intro v hv
            obtain rfl | hv := List.mem_cons.mp hv
            · exact hsame
            · exact hwaited v hv
          · simp only [List.length_cons]
            obtain ⟨hsoon, hresult, hne⟩ | ⟨hlong, hresult, hexact⟩ := hend
            · exact .inl ⟨by omega, hresult, hne⟩
            · exact .inr ⟨by omega, hresult, by omega⟩
    · simp only [poll_loop, heq, if_false, Option.some.injEq, Prod.mk.injEq] at hpoll
      exact .inl ⟨heq, hpoll.1.symm, hpoll.2⟩

/-- The values that a poll reads and what it returns. It waits while they are all
`sq_cidb`, and the read after the longest wait is not looked at any more. -/
inductive Polled (sq_cidb : Int) : List Int → Int → Prop where
  | answered {waited : List Int} {last : Int} (hwaited : ∀ value ∈ waited, value = sq_cidb)
      (hshort : waited.length ≤ TIMEOUT_THRESHOLD) (hlast : last ≠ sq_cidb) :
      Polled sq_cidb (waited ++ [last]) last
  | timed_out {waited : List Int} {last : Int} (hwaited : ∀ value ∈ waited, value = sq_cidb)
      (hlong : waited.length = TIMEOUT_THRESHOLD + 1) : Polled sq_cidb (waited ++ [last]) (-1)

/-- What `poll_cq_cidb` returns is justified by what it has read. -/
theorem poll_cq_cidb_spec {sq_cidb result : Int} {reads rest : List Int}
    (hpoll : poll_cq_cidb sq_cidb reads = some (result, rest)) :
    ∃ used, reads = used ++ rest ∧ Polled sq_cidb used result := by
  cases reads with
  | nil => simp [poll_cq_cidb] at hpoll
  | cons first reads =>
    obtain ⟨hne, rfl, rfl⟩ | ⟨hsame, waited, last, rfl, hwaited, hend⟩ := poll_loop_spec hpoll
    · have hunwaited : ([] : List Int).length ≤ TIMEOUT_THRESHOLD := Nat.zero_le _
      exact ⟨[_], rfl, .answered (by simp) hunwaited hne⟩
    · have hall : ∀ value ∈ first :: waited, value = sq_cidb := by
        intro value hvalue
        obtain rfl | hvalue := List.mem_cons.mp hvalue
        · exact hsame
        · exact hwaited value hvalue
      refine ⟨first :: waited ++ [last], by simp, ?_⟩
      obtain ⟨hsoon, rfl, hne⟩ | ⟨-, rfl, hexact⟩ := hend
      · exact .answered hall (by simp only [List.length_cons]; omega) hne
      · exact .timed_out hall (by simp only [List.length_cons]; omega)

/-- A poll makes at most two reads more than `TIMEOUT_THRESHOLD`. -/
theorem poll_loop_returns (sq_cidb cq_cidb : Int) (timeout_cnt : Nat) (reads : List Int)
    (henough : TIMEOUT_THRESHOLD < timeout_cnt + reads.length)
    (hsome : timeout_cnt ≤ TIMEOUT_THRESHOLD) :
    (poll_loop sq_cidb cq_cidb timeout_cnt reads).isSome := by
  induction reads generalizing cq_cidb timeout_cnt with
  | nil =>
    simp only [List.length_nil] at henough
    omega
  | cons value reads ih =>
    simp only [List.length_cons] at henough
    simp only [poll_loop]
    by_cases heq : cq_cidb = sq_cidb
    · by_cases hlate : timeout_cnt + 1 > TIMEOUT_THRESHOLD
      · simp [heq, hlate]
      · simp only [heq, hlate, if_true, if_false]
        exact ih value (timeout_cnt + 1) (by omega) (by omega)
    · simp [heq]

/-- Enough reads make it return. -/
theorem poll_cq_cidb_returns (sq_cidb : Int) (reads : List Int)
    (henough : TIMEOUT_THRESHOLD + 2 ≤ reads.length) : (poll_cq_cidb sq_cidb reads).isSome := by
  cases reads with
  | nil => simp at henough
  | cons first reads =>
    simp only [List.length_cons] at henough
    exact poll_loop_returns sq_cidb first 0 reads (by omega) (by omega)

/-- A batch that returns has seen CQHEAD reach SQPI, and it leaves the counters of the
queue pair where its last poll put them. -/
theorem batch_loop_spec {turns : Nat} {qp qp' : RdmaQp} {reads rest : List Int}
    (hloop : batch_loop turns qp reads = some (qp', rest)) :
    qp'.sq_pidb = qp.sq_pidb ∧ qp'.qdepth = qp.qdepth ∧ qp.sq_pidb ≤ qp'.cq_cidb := by
  induction turns generalizing qp reads with
  | zero =>
    by_cases hbehind : qp.cq_cidb < qp.sq_pidb
    · simp [batch_loop, hbehind] at hloop
    · simp only [batch_loop, hbehind, if_false, Option.some.injEq, Prod.mk.injEq] at hloop
      obtain ⟨rfl, rfl⟩ := hloop
      exact ⟨rfl, rfl, by omega⟩
  | succ turns ih =>
    by_cases hbehind : qp.cq_cidb < qp.sq_pidb
    · simp only [batch_loop, hbehind, if_true] at hloop
      cases hpoll : poll_cq_cidb qp.sq_cidb reads with
      | none => simp [hpoll] at hloop
      | some polled =>
        simp only [hpoll] at hloop
        have hrest := ih hloop
        exact hrest
    · simp only [batch_loop, hbehind, if_false, Option.some.injEq, Prod.mk.injEq] at hloop
      obtain ⟨rfl, rfl⟩ := hloop
      exact ⟨rfl, rfl, by omega⟩

/-- The bound on the turns of the loop never stops it: more turns give the same. -/
theorem batch_loop_turns {turns : Nat} (more : Nat) (qp : RdmaQp) (reads : List Int)
    (henough : reads.length ≤ turns) :
    batch_loop (turns + more) qp reads = batch_loop turns qp reads := by
  induction turns generalizing qp reads with
  | zero =>
    obtain rfl : reads = [] := List.eq_nil_of_length_eq_zero (by omega)
    cases more with
    | zero => rfl
    | succ more => simp [batch_loop, poll_cq_cidb]
  | succ turns ih =>
    rw [Nat.add_right_comm]
    by_cases hbehind : qp.cq_cidb < qp.sq_pidb
    · simp only [batch_loop, hbehind, if_true]
      cases hpoll : poll_cq_cidb qp.sq_cidb reads with
      | none => rfl
      | some polled =>
        obtain ⟨result, rest⟩ := polled
        obtain ⟨used, hreads, hpolled⟩ := poll_cq_cidb_spec hpoll
        have hused : used ≠ [] := by cases hpolled <;> simp
        have hlength := congrArg List.length hreads
        rw [List.length_append] at hlength
        have hpos := List.length_pos_iff.mpr hused
        exact ih _ _ (by omega)
    · simp [batch_loop, hbehind]

/-- `rdma_post_send` returns the code of its poll. -/
theorem post_send_returned {qp qp' : RdmaQp} {reads : List Nat} {rc : Int}
    (hreturned : (rdma_post_send qp reads).returned = some (rc, qp')) :
    ∃ cq_cidb, poll_cq_cidb qp.sq_cidb (int_values reads) = some (cq_cidb, []) ∧
      rc = return_code cq_cidb ∧
      qp' = { qp with
        sq_pidb := to_int (qp.sq_pidb + 1)
        cq_cidb := cq_cidb
        sq_cidb := to_int (qp.sq_cidb + 1) } := by
  simp only [rdma_post_send] at hreturned
  split at hreturned
  · rename_i cq_cidb hpoll
    simp only [Option.some.injEq, Prod.mk.injEq] at hreturned
    exact ⟨cq_cidb, hpoll, hreturned.1.symm, hreturned.2.symm⟩
  · simp at hreturned

/-- `rdma_post_batch_send` returns only once CQHEAD has reached SQPI. -/
theorem post_batch_send_returned {qp qp' : RdmaQp} {batch_size : Nat} {reads : List Nat} {rc : Int}
    (hreturned : (rdma_post_batch_send qp batch_size reads).returned = some (rc, qp')) :
    (rdma_post_batch_send qp batch_size reads).doorbell = some (to_int (qp.sq_pidb + batch_size)) ∧
      qp'.sq_pidb = to_int (qp.sq_pidb + batch_size) ∧ qp'.qdepth = qp.qdepth ∧
      qp'.sq_pidb ≤ qp'.cq_cidb := by
  by_cases hoverflow : qp.qdepth < batch_size ∨
      to_int (qp.sq_pidb + batch_size) % 2 ^ 32 > (qp.qdepth : Int)
  · simp only [rdma_post_batch_send, hoverflow, if_true, reduceCtorEq] at hreturned
  · simp only [rdma_post_batch_send, hoverflow, if_false] at hreturned ⊢
    split at hreturned
    · rename_i final hloop
      simp only [Option.some.injEq, Prod.mk.injEq] at hreturned
      obtain ⟨-, rfl⟩ := hreturned
      obtain ⟨hpidb, hqdepth, hcompleted⟩ := batch_loop_spec hloop
      exact ⟨trivial, hpidb, hqdepth, hpidb ▸ hcompleted⟩
    · simp at hreturned

/-- A batch is rejected when it is longer than the queue, or when it takes the number
of all WQEs ever posted above the depth. -/
theorem post_batch_send_rejected_iff {qp : RdmaQp} (batch_size : Nat) (reads : List Nat)
    (hlow : 0 ≤ qp.sq_pidb) (hhigh : qp.sq_pidb < 2 ^ 31) (hqdepth : qp.qdepth < 2 ^ 31) :
    (rdma_post_batch_send qp batch_size reads).doorbell = none ↔
      qp.qdepth < batch_size ∨ (qp.qdepth : Int) < qp.sq_pidb + batch_size := by
  have hmod : to_int (qp.sq_pidb + batch_size) % 2 ^ 32 = (qp.sq_pidb + batch_size) % 2 ^ 32 :=
    Int.bmod_emod
  have hindex : batch_size ≤ qp.qdepth →
      to_int (qp.sq_pidb + batch_size) % 2 ^ 32 = qp.sq_pidb + batch_size := by
    intro hfits
    rw [hmod]
    exact Int.emod_eq_of_lt (by omega) (by omega)
  simp only [rdma_post_batch_send]
  split
  · rename_i hoverflow
    simp only [true_iff]
    omega
  · rename_i hroom
    simp only [reduceCtorEq, false_iff]
    omega

/-- The number of WQEs that an operation posts. -/
def Op.posts : Op → Nat
  | .rdma_post_send => 1
  | .rdma_post_batch_send batch_size => batch_size

/-- The index that a call stores counts the WQEs that it posts. -/
theorem effect_doorbell {s : SendQueue} {c : Call} {sq_pidb : Int} (hfits : IndexFits ⟨s, c⟩)
    (hlow : 0 ≤ s.qp.sq_pidb) (hhigh : s.qp.sq_pidb < 2 ^ 31)
    (hdoorbell : (c.effect s.qp).doorbell = some sq_pidb) :
    sq_pidb = s.qp.sq_pidb + c.op.posts ∧ sq_pidb < 2 ^ 31 := by
  obtain ⟨op, cqhead, reads⟩ := c
  cases op with
  | rdma_post_send =>
    have hnext : s.qp.sq_pidb + 1 < 2 ^ 31 := hfits
    obtain rfl : to_int (s.qp.sq_pidb + 1) = sq_pidb := Option.some.inj hdoorbell
    rw [to_int_eq (by omega) hnext]
    exact ⟨rfl, hnext⟩
  | rdma_post_batch_send batch_size =>
    have haccepted :=
      (post_batch_send_rejected_iff batch_size reads hlow hhigh hfits).not.mp (by
        rw [show (rdma_post_batch_send s.qp batch_size reads).doorbell = some sq_pidb from hdoorbell]
        exact Option.some_ne_none _)
    have hqdepth : s.qp.qdepth < 2 ^ 31 := hfits
    simp only [Call.effect, rdma_post_batch_send] at hdoorbell
    split at hdoorbell
    · simp at hdoorbell
    · obtain rfl := Option.some.inj hdoorbell
      rw [to_int_eq (by omega) (by omega)]
      exact ⟨rfl, by omega⟩

/-- A call that returns has rung the doorbell with its index. -/
theorem effect_returned {c : Call} {qp qp' : RdmaQp} {rc : Int}
    (hreturned : (c.effect qp).returned = some (rc, qp')) :
    (c.effect qp).doorbell = some qp'.sq_pidb ∧ qp'.qdepth = qp.qdepth := by
  obtain ⟨op, cqhead, reads⟩ := c
  cases op with
  | rdma_post_send =>
    obtain ⟨cq_cidb, -, -, rfl⟩ := post_send_returned hreturned
    exact ⟨rfl, rfl⟩
  | rdma_post_batch_send batch_size =>
    obtain ⟨hdoorbell, hpidb, hqdepth, -⟩ := post_batch_send_returned hreturned
    exact ⟨hpidb ▸ hdoorbell, hqdepth⟩

/-- Between two calls the host's producer index is what SQPI holds, and CQHEAD has not
passed it. -/
structure QueueInv (qdepth : Nat) (s : SendQueue) : Prop where
  qdepth_eq : s.qp.qdepth = qdepth
  posted : s.qp.sq_pidb = s.SQPI
  fits : s.SQPI < 2 ^ 31
  completed : s.CQHEAD ≤ s.SQPI

/-- The last value of CQHEAD is one that has been there. -/
theorem final_cqhead_mem (c : Call) : c.final_cqhead ∈ c.cqhead :: c.reads := by
  rw [Call.final_cqhead, List.getLastD_eq_getLast?]
  cases hlast : c.reads.getLast? with
  | none => simp
  | some value => simpa using Or.inr (List.mem_of_getLast? hlast)

/-- What a call that has returned leaves. -/
theorem post_call_returned {s : SendQueue} {c : Call} {rc : Int} {qp : RdmaQp}
    (hidle : s.idle = true) (hreturned : (c.effect s.qp).returned = some (rc, qp)) :
    post_call s c = { qp := qp, SQPI := (qp.sq_pidb % 2 ^ 32).toNat, CQHEAD := c.final_cqhead,
                      idle := true } := by
  have hdoorbell := (effect_returned hreturned).1
  cases heffect : c.effect s.qp with
  | mk doorbell returned =>
    simp only [heffect] at hreturned hdoorbell
    simp [post_call, hidle, heffect, hreturned, hdoorbell]

/-- A call after which the queue is idle has returned. -/
theorem idle_of_post_call {s : SendQueue} {c : Call} (hidle : (post_call s c).idle = true) :
    s.idle = true ∧ ∃ rc qp, (c.effect s.qp).returned = some (rc, qp) := by
  cases hbefore : s.idle with
  | false => simp [post_call, hbefore] at hidle
  | true =>
    refine ⟨rfl, ?_⟩
    cases heffect : c.effect s.qp with
    | mk doorbell returned =>
      cases doorbell with
      | none => simp [post_call, hbefore, heffect] at hidle
      | some sq_pidb =>
        cases returned with
        | none => simp [post_call, hbefore, heffect] at hidle
        | some result => exact ⟨result.1, result.2, rfl⟩

/-- A first call on hardware that completes nothing while the call polls. -/
def unanswered_send : Call := ⟨.rdma_post_send, 0, List.replicate (TIMEOUT_THRESHOLD + 2) 0⟩

/-- A poll that reads 0 each time runs out of time. -/
theorem unanswered_poll :
    poll_cq_cidb 0 (int_values (List.replicate (TIMEOUT_THRESHOLD + 2) 0)) = some (-1, []) := by
  decide +kernel

/-- Such a call leaves its WQE behind. -/
theorem unanswered_send_times_out (qdepth : Nat) :
    post_call (sendMachine qdepth).reset unanswered_send = ⟨⟨qdepth, 1, 1, -1⟩, 1, 0, true⟩ := by
  have hreturned : ((unanswered_send.effect (sendMachine qdepth).reset.qp)).returned =
      some (-1, ⟨qdepth, 1, 1, -1⟩) := by
    simp only [Call.effect, unanswered_send, rdma_post_send, sendMachine, unanswered_poll]
    rfl
  rw [post_call_returned rfl hreturned]
  simp [unanswered_send, Call.final_cqhead, List.getLast?_replicate]

/-- The cycle of that call, and a second call after it. -/
theorem unanswered_send_trace (qdepth : Nat) (second : Call) :
    (sendMachine qdepth).trace [unanswered_send, second] =
      [⟨(sendMachine qdepth).reset, unanswered_send⟩,
        ⟨⟨⟨qdepth, 1, 1, -1⟩, 1, 0, true⟩, second⟩] := by
  simp only [Machine.trace, Machine.traceFrom]
  rw [← unanswered_send_times_out, sendMachine]

/-- Its CQHEAD counts completed WQEs: none. -/
theorem unanswered_send_counts (qdepth : Nat) :
    CountsCompleted ⟨(sendMachine qdepth).reset, unanswered_send⟩ := by
  refine ⟨Nat.le_refl 0, Nat.le_refl 0, by simp [unanswered_send, List.pairwise_replicate], ?_⟩
  intro sq_pidb hdoorbell value hvalue
  obtain rfl : to_int 1 = sq_pidb := Option.some.inj hdoorbell
  obtain rfl : value = 0 := List.eq_of_mem_replicate hvalue
  decide

/-- Its index is small. -/
theorem unanswered_send_fits (qdepth : Nat) :
    IndexFits ⟨(sendMachine qdepth).reset, unanswered_send⟩ := by
  simp [IndexFits, unanswered_send, sendMachine]

/-- One call keeps the invariant of the queue. -/
theorem QueueInv.step {qdepth : Nat} {s : SendQueue} {c : Call} (hinv : s.idle = true → QueueInv qdepth s)
    (hpromise : CountsCompleted ⟨s, c⟩ ∧ IndexFits ⟨s, c⟩) (hidle : (post_call s c).idle = true) :
    QueueInv qdepth (post_call s c) := by
  obtain ⟨hcounts, hfits⟩ := hpromise
  obtain ⟨hbefore, rc, qp, hreturned⟩ := idle_of_post_call hidle
  obtain ⟨hqdepth, hposted, hsmall, -⟩ := hinv hbefore
  obtain ⟨hdoorbell, hkept⟩ := effect_returned hreturned
  obtain ⟨hpidb, hnext⟩ := effect_doorbell hfits (by omega) (by omega) hdoorbell
  have hregister : qp.sq_pidb % 2 ^ 32 = qp.sq_pidb := Int.emod_eq_of_lt (by omega) (by omega)
  rw [post_call_returned hbefore hreturned, hregister]
  refine ⟨hkept.trans hqdepth, ?_, ?_, ?_⟩
  · simp only
    omega
  · simp only
    omega
  · have hfinal : (c.final_cqhead : Int) ≤ qp.sq_pidb := by
      obtain hfirst | hread := List.mem_cons.mp (final_cqhead_mem c)
      · have hold := hcounts.posted
        simp only at hold
        omega
      · exact hcounts.follows _ hdoorbell _ hread
    simp only
    omega

/-- The invariant holds before every call of a run on hardware that counts completed
WQEs. -/
theorem queue_inv (qdepth : Nat) (calls : List Call)
    (hcounts : ∀ c ∈ (sendMachine qdepth).trace calls, CountsCompleted c)
    (hfits : ∀ c ∈ (sendMachine qdepth).trace calls, IndexFits c) :
    ∀ c ∈ (sendMachine qdepth).trace calls, c.state.idle = true → QueueInv qdepth c.state :=
  ((sendMachine qdepth).promise_induction (fun c => CountsCompleted c ∧ IndexFits c)
    (fun s => s.idle = true → QueueInv qdepth s)
    (fun _ => ⟨rfl, rfl, Nat.two_pow_pos 31, Nat.le_refl 0⟩)
    (fun _ _ hpromise hinv => QueueInv.step hinv hpromise) calls
    fun c hc => ⟨hcounts c hc, hfits c hc⟩).1

end reconic.rdma_api
