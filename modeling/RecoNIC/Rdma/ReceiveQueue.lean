import Mathlib.Algebra.Order.Ring.Nat
import RecoNIC.Clocked.Machine
import RecoNIC.Ring.Counts

open clocked ring

namespace reconic.rdma_api

def RQE_SIZE : Nat := 512

/-- What the receive path keeps of a queue pair, `rdma_qp_t`: the address of the receive
buffer, the depth and the doorbell indices. -/
structure RdmaRq where
  rq_buffer : Nat
  qdepth : Nat
  rq_pidb : Nat
  rq_cidb : Nat
  deriving DecidableEq

/-- The values of STATRQPIDB are read until one differs from the index of the last call. -/
def poll_rq_pidb (rq_pidb : Nat) : List Nat → Option Nat
  | [] => none
  | value :: reads => if value = rq_pidb then poll_rq_pidb rq_pidb reads else some value

/-- The RQE that a producer index points behind. -/
def rqe_address (qp : RdmaRq) (rq_pidb : Nat) : Nat :=
  let offset : Int :=
    -- the depth is a `uint32_t` and the index an `int`: so are the products, until they are widened
    if rq_pidb = 0 then (((qp.qdepth : Int) - 1) * RQE_SIZE) % 2 ^ 32
    else (((rq_pidb : Int) - 1) * RQE_SIZE).bmod (2 ^ 32)
  ((qp.rq_buffer + offset) % 2 ^ 64).toNat

/-- `rdma_post_receive`, given the values of STATRQPIDB that it can read: the pointer it
returns and the queue pair it leaves, once it returns. -/
def rdma_post_receive (qp : RdmaRq) (reads : List Nat) : Option (Nat × RdmaRq) :=
  match poll_rq_pidb qp.rq_pidb reads with
  | none => none
  | some rq_pidb =>
    -- the register value that is -1 as an int makes the call exit
    if rq_pidb = 0xffffffff then none
    else some (rqe_address qp rq_pidb, { qp with rq_pidb := rq_pidb })

/-- `rdma_release_rq_consumed`, given STATRQPIDB: its result, the queue pair it leaves
and the value it stores in RQCI. -/
def rdma_release_rq_consumed (qp : RdmaRq) (rq_pidb : Nat) : Nat × RdmaRq × Nat :=
  (if rq_pidb ≠ qp.rq_pidb then 1 else 0, { qp with rq_cidb := qp.rq_pidb }, qp.rq_pidb)

/-- A call, with how many RQEs have been received in all whenever it can read
STATRQPIDB. -/
inductive ReceiveCall where
  | rdma_post_receive (received : List Nat)
  | rdma_release_rq_consumed (received : Nat)

/-- The receive queue of a queue pair: how many RQEs it has received and how many of
them RQCI has released, and the pointers that `rdma_post_receive` has returned. It is
idle unless a call is still polling. -/
structure ReceiveQueue where
  qp : RdmaRq
  received : Nat
  released : Nat
  rqes : List Nat
  idle : Bool
  deriving DecidableEq

/-- A call that starts once the call before it has returned. STATRQPIDB is the number
of received RQEs, and RQCI that of released ones, modulo the depth. -/
def receive_call (s : ReceiveQueue) (c : ReceiveCall) : ReceiveQueue :=
  if s.idle then
    match c with
    | .rdma_post_receive received =>
      match rdma_post_receive s.qp (received.map (· % s.qp.qdepth)) with
      | none => { s with idle := false }
      | some (rqe, qp) =>
        { s with qp := qp, received := received.getLastD s.received, rqes := s.rqes ++ [rqe] }
    | .rdma_release_rq_consumed received =>
      match rdma_release_rq_consumed s.qp (received % s.qp.qdepth) with
      | (_, qp, rqci) =>
        { s with
          qp := qp
          received := received
          released := count_ahead s.qp.qdepth s.released rqci }
  else s

/-- A queue pair as `allocate_rdma_qp` leaves it, and the calls made on it. -/
def receiveMachine (rq_buffer qdepth : Nat) : Machine ReceiveQueue ReceiveCall where
  reset := { qp := ⟨rq_buffer, qdepth, 0, 0⟩, received := 0, released := 0, rqes := [], idle := true }
  step := receive_call

/-- The counts that a call can see. -/
def ReceiveCall.counts : ReceiveCall → List Nat
  | .rdma_post_receive received => received
  | .rdma_release_rq_consumed received => [received]

/-- RQEs are only added, and never a full turn of the ring ahead of the released ones. -/
structure ReceivesInTurn (c : Cycle ReceiveQueue ReceiveCall) : Prop where
  increases : (c.state.received :: c.input.counts).Pairwise (· ≤ ·)
  no_wrap : ∀ received ∈ c.input.counts, received < c.state.released + c.state.qp.qdepth

/-- The pointers are those of the RQEs in the order in which these were received, each
once, and no RQE is released before its pointer has been returned. -/
structure DeliversOnce (rq_buffer qdepth : Nat) (s : ReceiveQueue) : Prop where
  in_order : ∀ k rqe, s.rqes[k]? = some rqe → rqe = (rq_buffer + k % qdepth * RQE_SIZE) % 2 ^ 64
  released : s.released ≤ s.rqes.length

/-- The read of STATRQPIDB that ends the `k`-th call of `rdma_post_receive` comes when
`k` RQEs have been received. -/
def OneAtATime (c : Cycle ReceiveQueue ReceiveCall) : Prop :=
  match c.input with
  | .rdma_post_receive received => ∀ count,
    received.find? (fun count => count % c.state.qp.qdepth ≠ c.state.qp.rq_pidb) = some count →
      count = c.state.rqes.length + 1
  | .rdma_release_rq_consumed _ => True

theorem poll_rq_pidb_eq_find (rq_pidb qdepth : Nat) (received : List Nat) :
    poll_rq_pidb rq_pidb (received.map (· % qdepth)) =
      (received.find? fun count => count % qdepth ≠ rq_pidb).map (· % qdepth) := by
  induction received with
  | nil => rfl
  | cons count received ih =>
    by_cases hsame : count % qdepth = rq_pidb
    · simpa [poll_rq_pidb, hsame] using ih
    · simp [poll_rq_pidb, hsame]

/-- The pointer of a slot, when no product overflows an `int`. -/
theorem rqe_address_slot (qp : RdmaRq) {rq_pidb slot : Nat}
    (hwidth : qp.qdepth * RQE_SIZE ≤ 2 ^ 31) (hslot : slot < qp.qdepth)
    (hbehind : rq_pidb = if slot + 1 = qp.qdepth then 0 else slot + 1) :
    rqe_address qp rq_pidb = (qp.rq_buffer + slot * RQE_SIZE) % 2 ^ 64 := by
  simp only [rqe_address, RQE_SIZE] at *
  split at hbehind
  case isTrue hlast =>
    rw [if_pos hbehind]
    omega
  case isFalse =>
    rw [if_neg (by omega), Int.bmod_eq_of_le (by omega) (by omega)]
    omega

/-- The producer index after `count` RQEs points behind RQE `count - 1`. -/
theorem rqe_address_index (qp : RdmaRq) {count : Nat} (hwidth : qp.qdepth * RQE_SIZE ≤ 2 ^ 31)
    (hpos : 0 < count) (hqdepth : 0 < qp.qdepth) :
    rqe_address qp (count % qp.qdepth) =
      (qp.rq_buffer + (count - 1) % qp.qdepth * RQE_SIZE) % 2 ^ 64 := by
  obtain ⟨before, rfl⟩ : ∃ before, count = before + 1 := ⟨count - 1, by omega⟩
  have hsmall := Nat.mod_lt before hqdepth
  rw [Nat.add_sub_cancel]
  refine rqe_address_slot qp hwidth hsmall ?_
  rw [← Nat.mod_add_mod]
  split
  case isTrue hlast => rw [hlast, Nat.mod_self]
  case isFalse hinside => exact Nat.mod_eq_of_lt (by omega)

/-- What holds of a run in which every call has taken one RQE. -/
structure ReceiveInv (rq_buffer qdepth : Nat) (s : ReceiveQueue) : Prop where
  delivers : DeliversOnce rq_buffer qdepth s
  base : s.qp.rq_buffer = rq_buffer
  depth : s.qp.qdepth = qdepth
  index : s.qp.rq_pidb = s.rqes.length % qdepth
  behind : s.rqes.length ≤ s.received
  room : s.received ≤ s.released + (qdepth - 1)

theorem receive_inv_reset (rq_buffer qdepth : Nat) :
    ReceiveInv rq_buffer qdepth (receiveMachine rq_buffer qdepth).reset :=
  ⟨⟨by simp [receiveMachine], Nat.le_refl 0⟩, rfl, rfl, (Nat.zero_mod _).symm, Nat.le_refl 0,
    Nat.zero_le _⟩

theorem last_count_bounds {s : ReceiveQueue} {received : List Nat}
    (hturn : ReceivesInTurn ⟨s, .rdma_post_receive received⟩) (hsome : received ≠ []) :
    (∀ count ∈ received, count ≤ received.getLastD s.received) ∧
      received.getLastD s.received < s.released + s.qp.qdepth := by
  have hlast := List.getLast_mem hsome
  rw [List.getLastD_eq_getLast?, List.getLast?_eq_some_getLast hsome, Option.getD_some]
  refine ⟨?_, hturn.no_wrap _ hlast⟩
  intro count hcount
  rw [← List.dropLast_concat_getLast hsome] at hcount
  obtain hearlier | hlater := List.mem_append.mp hcount
  · have hpairs := (List.pairwise_cons.mp hturn.increases).2
    simp only [ReceiveCall.counts] at hpairs
    rw [← List.dropLast_concat_getLast hsome, List.pairwise_append] at hpairs
    exact hpairs.2.2 _ hearlier _ (List.mem_singleton_self _)
  · exact Nat.le_of_eq (List.mem_singleton.mp hlater)

/-- A call of `rdma_post_receive` that returns appends the pointer of the RQE before the
producer index that it has read. -/
theorem post_receive_returns {s : ReceiveQueue} {received : List Nat} {count : Nat}
    (hidle : s.idle = true) (hqdepth : 0 < s.qp.qdepth)
    (hwidth : s.qp.qdepth * RQE_SIZE ≤ 2 ^ 31)
    (hpos : 0 < count)
    (hfind : received.find? (fun count => count % s.qp.qdepth ≠ s.qp.rq_pidb) = some count) :
    receive_call s (.rdma_post_receive received) = { s with
      qp := { s.qp with rq_pidb := count % s.qp.qdepth }
      received := received.getLastD s.received
      rqes := s.rqes ++
        [(s.qp.rq_buffer + (count - 1) % s.qp.qdepth * RQE_SIZE) % 2 ^ 64] } := by
  have hsmall := Nat.mod_lt count hqdepth
  have hvalid : count % s.qp.qdepth ≠ 0xffffffff := by
    rw [RQE_SIZE] at hwidth
    omega
  simp only [receive_call, hidle, if_true, rdma_post_receive, poll_rq_pidb_eq_find, hfind,
    Option.map_some, hvalid, if_false, rqe_address_index s.qp hwidth hpos hqdepth]

theorem post_receive_polls {s : ReceiveQueue} {received : List Nat} (hidle : s.idle = true)
    (hfind : received.find? (fun count => count % s.qp.qdepth ≠ s.qp.rq_pidb) = none) :
    receive_call s (.rdma_post_receive received) = { s with idle := false } := by
  simp only [receive_call, hidle, if_true, rdma_post_receive, poll_rq_pidb_eq_find, hfind,
    Option.map_none]

/-- A pointer more is right exactly when it is that of the next slot. -/
theorem deliversOnce_snoc {rq_buffer qdepth : Nat} {s s' : ReceiveQueue} {slot : Nat}
    (hdelivers : DeliversOnce rq_buffer qdepth s) (hwidth : qdepth * RQE_SIZE ≤ 2 ^ 31)
    (hslot : slot < qdepth) (hreleased : s'.released = s.released)
    (hrqes : s'.rqes = s.rqes ++ [(rq_buffer + slot * RQE_SIZE) % 2 ^ 64]) :
    DeliversOnce rq_buffer qdepth s' ↔ slot = s.rqes.length % qdepth := by
  have hlast : s'.rqes[s.rqes.length]? = some ((rq_buffer + slot * RQE_SIZE) % 2 ^ 64) := by
    simp [hrqes]
  constructor
  · intro hdelivers'
    have haddress := hdelivers'.in_order _ _ hlast
    have hsmall := Nat.mod_lt s.rqes.length (Nat.zero_lt_of_lt hslot)
    rw [RQE_SIZE] at haddress hwidth
    omega
  · rintro rfl
    refine ⟨?_, ?_⟩
    · intro k rqe hk
      obtain hold | hnew := Nat.lt_or_ge k s.rqes.length
      · rw [hrqes, List.getElem?_append_left hold] at hk
        exact hdelivers.in_order k rqe hk
      · have hlength := (List.getElem?_eq_some_iff.mp hk).1
        rw [hrqes, List.length_append, List.length_singleton] at hlength
        obtain rfl : k = s.rqes.length := by omega
        exact (Option.some.inj (hlast.symm.trans hk)).symm
    · have hbound := hdelivers.released
      rw [hreleased, hrqes, List.length_append]
      omega

/-- A release in such a run hands back exactly the RQEs that have been returned. -/
theorem ReceiveInv.release {rq_buffer qdepth : Nat} {s : ReceiveQueue} {received : Nat}
    (hinv : ReceiveInv rq_buffer qdepth s) (hidle : s.idle = true)
    (hturn : ReceivesInTurn ⟨s, .rdma_release_rq_consumed received⟩) :
    ReceiveInv rq_buffer qdepth (receive_call s (.rdma_release_rq_consumed received)) := by
  obtain ⟨hdelivers, hbase, hdepth, hindex, hbehind, hroom⟩ := hinv
  have hreleased := hdelivers.released
  have hturned := hturn.no_wrap received (List.mem_singleton_self _)
  have hgrown := (List.pairwise_cons.mp hturn.increases).1 received (List.mem_singleton_self _)
  simp only [hdepth] at hturned hgrown
  have hcount : count_ahead qdepth s.released (s.rqes.length % qdepth) = s.rqes.length :=
    count_ahead_index hreleased (by omega)
  simp only [receive_call, hidle, if_true, rdma_release_rq_consumed, hindex, hdepth, hcount]
  exact ⟨⟨hdelivers.in_order, Nat.le_refl _⟩, hbase, rfl, rfl, by simp only; omega,
    by simp only; omega⟩

/-- A call of `rdma_post_receive` in such a run returns the right pointer exactly when it
sees one RQE more than have been returned. -/
theorem ReceiveInv.post_receive {rq_buffer qdepth : Nat} {s : ReceiveQueue} {received : List Nat}
    {count : Nat} (hinv : ReceiveInv rq_buffer qdepth s) (hwidth : qdepth * RQE_SIZE ≤ 2 ^ 31)
    (hidle : s.idle = true) (hturn : ReceivesInTurn ⟨s, .rdma_post_receive received⟩)
    (hfind : received.find? (fun count => count % s.qp.qdepth ≠ s.qp.rq_pidb) = some count) :
    (DeliversOnce rq_buffer qdepth (receive_call s (.rdma_post_receive received)) ↔
        count = s.rqes.length + 1) ∧
      (count = s.rqes.length + 1 →
        ReceiveInv rq_buffer qdepth (receive_call s (.rdma_post_receive received))) := by
  obtain ⟨hdelivers, hbase, hdepth, hindex, hbehind, hroom⟩ := hinv
  have hreleased := hdelivers.released
  have hmem := List.mem_of_find?_eq_some hfind
  have hturned := hturn.no_wrap count hmem
  have hgrown := (List.pairwise_cons.mp hturn.increases).1 count hmem
  simp only [hdepth] at hturned hgrown
  have hnew : count % qdepth ≠ s.rqes.length % qdepth := by
    simpa [hdepth, hindex] using List.find?_some hfind
  have hne : count ≠ s.rqes.length := fun heq => hnew (by rw [heq])
  have hqdepth : 0 < qdepth := by omega
  have hcall := post_receive_returns hidle (hdepth ▸ hqdepth) (hdepth ▸ hwidth) (by omega) hfind
  rw [hbase, hdepth] at hcall
  have hslot : DeliversOnce rq_buffer qdepth (receive_call s (.rdma_post_receive received)) ↔
      (count - 1) % qdepth = s.rqes.length % qdepth :=
    deliversOnce_snoc hdelivers hwidth (Nat.mod_lt _ hqdepth) (by rw [hcall]) (by rw [hcall])
  have hone : (count - 1) % qdepth = s.rqes.length % qdepth ↔ count = s.rqes.length + 1 := by
    constructor
    · intro hindices
      have heq : s.rqes.length = count - 1 :=
        count_eq_of_index_eq (by omega) (by omega) hindices.symm
      omega
    · rintro rfl
      rw [Nat.add_sub_cancel]
  refine ⟨hslot.trans hone, fun hlength => ?_⟩
  have hdelivers' := (hslot.trans hone).mpr hlength
  obtain ⟨hgrows, hend⟩ := last_count_bounds hturn (List.ne_nil_of_mem hmem)
  have hlast := hgrows count hmem
  rw [hcall] at hdelivers' ⊢
  refine ⟨hdelivers', hbase, hdepth, ?_, ?_, ?_⟩
  · simp [hlength]
  · simp only [List.length_append, List.length_singleton]
    omega
  · simp only
    omega

/-- One call of a run in which every call so far has taken one RQE. -/
theorem ReceiveInv.call {rq_buffer qdepth : Nat} {s : ReceiveQueue} {c : ReceiveCall}
    (hinv : ReceiveInv rq_buffer qdepth s) (hwidth : qdepth * RQE_SIZE ≤ 2 ^ 31)
    (hidle : s.idle = true) (hturn : ReceivesInTurn ⟨s, c⟩) :
    (DeliversOnce rq_buffer qdepth (receive_call s c) ↔ OneAtATime ⟨s, c⟩) ∧
      (OneAtATime ⟨s, c⟩ → ReceiveInv rq_buffer qdepth (receive_call s c)) := by
  cases c with
  | rdma_post_receive received =>
    simp only [OneAtATime]
    cases hfind : received.find? fun count => decide (count % s.qp.qdepth ≠ s.qp.rq_pidb) with
    | none =>
      rw [post_receive_polls hidle hfind]
      obtain ⟨hdelivers, hbase, hdepth, hindex, hbehind, hroom⟩ := hinv
      have hkept : DeliversOnce rq_buffer qdepth { s with idle := false } :=
        ⟨hdelivers.in_order, hdelivers.released⟩
      exact ⟨by simp [hkept], fun _ => ⟨hkept, hbase, hdepth, hindex, hbehind, hroom⟩⟩
    | some count =>
      obtain ⟨hiff, hnext⟩ := hinv.post_receive hwidth hidle hturn hfind
      simp only [Option.some.injEq, forall_eq']
      exact ⟨hiff, hnext⟩
  | rdma_release_rq_consumed received =>
    have hnext := hinv.release hidle hturn
    exact ⟨iff_of_true hnext.delivers trivial, fun _ => hnext⟩

/-- When every call delivers the next RQE, on a queue whose bytes an `int` can count. A call
copies the producer index as it finds it, so RQEs that arrive together are passed over and
then released. -/
theorem delivers_once_iff (rq_buffer qdepth : Nat) (calls : List ReceiveCall)
    (hwidth : qdepth * RQE_SIZE ≤ 2 ^ 31)
    (hturn : ∀ c ∈ (receiveMachine rq_buffer qdepth).trace calls,
      c.state.idle = true → ReceivesInTurn c) :
    (∀ earlier, earlier <+: calls →
        DeliversOnce rq_buffer qdepth ((receiveMachine rq_buffer qdepth).run earlier)) ↔
      ∀ c ∈ (receiveMachine rq_buffer qdepth).trace calls, c.state.idle = true → OneAtATime c := by
  apply (receiveMachine rq_buffer qdepth).condition_exact (ReceiveInv rq_buffer qdepth)
    (DeliversOnce rq_buffer qdepth) (fun c => c.state.idle = true → OneAtATime c)
  · exact receive_inv_reset rq_buffer qdepth
  · exact fun s hinv => hinv.delivers
  · intro s c hc hinv
    cases hidle : s.idle with
    | true =>
      obtain ⟨hiff, hnext⟩ := hinv.call hwidth hidle (hturn _ hc hidle)
      exact ⟨hiff.trans ⟨fun hone _ => hone, fun hone => hone rfl⟩, fun hone => hnext (hone rfl)⟩
    | false =>
      have hstay : receive_call s c = s := by simp [receive_call, hidle]
      change (DeliversOnce rq_buffer qdepth (receive_call s c) ↔ _) ∧
        (_ → ReceiveInv rq_buffer qdepth (receive_call s c))
      rw [hstay]
      exact ⟨by simp [hinv.delivers], fun _ => hinv⟩

/-- Two RQEs that arrive one at a time, with a release between them. -/
theorem delivers_two_rqes : DeliversOnce 0x1000 4 ((receiveMachine 0x1000 4).run
    [.rdma_post_receive [0, 1], .rdma_release_rq_consumed 1, .rdma_post_receive [2]]) := by
  refine (delivers_once_iff 0x1000 4 _ (by decide) ?_).mpr ?_ _ (List.prefix_refl _)
  · intro c hc _
    obtain rfl | rfl | rfl : c = _ ∨ c = _ ∨ c = _ := by
      simpa [Machine.trace, Machine.traceFrom] using hc
    · exact ⟨by simp [receiveMachine, ReceiveCall.counts], by simp [receiveMachine, ReceiveCall.counts]⟩
    · exact ⟨by decide, by decide⟩
    · exact ⟨by decide, by decide⟩
  · intro c hc _
    obtain rfl | rfl | rfl : c = _ ∨ c = _ ∨ c = _ := by
      simpa [Machine.trace, Machine.traceFrom] using hc
    · intro count hcount
      obtain rfl : 1 = count := by simpa [receiveMachine] using hcount
      rfl
    · trivial
    · intro count hcount
      obtain ⟨-, rfl⟩ : _ ∧ 2 = count := by simpa using hcount
      rfl

/-- Two RQEs that arrive before the first read: the pointer of the second one is
returned, and the release then frees both. -/
theorem skips_an_rqe : ¬∀ (rq_buffer qdepth : Nat) (calls : List ReceiveCall),
    qdepth * RQE_SIZE ≤ 2 ^ 31 →
    (∀ c ∈ (receiveMachine rq_buffer qdepth).trace calls,
      c.state.idle = true → ReceivesInTurn c) →
    ∀ earlier, earlier <+: calls →
      DeliversOnce rq_buffer qdepth ((receiveMachine rq_buffer qdepth).run earlier) := by
  intro hclaim
  have hturn : ∀ c ∈ (receiveMachine 0x1000 4).trace
      [.rdma_post_receive [2], .rdma_release_rq_consumed 2],
      c.state.idle = true → ReceivesInTurn c := by
    intro c hc _
    obtain rfl | rfl : c = _ ∨ c = _ := by simpa [Machine.trace, Machine.traceFrom] using hc
    · exact ⟨by simp [receiveMachine, ReceiveCall.counts], by simp [receiveMachine, ReceiveCall.counts]⟩
    · exact ⟨by decide, by decide⟩
  have hdelivers := hclaim 0x1000 4 _ (by decide) hturn _ (List.prefix_refl _)
  have hreleased : 2 ≤ 1 := hdelivers.released
  omega

end reconic.rdma_api
