import Mathlib
import RecoNIC.Clocked.Machine
import RecoNIC.Ring.Slots
import RecoNIC.Arbitration.Turns

open clocked ring arbitration

namespace reconic.rr_arbiter

inductive State where
  | S_IDLE
  | S_BUSY
  deriving DecidableEq

/-- The queue of requests that arrived while others were pending. A vector over the channels is
the set of those whose bit is set. When `N` is no power of two, the pointers leave `q_mem`: what
is read there, from this cycle on, is `unknown`. -/
structure Queue (N : Nat) where
  q_mem : List (Finset (Fin N))
  q_wptr : Nat
  q_rptr : Nat
  q_cnt : Nat
  unknown : Nat → Finset (Fin N)

structure Regs (N : Nat) where
  granted : Finset (Fin N)
  pending : Finset (Fin N)
  prio : List (Finset (Fin N))
  state : State
  queued : Finset (Fin N)
  q : Queue N

structure Input (N : Nat) where
  req : Finset (Fin N)
  fin : Finset (Fin N)
  ready : Bool

section Arbiter

variable {N : Nat}

def Queue.q_empty (q : Queue N) : Bool := decide (q.q_cnt = 0)

def Queue.q_full (q : Queue N) : Bool := decide (q.q_cnt = N)

def Queue.q_dout (q : Queue N) : Finset (Fin N) := q.q_mem.getD q.q_rptr (q.unknown 0)

/-- The pointers have `$clog2(N)` bits. (For a single channel the range `[M-1:0]` has two, but
nothing is ever queued behind it.) -/
def Queue.advance (N ptr : Nat) : Nat := (ptr + 1) % 2 ^ Nat.clog 2 N

def Queue.step (q : Queue N) (q_wr_en q_rd_en : Bool) (q_din : Finset (Fin N)) : Queue N :=
  let unknown := fun k => q.unknown (k + 1)
  if q_wr_en && !q_rd_en && !q.q_full then
    { q_wptr := advance N q.q_wptr
      q_cnt := q.q_cnt + 1
      q_mem := q.q_mem.set q.q_wptr q_din
      q_rptr := q.q_rptr
      unknown }
  else if q_rd_en && !q_wr_en && !q.q_empty then
    { q with q_rptr := advance N q.q_rptr, q_cnt := q.q_cnt - 1, unknown }
  else if q_wr_en && q_rd_en then
    { q_wptr := advance N q.q_wptr
      q_mem := q.q_mem.set q.q_wptr q_din
      q_rptr := if q.q_empty then q.q_rptr else advance N q.q_rptr
      q_cnt := if q.q_empty then q.q_cnt + 1 else q.q_cnt
      unknown }
  else { q with unknown }

def q_din (s : Regs N) (req : Finset (Fin N)) : Finset (Fin N) := req \ s.queued

def q_wr_en (s : Regs N) (req : Finset (Fin N)) : Bool :=
  decide (q_din s req ≠ ∅) && (!s.q.q_empty || decide (s.pending ≠ ∅))

/-- The queue is read when nothing else is pending. -/
def q_rd_en (s : Regs N) : Bool :=
  decide (s.state = .S_IDLE) && decide (s.pending = ∅) && !s.q.q_empty

def valid_req (s : Regs N) (req : Finset (Fin N)) : Finset (Fin N) :=
  if s.pending ≠ ∅ then s.pending else if s.q.q_empty then q_din s req else s.q.q_dout

/-- The loop over the priorities. The first one that is requested goes to their end. -/
def arbitrate (valid_req : Finset (Fin N)) (prio : List (Finset (Fin N))) :
    Finset (Fin N) × List (Finset (Fin N)) :=
  match prio.findIdx? fun p => decide (valid_req ∩ p ≠ ∅) with
  | none => (∅, prio)
  | some k => (valid_req ∩ prio.getD k ∅, prio.eraseIdx k ++ [prio.getD k ∅])

/-- The channel that an idle arbiter would like to grant access to. -/
def choice (s : Regs N) (req : Finset (Fin N)) : Finset (Fin N) :=
  (arbitrate (valid_req s req) s.prio).1

def grant (s : Regs N) (req : Finset (Fin N)) (ready : Bool) : Finset (Fin N) :=
  if ready then
    match s.state with
    | .S_IDLE => choice s req
    | .S_BUSY => s.granted
  else ∅

def step (s : Regs N) (i : Input N) : Regs N :=
  let grant := grant s i.req i.ready
  let finished := decide (i.fin ∩ grant ≠ ∅)
  { granted :=
      match s.state with
      | .S_IDLE => choice s i.req
      | .S_BUSY => if finished then ∅ else s.granted
    pending :=
      match s.state with
      | .S_IDLE =>
        if choice s i.req ≠ ∅ then
          (if finished then symmDiff (valid_req s i.req) i.fin else valid_req s i.req)
        else s.pending
      | .S_BUSY => if finished then symmDiff s.pending i.fin else s.pending
    prio :=
      match s.state with
      | .S_IDLE => (arbitrate (valid_req s i.req) s.prio).2
      | .S_BUSY => s.prio
    state :=
      match s.state with
      | .S_IDLE => if choice s i.req ≠ ∅ && !finished then .S_BUSY else .S_IDLE
      | .S_BUSY => if finished then .S_IDLE else .S_BUSY
    queued := (s.queued ∪ i.req) \ (i.req ∩ grant ∩ i.fin)
    q := s.q.step (q_wr_en s i.req) (q_rd_en s) (q_din s i.req) }

def machine (N : Nat) (unknown : Nat → Finset (Fin N)) : Machine (Regs N) (Input N) where
  reset :=
    { granted := ∅
      pending := ∅
      prio := (List.finRange N).map fun k => {k}
      state := .S_IDLE
      queued := ∅
      q := ⟨List.replicate N ∅, 0, 0, 0, unknown⟩ }
  step := step

/-- The requests that arrive, those of one cycle together. -/
def arrivals (h : List (Cycle (Regs N) (Input N))) : List (Finset (Fin N)) :=
  h.flatMap fun c => if q_din c.state c.input.req ≠ ∅ then [q_din c.state c.input.req] else []

/-- What a cycle begins to grant. -/
def selection (s : Regs N) (req : Finset (Fin N)) : List (Finset (Fin N)) :=
  if s.state = .S_IDLE ∧ choice s req ≠ ∅ then [choice s req] else []

/-- The channels that are granted access, in order. -/
def selected (h : List (Cycle (Regs N) (Input N))) : List (Finset (Fin N)) :=
  h.flatMap fun c => selection c.state c.input.req

end Arbiter

end reconic.rr_arbiter
