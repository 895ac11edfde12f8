import RecoNIC.Driver.Reopen
import RecoNIC.Driver.UserPages

open clocked

namespace reconic.onic_cdev

/-- A call of `onic_cdev_read` or `onic_cdev_write`: the `fp_rw` of the device, which is
NULL or returns a result, the user buffer, and what the kernel answers when the buffer is
mapped. -/
structure CdevCall where
  fp_rw : Option Int
  buf : Nat
  count : Nat
  kmalloc : Bool
  pinning : Pinning
  deriving DecidableEq

/-- So many statements of an operation that runs by itself, unless it has to wait. -/
def run_statements (no_mm_queues : Nat) : Nat → Pool → Op → Option (Pool × Op)
  | 0, p, op => some (p, op)
  | k + 1, p, op =>
    match next_statement no_mm_queues p op with
    | none => none
    | some (p, op) => run_statements no_mm_queues k p op

/-- `onic_gen_read_write` for an operation that has obtained its queue: what it leaves of
the pool, and its result. -/
def onic_gen_read_write (no_mm_queues : Nat) (p : Pool) (op : Op) (c : CdevCall) :
    Option (Pool × Int) :=
  match c.fp_rw with
  | none => (early_return p op).map fun left => (left.1, -EINVAL)
  | some res =>
    let rv := (map_user_buf_to_sgl ⟨c.buf, c.count, 0, none, none⟩ c.kmalloc c.pinning).1
    if rv < 0 then (early_return p op).map fun left => (left.1, rv)
    else (run_statements no_mm_queues 6 p op).map fun left => (left.1, res)

/-- `onic_cdev_read` or `onic_cdev_write` on the pool of its direction. There is no result
when the call has to wait. -/
def onic_cdev_call (no_mm_queues : Nat) (p : Pool) (c : CdevCall) : Option (Pool × Int) :=
  match run_statements no_mm_queues 5 p .called with
  | none => none
  | some (p, op) => onic_gen_read_write no_mm_queues p op c

/-- The count of the semaphore and the ids in the ring are the same. -/
structure SamePool (p p' : Pool) : Prop where
  sem : p'.sem = p.sem
  ids : (available p'.queue_pool).Perm (available p.queue_pool)

/-- A call that gets as far as `fp_rw`. -/
structure ReachesFpRw (c : CdevCall) : Prop where
  fp_rw : c.fp_rw ≠ none
  mapped : Mappable c.buf c.count c.kmalloc c.pinning

/-- Statements of one operation keep the invariant of the direction, and the semaphore
counts whether it is inside. -/
theorem run_statements_inv {no_mm_queues k i : Nat} {d : Direction} {p : Pool} {op op' : Op}
    (hinv : DirectionInv no_mm_queues d) (hop : d.ops[i]? = some op)
    (hrun : run_statements no_mm_queues k d.pool op = some (p, op')) :
    DirectionInv no_mm_queues ⟨p, d.ops.set i op'⟩ ∧ p.lost = d.pool.lost ∧
      p.sem + op'.inside.toNat = d.pool.sem + op.inside.toNat := by
  induction k generalizing d op with
  | zero =>
    simp only [run_statements, Option.some.injEq, Prod.mk.injEq] at hrun
    obtain ⟨rfl, rfl⟩ := hrun
    obtain ⟨hi, rfl⟩ := List.getElem?_eq_some_iff.mp hop
    rw [List.set_getElem_self]
    exact ⟨hinv, rfl, rfl⟩
  | succ k ih =>
    cases hstatement : next_statement no_mm_queues d.pool op with
    | none => simp [run_statements, hstatement] at hrun
    | some next =>
      obtain ⟨next_pool, next_op⟩ := next
      simp only [run_statements, hstatement] at hrun
      obtain ⟨hsem, takes, puts, hring⟩ := hinv
      obtain ⟨hsem', takes', puts', hring'⟩ := statement_inv hsem hring hop hstatement
      obtain ⟨hcount, -, -, hlost⟩ := statement_semaphores hstatement
      have hnext : (d.ops.set i next_op)[i]? = some next_op :=
        List.getElem?_set_self (List.getElem?_eq_some_iff.mp hop).1
      obtain ⟨hinv'', hlost'', hcount''⟩ :=
        ih (d := ⟨next_pool, d.ops.set i next_op⟩) ⟨hsem', takes', puts', hring'⟩ hnext hrun
      rw [List.set_set] at hinv''
      exact ⟨hinv'', hlost''.trans hlost, hcount''.trans hcount⟩

/-- What `onic_cdev_read` and `onic_cdev_write` do before `onic_gen_read_write`. -/
theorem call_obtains {no_mm_queues : Nat} {p p' : Pool} {op : Op}
    (hrun : run_statements no_mm_queues 5 p .called = some (p', op)) :
    ∃ target_queue, op = .transferring target_queue := by
  by_cases hsem : 0 < p.sem
  · by_cases hmutex : 0 < p.mutex
    · simp only [run_statements, next_statement, hsem, hmutex, if_true, Option.some.injEq,
        Prod.mk.injEq] at hrun
      exact ⟨_, hrun.2.symm⟩
    · simp [run_statements, next_statement, hsem, hmutex] at hrun
  · simp [run_statements, next_statement, hsem] at hrun

/-- What `onic_gen_read_write` does from its call of `fp_rw` on. -/
theorem call_puts_back {no_mm_queues target_queue : Nat} {p p' : Pool} {op : Op}
    (hrun : run_statements no_mm_queues 6 p (.transferring target_queue) = some (p', op)) :
    op = .returned := by
  by_cases hmutex2 : 0 < p.mutex2
  · simp only [run_statements, next_statement, hmutex2, if_true, Option.some.injEq,
      Prod.mk.injEq] at hrun
    exact hrun.2.symm
  · simp [run_statements, next_statement, hmutex2] at hrun

/-- A call returns when no operation in flight makes it wait. -/
theorem onic_cdev_call_returns {no_mm_queues : Nat} {p : Pool} (c : CdevCall) (hsem : 0 < p.sem)
    (hmutex : 0 < p.mutex) (hmutex2 : 0 < p.mutex2) :
    ∃ p' rv, onic_cdev_call no_mm_queues p c = some (p', rv) := by
  simp only [onic_cdev_call, run_statements, next_statement, hsem, hmutex, if_true,
    onic_gen_read_write, early_return]
  cases c.fp_rw with
  | none => exact ⟨_, _, rfl⟩
  | some res =>
    simp only [hmutex2, if_true]
    split
    · exact ⟨_, _, rfl⟩
    · exact ⟨_, _, rfl⟩

/-- The two ways in which `onic_gen_read_write` returns. -/
theorem gen_read_write_cases {no_mm_queues : Nat} {p p' : Pool} {op : Op} {c : CdevCall} {rv : Int}
    (hcall : onic_gen_read_write no_mm_queues p op c = some (p', rv)) :
    (ReachesFpRw c ∧ ∃ op', run_statements no_mm_queues 6 p op = some (p', op')) ∨
      (¬ReachesFpRw c ∧ ∃ op', early_return p op = some (p', op')) := by
  cases hfp_rw : c.fp_rw with
  | none =>
    simp only [onic_gen_read_write, hfp_rw, Option.map_eq_some_iff, Prod.mk.injEq] at hcall
    obtain ⟨⟨left, op'⟩, hreturn, rfl, -⟩ := hcall
    exact .inr ⟨fun hreaches => hreaches.fp_rw hfp_rw, op', hreturn⟩
  | some res =>
    have hfails := map_user_buf_to_sgl_fails_iff ⟨c.buf, c.count, 0, none, none⟩ c.kmalloc c.pinning
    simp only [onic_gen_read_write, hfp_rw] at hcall
    split at hcall
    · rename_i hneg
      simp only [Option.map_eq_some_iff, Prod.mk.injEq] at hcall
      obtain ⟨⟨left, op'⟩, hreturn, rfl, -⟩ := hcall
      exact .inr ⟨fun hreaches => hfails.mp hneg hreaches.mapped, op', hreturn⟩
    · rename_i hmapped
      simp only [Option.map_eq_some_iff, Prod.mk.injEq] at hcall
      obtain ⟨⟨left, op'⟩, hrun, rfl, -⟩ := hcall
      exact .inl ⟨⟨by simp [hfp_rw], not_not.mp fun hnot => hmapped (hfails.mpr hnot)⟩, op', hrun⟩

/-- A call that returns has obtained a queue, and the invariant holds with the caller
among the operations. -/
theorem onic_cdev_call_inv {no_mm_queues : Nat} {d : Direction} {p' : Pool} {c : CdevCall} {rv : Int}
    (hinv : DirectionInv no_mm_queues d)
    (hcall : onic_cdev_call no_mm_queues d.pool c = some (p', rv)) :
    ∃ p target_queue, DirectionInv no_mm_queues ⟨p, d.ops ++ [Op.transferring target_queue]⟩ ∧
      p.lost = d.pool.lost ∧ p.sem + 1 = d.pool.sem ∧
      onic_gen_read_write no_mm_queues p (.transferring target_queue) c = some (p', rv) := by
  cases hrun : run_statements no_mm_queues 5 d.pool .called with
  | none => simp [onic_cdev_call, hrun] at hcall
  | some result =>
    obtain ⟨p, op⟩ := result
    simp only [onic_cdev_call, hrun] at hcall
    obtain ⟨target_queue, rfl⟩ := call_obtains hrun
    have hlast : (d.ops ++ [Op.called])[d.ops.length]? = some .called := by simp
    obtain ⟨hinv', hlost, hsem⟩ := run_statements_inv (hinv.event .call) hlast hrun
    simp only [Direction.event, List.set_append, Nat.lt_irrefl, if_false, Nat.sub_self,
      List.set_cons_zero] at hinv'
    exact ⟨p, target_queue, hinv', hlost, hsem, hcall⟩

/-- Two pools with the same operations and the same lost ids have the same ids in their
rings. -/
theorem available_perm_of_inv {no_mm_queues : Nat} {d d' : Direction}
    (hinv : DirectionInv no_mm_queues d) (hinv' : DirectionInv no_mm_queues d')
    (hheld : held d'.ops = held d.ops) (hlost : d'.pool.lost = d.pool.lost) :
    (available d'.pool.queue_pool).Perm (available d.pool.queue_pool) := by
  obtain ⟨-, takes, puts, hring⟩ := hinv
  obtain ⟨-, takes', puts', hring'⟩ := hinv'
  have hsame := hring'.ids.trans hring.ids.symm
  rwa [hheld, hlost, List.perm_append_right_iff, List.perm_append_right_iff] at hsame

/-- In a direction that meets its invariant a call that reaches `fp_rw` leaves the pool
as it was, and no other call does. -/
theorem onic_cdev_call_same_pool {no_mm_queues : Nat} {d : Direction} {p' : Pool} {c : CdevCall}
    {rv : Int} (hinv : DirectionInv no_mm_queues d)
    (hcall : onic_cdev_call no_mm_queues d.pool c = some (p', rv)) :
    SamePool d.pool p' ↔ ReachesFpRw c := by
  obtain ⟨p, target_queue, hobtained, hlost, hsem, hrest⟩ := onic_cdev_call_inv hinv hcall
  obtain ⟨hreaches, op', hrun⟩ | ⟨hfails, op', hreturn⟩ := gen_read_write_cases hrest
  · obtain rfl := call_puts_back hrun
    have hlast : (d.ops ++ [Op.transferring target_queue])[d.ops.length]? =
        some (.transferring target_queue) := by simp
    obtain ⟨hinv', hlost', hsem'⟩ := run_statements_inv hobtained hlast hrun
    simp only [List.set_append, Nat.lt_irrefl, if_false, Nat.sub_self, List.set_cons_zero] at hinv'
    simp only [Op.inside, Bool.toNat_false, Bool.toNat_true] at hsem'
    refine iff_of_true ⟨by omega, ?_⟩ hreaches
    refine available_perm_of_inv hinv hinv' ?_ (hlost'.trans hlost)
    simp [held, Op.holds]
  · simp only [early_return, Option.some.injEq, Prod.mk.injEq] at hreturn
    obtain ⟨rfl, -⟩ := hreturn
    refine iff_of_false (fun hsame => ?_) hfails
    have hcount : p.sem = d.pool.sem := hsame.sem
    omega

/-- A call gives its queue back exactly when it gets as far as `fp_rw`: in every state
that the device reaches with `onic_init_cdev` undisturbed, whatever the user buffer, its
length and the answers of the kernel. -/
theorem queue_given_back_iff (no_mm_queues : Nat) (events : List CdevEvent) (dir : Dir) (c : CdevCall)
    (p' : Pool) (rv : Int)
    (hundisturbed : ∀ earlier, earlier <+: events → Undisturbed ((cdevMachine no_mm_queues).run earlier))
    (hidle : ∀ rest, ((cdevMachine no_mm_queues).run events).init ≠ some (dir, rest))
    (hcall : onic_cdev_call no_mm_queues
      (((cdevMachine no_mm_queues).run events).direction dir).pool c = some (p', rv)) :
    SamePool (((cdevMachine no_mm_queues).run events).direction dir).pool p' ↔ ReachesFpRw c := by
  obtain hready | hunopened := (reopen_inv no_mm_queues events hundisturbed).settled dir hidle
  · exact onic_cdev_call_same_pool hready hcall
  · rw [hunopened.pool] at hcall
    simp [onic_cdev_call, run_statements, next_statement, created] at hcall

/-- A read into one page that can be pinned. -/
def read_of_a_page : CdevCall where
  fp_rw := some 4096
  buf := 0x10000
  count := 4096
  kmalloc := true
  pinning := .pinned [16]

theorem queue_given_back_of_a_page :
    ∃ p', onic_cdev_call 1 (((cdevMachine 1).run (open_events 1)).direction .read).pool
      read_of_a_page = some (p', 4096) ∧
      (SamePool (((cdevMachine 1).run (open_events 1)).direction .read).pool p' ↔
        ReachesFpRw read_of_a_page) := by
  have hcall : onic_cdev_call 1 (((cdevMachine 1).run (open_events 1)).direction .read).pool
      read_of_a_page = some (initialised 1, 4096) := by
    decide +kernel
  have hopened : ((cdevMachine 1).run (open_events 1)).init = none := by
    rw [first_open]
    rfl
  refine ⟨initialised 1, hcall, queue_given_back_iff 1 (open_events 1) .read read_of_a_page _ _ ?_
    (by simp [hopened]) hcall⟩
  apply undisturbed_of_takes
  decide +kernel

/-- A read into an address that is not mapped. -/
def read_of_bad_address : CdevCall := { read_of_a_page with pinning := .failed 14 (by decide) }

/-- It returns `-EFAULT` and keeps the only queue, so every later read blocks. -/
theorem failed_call_blocks :
    ∃ p', onic_cdev_call 1 (((cdevMachine 1).run (open_events 1)).direction .read).pool
      read_of_bad_address = some (p', -EFAULT) ∧
      ¬SamePool (((cdevMachine 1).run (open_events 1)).direction .read).pool p' ∧
      ∀ c, onic_cdev_call 1 p' c = none := by
  rw [first_open]
  refine ⟨_, rfl, fun hsame => ?_, fun c => rfl⟩
  have hcount : 0 = 1 := hsame.sem
  omega

end reconic.onic_cdev
