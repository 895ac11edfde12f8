import RecoNIC.Clocked.Machine
import RecoNIC.Interleaving.Semaphores
import RecoNIC.Ring.Window

open clocked interleaving ring
open scoped List

namespace reconic.onic_cdev

/-- An entry of `queue_pool`. It is available from when a queue id is stored in it until
an operation takes the id out. -/
structure Slot where
  queue : Nat
  available : Bool
  deriving DecidableEq

/-- The static variables of one direction: `read_sem`, `read_mutex`, `read_mutex2` and
so on for reads, and their counterparts for writes. Kept besides are the ids that
operations have taken out and returned without. -/
structure Pool where
  sem : Nat
  mutex : Nat
  mutex2 : Nat
  read_idx : Nat
  write_idx : Nat
  queue_pool : List Slot
  lost : List Nat
  deriving DecidableEq

/-- Where an `onic_cdev_read` or `onic_cdev_write` is: after which of its statements,
and with which `target_queue` from when it is read until it is stored again. -/
inductive Op where
  | called
  | down_sem
  | down_mutex
  | obtained (target_queue : Nat)
  | advanced (target_queue : Nat)
  | transferring (target_queue : Nat)
  | transferred (target_queue : Nat)
  | down_mutex2 (target_queue : Nat)
  | stored
  | moved
  | up_mutex2
  | returned
  deriving DecidableEq

/-- The next statement of an operation that reaches `fp_rw`, unless it has to wait. -/
def next_statement (no_mm_queues : Nat) (p : Pool) : Op → Option (Pool × Op)
  | .called => if 0 < p.sem then some ({ p with sem := p.sem - 1 }, .down_sem) else none
  | .down_sem => if 0 < p.mutex then some ({ p with mutex := p.mutex - 1 }, .down_mutex) else none
  | .down_mutex =>
    let slot := p.queue_pool.getD p.read_idx ⟨0, false⟩
    some ({ p with queue_pool := p.queue_pool.set p.read_idx { slot with available := false } },
      .obtained slot.queue)
  | .obtained target_queue =>
    some ({ p with read_idx := (p.read_idx + 1) % no_mm_queues }, .advanced target_queue)
  | .advanced target_queue => some ({ p with mutex := p.mutex + 1 }, .transferring target_queue)
  | .transferring target_queue => some (p, .transferred target_queue)
  | .transferred target_queue =>
    if 0 < p.mutex2 then some ({ p with mutex2 := p.mutex2 - 1 }, .down_mutex2 target_queue)
    else none
  | .down_mutex2 target_queue =>
    some ({ p with queue_pool := p.queue_pool.set p.write_idx ⟨target_queue, true⟩ }, .stored)
  | .stored => some ({ p with write_idx := (p.write_idx + 1) % no_mm_queues }, .moved)
  | .moved => some ({ p with mutex2 := p.mutex2 + 1 }, .up_mutex2)
  | .up_mutex2 => some ({ p with sem := p.sem + 1 }, .returned)
  | .returned => none

/-- An early return of `onic_gen_read_write`, before `fp_rw`. -/
def early_return (p : Pool) : Op → Option (Pool × Op)
  | .transferring target_queue => some ({ p with lost := p.lost ++ [target_queue] }, .returned)
  | _ => none

/-- One direction of the character device and the operations called on it. -/
structure Direction where
  pool : Pool
  ops : List Op
  deriving DecidableEq

/-- A new operation is called, or one of the operations executes its next statement, or
returns early. -/
inductive OpEvent where
  | call
  | step (i : Nat)
  | fail (i : Nat)
  deriving DecidableEq

/-- What the `i`-th operation does to its direction. -/
def Direction.act (d : Direction) (i : Nat) (statement : Pool → Op → Option (Pool × Op)) :
    Direction :=
  match d.ops[i]? with
  | none => d
  | some op =>
    match statement d.pool op with
    | none => d
    | some (pool, op') => { pool := pool, ops := d.ops.set i op' }

def Direction.event (no_mm_queues : Nat) (d : Direction) : OpEvent → Direction
  | .call => { d with ops := d.ops ++ [.called] }
  | .step i => d.act i (next_statement no_mm_queues)
  | .fail i => d.act i early_return

/-- Between its down and its up on the semaphore of the direction. -/
def Op.inside : Op → Bool
  | .called => false
  | .returned => false
  | _ => true

/-- Between its down and its up on the first mutex. -/
def Op.locks : Op → Bool
  | .down_mutex => true
  | .obtained _ => true
  | .advanced _ => true
  | _ => false

/-- Between its down and its up on the second mutex. -/
def Op.locks2 : Op → Bool
  | .down_mutex2 _ => true
  | .stored => true
  | .moved => true
  | _ => false

/-- The queue that an operation holds: from when it takes the id out of the ring until
it puts the id back. -/
def Op.holds : Op → Option Nat
  | .obtained target_queue => some target_queue
  | .advanced target_queue => some target_queue
  | .transferring target_queue => some target_queue
  | .transferred target_queue => some target_queue
  | .down_mutex2 target_queue => some target_queue
  | _ => none

/-- It has taken an id out and `read_idx` still points to the slot. -/
def Op.taking : Op → Bool
  | .obtained _ => true
  | _ => false

/-- It has put an id back and `write_idx` still points to the slot. -/
def Op.storing : Op → Bool
  | .stored => true
  | _ => false

def held (ops : List Op) : List Nat := ops.filterMap Op.holds

/-- The queue ids available in the ring. -/
def available (queue_pool : List Slot) : List Nat := (queue_pool.filter (·.available)).map (·.queue)

/-- The ids that a slot makes available. -/
def Slot.ids (slot : Slot) : List Nat := if slot.available then [slot.queue] else []

/-- What the three semaphores of an initialised direction say about its operations. -/
structure SemInv (no_mm_queues : Nat) (d : Direction) : Prop where
  sem : InBalance no_mm_queues (d.pool.sem + d.pool.lost.length) Op.inside d.ops
  mutex : InBalance 1 d.pool.mutex Op.locks d.ops
  mutex2 : InBalance 1 d.pool.mutex2 Op.locks2 d.ops

/-- The ring of an initialised direction after `takes` removals and `puts` returns. -/
structure RingInv (no_mm_queues takes puts : Nat) (d : Direction) : Prop where
  size : d.pool.queue_pool.length = no_mm_queues
  out : takes = puts + (held d.ops).length + d.pool.lost.length
  read_idx : ∃ advanced, advanced + d.ops.countP Op.taking = takes ∧
    d.pool.read_idx = advanced % no_mm_queues
  write_idx : ∃ moved, moved + d.ops.countP Op.storing = puts ∧
    d.pool.write_idx = moved % no_mm_queues
  slots : ∀ j slot, d.pool.queue_pool[j]? = some slot →
    (slot.available = true ↔ Full no_mm_queues takes puts j)
  ids : (available d.pool.queue_pool ++ held d.ops ++ d.pool.lost).Perm (List.range no_mm_queues)

/-- The ways in which a statement changes the ring: it takes an id out, advances
`read_idx`, puts an id back, moves `write_idx` on, or does nothing of this. -/
theorem statement_cases {no_mm_queues : Nat} {p p' : Pool} {op op' : Op}
    (hstatement : next_statement no_mm_queues p op = some (p', op')) :
    (∃ target_queue, target_queue = (p.queue_pool.getD p.read_idx ⟨0, false⟩).queue ∧
      op = .down_mutex ∧ op' = .obtained target_queue ∧
      p' = { p with queue_pool := p.queue_pool.set p.read_idx ⟨target_queue, false⟩ }) ∨
    (∃ target_queue, op = .obtained target_queue ∧ op' = .advanced target_queue ∧
      p' = { p with read_idx := (p.read_idx + 1) % no_mm_queues }) ∨
    (∃ target_queue, op = .down_mutex2 target_queue ∧ op' = .stored ∧
      p' = { p with queue_pool := p.queue_pool.set p.write_idx ⟨target_queue, true⟩ }) ∨
    (op = .stored ∧ op' = .moved ∧
      p' = { p with write_idx := (p.write_idx + 1) % no_mm_queues }) ∨
    (op'.holds = op.holds ∧ op'.taking = op.taking ∧ op'.storing = op.storing ∧
      p'.queue_pool = p.queue_pool ∧ p'.read_idx = p.read_idx ∧ p'.write_idx = p.write_idx ∧
      p'.lost = p.lost) := by
  cases op with
  | down_mutex =>
    simp only [next_statement, Option.some.injEq, Prod.mk.injEq] at hstatement
    exact .inl ⟨_, rfl, rfl, hstatement.2.symm, hstatement.1.symm⟩
  | obtained target_queue =>
    simp only [next_statement, Option.some.injEq, Prod.mk.injEq] at hstatement
    exact .inr (.inl ⟨_, rfl, hstatement.2.symm, hstatement.1.symm⟩)
  | down_mutex2 target_queue =>
    simp only [next_statement, Option.some.injEq, Prod.mk.injEq] at hstatement
    exact .inr (.inr (.inl ⟨_, rfl, hstatement.2.symm, hstatement.1.symm⟩))
  | stored =>
    simp only [next_statement, Option.some.injEq, Prod.mk.injEq] at hstatement
    exact .inr (.inr (.inr (.inl ⟨rfl, hstatement.2.symm, hstatement.1.symm⟩)))
  | returned => simp [next_statement] at hstatement
  | called | down_sem | transferred =>
    simp only [next_statement, Option.ite_none_right_eq_some, Option.some.injEq,
      Prod.mk.injEq] at hstatement
    obtain ⟨-, rfl, rfl⟩ := hstatement
    exact .inr (.inr (.inr (.inr ⟨rfl, rfl, rfl, rfl, rfl, rfl, rfl⟩)))
  | advanced | transferring | moved | up_mutex2 =>
    simp only [next_statement, Option.some.injEq, Prod.mk.injEq] at hstatement
    obtain ⟨rfl, rfl⟩ := hstatement
    exact .inr (.inr (.inr (.inr ⟨rfl, rfl, rfl, rfl, rfl, rfl, rfl⟩)))

/-- Each statement of an operation keeps the three semaphores in balance. -/
theorem statement_semaphores {no_mm_queues : Nat} {p p' : Pool} {op op' : Op}
    (hstatement : next_statement no_mm_queues p op = some (p', op')) :
    p'.sem + op'.inside.toNat = p.sem + op.inside.toNat ∧
      p'.mutex + op'.locks.toNat = p.mutex + op.locks.toNat ∧
      p'.mutex2 + op'.locks2.toNat = p.mutex2 + op.locks2.toNat ∧ p'.lost = p.lost := by
  cases op with
  | returned => simp [next_statement] at hstatement
  | called | down_sem | transferred =>
    simp only [next_statement, Option.ite_none_right_eq_some, Option.some.injEq,
      Prod.mk.injEq] at hstatement
    obtain ⟨hfree, rfl, rfl⟩ := hstatement
    refine ⟨?_, ?_, ?_, rfl⟩
    all_goals simp only [Op.inside, Op.locks, Op.locks2, Bool.toNat_true, Bool.toNat_false]
    all_goals omega
  | down_mutex | obtained | advanced | transferring | down_mutex2 | stored | moved | up_mutex2 =>
    simp only [next_statement, Option.some.injEq, Prod.mk.injEq] at hstatement
    obtain ⟨rfl, rfl⟩ := hstatement
    exact ⟨rfl, rfl, rfl, rfl⟩

theorem SemInv.statement {no_mm_queues i : Nat} {d : Direction} {p : Pool} {op op' : Op}
    (hinv : SemInv no_mm_queues d) (hop : d.ops[i]? = some op)
    (hstatement : next_statement no_mm_queues d.pool op = some (p, op')) :
    SemInv no_mm_queues ⟨p, d.ops.set i op'⟩ := by
  obtain ⟨others, hbefore, hafter⟩ := one_and_others hop
  obtain ⟨hsem, hmutex, hmutex2, hlost⟩ := statement_semaphores hstatement
  refine ⟨hinv.sem.step hbefore (hafter op') ?_, hinv.mutex.step hbefore (hafter op') hmutex,
    hinv.mutex2.step hbefore (hafter op') hmutex2⟩
  simp only [hlost]
  omega

theorem held_cons (op : Op) (others : List Op) :
    held (op :: others) = op.holds.toList ++ held others := by
  simp only [held, List.filterMap_cons]
  cases op.holds <;> rfl

theorem held_perm {ops others : List Op} {op : Op} (hsplit : ops.Perm (op :: others)) :
    (held ops).Perm (op.holds.toList ++ held others) := by
  rw [← held_cons]
  exact hsplit.filterMap Op.holds

/-- Who holds a queue is inside. -/
theorem held_le_inside (ops : List Op) : (held ops).length ≤ ops.countP Op.inside := by
  induction ops with
  | nil => exact Nat.le_refl 0
  | cons op ops ih =>
    rw [held_cons, List.length_append, List.countP_cons]
    cases op <;> simp [Op.holds, Op.inside] <;> omega

theorem available_perm {slots others : List Slot} {slot : Slot} (hsplit : slots.Perm (slot :: others)) :
    (available slots).Perm (slot.ids ++ available others) := by
  have hperm := (hsplit.filter (·.available)).map (·.queue)
  rw [List.filter_cons] at hperm
  cases hcase : slot.available <;> simpa [hcase, available, Slot.ids] using hperm

theorem taking_locks (op : Op) (htaking : op.taking = true) : op.locks = true := by
  cases op <;> first | rfl | simp [Op.taking] at htaking

theorem storing_locks2 (op : Op) (hstoring : op.storing = true) : op.locks2 = true := by
  cases op <;> first | rfl | simp [Op.storing] at hstoring

/-- An operation about to take a queue out finds one: what it points to is a slot that is
full, since at most `no_mm_queues` operations are inside and it holds no queue yet. -/
theorem RingInv.next_available {no_mm_queues takes puts i : Nat} {d : Direction}
    (hinv : RingInv no_mm_queues takes puts d) (hsem : SemInv no_mm_queues d)
    (hop : d.ops[i]? = some .down_mutex) :
    d.pool.read_idx = takes % no_mm_queues ∧
      ∃ slot, d.pool.queue_pool[d.pool.read_idx]? = some slot ∧ slot.available = true := by
  obtain ⟨others, hsplit, -⟩ := one_and_others hop
  have hheld := (held_perm hsplit).length_eq
  have hinside := held_le_inside others
  have hbalance := hsem.sem
  rw [InBalance, countP_split hsplit] at hbalance
  simp only [Op.inside, Bool.toNat_true] at hbalance
  simp only [Op.holds, Option.toList_none, List.nil_append] at hheld
  have hout := hinv.out
  have hroom : takes < puts + no_mm_queues := by omega
  have hindex : d.pool.read_idx = takes % no_mm_queues := by
    obtain ⟨advanced, htakes, hread⟩ := hinv.read_idx
    rw [countP_split hsplit, hsem.mutex.alone hsplit rfl taking_locks] at htakes
    rw [hread, ← htakes]
    rfl
  have hinrange : d.pool.read_idx < d.pool.queue_pool.length := by
    rw [hindex, hinv.size]
    exact Nat.mod_lt _ (by omega)
  refine ⟨hindex, d.pool.queue_pool[d.pool.read_idx], List.getElem?_eq_getElem hinrange, ?_⟩
  rw [hinv.slots _ _ (List.getElem?_eq_getElem hinrange), hindex]
  exact full_next_take hroom

/-- An operation that changes a slot of the ring keeps the ring, when the id moves between
the slot and the operation and the slot is full afterwards as the counts say. -/
theorem RingInv.replace {no_mm_queues takes puts takes' puts' i k : Nat} {d : Direction} {op op' : Op}
    {slot slot' : Slot} (hinv : RingInv no_mm_queues takes puts d) (hop : d.ops[i]? = some op)
    (hslot : d.pool.queue_pool[k]? = some slot)
    (htaken : takes' + op.taking.toNat = takes + op'.taking.toNat)
    (hput : puts' + op.storing.toNat = puts + op'.storing.toNat)
    (hout : takes' + puts + op.holds.toList.length = takes + puts' + op'.holds.toList.length)
    (hmoved : (slot'.ids ++ op'.holds.toList).Perm (slot.ids ++ op.holds.toList))
    (hfull : slot'.available = true ↔ Full no_mm_queues takes' puts' k)
    (hothers : ∀ j, j ≠ k → (Full no_mm_queues takes' puts' j ↔ Full no_mm_queues takes puts j)) :
    RingInv no_mm_queues takes' puts'
      ⟨{ d.pool with queue_pool := d.pool.queue_pool.set k slot' }, d.ops.set i op'⟩ := by
  obtain ⟨others, hbefore, hafter⟩ := one_and_others hop
  obtain ⟨rest, hslots, hset⟩ := one_and_others hslot
  obtain ⟨hsize, hlent, ⟨advanced, htakes, hread⟩, ⟨moved, hputs, hwritten⟩, hslots', hids⟩ := hinv
  have hheld := held_perm hbefore
  have hheld' := held_perm (hafter op')
  rw [countP_split hbefore] at htakes hputs
  refine ⟨?_, ?_, ⟨advanced, ?_, hread⟩, ⟨moved, ?_, hwritten⟩, ?_, ?_⟩
  · simpa using hsize
  · rw [hheld.length_eq, List.length_append] at hlent
    rw [hheld'.length_eq, List.length_append]
    simp only
    omega
  · rw [countP_split (hafter op')]
    omega
  · rw [countP_split (hafter op')]
    omega
  · intro j slot'' hj
    by_cases hsame : k = j
    · subst hsame
      rw [List.getElem?_set_self (List.getElem?_eq_some_iff.mp hslot).1] at hj
      obtain rfl := Option.some.inj hj
      exact hfull
    · rw [List.getElem?_set_ne hsame] at hj
      rw [hothers j (Ne.symm hsame)]
      exact hslots' j slot'' hj
  · have hgather : ∀ a b c e : List Nat, (a ++ b) ++ (c ++ e) ~ (a ++ c) ++ (b ++ e) := by
      intro a b c e
      rw [List.append_assoc, List.append_assoc]
      exact (List.perm_append_comm_assoc b c e).append_left a
    refine List.Perm.trans (List.Perm.append_right _ ?_) hids
    calc
      available (d.pool.queue_pool.set k slot') ++ held (d.ops.set i op')
        ~ (slot'.ids ++ available rest) ++ (op'.holds.toList ++ held others) :=
        (available_perm (hset slot')).append hheld'
      _ ~ (slot'.ids ++ op'.holds.toList) ++ (available rest ++ held others) := hgather ..
      _ ~ (slot.ids ++ op.holds.toList) ++ (available rest ++ held others) := hmoved.append_right _
      _ ~ (slot.ids ++ available rest) ++ (op.holds.toList ++ held others) := hgather ..
      _ ~ available d.pool.queue_pool ++ held d.ops :=
        (available_perm hslots).symm.append hheld.symm

theorem RingInv.take {no_mm_queues takes puts i target_queue : Nat} {d : Direction}
    (hinv : RingInv no_mm_queues takes puts d) (hsem : SemInv no_mm_queues d)
    (hop : d.ops[i]? = some .down_mutex)
    (hqueue : target_queue = (d.pool.queue_pool.getD d.pool.read_idx ⟨0, false⟩).queue) :
    RingInv no_mm_queues (takes + 1) puts
      ⟨{ d.pool with queue_pool := d.pool.queue_pool.set d.pool.read_idx ⟨target_queue, false⟩ },
        d.ops.set i (.obtained target_queue)⟩ := by
  obtain ⟨hindex, slot, hslot, havailable⟩ := hinv.next_available hsem hop
  have hsame : target_queue = slot.queue := by
    rw [hqueue, List.getD_eq_getElem?_getD, hslot]
    rfl
  have hlent := hinv.out
  refine hinv.replace hop hslot rfl rfl ?_ ?_ ?_ fun j hother => ?_
  · simp only [Op.holds, Option.toList_none, Option.toList_some, List.length_nil, List.length_singleton]
    omega
  · simp [Slot.ids, Op.holds, havailable, hsame]
  · rw [full_after_take (by omega), hindex]
    simp
  · rw [full_after_take (by omega), ← hindex]
    exact and_iff_left hother

/-- A statement that neither takes an id out nor puts one back keeps the ring, when it
accounts for the indices. -/
theorem RingInv.keep {no_mm_queues takes puts i : Nat} {d : Direction} {p : Pool} {op op' : Op}
    (hinv : RingInv no_mm_queues takes puts d) (hop : d.ops[i]? = some op)
    (hholds : op'.holds = op.holds) (hpool : p.queue_pool = d.pool.queue_pool)
    (hlost : p.lost = d.pool.lost)
    (hread : ∀ advanced, d.pool.read_idx = advanced % no_mm_queues →
      ∃ advanced', advanced' + op'.taking.toNat = advanced + op.taking.toNat ∧
        p.read_idx = advanced' % no_mm_queues)
    (hwrite : ∀ moved, d.pool.write_idx = moved % no_mm_queues →
      ∃ moved', moved' + op'.storing.toNat = moved + op.storing.toNat ∧
        p.write_idx = moved' % no_mm_queues) :
    RingInv no_mm_queues takes puts ⟨p, d.ops.set i op'⟩ := by
  obtain ⟨others, hbefore, hafter⟩ := one_and_others hop
  obtain ⟨hsize, hout, ⟨advanced, htakes, hindex⟩, ⟨moved, hputs, hwritten⟩, hslots, hids⟩ := hinv
  obtain ⟨advanced', hsame, hindex'⟩ := hread advanced hindex
  obtain ⟨moved', hsame', hwritten'⟩ := hwrite moved hwritten
  rw [countP_split hbefore] at htakes hputs
  have hheld : held (d.ops.set i op') ~ held d.ops := by
    refine (held_perm (hafter op')).trans ?_
    rw [hholds]
    exact (held_perm hbefore).symm
  refine ⟨?_, ?_, ⟨advanced', ?_, hindex'⟩, ⟨moved', ?_, hwritten'⟩, ?_, ?_⟩
  · simpa only [hpool] using hsize
  · simpa only [hlost, hheld.length_eq] using hout
  · rw [countP_split (hafter op')]
    omega
  · rw [countP_split (hafter op')]
    omega
  · simpa only [hpool] using hslots
  · simp only [hpool, hlost]
    exact ((hheld.append_left _).append_right _).trans hids

/-- An operation about to put a queue back points to an empty slot. -/
theorem RingInv.next_empty {no_mm_queues takes puts i target_queue : Nat} {d : Direction}
    (hinv : RingInv no_mm_queues takes puts d) (hsem : SemInv no_mm_queues d)
    (hop : d.ops[i]? = some (.down_mutex2 target_queue)) :
    takes ≤ puts + no_mm_queues ∧ d.pool.write_idx = puts % no_mm_queues ∧
      ∃ slot, d.pool.queue_pool[d.pool.write_idx]? = some slot ∧ slot.available = false := by
  obtain ⟨others, hsplit, -⟩ := one_and_others hop
  have hheld := (held_perm hsplit).length_eq
  have hinside := held_le_inside d.ops
  have hbalance := hsem.sem
  rw [InBalance] at hbalance
  simp only [Op.holds, Option.toList_some, List.singleton_append, List.length_cons] at hheld
  have hout := hinv.out
  have hindex : d.pool.write_idx = puts % no_mm_queues := by
    obtain ⟨moved, hputs, hwritten⟩ := hinv.write_idx
    rw [countP_split hsplit, hsem.mutex2.alone hsplit rfl storing_locks2] at hputs
    rw [hwritten, ← hputs]
    rfl
  have hinrange : d.pool.write_idx < d.pool.queue_pool.length := by
    rw [hindex, hinv.size]
    exact Nat.mod_lt _ (by omega)
  refine ⟨by omega, hindex, d.pool.queue_pool[d.pool.write_idx],
    List.getElem?_eq_getElem hinrange, ?_⟩
  rw [← Bool.not_eq_true, hinv.slots _ _ (List.getElem?_eq_getElem hinrange), hindex]
  exact empty_next_put (by omega)

theorem RingInv.put {no_mm_queues takes puts i target_queue : Nat} {d : Direction}
    (hinv : RingInv no_mm_queues takes puts d) (hsem : SemInv no_mm_queues d)
    (hop : d.ops[i]? = some (.down_mutex2 target_queue)) :
    RingInv no_mm_queues takes (puts + 1)
      ⟨{ d.pool with queue_pool := d.pool.queue_pool.set d.pool.write_idx ⟨target_queue, true⟩ },
        d.ops.set i .stored⟩ := by
  obtain ⟨hroom, hindex, slot, hslot, hempty⟩ := hinv.next_empty hsem hop
  refine hinv.replace hop hslot rfl rfl ?_ ?_ ?_ fun j hother => ?_
  · simp only [Op.holds, Option.toList_none, Option.toList_some, List.length_nil, List.length_singleton]
    omega
  · simp [Slot.ids, Op.holds, hempty]
  · rw [full_after_put hroom, hindex]
    simp
  · rw [full_after_put hroom, ← hindex]
    exact or_iff_left hother

/-- Each statement of an operation keeps the invariants of the direction. -/
theorem statement_inv {no_mm_queues takes puts i : Nat} {d : Direction} {p : Pool} {op op' : Op}
    (hsem : SemInv no_mm_queues d) (hring : RingInv no_mm_queues takes puts d)
    (hop : d.ops[i]? = some op) (hstatement : next_statement no_mm_queues d.pool op = some (p, op')) :
    SemInv no_mm_queues ⟨p, d.ops.set i op'⟩ ∧
      ∃ takes' puts', RingInv no_mm_queues takes' puts' ⟨p, d.ops.set i op'⟩ := by
  refine ⟨hsem.statement hop hstatement, ?_⟩
  obtain ⟨q, hq, rfl, rfl, rfl⟩ | ⟨q, rfl, rfl, rfl⟩ | ⟨q, rfl, rfl, rfl⟩ | ⟨rfl, rfl, rfl⟩ |
    ⟨hholds, htaking, hstoring, hpool, hread, hwrite, hlost⟩ := statement_cases hstatement
  · exact ⟨_, _, hring.take hsem hop hq⟩
  · refine ⟨takes, puts, hring.keep hop rfl rfl rfl ?_ fun moved hmoved => ⟨moved, rfl, hmoved⟩⟩
    intro advanced hindex
    exact ⟨advanced + 1, rfl, by simp only [hindex, Nat.mod_add_mod]⟩
  · exact ⟨_, _, hring.put hsem hop⟩
  · refine ⟨takes, puts, hring.keep hop rfl rfl rfl (fun advanced hindex => ⟨advanced, rfl, hindex⟩) ?_⟩
    intro moved hindex
    exact ⟨moved + 1, rfl, by simp only [hindex, Nat.mod_add_mod]⟩
  · exact ⟨takes, puts, hring.keep hop hholds hpool hlost
      (fun advanced hindex => ⟨advanced, by rw [htaking], hread.trans hindex⟩)
      (fun moved hindex => ⟨moved, by rw [hstoring], hwrite.trans hindex⟩)⟩

/-- An early return keeps them too: the queue and the place inside are lost. -/
theorem early_return_inv {no_mm_queues takes puts i : Nat} {d : Direction} {p : Pool} {op op' : Op}
    (hsem : SemInv no_mm_queues d) (hring : RingInv no_mm_queues takes puts d)
    (hop : d.ops[i]? = some op) (hreturn : early_return d.pool op = some (p, op')) :
    SemInv no_mm_queues ⟨p, d.ops.set i op'⟩ ∧
      RingInv no_mm_queues takes puts ⟨p, d.ops.set i op'⟩ := by
  cases op with
  | transferring target_queue =>
    simp only [early_return, Option.some.injEq, Prod.mk.injEq] at hreturn
    obtain ⟨rfl, rfl⟩ := hreturn
    obtain ⟨others, hbefore, hafter⟩ := one_and_others hop
    have hheld := held_perm hbefore
    have hheld' := held_perm (hafter .returned)
    simp only [Op.holds, Option.toList_none, Option.toList_some, List.nil_append,
      List.singleton_append] at hheld hheld'
    refine ⟨⟨hsem.sem.step hbefore (hafter _) ?_, hsem.mutex.step hbefore (hafter _) rfl,
      hsem.mutex2.step hbefore (hafter _) rfl⟩, ?_⟩
    · simp only [Op.inside, Bool.toNat_true, Bool.toNat_false, List.length_append,
        List.length_singleton]
      omega
    · obtain ⟨hsize, hout, ⟨advanced, htakes, hread⟩, ⟨moved, hputs, hwritten⟩, hslots, hids⟩ := hring
      rw [countP_split hbefore] at htakes hputs
      refine ⟨hsize, ?_, ⟨advanced, ?_, hread⟩, ⟨moved, ?_, hwritten⟩, hslots, ?_⟩
      · rw [hheld.length_eq, List.length_cons] at hout
        simp only [hheld'.length_eq, List.length_append, List.length_singleton]
        omega
      · rw [countP_split (hafter _)]
        exact htakes
      · rw [countP_split (hafter _)]
        exact hputs
      · refine List.Perm.trans ?_ hids
        calc
          available d.pool.queue_pool ++ held (d.ops.set i .returned) ++ (d.pool.lost ++ [target_queue])
            ~ available d.pool.queue_pool ++ held others ++ (target_queue :: d.pool.lost) :=
            (hheld'.append_left _).append (List.perm_append_singleton ..)
          _ ~ available d.pool.queue_pool ++ (target_queue :: held others) ++ d.pool.lost := by
            rw [List.append_assoc, List.append_assoc]
            exact List.perm_middle.append_left _
          _ ~ available d.pool.queue_pool ++ held d.ops ++ d.pool.lost :=
            (hheld.symm.append_left _).append_right _
  | _ => simp [early_return] at hreturn

theorem held_snoc_called (ops : List Op) : held (ops ++ [Op.called]) = held ops := by
  simp [held, Op.holds]

theorem call_inv {no_mm_queues takes puts : Nat} {d : Direction} (hsem : SemInv no_mm_queues d)
    (hring : RingInv no_mm_queues takes puts d) :
    SemInv no_mm_queues { d with ops := d.ops ++ [.called] } ∧
      RingInv no_mm_queues takes puts { d with ops := d.ops ++ [.called] } := by
  have hcount : ∀ point : Op → Bool, point .called = false →
      (d.ops ++ [Op.called]).countP point = d.ops.countP point := by
    intro point hout
    simp [List.countP_append, hout]
  refine ⟨⟨?_, ?_, ?_⟩, ?_⟩
  · exact (congrArg _ (hcount Op.inside rfl)).trans hsem.sem
  · exact (congrArg _ (hcount Op.locks rfl)).trans hsem.mutex
  · exact (congrArg _ (hcount Op.locks2 rfl)).trans hsem.mutex2
  · obtain ⟨hsize, hout, hread, hwrite, hslots, hids⟩ := hring
    refine ⟨hsize, ?_, ?_, ?_, hslots, ?_⟩
    · simpa only [held_snoc_called] using hout
    · simpa only [hcount Op.taking rfl] using hread
    · simpa only [hcount Op.storing rfl] using hwrite
    · simpa only [held_snoc_called] using hids

/-- The invariant of a direction whose pool has been initialised. -/
def DirectionInv (no_mm_queues : Nat) (d : Direction) : Prop :=
  SemInv no_mm_queues d ∧ ∃ takes puts, RingInv no_mm_queues takes puts d

theorem Direction.act_eq (d : Direction) (i : Nat) (statement : Pool → Op → Option (Pool × Op)) :
    d.act i statement = d ∨ ∃ op p op', d.ops[i]? = some op ∧ statement d.pool op = some (p, op') ∧
      d.act i statement = ⟨p, d.ops.set i op'⟩ := by
  cases hop : d.ops[i]? with
  | none => exact .inl (by simp [Direction.act, hop])
  | some op =>
    cases hstatement : statement d.pool op with
    | none => exact .inl (by simp [Direction.act, hop, hstatement])
    | some result =>
      exact .inr ⟨op, result.1, result.2, rfl, hstatement, by simp [Direction.act, hop, hstatement]⟩

theorem DirectionInv.event {no_mm_queues : Nat} {d : Direction} (hinv : DirectionInv no_mm_queues d)
    (e : OpEvent) : DirectionInv no_mm_queues (d.event no_mm_queues e) := by
  obtain ⟨hsem, takes, puts, hring⟩ := hinv
  cases e with
  | call =>
    obtain ⟨hsem', hring'⟩ := call_inv hsem hring
    exact ⟨hsem', takes, puts, hring'⟩
  | step i =>
    obtain hstay | ⟨op, p, op', hop, hstatement, hmove⟩ :=
      d.act_eq i (next_statement no_mm_queues)
    · rw [Direction.event, hstay]
      exact ⟨hsem, takes, puts, hring⟩
    · rw [Direction.event, hmove]
      exact statement_inv hsem hring hop hstatement
  | fail i =>
    obtain hstay | ⟨op, p, op', hop, hreturn, hmove⟩ := d.act_eq i early_return
    · rw [Direction.event, hstay]
      exact ⟨hsem, takes, puts, hring⟩
    · rw [Direction.event, hmove]
      obtain ⟨hsem', hring'⟩ := early_return_inv hsem hring hop hreturn
      exact ⟨hsem', takes, puts, hring'⟩

end reconic.onic_cdev
