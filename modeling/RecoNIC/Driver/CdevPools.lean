import RecoNIC.Driver.QueuePool

open clocked

namespace reconic.onic_cdev

/-- A direction of transfer. -/
inductive Dir where
  | read
  | write
  deriving DecidableEq

/-- The statements of `onic_init_cdev` for one direction. -/
inductive InitStatement where
  | sema_init_sem
  | sema_init_mutex
  | sema_init_mutex2
  | read_idx
  | write_idx
  | queue_pool (i : Nat)
  deriving DecidableEq

def init_statements (no_mm_queues : Nat) : List InitStatement :=
  [.sema_init_sem, .sema_init_mutex, .sema_init_mutex2, .read_idx, .write_idx] ++
    (List.range no_mm_queues).map .queue_pool

/-- The new semaphore forgets the operations that have returned without their up. -/
def init_statement (no_mm_queues : Nat) (p : Pool) : InitStatement → Pool
  | .sema_init_sem => { p with sem := no_mm_queues, lost := [] }
  | .sema_init_mutex => { p with mutex := 1 }
  | .sema_init_mutex2 => { p with mutex2 := 1 }
  | .read_idx => { p with read_idx := 0 }
  | .write_idx => { p with write_idx := 0 }
  | .queue_pool i => { p with queue_pool := p.queue_pool.set i ⟨i, true⟩ }

/-- The character device: its two directions, and what a running `onic_init_cdev` is
working on and has still to do there. -/
structure Cdev where
  read : Direction
  write : Direction
  init : Option (Dir × List InitStatement)
  deriving DecidableEq

def Cdev.direction (s : Cdev) : Dir → Direction
  | .read => s.read
  | .write => s.write

def Cdev.set (s : Cdev) (dir : Dir) (d : Direction) : Cdev :=
  match dir with
  | .read => { s with read := d }
  | .write => { s with write := d }

/-- An event of an operation of one direction, a call of `onic_open`, and a statement of
the `onic_init_cdev` that it runs. The network stack makes one such call at a time. -/
inductive CdevEvent where
  | op (dir : Dir) (e : OpEvent)
  | onic_open
  | init
  deriving DecidableEq

def cdev_step (no_mm_queues : Nat) (s : Cdev) : CdevEvent → Cdev
  | .op dir e => s.set dir ((s.direction dir).event no_mm_queues e)
  | .onic_open =>
    match s.init with
    | none => { s with init := some (.read, init_statements no_mm_queues) }
    | some _ => s
  | .init =>
    match s.init with
    | none => s
    | some (.read, []) => { s with init := some (.write, init_statements no_mm_queues) }
    | some (.write, []) => { s with init := none }
    | some (dir, statement :: rest) =>
      let d := s.direction dir
      { s.set dir { d with pool := init_statement no_mm_queues d.pool statement } with
        init := some (dir, rest) }

/-- The variables of a direction as `onic_create_cdev` leaves them. -/
def created (no_mm_queues : Nat) : Pool where
  sem := 0
  mutex := 0
  mutex2 := 0
  read_idx := 0
  write_idx := 0
  queue_pool := List.replicate no_mm_queues ⟨0, false⟩
  lost := []

/-- The variables of a direction as `onic_init_cdev` leaves them. -/
def initialised (no_mm_queues : Nat) : Pool where
  sem := no_mm_queues
  mutex := 1
  mutex2 := 1
  read_idx := 0
  write_idx := 0
  queue_pool := (List.range no_mm_queues).map (⟨·, true⟩)
  lost := []

/-- The device from its creation on. -/
def cdevMachine (no_mm_queues : Nat) : Machine Cdev CdevEvent where
  reset := ⟨⟨created no_mm_queues, []⟩, ⟨created no_mm_queues, []⟩, none⟩
  step := cdev_step no_mm_queues

/-- The device from its first initialisation on. -/
def openedMachine (no_mm_queues : Nat) : Machine Cdev CdevEvent where
  reset := ⟨⟨initialised no_mm_queues, []⟩, ⟨initialised no_mm_queues, []⟩, none⟩
  step := cdev_step no_mm_queues

/-- The loop of the initialisation fills the pool. -/
theorem queue_pool_loop (no_mm_queues : Nat) (p : Pool) (k : Nat) (hk : k ≤ p.queue_pool.length) :
    ((List.range k).map InitStatement.queue_pool).foldl (init_statement no_mm_queues) p =
      { p with queue_pool := (List.range k).map (⟨·, true⟩) ++ p.queue_pool.drop k } := by
  induction k with
  | zero => simp
  | succ k ih =>
    rw [List.range_succ, List.map_append, List.foldl_append, ih (by omega)]
    have hdrop : p.queue_pool.drop k = p.queue_pool[k] :: p.queue_pool.drop (k + 1) :=
      List.drop_eq_getElem_cons (by omega)
    simp only [hdrop, init_statement, List.map_cons, List.map_nil, List.foldl_cons, List.foldl_nil,
      List.set_append, List.length_map, List.length_range, Nat.lt_irrefl, if_false, Nat.sub_self,
      List.set_cons_zero, List.map_append, List.append_assoc, List.singleton_append]

/-- All statements of `onic_init_cdev` for a direction together. -/
theorem init_statements_spec {no_mm_queues : Nat} {p : Pool}
    (hsize : p.queue_pool.length = no_mm_queues) :
    (init_statements no_mm_queues).foldl (init_statement no_mm_queues) p = initialised no_mm_queues := by
  rw [init_statements, List.foldl_append, queue_pool_loop _ _ _ (by simp [init_statement, hsize])]
  simp [init_statement, initialised, ← hsize]

/-- The statements of `onic_init_cdev` for a direction, one after the other. -/
theorem init_statements_run (no_mm_queues : Nat) (dir : Dir) (rest : List InitStatement) (s : Cdev)
    (hworking : s.init = some (dir, rest)) :
    (List.replicate rest.length .init).foldl (cdev_step no_mm_queues) s =
      { s.set dir { s.direction dir with
          pool := rest.foldl (init_statement no_mm_queues) (s.direction dir).pool } with
        init := some (dir, []) } := by
  induction rest generalizing s with
  | nil =>
    obtain ⟨read, write, init⟩ := s
    obtain rfl : init = some (dir, []) := hworking
    cases dir <;> rfl
  | cons statement rest ih =>
    obtain ⟨read, write, init⟩ := s
    obtain rfl : init = some (dir, statement :: rest) := hworking
    rw [List.length_cons, List.replicate_succ, List.foldl_cons]
    cases dir <;> exact ih _ rfl

/-- A call of `onic_open` and all of the `onic_init_cdev` that it runs. -/
def open_events (no_mm_queues : Nat) : List CdevEvent :=
  .onic_open :: (List.replicate (init_statements no_mm_queues).length .init ++
    .init :: (List.replicate (init_statements no_mm_queues).length .init ++ [.init]))

/-- The first `onic_open` leads to the device from which transfers start. -/
theorem first_open (no_mm_queues : Nat) :
    (cdevMachine no_mm_queues).run (open_events no_mm_queues) = (openedMachine no_mm_queues).reset := by
  have hsize : (created no_mm_queues).queue_pool.length = no_mm_queues := List.length_replicate
  let fresh : Direction := ⟨created no_mm_queues, []⟩
  let ready : Direction := ⟨initialised no_mm_queues, []⟩
  have hread : (List.replicate (init_statements no_mm_queues).length .init).foldl
      (cdev_step no_mm_queues) ⟨fresh, fresh, some (.read, init_statements no_mm_queues)⟩ =
        ⟨ready, fresh, some (.read, [])⟩ := by
    rw [init_statements_run no_mm_queues .read _ _ rfl]
    simp only [Cdev.set, Cdev.direction, fresh, ready, init_statements_spec hsize]
  have hwrite : (List.replicate (init_statements no_mm_queues).length .init).foldl
      (cdev_step no_mm_queues) ⟨ready, fresh, some (.write, init_statements no_mm_queues)⟩ =
        ⟨ready, ready, some (.write, [])⟩ := by
    rw [init_statements_run no_mm_queues .write _ _ rfl]
    simp only [Cdev.set, Cdev.direction, fresh, ready, init_statements_spec hsize]
  have hopen : cdev_step no_mm_queues ⟨fresh, fresh, none⟩ .onic_open =
      ⟨fresh, fresh, some (.read, init_statements no_mm_queues)⟩ := rfl
  have hturn : cdev_step no_mm_queues ⟨ready, fresh, some (.read, [])⟩ .init =
      ⟨ready, fresh, some (.write, init_statements no_mm_queues)⟩ := rfl
  have hend : cdev_step no_mm_queues ⟨ready, ready, some (.write, [])⟩ .init = ⟨ready, ready, none⟩ := rfl
  change (open_events no_mm_queues).foldl (cdev_step no_mm_queues) ⟨fresh, fresh, none⟩ =
    ⟨ready, ready, none⟩
  simp only [open_events, List.foldl_cons, List.foldl_append, List.foldl_nil, hopen, hread, hturn,
    hwrite, hend]

/-- No operation is between its down and its up on the semaphore. -/
def Quiet (ops : List Op) : Prop := ops.countP Op.inside = 0

/-- When no operation is inside, none is at a point inside. -/
theorem Quiet.countP_eq_zero {ops : List Op} (hquiet : Quiet ops) {point : Op → Bool}
    (hpoint : ∀ op, point op = true → op.inside = true) : ops.countP point = 0 := by
  rw [Quiet, List.countP_eq_zero] at hquiet
  rw [List.countP_eq_zero]
  exact fun op hop hat => hquiet op hop (hpoint op hat)

/-- Then no queue is held. -/
theorem Quiet.held_eq_nil {ops : List Op} (hquiet : Quiet ops) : held ops = [] := by
  have hle := held_le_inside ops
  rw [hquiet] at hle
  exact List.eq_nil_of_length_eq_zero (by omega)

/-- An operation with the first lock is inside. -/
theorem locks_inside (op : Op) (hlocks : op.locks = true) : op.inside = true := by
  cases op <;> first | rfl | simp [Op.locks] at hlocks

/-- So is one with the second lock. -/
theorem locks2_inside (op : Op) (hlocks : op.locks2 = true) : op.inside = true := by
  cases op <;> first | rfl | simp [Op.locks2] at hlocks

/-- So is one that takes a queue. -/
theorem taking_inside (op : Op) (htaking : op.taking = true) : op.inside = true :=
  locks_inside op (taking_locks op htaking)

/-- So is one that stores it back. -/
theorem storing_inside (op : Op) (hstoring : op.storing = true) : op.inside = true :=
  locks2_inside op (storing_locks2 op hstoring)

/-- An initialised direction with nobody inside meets its invariant. -/
theorem initialised_inv (no_mm_queues : Nat) {ops : List Op} (hquiet : Quiet ops) :
    DirectionInv no_mm_queues ⟨initialised no_mm_queues, ops⟩ := by
  have hlocks : ops.countP Op.locks = 0 := hquiet.countP_eq_zero locks_inside
  have hlocks2 : ops.countP Op.locks2 = 0 := hquiet.countP_eq_zero locks2_inside
  have htaking : ops.countP Op.taking = 0 := hquiet.countP_eq_zero taking_inside
  have hstoring : ops.countP Op.storing = 0 := hquiet.countP_eq_zero storing_inside
  refine ⟨⟨?_, ?_, ?_⟩, 0, 0, ?_, ?_, ⟨0, ?_, ?_⟩, ⟨0, ?_, ?_⟩, ?_, ?_⟩
  · exact congrArg (no_mm_queues + ·) hquiet
  · exact congrArg (1 + ·) hlocks
  · exact congrArg (1 + ·) hlocks2
  · simp [initialised]
  · simp [hquiet.held_eq_nil, initialised]
  · exact congrArg (0 + ·) htaking
  · simp [initialised]
  · exact congrArg (0 + ·) hstoring
  · simp [initialised]
  · intro j slot hslot
    simp only [initialised, List.getElem?_map, Option.map_eq_some_iff] at hslot
    obtain ⟨k, hk, rfl⟩ := hslot
    have hj : j < no_mm_queues := by simpa using (List.getElem?_eq_some_iff.mp hk).1
    exact iff_of_true rfl (ring.full_in_the_beginning hj)
  · simp [hquiet.held_eq_nil, initialised, available, List.filter_map, Function.comp_def]

/-- An event of an operation: nothing is initialised again. -/
def CdevEvent.transfers : CdevEvent → Bool
  | .op _ _ => true
  | .onic_open => false
  | .init => false

/-- An event of an operation that reaches `fp_rw`. -/
def CdevEvent.completes : CdevEvent → Bool
  | .op _ (.fail _) => false
  | e => e.transfers

/-- What completes a transfer is part of it. -/
theorem CdevEvent.transfers_of_completes {e : CdevEvent} (hcompletes : e.completes = true) :
    e.transfers = true := by
  cases e with
  | op dir e => rfl
  | onic_open => exact hcompletes
  | init => exact hcompletes

/-- No two operations hold the same queue, an operation about to take a queue out finds
a slot that has been filled, and the ids in the ring and those held are all ids, each
once. -/
structure Exclusive (no_mm_queues : Nat) (d : Direction) : Prop where
  held_once : d.ops.Pairwise fun a b => ∀ queue, a.holds = some queue → b.holds ≠ some queue
  takes_filled : ∀ i : Nat, d.ops[i]? = some Op.down_mutex →
    ∃ slot, d.pool.queue_pool[d.pool.read_idx]? = some slot ∧ slot.available = true
  count : d.pool.sem + d.ops.countP Op.inside = no_mm_queues
  ids : (available d.pool.queue_pool ++ held d.ops).Perm (List.range no_mm_queues)

/-- No two operations hold the same queue. -/
theorem DirectionInv.held_once {no_mm_queues : Nat} {d : Direction}
    (hinv : DirectionInv no_mm_queues d) :
    d.ops.Pairwise fun a b => ∀ queue, a.holds = some queue → b.holds ≠ some queue := by
  obtain ⟨-, takes, puts, hring⟩ := hinv
  have hnodup := hring.ids.nodup_iff.mpr List.nodup_range
  have hheld : (held d.ops).Nodup := (List.nodup_append.mp (List.nodup_append.mp hnodup).1).2.1
  rw [held, List.Nodup, List.pairwise_filterMap] at hheld
  exact hheld.imp fun hne queue ha hb => hne queue ha queue hb rfl

/-- As long as no queue is lost the pool is exclusive. -/
theorem DirectionInv.exclusive {no_mm_queues : Nat} {d : Direction}
    (hinv : DirectionInv no_mm_queues d) (hlost : d.pool.lost = []) : Exclusive no_mm_queues d := by
  obtain ⟨hsem, takes, puts, hring⟩ := id hinv
  refine ⟨hinv.held_once, fun i hop => (hring.next_available hsem hop).2, ?_, ?_⟩
  · simpa [interleaving.InBalance, hlost] using hsem.sem
  · simpa [hlost] using hring.ids

/-- A statement of the pool loses no queue. -/
theorem act_lost {no_mm_queues i : Nat} (d : Direction) :
    (d.act i (next_statement no_mm_queues)).pool.lost = d.pool.lost := by
  obtain hstay | ⟨op, p, op', -, hstatement, hmove⟩ :=
    d.act_eq i (next_statement no_mm_queues)
  · rw [hstay]
  · rw [hmove]
    exact (statement_semaphores hstatement).2.2.2

/-- An operation works on the pool of its own direction. -/
theorem op_direction (no_mm_queues : Nat) (s : Cdev) (dir other : Dir) (e : OpEvent) :
    (cdev_step no_mm_queues s (.op dir e)).direction other =
      if other = dir then (s.direction dir).event no_mm_queues e else s.direction other := by
  cases dir <;> cases other <;> rfl

/-- The invariant holds of both directions as long as nothing is initialised again. -/
theorem direction_inv (no_mm_queues : Nat) (events : List CdevEvent)
    (htransfers : ∀ e ∈ events, e.transfers = true) (dir : Dir) :
    DirectionInv no_mm_queues (((openedMachine no_mm_queues).run events).direction dir) := by
  have hinv : ∀ dir,
      DirectionInv no_mm_queues (((openedMachine no_mm_queues).run events).direction dir) := by
    refine ((openedMachine no_mm_queues).promise_induction (fun c => c.input.transfers = true)
      (fun s => ∀ dir, DirectionInv no_mm_queues (s.direction dir)) ?_ ?_ events ?_).2
    · intro dir
      cases dir <;> exact initialised_inv no_mm_queues rfl
    · intro s e htransfer hinv dir
      cases e with
      | op acting e =>
        change DirectionInv no_mm_queues ((cdev_step no_mm_queues s (.op acting e)).direction dir)
        rw [op_direction]
        split
        · exact (hinv acting).event e
        · exact hinv dir
      | onic_open => simp [CdevEvent.transfers] at htransfer
      | init => simp [CdevEvent.transfers] at htransfer
    · exact fun c hc => htransfers _ ((openedMachine no_mm_queues).input_mem hc)
  exact hinv dir

/-- No queue is lost as long as every operation reaches `fp_rw`. -/
theorem nothing_lost (no_mm_queues : Nat) (events : List CdevEvent)
    (hcompletes : ∀ e ∈ events, e.completes = true) (dir : Dir) :
    (((openedMachine no_mm_queues).run events).direction dir).pool.lost = [] := by
  have hlost : ∀ dir, (((openedMachine no_mm_queues).run events).direction dir).pool.lost = [] := by
    refine ((openedMachine no_mm_queues).promise_induction (fun c => c.input.completes = true)
      (fun s => ∀ dir, (s.direction dir).pool.lost = []) ?_ ?_ events ?_).2
    · intro dir
      cases dir <;> rfl
    · intro s e hcomplete hlost dir
      cases e with
      | op acting e =>
        change ((cdev_step no_mm_queues s (.op acting e)).direction dir).pool.lost = []
        rw [op_direction]
        split
        · cases e with
          | call => exact hlost acting
          | step i => exact (act_lost _).trans (hlost acting)
          | fail i => simp [CdevEvent.completes] at hcomplete
        · exact hlost dir
      | onic_open => simp [CdevEvent.completes, CdevEvent.transfers] at hcomplete
      | init => simp [CdevEvent.completes, CdevEvent.transfers] at hcomplete
    · exact fun c hc => hcompletes _ ((openedMachine no_mm_queues).input_mem hc)
  exact hlost dir

/-- Concurrent transfers never share a queue: in every reachable state of either
direction, however the statements of any number of operations interleave. -/
theorem queues_exclusive (no_mm_queues : Nat) (events : List CdevEvent)
    (hcompletes : ∀ e ∈ events, e.completes = true) (dir : Dir) :
    Exclusive no_mm_queues (((openedMachine no_mm_queues).run events).direction dir) :=
  (direction_inv no_mm_queues events
    (fun e he => CdevEvent.transfers_of_completes (hcompletes e he)) dir).exclusive
    (nothing_lost no_mm_queues events hcompletes dir)

/-- Two transfers on two queues, the second of which overtakes the first. -/
theorem queues_exclusive_overtaking : Exclusive 2
    (((openedMachine 2).run
      [.op .read .call, .op .read (.step 0), .op .read .call, .op .read (.step 1),
        .op .read (.step 1), .op .read (.step 1), .op .read (.step 0)]).direction .read) :=
  queues_exclusive 2 _ (by decide) .read

end reconic.onic_cdev
