import RecoNIC.Driver.CdevPools

open clocked interleaving

namespace reconic.onic_cdev

/-- No two operations of a direction hold the same queue, its semaphore stays within the
number of queues, and a returned id goes to a slot that holds none. -/
structure PoolSafe (no_mm_queues : Nat) (d : Direction) : Prop where
  held_once : d.ops.Pairwise fun a b => ∀ queue, a.holds = some queue → b.holds ≠ some queue
  sem_le : d.pool.sem ≤ no_mm_queues
  no_overwrite : ∀ (i queue : Nat), d.ops[i]? = some (Op.down_mutex2 queue) →
    ∃ slot, d.pool.queue_pool[d.pool.write_idx]? = some slot ∧ slot.available = false

/-- While `onic_init_cdev` works on a direction, none of its operations is between its
down and its up on the semaphore. -/
def Undisturbed (s : Cdev) : Prop :=
  ∀ dir rest, s.init = some (dir, rest) → Quiet (s.direction dir).ops

instance (s : Cdev) : Decidable (Undisturbed s) :=
  decidable_of_iff (∀ work ∈ s.init, (s.direction work.1).ops.countP Op.inside = 0)
    ⟨fun h dir rest hworking => h (dir, rest) hworking, fun h work hwork => h work.1 work.2 hwork⟩

/-- A direction that `onic_init_cdev` is working on: the statements to come complete the
initialisation. -/
structure Initialising (no_mm_queues : Nat) (d : Direction) (rest : List InitStatement) : Prop where
  completes : rest.foldl (init_statement no_mm_queues) d.pool = initialised no_mm_queues
  size : d.pool.queue_pool.length = no_mm_queues
  sem_le : d.pool.sem ≤ no_mm_queues

/-- A direction before the first `onic_open`: its semaphore lets nobody in. -/
structure Unopened (no_mm_queues : Nat) (d : Direction) : Prop where
  pool : d.pool = created no_mm_queues
  quiet : Quiet d.ops

/-- The invariant of the runs in which `onic_init_cdev` is undisturbed. -/
structure ReopenInv (no_mm_queues : Nat) (s : Cdev) : Prop where
  working : ∀ dir rest, s.init = some (dir, rest) → Initialising no_mm_queues (s.direction dir) rest
  settled : ∀ dir, (∀ rest, s.init ≠ some (dir, rest)) →
    DirectionInv no_mm_queues (s.direction dir) ∨ Unopened no_mm_queues (s.direction dir)

theorem quiet_called {ops : List Op} (hquiet : Quiet ops) : Quiet (ops ++ [.called]) := by
  simpa [Quiet, List.countP_append, Op.inside] using hquiet

/-- Who is not inside can only go inside. -/
theorem Quiet.of_statement {no_mm_queues i : Nat} {d : Direction} {p : Pool} {op op' : Op}
    (hquiet : Quiet d.ops) (hop : d.ops[i]? = some op)
    (hstatement : next_statement no_mm_queues d.pool op = some (p, op')) :
    op = .called ∧ 0 < d.pool.sem ∧ op' = .down_sem := by
  have hmem := List.mem_of_getElem? hop
  have hout : op.inside = false := by
    simpa using List.countP_eq_zero.mp hquiet op hmem
  cases op with
  | called =>
    simp only [next_statement, Option.ite_none_right_eq_some, Option.some.injEq,
      Prod.mk.injEq] at hstatement
    exact ⟨rfl, hstatement.1, hstatement.2.2.symm⟩
  | returned => simp [next_statement] at hstatement
  | _ => simp [Op.inside] at hout

theorem Quiet.no_early_return {i : Nat} {d : Direction} (hquiet : Quiet d.ops) :
    d.act i early_return = d := by
  obtain hstay | ⟨op, p, op', hop, hreturn, -⟩ := d.act_eq i early_return
  · exact hstay
  · have hout : op.inside = false := by
      simpa using List.countP_eq_zero.mp hquiet op (List.mem_of_getElem? hop)
    cases op with
    | transferring queue => simp [Op.inside] at hout
    | _ => simp [early_return] at hreturn

/-- As long as nobody is inside, the variables of a direction do not change. -/
theorem Quiet.event_pool {no_mm_queues : Nat} {d : Direction} {e : OpEvent} (hquiet : Quiet d.ops)
    (hafter : Quiet (d.event no_mm_queues e).ops) : (d.event no_mm_queues e).pool = d.pool := by
  cases e with
  | call => rfl
  | step i =>
    obtain hstay | ⟨op, p, op', hop, hstatement, hmove⟩ :=
      d.act_eq i (next_statement no_mm_queues)
    · rw [Direction.event, hstay]
    · obtain ⟨rfl, -, rfl⟩ := hquiet.of_statement hop hstatement
      obtain ⟨others, -, hset⟩ := one_and_others hop
      rw [Direction.event, hmove, Quiet, countP_split (hset _)] at hafter
      simp [Op.inside] at hafter
  | fail i => rw [Direction.event, hquiet.no_early_return]

theorem Unopened.event {no_mm_queues : Nat} {d : Direction} (hunopened : Unopened no_mm_queues d)
    (e : OpEvent) : Unopened no_mm_queues (d.event no_mm_queues e) := by
  obtain ⟨hpool, hquiet⟩ := hunopened
  cases e with
  | call => exact ⟨hpool, quiet_called hquiet⟩
  | step i =>
    obtain hstay | ⟨op, p, op', hop, hstatement, -⟩ :=
      d.act_eq i (next_statement no_mm_queues)
    · rw [Direction.event, hstay]
      exact ⟨hpool, hquiet⟩
    · have hfree := (hquiet.of_statement hop hstatement).2.1
      rw [hpool] at hfree
      exact absurd hfree (Nat.lt_irrefl 0)
  | fail i =>
    rw [Direction.event, hquiet.no_early_return]
    exact ⟨hpool, hquiet⟩

theorem DirectionInv.sem_le {no_mm_queues : Nat} {d : Direction} (hinv : DirectionInv no_mm_queues d) :
    d.pool.sem ≤ no_mm_queues := by
  have hbalance := hinv.1.sem
  rw [InBalance] at hbalance
  omega

/-- A direction that is settled is ready for a new initialisation. -/
theorem initialising_of_settled {no_mm_queues : Nat} {d : Direction}
    (hsettled : DirectionInv no_mm_queues d ∨ Unopened no_mm_queues d) :
    Initialising no_mm_queues d (init_statements no_mm_queues) := by
  obtain hinv | hunopened := hsettled
  · obtain ⟨-, takes, puts, hring⟩ := id hinv
    exact ⟨init_statements_spec hring.size, hring.size, hinv.sem_le⟩
  · have hsize : d.pool.queue_pool.length = no_mm_queues := by simp [hunopened.pool, created]
    exact ⟨init_statements_spec hsize, hsize, by simp [hunopened.pool, created]⟩

theorem init_statement_bounds {no_mm_queues : Nat} {p : Pool} (statement : InitStatement)
    (hsize : p.queue_pool.length = no_mm_queues) (hsem : p.sem ≤ no_mm_queues) :
    (init_statement no_mm_queues p statement).queue_pool.length = no_mm_queues ∧
      (init_statement no_mm_queues p statement).sem ≤ no_mm_queues := by
  cases statement <;> simp [init_statement, hsize, hsem]

/-- An event of an operation keeps the invariant. -/
theorem ReopenInv.op {no_mm_queues : Nat} {s : Cdev} (hinv : ReopenInv no_mm_queues s) (acting : Dir)
    (e : OpEvent) (hbefore : Undisturbed s)
    (hafter : Undisturbed (cdev_step no_mm_queues s (.op acting e))) :
    ReopenInv no_mm_queues (cdev_step no_mm_queues s (.op acting e)) := by
  have hinit : (cdev_step no_mm_queues s (.op acting e)).init = s.init := by
    cases acting <;> rfl
  refine ⟨?_, ?_⟩
  · intro dir rest hworking
    have hquiet' := hafter dir rest hworking
    rw [hinit] at hworking
    obtain ⟨hcompletes, hsize, hsem⟩ := hinv.working dir rest hworking
    rw [op_direction] at hquiet' ⊢
    by_cases hdir : dir = acting
    · subst hdir
      rw [if_pos rfl] at hquiet' ⊢
      have hpool := (hbefore dir rest hworking).event_pool hquiet'
      exact ⟨hpool ▸ hcompletes, hpool ▸ hsize, hpool ▸ hsem⟩
    · rw [if_neg hdir]
      exact ⟨hcompletes, hsize, hsem⟩
  · intro dir hsettled
    rw [hinit] at hsettled
    rw [op_direction]
    split
    · rename_i hdir
      subst hdir
      obtain hready | hunopened := hinv.settled dir hsettled
      · exact .inl (hready.event e)
      · exact .inr (hunopened.event e)
    · exact hinv.settled dir hsettled

/-- A statement of `onic_init_cdev` keeps it. -/
theorem ReopenInv.init {no_mm_queues : Nat} {s : Cdev} (hinv : ReopenInv no_mm_queues s)
    (hbefore : Undisturbed s) : ReopenInv no_mm_queues (cdev_step no_mm_queues s .init) := by
  cases hinit : s.init with
  | none =>
    have hstay : cdev_step no_mm_queues s .init = s := by simp [cdev_step, hinit]
    rw [hstay]
    exact hinv
  | some work =>
    obtain ⟨acting, rest⟩ := work
    obtain ⟨hcompletes, hsize, hsem⟩ := hinv.working acting rest hinit
    have hquiet := hbefore acting rest hinit
    have hother : ∀ dir, dir ≠ acting → DirectionInv no_mm_queues (s.direction dir) ∨
        Unopened no_mm_queues (s.direction dir) := by
      intro dir hne
      refine hinv.settled dir fun rest' hsame => hne ?_
      rw [hinit, Option.some.injEq, Prod.mk.injEq] at hsame
      exact hsame.1.symm
    cases rest with
    | nil =>
      have hall : ∀ dir, DirectionInv no_mm_queues (s.direction dir) ∨
          Unopened no_mm_queues (s.direction dir) := by
        intro dir
        by_cases hdir : dir = acting
        · have hready := initialised_inv no_mm_queues hquiet
          rw [← hcompletes] at hready
          exact hdir ▸ .inl hready
        · exact hother dir hdir
      cases acting with
      | read =>
        have hnext : cdev_step no_mm_queues s .init =
            { s with init := some (.write, init_statements no_mm_queues) } := by
          simp [cdev_step, hinit]
        rw [hnext]
        refine ⟨fun dir rest hworking => ?_, fun dir _ => hall dir⟩
        simp only [Option.some.injEq, Prod.mk.injEq] at hworking
        obtain ⟨rfl, rfl⟩ := hworking
        exact initialising_of_settled (hall .write)
      | write =>
        have hnext : cdev_step no_mm_queues s .init = { s with init := none } := by
          simp [cdev_step, hinit]
        rw [hnext]
        exact ⟨by simp, fun dir _ => hall dir⟩
    | cons statement rest =>
      obtain ⟨hsize', hsem'⟩ := init_statement_bounds statement hsize hsem
      have hnext : cdev_step no_mm_queues s .init =
          { s.set acting { s.direction acting with
              pool := init_statement no_mm_queues (s.direction acting).pool statement } with
            init := some (acting, rest) } := by
        cases acting <;> simp [cdev_step, hinit]
      rw [hnext]
      refine ⟨fun dir rest' hworking => ?_, fun dir hsettled => ?_⟩
      · simp only [Option.some.injEq, Prod.mk.injEq] at hworking
        obtain ⟨rfl, rfl⟩ := hworking
        cases acting <;> exact ⟨hcompletes, hsize', hsem'⟩
      · have hne : dir ≠ acting := fun heq => hsettled rest (by rw [heq])
        have hsame := hother dir hne
        cases acting <;> cases dir <;> first | exact absurd rfl hne | exact hsame

theorem ReopenInv.onic_open {no_mm_queues : Nat} {s : Cdev} (hinv : ReopenInv no_mm_queues s) :
    ReopenInv no_mm_queues (cdev_step no_mm_queues s .onic_open) := by
  cases hinit : s.init with
  | some work =>
    have hstay : cdev_step no_mm_queues s .onic_open = s := by simp [cdev_step, hinit]
    rw [hstay]
    exact hinv
  | none =>
    have hnext : cdev_step no_mm_queues s .onic_open =
        { s with init := some (.read, init_statements no_mm_queues) } := by
      simp [cdev_step, hinit]
    have hall : ∀ dir, DirectionInv no_mm_queues (s.direction dir) ∨
        Unopened no_mm_queues (s.direction dir) := fun dir => hinv.settled dir (by simp [hinit])
    rw [hnext]
    refine ⟨fun dir rest hworking => ?_, fun dir _ => hall dir⟩
    simp only [Option.some.injEq, Prod.mk.injEq] at hworking
    obtain ⟨rfl, rfl⟩ := hworking
    exact initialising_of_settled (hall .read)

theorem Quiet.safe {no_mm_queues : Nat} {d : Direction} (hquiet : Quiet d.ops)
    (hsem : d.pool.sem ≤ no_mm_queues) : PoolSafe no_mm_queues d := by
  have hout : ∀ op ∈ d.ops, op.inside = false := by
    simpa [Quiet, List.countP_eq_zero] using hquiet
  refine ⟨?_, hsem, ?_⟩
  · rw [List.pairwise_iff_forall_sublist]
    intro a b hab queue ha
    have hnone := hout a (hab.subset (List.mem_cons_self ..))
    cases a <;> simp [Op.holds, Op.inside] at ha hnone
  · intro i queue hop
    have hinside := hout _ (List.mem_of_getElem? hop)
    simp [Op.inside] at hinside

theorem DirectionInv.safe {no_mm_queues : Nat} {d : Direction} (hinv : DirectionInv no_mm_queues d) :
    PoolSafe no_mm_queues d := by
  refine ⟨hinv.held_once, hinv.sem_le, fun i queue hop => ?_⟩
  obtain ⟨hsem, takes, puts, hring⟩ := hinv
  exact (hring.next_empty hsem hop).2.2

/-- A run is undisturbed when it is after each number of its events. -/
theorem undisturbed_of_takes {no_mm_queues : Nat} {events : List CdevEvent}
    (htakes : ∀ k < events.length + 1, Undisturbed ((cdevMachine no_mm_queues).run (events.take k))) :
    ∀ earlier, earlier <+: events → Undisturbed ((cdevMachine no_mm_queues).run earlier) := by
  intro earlier hinitial
  rw [List.prefix_iff_eq_take.mp hinitial]
  exact htakes _ (Nat.lt_succ_of_le hinitial.length_le)

theorem reopen_inv (no_mm_queues : Nat) (events : List CdevEvent)
    (hundisturbed : ∀ earlier, earlier <+: events → Undisturbed ((cdevMachine no_mm_queues).run earlier)) :
    ReopenInv no_mm_queues ((cdevMachine no_mm_queues).run events) := by
  refine (cdevMachine no_mm_queues).state_promise_induction Undisturbed (ReopenInv no_mm_queues)
    ?_ ?_ events hundisturbed
  · refine ⟨fun dir rest hworking => by simp [cdevMachine] at hworking, fun dir _ => .inr ?_⟩
    cases dir <;> exact ⟨rfl, rfl⟩
  · intro s e hbefore hinv hafter
    cases e with
    | op acting e => exact hinv.op acting e hbefore hafter
    | onic_open => exact hinv.onic_open
    | init => exact hinv.init hbefore

/-- Opening the network interface is safe for transfers of the character device in every
run in which no operation of a direction is in flight while `onic_init_cdev` works on
it. -/
theorem reopen_safe (no_mm_queues : Nat) (events : List CdevEvent)
    (hundisturbed : ∀ earlier, earlier <+: events → Undisturbed ((cdevMachine no_mm_queues).run earlier))
    (dir : Dir) : PoolSafe no_mm_queues (((cdevMachine no_mm_queues).run events).direction dir) := by
  have hinv := reopen_inv no_mm_queues events hundisturbed
  by_cases hworking : ∃ rest, ((cdevMachine no_mm_queues).run events).init = some (dir, rest)
  · obtain ⟨rest, hrest⟩ := hworking
    exact (hundisturbed events (List.prefix_refl _) dir rest hrest).safe
      (hinv.working dir rest hrest).sem_le
  · obtain hready | hunopened := hinv.settled dir (not_exists.mp hworking)
    · exact hready.safe
    · exact hunopened.quiet.safe (by simp [hunopened.pool, created])

/-- A transfer between two calls of `onic_open`, and one that starts after them. -/
def reopen_between_transfers : List CdevEvent :=
  open_events 1 ++ .op .read .call :: List.replicate 11 (.op .read (.step 0)) ++ open_events 1 ++
    [.op .read .call, .op .read (.step 1)]

theorem reopen_safe_between_transfers :
    PoolSafe 1 (((cdevMachine 1).run reopen_between_transfers).direction .read) := by
  apply reopen_safe
  apply undisturbed_of_takes
  decide +kernel

/-- A transfer that is in flight during an `onic_open`, and one that starts after it. -/
def reopen_during_transfer : List CdevEvent :=
  open_events 1 ++ .op .read .call :: List.replicate 5 (.op .read (.step 0)) ++ open_events 1 ++
    .op .read .call :: List.replicate 5 (.op .read (.step 1))

/-- Both transfers then hold the only queue. -/
theorem reopen_duplicates_queue : ¬∀ (no_mm_queues : Nat) (events : List CdevEvent) (dir : Dir),
    PoolSafe no_mm_queues (((cdevMachine no_mm_queues).run events).direction dir) := by
  intro hclaim
  have hops : (((cdevMachine 1).run reopen_during_transfer).direction .read).ops =
      [.transferring 0, .transferring 0] := by
    decide +kernel
  have hheld := (hclaim 1 reopen_during_transfer .read).held_once
  rw [hops] at hheld
  simp [Op.holds] at hheld

end reconic.onic_cdev
