import RecoNIC.Lookside.Scheduling

open clocked reconic.cl_box reconic.framing

namespace reconic.compute_logic_wrapper

/-- The words that have arrived form a sequence of commands, the last of which may
not have arrived completely. -/
def WellFormed (jobs : Nat → Job) (h : List (Cycle Sched SchedInput)) : Prop :=
  ∃ m, arrived h <+: job_stream jobs m

/-- A run is well formed from its beginning on. -/
theorem WellFormed.initial {jobs : Nat → Job} {h : List (Cycle Sched SchedInput)}
    {c : Cycle Sched SchedInput} (hwell : WellFormed jobs (h ++ [c])) : WellFormed jobs h := by
  obtain ⟨m, hm⟩ := hwell
  rw [arrived_snoc] at hm
  exact ⟨m, (List.prefix_append _ _).trans hm⟩

/-- A run of `mmult` starts with the registers that hold the next job. -/
theorem Phase.launch {jobs : Nat → Job} {n : Nat} {read : List (BitVec 32)} {s : Sched}
    (hphase : Phase jobs n read s) (hstarts : mmult_starts s = true) :
    s.params = job_params (jobs n) := by
  simp only [mmult_starts, Bool.and_eq_true, Bool.not_eq_true'] at hstarts
  obtain ⟨hidle, hstart⟩ := hstarts
  cases hstate : s.kernel_state with
  | CL_IDLE => simp [Phase, hstate, hstart] at hphase
  | CL_BOX_ACTIVE => simp [Phase, hstate, hstart] at hphase
  | CL_KERNEL_ACTIVE =>
    simp only [Phase, hstate] at hphase
    obtain ⟨_, _, _, _, ⟨_, _, _, hjob⟩ | ⟨hrunning, _⟩⟩ := hphase
    · exact hjob
    · rw [hidle] at hrunning
      cases hrunning
  | unnamed => simp [Phase, hstate] at hphase

/-- A cycle goes on with the job, or to the next one. -/
theorem Phase.step {jobs : Nat → Job} {n m : Nat} {read : List (BitVec 32)} {s : Sched}
    (i : SchedInput) (hphase : Phase jobs n read s)
    (hstream : read ++ s.ctl_cmd_afifo <+: job_stream jobs m) :
    Phase jobs (n + (mmult_starts s).toNat) (read ++ words_read s i) (sched_step s i) := by
  have hstart : s.ap_start = false → (mmult_starts s).toNat = 0 := by
    intro hstart
    simp [mmult_starts, hstart]
  cases hstate : s.kernel_state with
  | CL_IDLE =>
    have hnext := idle_step i hstate hphase
    simp only [Phase, hstate] at hphase
    rwa [hstart hphase.2.2.1]
  | CL_BOX_ACTIVE =>
    have hnext := box_step i hstate hphase hstream
    simp only [Phase, hstate] at hphase
    rwa [hstart hphase.2.1]
  | CL_KERNEL_ACTIVE => exact kernel_step i hstate hphase
  | unnamed => simp [Phase, hstate] at hphase

/-- A cycle launches at most one job. -/
theorem launches_length_snoc (h : List (Cycle Sched SchedInput)) (c : Cycle Sched SchedInput) :
    (launches (h ++ [c])).length = (launches h).length + (mmult_starts c.state).toNat := by
  rw [launches_snoc]
  cases mmult_starts c.state <;> simp

/-- One cycle keeps the invariant. -/
theorem SchedInv.step {jobs : Nat → Job} {h : List (Cycle Sched SchedInput)} {s : Sched}
    (hinv : SchedInv jobs h s) (i : SchedInput) (hwell : WellFormed jobs h) :
    SchedInv jobs (h ++ [⟨s, i⟩]) (sched_step s i) := by
  obtain ⟨hlaunched, hconserved, hphase⟩ := hinv
  obtain ⟨m, hm⟩ := hwell
  refine ⟨?_, ?_, ?_⟩
  · rw [launches_length_snoc, launches_snoc]
    cases hstarts : mmult_starts s with
    | false => simpa using hlaunched
    | true =>
      rw [if_pos rfl, Bool.toNat_true, List.range_succ, List.map_append, ← hlaunched]
      simp [hphase.launch hstarts]
  · rw [consumed_snoc, arrived_snoc, List.append_assoc, fifo_conserves, ← List.append_assoc,
      hconserved]
  · rw [launches_length_snoc, consumed_snoc]
    exact hphase.step i (hconserved ▸ hm)

/-- The invariant holds in every run. -/
theorem sched_inv (jobs : Nat → Job) (inputs : List SchedInput)
    (hwell : WellFormed jobs (schedMachine.trace inputs)) :
    SchedInv jobs (schedMachine.trace inputs) (schedMachine.run inputs) := by
  apply schedMachine.history_induction (WellFormed jobs) (SchedInv jobs)
  · exact fun _ _ hwell => hwell.initial
  · exact ⟨rfl, rfl, rfl, rfl, rfl, rfl, rfl, rfl, rfl⟩
  · exact fun h s i hwell hinv => hinv.step i hwell.initial
  · exact hwell

/-- What the engines can be seen doing in a state in which `n` runs of `mmult`
have started. -/
structure InStep (jobs : Nat → Job) (n : Nat) (s : Sched) : Prop where
  exclusive : ¬(cl_box_active s = true ∧ ap_active s = true)
  agree : s.comp_state = .COMPUTE_BUSY ↔ s.kernel_state = .CL_KERNEL_ACTIVE
  held : ap_active s = true → ∃ k, n + (mmult_starts s).toNat = k + 1 ∧
    s.params = job_params (jobs k) ∧ scalars_in_use s = (job_params (jobs k)).scalars

/-- In each phase the engines exclude each other and the parameters are those of the job in hand. -/
theorem Phase.in_step {jobs : Nat → Job} {n : Nat} {read : List (BitVec 32)} {s : Sched}
    (hphase : Phase jobs n read s) : InStep jobs n s := by
  cases hstate : s.kernel_state with
  | CL_IDLE =>
    simp only [Phase, hstate] at hphase
    obtain ⟨_, _, hstart, hrunning, _, hcomp, _⟩ := hphase
    have hquiet : ap_active s = false := by simp [ap_active, hstart, hrunning]
    exact ⟨by simp [hquiet], by simp [hcomp, hstate], by simp [hquiet]⟩
  | CL_BOX_ACTIVE =>
    simp only [Phase, hstate] at hphase
    obtain ⟨_, hstart, hrunning, _, hcomp, _⟩ := hphase
    have hquiet : ap_active s = false := by simp [ap_active, hstart, hrunning]
    exact ⟨by simp [hquiet], by simp [hcomp, hstate], by simp [hquiet]⟩
  | CL_KERNEL_ACTIVE =>
    simp only [Phase, hstate] at hphase
    obtain ⟨hbox_start, hbox, hstart, hcomp, hrun⟩ := hphase
    have hquiet : cl_box_active s = false := by simp [cl_box_active, hbox, hbox_start]
    refine ⟨by simp [hquiet], by simp [hcomp, hstate], fun _ => ?_⟩
    obtain ⟨hrunning, hnew, _, hjob⟩ | ⟨hrunning, hnew, _, k, hk, hjob, hscalars⟩ := hrun
    · exact ⟨n, by simp [mmult_starts, hrunning, hstart], hjob, by simp [scalars_in_use, hnew, hjob]⟩
    · exact ⟨k, by simp [mmult_starts, hrunning, hk], hjob, by simp [scalars_in_use, hnew, hscalars]⟩
  | unnamed => simp [Phase, hstate] at hphase

/-- The events the engines are waiting for in turn. -/
inductive Pace where
  | box_read
  | box_finish
  | kernel_finish

def SchedInput.gives (i : SchedInput) : Pace → Prop
  | .box_read => i.box_read = true
  | .box_finish => i.box_finish = true
  | .kernel_finish => i.kernel_finish = true

/-- All latencies are finite: whatever an engine waits for comes again. -/
def FiniteLatencies (inputs : Nat → SchedInput) : Prop :=
  ∀ e n, ∃ m, n ≤ m ∧ (inputs m).gives e

/-- How far a state is from the next launch. -/
def Sched.rank (s : Sched) : Nat :=
  match s.kernel_state with
  | .CL_IDLE => 8
  | .CL_BOX_ACTIVE => 7 - (box_run s).words.length
  | .CL_KERNEL_ACTIVE => if s.mmult_running then 9 else 0
  | .unnamed => 0

/-- The event that brings a state closer to the next launch. -/
def Sched.wanted (s : Sched) : Pace :=
  match s.kernel_state with
  | .CL_IDLE => .kernel_finish
  | .CL_BOX_ACTIVE => if (box_run s).words.length < 6 then .box_read else .box_finish
  | .CL_KERNEL_ACTIVE => .kernel_finish
  | .unnamed => .kernel_finish

/-- The box has one more word in sight when it reads. -/
theorem words_seen_length {s : Sched} {i : SchedInput} (hread : ctl_cmd_fifo_rd_en s i = true) :
    (words_seen s i).length = (box_run s).words.length + 1 := by
  have hnonempty : s.ctl_cmd_afifo ≠ [] := by
    intro hempty
    simp [ctl_cmd_fifo_rd_en, hempty] at hread
  cases hfifo : s.ctl_cmd_afifo with
  | nil => exact absurd hfifo hnonempty
  | cons word rest => simp [words_seen, words_read, hread, hfifo]

/-- While words are wanted that have arrived the FIFO is not empty. -/
theorem afifo_nonempty {s : Sched} {wanted read : Nat}
    (hwaiting : wanted ≤ read + s.ctl_cmd_afifo.length) (hread : read < wanted) :
    s.ctl_cmd_afifo.isEmpty = false := by
  cases hfifo : s.ctl_cmd_afifo with
  | nil =>
    rw [hfifo, List.length_nil] at hwaiting
    omega
  | cons word rest => rfl

/-- The launch comes nearer in a cycle, or the cycle lacks what the engines want. -/
def Nearer (s : Sched) (i : SchedInput) : Prop :=
  (sched_step s i).rank < s.rank ∨
    (sched_step s i).rank = s.rank ∧ (sched_step s i).wanted = s.wanted ∧ ¬i.gives s.wanted

/-- An idle scheduler with a word waiting comes nearer to the launch. -/
theorem idle_nearer {jobs : Nat → Job} {n : Nat} {read : List (BitVec 32)} {s : Sched}
    (i : SchedInput) (hstate : s.kernel_state = .CL_IDLE) (hphase : Phase jobs n read s)
    (hwaiting : 6 * (n + 1) ≤ read.length + s.ctl_cmd_afifo.length) : Nearer s i := by
  simp only [Phase, hstate] at hphase
  obtain ⟨hbox_start, hbox, hstart, hrunning, _, _, hread⟩ := hphase
  rw [hread, job_stream_length] at hwaiting
  have hnonempty := afifo_nonempty hwaiting (by omega)
  obtain ⟨hnext, _⟩ := idle_next i hstate (by simp [cl_box_idle, hbox, hbox_start])
    (by simp [ap_idle, hstart, hrunning])
  rw [hnonempty, if_neg (by simp)] at hnext
  refine Or.inl ?_
  simp only [Sched.rank, hstate, hnext]
  omega

/-- So does one that reads a command. -/
theorem box_nearer {jobs : Nat → Job} {n m : Nat} {read : List (BitVec 32)} {s : Sched}
    (i : SchedInput) (hstate : s.kernel_state = .CL_BOX_ACTIVE) (hphase : Phase jobs n read s)
    (hstream : read ++ s.ctl_cmd_afifo <+: job_stream jobs m)
    (hwaiting : 6 * (n + 1) ≤ read.length + s.ctl_cmd_afifo.length) : Nearer s i := by
  simp only [Phase, hstate] at hphase
  obtain ⟨hbox_start, hstart, hrunning, _, _, hread, hwords, _⟩ := hphase
  have hactive : cl_box_active s = true := by simp [cl_box_active, hbox_start]
  obtain ⟨_, hkernel_done, _, _, hrunning'⟩ := kernel_quiet i hstart hrunning
  obtain ⟨hnext, _⟩ := box_next i hstate hkernel_done
  have hle := hwords.length_le
  rw [job_words_length] at hle
  cases hdone : cl_box_done s i with
  | true =>
    rw [hdone, if_pos rfl] at hnext
    refine Or.inl ?_
    simp only [Sched.rank, hstate, hnext, hrunning', Bool.false_eq_true, if_false]
    omega
  | false =>
    rw [hdone, if_neg (by simp)] at hnext
    have hrun := congrArg BoxRun.words (box_run_next hactive hdone)
    simp only [Nearer, Sched.rank, Sched.wanted, hstate, hnext, hrun]
    cases hread_en : ctl_cmd_fifo_rd_en s i with
    | true =>
      have hlength : (words_seen s i).length = (box_run s).words.length + 1 :=
        words_seen_length hread_en
      have hle' := (words_seen_initial i hwords (hread ▸ hstream)).length_le
      rw [job_words_length] at hle'
      exact Or.inl (by omega)
    | false =>
      have hseen : words_seen s i = (box_run s).words := by
        simp [words_seen, words_read, hread_en]
      rw [hseen]
      refine Or.inr ⟨rfl, rfl, ?_⟩
      by_cases hlength : (box_run s).words.length < 6
      · -- The command has arrived completely, so the box only lacks the read.
        rw [hread, List.length_append, job_stream_length] at hwaiting
        have hnonempty := afifo_nonempty hwaiting (by omega)
        rw [if_pos hlength]
        intro hgives
        simp [ctl_cmd_fifo_rd_en, hactive, wants_word_iff hwords, hlength, hnonempty,
          show i.box_read = true from hgives] at hread_en
      · rw [if_neg hlength]
        intro hgives
        have hall : words_seen s i <+: (jobs n).ctl_cmd.words := by
          rw [hseen]
          exact hwords
        have hargs := box_args_eq hactive hall
        rw [hseen, if_pos (by omega)] at hargs
        simp [cl_box_done, hargs, show i.box_finish = true from hgives] at hdone

/-- So does one that waits for the engine. -/
theorem kernel_nearer {jobs : Nat → Job} {n : Nat} {read : List (BitVec 32)} {s : Sched}
    (i : SchedInput) (hstate : s.kernel_state = .CL_KERNEL_ACTIVE) (hphase : Phase jobs n read s)
    (hstarts : mmult_starts s = false) : Nearer s i := by
  simp only [Phase, hstate] at hphase
  obtain ⟨_, _, hstart, _, hrun⟩ := hphase
  have hrunning : s.mmult_running = true := by
    simpa [mmult_starts, hstart] using hstarts
  obtain ⟨hnext, _⟩ := kernel_next i hstate
  cases hfinish : i.kernel_finish with
  | true =>
    rw [if_pos (by simp [ap_done, ap_active, hstart, hfinish])] at hnext
    refine Or.inl ?_
    simp only [Sched.rank, hstate, hnext, hrunning, if_true]
    omega
  | false =>
    have hnot_done : ap_done s i = false := by simp [ap_done, hfinish]
    have hrunning' : (sched_step s i).mmult_running = true := by
      simp [sched_step, ap_active, hstart, hnot_done]
    rw [hnot_done, if_neg (by simp)] at hnext
    refine Or.inr ?_
    simp [Sched.rank, Sched.wanted, SchedInput.gives, hstate, hnext, hrunning, hrunning', hfinish]

/-- A step that launches nothing while a complete command waits brings the next
launch closer, or the event that is wanted has not come. -/
theorem rank_step {jobs : Nat → Job} {n m : Nat} {read : List (BitVec 32)} {s : Sched}
    (i : SchedInput) (hphase : Phase jobs n read s)
    (hstream : read ++ s.ctl_cmd_afifo <+: job_stream jobs m)
    (hwaiting : 6 * (n + 1) ≤ (read ++ s.ctl_cmd_afifo).length) (hstarts : mmult_starts s = false) :
    Nearer s i := by
  rw [List.length_append] at hwaiting
  cases hstate : s.kernel_state with
  | CL_IDLE => exact idle_nearer i hstate hphase hwaiting
  | CL_BOX_ACTIVE => exact box_nearer i hstate hphase hstream hwaiting
  | CL_KERNEL_ACTIVE => exact kernel_nearer i hstate hphase hstarts
  | unnamed => simp [Phase, hstate] at hphase

/-- What the scheduler guarantees over an infinite run: the launches of `mmult`
are the jobs in order, each after its command, the engines stay in step, and with
finite latencies every command that has arrived is launched. -/
structure Delivered (jobs : Nat → Job) (inputs : Nat → SchedInput) : Prop where
  in_order : ∀ n, launches (schedMachine.historyAt inputs n) =
    (List.range (launches (schedMachine.historyAt inputs n)).length).map fun k => job_params (jobs k)
  caused : ∀ n, 6 * (launches (schedMachine.historyAt inputs n)).length ≤
    (arrived (schedMachine.historyAt inputs n)).length
  in_step : ∀ n, InStep jobs (launches (schedMachine.historyAt inputs n)).length
    (schedMachine.stateAt inputs n)
  each_launched : FiniteLatencies inputs → ∀ k n,
    6 * (k + 1) ≤ (arrived (schedMachine.historyAt inputs n)).length →
    ∃ m, k < (launches (schedMachine.historyAt inputs m)).length

/-- Launches are not taken back. -/
theorem launches_mono (inputs : Nat → SchedInput) {m n : Nat} (h : m ≤ n) :
    (launches (schedMachine.historyAt inputs m)).length ≤
      (launches (schedMachine.historyAt inputs n)).length := by
  induction n, h using Nat.le_induction with
  | base => exact Nat.le_refl _
  | succ n _ ih =>
    rw [schedMachine.historyAt_succ, launches_length_snoc]
    omega

/-- Nor are words that have arrived. -/
theorem arrived_mono (inputs : Nat → SchedInput) {m n : Nat} (h : m ≤ n) :
    (arrived (schedMachine.historyAt inputs m)).length ≤
      (arrived (schedMachine.historyAt inputs n)).length := by
  induction n, h using Nat.le_induction with
  | base => exact Nat.le_refl _
  | succ n _ ih =>
    rw [schedMachine.historyAt_succ, arrived_snoc, List.length_append]
    omega

/-- A launch is owed at most to a command that has been read. -/
theorem Phase.launches_read {jobs : Nat → Job} {n : Nat} {read : List (BitVec 32)} {s : Sched}
    (hphase : Phase jobs n read s) : 6 * n ≤ read.length := by
  cases hstate : s.kernel_state with
  | CL_IDLE =>
    simp only [Phase, hstate] at hphase
    rw [hphase.2.2.2.2.2.2, job_stream_length]
  | CL_BOX_ACTIVE =>
    simp only [Phase, hstate] at hphase
    rw [hphase.2.2.2.2.2.1, List.length_append, job_stream_length]
    omega
  | CL_KERNEL_ACTIVE =>
    simp only [Phase, hstate] at hphase
    obtain ⟨_, _, _, _, ⟨_, _, hread, _⟩ | ⟨_, _, hread, _⟩⟩ := hphase <;>
      rw [hread, job_stream_length]
    omega
  | unnamed => simp [Phase, hstate] at hphase

/-- While a complete command waits, the next launch comes. -/
theorem next_launch {jobs : Nat → Job} {inputs : Nat → SchedInput}
    (hwell : ∀ n, WellFormed jobs (schedMachine.historyAt inputs n))
    (hfinite : FiniteLatencies inputs) {k n : Nat}
    (hlaunched : (launches (schedMachine.historyAt inputs n)).length = k)
    (hwaiting : 6 * (k + 1) ≤ (arrived (schedMachine.historyAt inputs n)).length) :
    ∃ m, n < m ∧ k < (launches (schedMachine.historyAt inputs m)).length := by
  refine progress (fun e n => (inputs n).gives e) hfinite
    (fun n => (launches (schedMachine.historyAt inputs n)).length = k ∧
      6 * (k + 1) ≤ (arrived (schedMachine.historyAt inputs n)).length)
    (fun m => k < (launches (schedMachine.historyAt inputs m)).length)
    (fun n => (schedMachine.stateAt inputs n).rank) (fun n => (schedMachine.stateAt inputs n).wanted)
    ?_ n ⟨hlaunched, hwaiting⟩
  intro n ⟨hlaunched, hwaiting⟩
  have hinv := sched_inv jobs (initialInputs inputs n) (hwell n)
  obtain ⟨m, hm⟩ := hwell n
  have hnext := launches_length_snoc (schedMachine.historyAt inputs n)
    ⟨schedMachine.stateAt inputs n, inputs n⟩
  rw [← schedMachine.historyAt_succ, hlaunched] at hnext
  cases hstarts : mmult_starts (schedMachine.stateAt inputs n) with
  | true =>
    rw [hstarts, Bool.toNat_true] at hnext
    exact Or.inl (by omega)
  | false =>
    rw [hstarts, Bool.toNat_false, Nat.add_zero] at hnext
    have hmore := arrived_mono inputs (Nat.le_add_right n 1)
    refine Or.inr ⟨⟨hnext, by omega⟩, ?_⟩
    rw [schedMachine.stateAt_succ]
    have hphase := hinv.phase
    have hconserved := hinv.conserved
    rw [show (launches (schedMachine.trace (initialInputs inputs n))).length = k from hlaunched]
      at hphase
    exact rank_step (inputs n) hphase (hconserved ▸ hm) (hconserved ▸ hwaiting) hstarts

/-- Command delivery. Whatever words arrive, as long as they form commands, and
whatever the engines' pace, the kernel is launched once for each command, in the
order of the commands and with its parameters; and when all latencies are finite
every command is launched. -/
theorem commands_delivered (jobs : Nat → Job) (inputs : Nat → SchedInput)
    (hwell : ∀ n, WellFormed jobs (schedMachine.historyAt inputs n)) : Delivered jobs inputs := by
  have hinv : ∀ n, SchedInv jobs (schedMachine.historyAt inputs n) (schedMachine.stateAt inputs n) :=
    fun n => sched_inv jobs (initialInputs inputs n) (hwell n)
  refine ⟨fun n => (hinv n).launched, ?_, fun n => (hinv n).phase.in_step, ?_⟩
  · intro n
    have hread := (hinv n).phase.launches_read
    have hlength := congrArg List.length (hinv n).conserved
    rw [List.length_append] at hlength
    omega
  · intro hfinite k
    induction k with
    | zero =>
      intro n hwaiting
      by_cases hlaunched : (launches (schedMachine.historyAt inputs n)).length = 0
      · obtain ⟨m, _, hm⟩ := next_launch hwell hfinite hlaunched hwaiting
        exact ⟨m, hm⟩
      · exact ⟨n, by omega⟩
    | succ k ih =>
      intro n hwaiting
      obtain ⟨m, hm⟩ := ih n (by omega)
      have hbefore := launches_mono inputs (Nat.le_max_left m n)
      have harrived := arrived_mono inputs (Nat.le_max_right m n)
      by_cases hlaunched : (launches (schedMachine.historyAt inputs (max m n))).length = k + 1
      · obtain ⟨m', _, hm'⟩ := next_launch hwell hfinite hlaunched (by omega)
        exact ⟨m', hm'⟩
      · exact ⟨max m n, by omega⟩

/-- A host that issues two jobs, the second while the first is being read. -/
def two_jobs (k : Nat) : Job :=
  if k = 0 then ⟨0x1000, 0x2000, 0x3000, 4, 5, 6, 7⟩ else ⟨0x5000, 0x6000, 0x7000, 8, 9, 10, 11⟩

/-- The engines let the scheduler wait, each at its own pace. -/
def two_commands (n : Nat) : SchedInput where
  arrivals := if n < 2 then (two_jobs n).ctl_cmd.words else []
  box_read := n % 2 = 0
  box_vld := Valids.all (n % 3 = 0)
  box_finish := n % 5 = 0
  kernel_finish := n % 7 = 0

/-- From the second cycle on both commands are there. -/
theorem two_commands_arrived (n : Nat) :
    arrived (schedMachine.historyAt two_commands (n + 2)) = job_stream two_jobs 2 := by
  induction n with
  | zero => rfl
  | succ n ih =>
    rw [schedMachine.historyAt_succ, arrived_snoc, ih]
    exact List.append_nil _

/-- The words that arrive are those of the two jobs. -/
theorem two_commands_arrive (n : Nat) :
    WellFormed two_jobs (schedMachine.historyAt two_commands n) := by
  refine ⟨2, ?_⟩
  match n with
  | 0 => exact List.nil_prefix
  | 1 => exact List.prefix_append _ _
  | n + 2 => exact ⟨[], by rw [List.append_nil, two_commands_arrived]⟩

/-- Whatever the engines wait for comes again. -/
theorem two_commands_finite : FiniteLatencies two_commands := by
  intro e n
  cases e with
  | box_read => exact ⟨2 * n, by omega, decide_eq_true (by omega)⟩
  | box_finish => exact ⟨5 * n, by omega, decide_eq_true (by omega)⟩
  | kernel_finish => exact ⟨7 * n, by omega, decide_eq_true (by omega)⟩

/-- Both are launched. -/
theorem commands_delivered_two_commands : Delivered two_jobs two_commands ∧
    ∃ m, 1 < (launches (schedMachine.historyAt two_commands m)).length := by
  have hdelivered := commands_delivered two_jobs two_commands two_commands_arrive
  refine ⟨hdelivered, hdelivered.each_launched two_commands_finite 1 2 ?_⟩
  rw [two_commands_arrived 0]
  exact (job_stream_length two_jobs 2).ge

end reconic.compute_logic_wrapper
