import RecoNIC.Clocked.Progress
import RecoNIC.Lookside.Scheduler
import Mathlib.Tactic.IntervalCases

open clocked reconic.cl_box reconic.control_api reconic.framing

namespace reconic.compute_logic_wrapper

/-- The parameter registers that hold a job. -/
def job_params (job : Job) : Params where
  a_baseaddr_reg := job.a_baseaddr.setWidth 64
  b_baseaddr_reg := job.b_baseaddr.setWidth 64
  c_baseaddr_reg := job.c_baseaddr.setWidth 64
  a_row_reg := job.a_row.setWidth 32
  a_col_reg := job.a_col.setWidth 32
  b_col_reg := job.b_col.setWidth 32
  work_id_reg := job.work_id.setWidth 32

/-- The words of the first `n` of a sequence of jobs. -/
def job_stream (jobs : Nat → Job) (n : Nat) : List (BitVec 32) :=
  (List.range n).flatMap fun k => (jobs k).ctl_cmd.words

/-- The words that have arrived in the command FIFO. -/
def arrived (h : List (Cycle Sched SchedInput)) : List (BitVec 32) :=
  h.flatMap fun c => c.input.arrivals

/-- The words `cl_box` has read. -/
def consumed (h : List (Cycle Sched SchedInput)) : List (BitVec 32) :=
  h.flatMap fun c => words_read c.state c.input

/-- The parameter registers in the first cycle of each run of `mmult`. -/
def launches (h : List (Cycle Sched SchedInput)) : List Params :=
  h.flatMap fun c => if mmult_starts c.state then [c.state.params] else []

/-- The outputs pulsed so far are in their registers. -/
structure Loaded (pulsed : Valids) (p q : Params) : Prop where
  a_baseaddr : pulsed.a_baseaddr = true → p.a_baseaddr_reg = q.a_baseaddr_reg
  b_baseaddr : pulsed.b_baseaddr = true → p.b_baseaddr_reg = q.b_baseaddr_reg
  c_baseaddr : pulsed.c_baseaddr = true → p.c_baseaddr_reg = q.c_baseaddr_reg
  a_row : pulsed.a_row = true → p.a_row_reg = q.a_row_reg
  a_col : pulsed.a_col = true → p.a_col_reg = q.a_col_reg
  b_col : pulsed.b_col = true → p.b_col_reg = q.b_col_reg
  work_id : pulsed.work_id = true → p.work_id_reg = q.work_id_reg

/-- Where the scheduler is when `n` runs of `mmult` have started and the words
`read` have been read. -/
def Phase (jobs : Nat → Job) (n : Nat) (read : List (BitVec 32)) (s : Sched) : Prop :=
  match s.kernel_state with
  | .CL_IDLE =>
    s.cl_box_start = false ∧ s.cl_box = none ∧ s.ap_start = false ∧ s.mmult_running = false ∧
      s.new_req_reg = false ∧ s.comp_state = .COMPUTE_IDLE ∧ read = job_stream jobs n
  | .CL_BOX_ACTIVE =>
    s.cl_box_start = true ∧ s.ap_start = false ∧ s.mmult_running = false ∧
      s.new_req_reg = false ∧ s.comp_state = .COMPUTE_IDLE ∧
      read = job_stream jobs n ++ (box_run s).words ∧
      (box_run s).words <+: (jobs n).ctl_cmd.words ∧
      Loaded (box_run s).pulsed s.params (job_params (jobs n))
  | .CL_KERNEL_ACTIVE =>
    s.cl_box_start = false ∧ s.cl_box = none ∧ s.ap_start = true ∧
      s.comp_state = .COMPUTE_BUSY ∧
      (s.mmult_running = false ∧ s.new_req_reg = true ∧ read = job_stream jobs (n + 1) ∧
          s.params = job_params (jobs n) ∨
        s.mmult_running = true ∧ s.new_req_reg = false ∧ read = job_stream jobs n ∧
          ∃ k, n = k + 1 ∧ s.params = job_params (jobs k) ∧
            s.mmult_scalars = (job_params (jobs k)).scalars)
  | .unnamed => False

/-- The invariant of the scheduler. -/
structure SchedInv (jobs : Nat → Job) (h : List (Cycle Sched SchedInput)) (s : Sched) : Prop where
  launched : launches h = (List.range (launches h).length).map fun k => job_params (jobs k)
  conserved : consumed h ++ s.ctl_cmd_afifo = arrived h
  phase : Phase jobs (launches h).length (consumed h) s

/-- A command has six words. -/
theorem job_words_length (job : Job) : job.ctl_cmd.words.length = 6 := rfl

@[simp] theorem job_stream_succ (jobs : Nat → Job) (n : Nat) :
    job_stream jobs (n + 1) = job_stream jobs n ++ (jobs n).ctl_cmd.words := by
  simp [job_stream, List.range_succ]

/-- So the commands of `n` jobs have `6 * n`. -/
theorem job_stream_length (jobs : Nat → Job) (n : Nat) : (job_stream jobs n).length = 6 * n := by
  induction n with
  | zero => rfl
  | succ n ih =>
    rw [job_stream_succ, List.length_append, job_words_length, ih]
    omega

/-- The commands of fewer jobs come first. -/
theorem job_stream_initial (jobs : Nat → Job) {m n : Nat} (h : m ≤ n) :
    job_stream jobs m <+: job_stream jobs n := by
  induction n, h using Nat.le_induction with
  | base => exact List.prefix_rfl
  | succ n _ ih =>
    rw [job_stream_succ]
    exact ih.trans (List.prefix_append _ _)

/-- A command that has not been read to its end leaves `parse_ctl_cmd` waiting. -/
theorem parse_unfinished {job : Job} {words : List (BitVec 32)}
    (hwords : words <+: job.ctl_cmd.words) (hlength : words.length < 6) :
    parse_ctl_cmd words = .error .stream_empty := by
  rw [List.prefix_iff_eq_take] at hwords
  rw [hwords]
  generalize words.length = n at hlength
  interval_cases n <;> simp [parse_ctl_cmd, recvLoop, CtlCmd.words, Job.ctl_cmd,
    gen_ctl_cmd, Bind.bind, Except.bind]

/-- Six words of a command are parsed to the arguments of its job. -/
theorem parse_finished {job : Job} {words : List (BitVec 32)}
    (hwords : words <+: job.ctl_cmd.words) (hlength : words.length = 6) :
    parse_ctl_cmd words = .ok (job.args, []) := by
  have hall := hwords.eq_of_length (hlength.trans (job_words_length job).symm)
  rw [hall, ← List.append_nil job.ctl_cmd.words]
  exact parse_ctl_cmd_job job []

/-- The parser wants a word until it has six. -/
theorem wants_word_iff {job : Job} {words : List (BitVec 32)}
    (hwords : words <+: job.ctl_cmd.words) : wants_word words = decide (words.length < 6) := by
  unfold wants_word
  by_cases hlength : words.length < 6
  · simp [parse_unfinished hwords hlength, hlength]
  · have hle := hwords.length_le
    rw [job_words_length] at hle
    simp [parse_finished hwords (by omega), hlength]

/-- The word after those read is the next one of the command. -/
theorem next_word {jobs : Nat → Job} {n m : Nat} {words rest : List (BitVec 32)} {word : BitVec 32}
    (hlength : words.length < 6)
    (hstream : job_stream jobs n ++ words ++ word :: rest <+: job_stream jobs m) :
    words ++ [word] <+: (jobs n).ctl_cmd.words := by
  have hlong := hstream.length_le
  rw [job_stream_length, List.length_append, List.length_append, job_stream_length,
    List.length_cons] at hlong
  have hcommand : job_stream jobs n ++ (jobs n).ctl_cmd.words <+: job_stream jobs m := by
    rw [← job_stream_succ]
    exact job_stream_initial jobs (by omega)
  have hread : job_stream jobs n ++ (words ++ [word]) <+: job_stream jobs m := by
    refine List.IsPrefix.trans ?_ hstream
    rw [List.append_assoc, List.prefix_append_right_inj, List.prefix_append_right_inj]
    exact ⟨rest, rfl⟩
  have hshort := List.prefix_of_prefix_length_le hread hcommand (by
    simp only [List.length_append, List.length_singleton, job_words_length]
    omega)
  rwa [List.prefix_append_right_inj] at hshort

@[simp] theorem launches_snoc (h : List (Cycle Sched SchedInput)) (c : Cycle Sched SchedInput) :
    launches (h ++ [c]) = launches h ++ if mmult_starts c.state then [c.state.params] else [] := by
  simp [launches]

@[simp] theorem consumed_snoc (h : List (Cycle Sched SchedInput)) (c : Cycle Sched SchedInput) :
    consumed (h ++ [c]) = consumed h ++ words_read c.state c.input := by
  simp [consumed]

@[simp] theorem arrived_snoc (h : List (Cycle Sched SchedInput)) (c : Cycle Sched SchedInput) :
    arrived (h ++ [c]) = arrived h ++ c.input.arrivals := by
  simp [arrived]

/-- The FIFO delivers its words in order. -/
theorem fifo_conserves (s : Sched) (i : SchedInput) :
    words_read s i ++ (sched_step s i).ctl_cmd_afifo = s.ctl_cmd_afifo ++ i.arrivals := by
  unfold words_read
  by_cases hread : ctl_cmd_fifo_rd_en s i = true
  · simp only [sched_step, hread, if_true]
    rw [← List.append_assoc, List.take_append_drop]
  · simp [sched_step, hread]

/-- A box that is neither running nor started does nothing. -/
theorem box_quiet {s : Sched} (i : SchedInput) (hactive : cl_box_active s = false) :
    words_read s i = [] ∧ box_args s i = none ∧ cl_box_done s i = false ∧
      (sched_step s i).cl_box = none ∧ (sched_step s i).params = s.params := by
  have hargs : box_args s i = none := by simp [box_args, hactive]
  refine ⟨?_, hargs, ?_, ?_, ?_⟩
  · simp [words_read, ctl_cmd_fifo_rd_en, hactive]
  · simp [cl_box_done, hargs]
  · simp [sched_step, hactive]
  · simp [sched_step, hargs]

/-- What a running box has read is the beginning of its command. -/
theorem words_seen_initial {jobs : Nat → Job} {n m : Nat} {s : Sched} (i : SchedInput)
    (hwords : (box_run s).words <+: (jobs n).ctl_cmd.words)
    (hstream : job_stream jobs n ++ (box_run s).words ++ s.ctl_cmd_afifo <+: job_stream jobs m) :
    words_seen s i <+: (jobs n).ctl_cmd.words := by
  unfold words_seen words_read
  by_cases hread : ctl_cmd_fifo_rd_en s i = true
  · rw [if_pos hread]
    simp only [ctl_cmd_fifo_rd_en, Bool.and_eq_true, wants_word_iff hwords, decide_eq_true_eq,
      Bool.not_eq_true'] at hread
    obtain ⟨⟨_, hlength⟩, hnonempty⟩ := hread
    cases hfifo : s.ctl_cmd_afifo with
    | nil => simp [hfifo] at hnonempty
    | cons word rest =>
      rw [hfifo] at hstream
      exact next_word hlength hstream
  · rw [if_neg hread, List.append_nil]
    exact hwords

/-- The outputs of a running box are there once it has read its command. -/
theorem box_args_eq {job : Job} {s : Sched} {i : SchedInput} (hactive : cl_box_active s = true)
    (hseen : words_seen s i <+: job.ctl_cmd.words) :
    box_args s i = if (words_seen s i).length = 6 then some job.args else none := by
  have hle := hseen.length_le
  rw [job_words_length] at hle
  by_cases hlength : (words_seen s i).length = 6
  · simp [box_args, hactive, parse_finished hseen hlength, hlength]
  · simp [box_args, hactive, parse_unfinished hseen (by omega), hlength]

/-- A parameter that is loaded is the argument. -/
theorem load_field {α : Type} {pulsed vld : Bool} {old arg : α} (h : pulsed = true → old = arg) :
    (pulsed || vld) = true → (if vld then arg else old) = arg := by
  cases vld with
  | true => simp
  | false => simpa using h

/-- Pulsing outputs loads their registers. -/
theorem Loaded.load {pulsed : Valids} {p : Params} {job : Job} (hloaded : Loaded pulsed p (job_params job))
    (vld : Valids) :
    Loaded (Valids.zip (fun pulsed vld => pulsed || vld) pulsed vld) (p.load job.args vld)
      (job_params job) where
  a_baseaddr := load_field hloaded.a_baseaddr
  b_baseaddr := load_field hloaded.b_baseaddr
  c_baseaddr := load_field hloaded.c_baseaddr
  a_row := load_field hloaded.a_row
  a_col := load_field hloaded.a_col
  b_col := load_field hloaded.b_col
  work_id := load_field hloaded.work_id

/-- When every output has been pulsed, the registers hold the job. -/
theorem Loaded.complete {p q : Params} (hloaded : Loaded (Valids.all true) p q) : p = q := by
  obtain ⟨ha, hb, hc, hrow, hacol, hbcol, hid⟩ := hloaded
  cases p
  cases q
  simp only [Params.mk.injEq]
  exact ⟨ha rfl, hb rfl, hc rfl, hrow rfl, hacol rfl, hbcol rfl, hid rfl⟩

/-- In its last cycle the box has pulsed every output. -/
theorem all_pulsed_when_done {s : Sched} {i : SchedInput} (hdone : cl_box_done s i = true) :
    Valids.zip (fun pulsed vld => pulsed || vld) (box_run s).pulsed (ap_vld s i) = Valids.all true := by
  simp only [cl_box_done, Bool.and_eq_true] at hdone
  have hfield : ∀ pulsed vld : Bool, (pulsed || (true && (vld || true && !pulsed))) = true := by
    decide
  simp only [Valids.zip, ap_vld, hdone.1, hdone.2, hfield, Valids.all]

/-- A kernel that is neither running nor started does nothing. -/
theorem kernel_quiet {s : Sched} (i : SchedInput) (hstart : s.ap_start = false)
    (hrunning : s.mmult_running = false) :
    ap_idle s = true ∧ ap_done s i = false ∧ ap_ready s i = false ∧ mmult_starts s = false ∧
      (sched_step s i).mmult_running = false := by
  simp [ap_idle, ap_done, ap_ready, ap_active, mmult_starts, sched_step, hstart, hrunning]

/-- An idle scheduler starts the box as soon as a word is there. -/
theorem idle_next {s : Sched} (i : SchedInput) (hstate : s.kernel_state = .CL_IDLE)
    (hbox_idle : cl_box_idle s = true) (hkernel_idle : ap_idle s = true) :
    (sched_step s i).kernel_state = (if s.ctl_cmd_afifo.isEmpty then .CL_IDLE else .CL_BOX_ACTIVE) ∧
      (sched_step s i).cl_box_start = !s.ctl_cmd_afifo.isEmpty := by
  cases hempty : s.ctl_cmd_afifo.isEmpty <;>
    simp [sched_step, kernel_fsm, hstate, hbox_idle, hkernel_idle, hempty]

/-- The scheduler leaves the box running until it is done. -/
theorem box_next {s : Sched} (i : SchedInput) (hstate : s.kernel_state = .CL_BOX_ACTIVE)
    (hkernel_done : ap_done s i = false) :
    (sched_step s i).kernel_state =
        (if cl_box_done s i then .CL_KERNEL_ACTIVE else .CL_BOX_ACTIVE) ∧
      (sched_step s i).cl_box_start = !cl_box_done s i := by
  cases hdone : cl_box_done s i <;> simp [sched_step, kernel_fsm, hstate, hkernel_done, hdone]

/-- A box that is not done goes on with the words it has seen. -/
theorem box_run_next {s : Sched} {i : SchedInput} (hactive : cl_box_active s = true)
    (hdone : cl_box_done s i = false) :
    box_run (sched_step s i) = ⟨words_seen s i,
      Valids.zip (fun pulsed vld => pulsed || vld) (box_run s).pulsed (ap_vld s i)⟩ := by
  simp [sched_step, box_run, hactive, hdone]

/-- The scheduler waits for the kernel. -/
theorem kernel_next {s : Sched} (i : SchedInput) (hstate : s.kernel_state = .CL_KERNEL_ACTIVE) :
    (sched_step s i).kernel_state = (if ap_done s i then .CL_IDLE else .CL_KERNEL_ACTIVE) ∧
      (sched_step s i).cl_box_start = false := by
  simp [sched_step, kernel_fsm, hstate]

/-- An idle scheduler begins with the next job. -/
theorem idle_step {jobs : Nat → Job} {n : Nat} {read : List (BitVec 32)} {s : Sched} (i : SchedInput)
    (hstate : s.kernel_state = .CL_IDLE) (hphase : Phase jobs n read s) :
    Phase jobs n (read ++ words_read s i) (sched_step s i) := by
  simp only [Phase, hstate] at hphase
  obtain ⟨hbox_start, hbox, hstart, hrunning, hnew, hcomp, hread⟩ := hphase
  have hactive : cl_box_active s = false := by simp [cl_box_active, hbox, hbox_start]
  have hidle : cl_box_idle s = true := by simp [cl_box_idle, hbox, hbox_start]
  obtain ⟨hnone, hargs, hdone, hbox', hparams⟩ := box_quiet i hactive
  obtain ⟨hkernel_idle, hkernel_done, hready, _, hrunning'⟩ := kernel_quiet i hstart hrunning
  obtain ⟨hfsm, hstart'⟩ := idle_next i hstate hidle hkernel_idle
  have hcomp' : (sched_step s i).ap_start = false ∧ (sched_step s i).comp_state = .COMPUTE_IDLE := by
    simp [sched_step, comp_fsm, hcomp, hdone]
  have hnew' : (sched_step s i).new_req_reg = false := hdone
  cases hempty : s.ctl_cmd_afifo.isEmpty with
  | true =>
    rw [hempty, if_pos rfl] at hfsm
    rw [hempty] at hstart'
    simp only [Phase, hfsm, hnone, List.append_nil]
    exact ⟨hstart', hbox', hcomp'.1, hrunning', hnew', hcomp'.2, hread⟩
  | false =>
    rw [hempty] at hstart'
    have hrun : box_run (sched_step s i) = ⟨[], Valids.all false⟩ := by simp [box_run, hbox']
    rw [hempty, if_neg (by simp)] at hfsm
    simp only [Phase, hfsm, hnone, List.append_nil, hrun]
    refine ⟨hstart', hcomp'.1, hrunning', hnew', hcomp'.2, hread, List.nil_prefix, ?_⟩
    constructor <;> simp [Valids.all]

/-- The box reads the command of the job in hand. -/
theorem box_step {jobs : Nat → Job} {n m : Nat} {read : List (BitVec 32)} {s : Sched}
    (i : SchedInput) (hstate : s.kernel_state = .CL_BOX_ACTIVE) (hphase : Phase jobs n read s)
    (hstream : read ++ s.ctl_cmd_afifo <+: job_stream jobs m) :
    Phase jobs n (read ++ words_read s i) (sched_step s i) := by
  simp only [Phase, hstate] at hphase
  obtain ⟨hbox_start, hstart, hrunning, hnew, hcomp, hread, hwords, hloaded⟩ := hphase
  have hactive : cl_box_active s = true := by simp [cl_box_active, hbox_start]
  rw [hread] at hstream
  have hseen := words_seen_initial i hwords hstream
  have hread' : read ++ words_read s i = job_stream jobs n ++ words_seen s i := by
    rw [hread, words_seen, List.append_assoc]
  have hargs := box_args_eq hactive hseen
  obtain ⟨hkernel_idle, hkernel_done, hready, _, hrunning'⟩ := kernel_quiet i hstart hrunning
  obtain ⟨hfsm, hstart'⟩ := box_next i hstate hkernel_done
  cases hdone : cl_box_done s i with
  | true =>
    have hlength : (words_seen s i).length = 6 := by
      by_contra hshort
      rw [if_neg hshort] at hargs
      simp [cl_box_done, hargs] at hdone
    rw [if_pos hlength] at hargs
    rw [hdone, if_pos rfl] at hfsm
    rw [hdone] at hstart'
    have hcomplete := hloaded.load (ap_vld s i)
    rw [all_pulsed_when_done hdone] at hcomplete
    simp only [Phase, hfsm]
    refine ⟨hstart', ?_, ?_, ?_, Or.inl ⟨hrunning', hdone, ?_, ?_⟩⟩
    · simp [sched_step, hdone]
    · simp [sched_step, comp_fsm, hcomp, hkernel_idle, hdone]
    · simp [sched_step, comp_fsm, hcomp, hkernel_idle, hdone]
    · rw [hread', job_stream_succ, hseen.eq_of_length (hlength.trans (job_words_length _).symm)]
    · simpa [sched_step, hargs] using hcomplete.complete
  | false =>
    rw [hdone, if_neg (by simp)] at hfsm
    rw [hdone] at hstart'
    have hrun := box_run_next hactive hdone
    simp only [Phase, hfsm, hrun]
    refine ⟨hstart', ?_, hrunning', hdone, ?_, hread', hseen, ?_⟩
    · simp [sched_step, comp_fsm, hcomp, hdone]
    · simp [sched_step, comp_fsm, hcomp, hdone]
    · by_cases hlength : (words_seen s i).length = 6
      · rw [if_pos hlength] at hargs
        simpa [sched_step, hargs] using hloaded.load (ap_vld s i)
      · rw [if_neg hlength] at hargs
        have hnone : Valids.zip (fun pulsed vld => pulsed || vld) (box_run s).pulsed (ap_vld s i) =
            (box_run s).pulsed := by
          simp [Valids.zip, ap_vld, hargs]
        rw [hnone]
        simpa [sched_step, hargs] using hloaded

/-- The engine is started once for each job. -/
theorem kernel_step {jobs : Nat → Job} {n : Nat} {read : List (BitVec 32)} {s : Sched}
    (i : SchedInput) (hstate : s.kernel_state = .CL_KERNEL_ACTIVE) (hphase : Phase jobs n read s) :
    Phase jobs (n + (mmult_starts s).toNat) (read ++ words_read s i) (sched_step s i) := by
  simp only [Phase, hstate] at hphase
  obtain ⟨hbox_start, hbox, hstart, hcomp, hrun⟩ := hphase
  have hactive : cl_box_active s = false := by simp [cl_box_active, hbox, hbox_start]
  obtain ⟨hnone, hargs, hdone, hbox', hparams⟩ := box_quiet i hactive
  -- After this cycle the run is the last of those started, and it has its scalars.
  have hstarted : read = job_stream jobs (n + (mmult_starts s).toNat) ∧
      ∃ k, n + (mmult_starts s).toNat = k + 1 ∧ s.params = job_params (jobs k) ∧
        (sched_step s i).mmult_scalars = (job_params (jobs k)).scalars := by
    obtain ⟨hrunning, hnew, hread, hjob⟩ | ⟨hrunning, hnew, hread, k, hk, hjob, hscalars⟩ := hrun
    · have hstarts : mmult_starts s = true := by simp [mmult_starts, hrunning, hstart]
      refine ⟨by simpa [hstarts] using hread, n, by simp [hstarts], hjob, ?_⟩
      simp [sched_step, scalars_in_use, hnew, hjob]
    · have hstarts : mmult_starts s = false := by simp [mmult_starts, hrunning]
      refine ⟨by simpa [hstarts] using hread, k, by simp [hstarts, hk], hjob, ?_⟩
      simp [sched_step, scalars_in_use, hnew, hscalars]
  obtain ⟨hread, k, hk, hjob, hscalars⟩ := hstarted
  obtain ⟨hfsm, hstart'⟩ := kernel_next i hstate
  have hnew' : (sched_step s i).new_req_reg = false := hdone
  cases hfinish : i.kernel_finish with
  | true =>
    have hkernel_done : ap_done s i = true := by simp [ap_done, ap_active, hstart, hfinish]
    rw [hkernel_done, if_pos rfl] at hfsm
    simp only [Phase, hfsm, hnone, List.append_nil]
    refine ⟨hstart', hbox', ?_, ?_, hnew', ?_, hread⟩
    · simp [sched_step, comp_fsm, hcomp, ap_ready, hkernel_done]
    · simp [sched_step, hkernel_done]
    · simp [sched_step, comp_fsm, hcomp, hkernel_done]
  | false =>
    have hkernel_done : ap_done s i = false := by simp [ap_done, hfinish]
    rw [hkernel_done, if_neg (by simp)] at hfsm
    simp only [Phase, hfsm, hnone, List.append_nil]
    refine ⟨hstart', hbox', ?_, ?_, Or.inr ⟨?_, hnew', hread, k, hk, hparams.trans hjob, hscalars⟩⟩
    · simp [sched_step, comp_fsm, hcomp, ap_ready, hkernel_done]
    · simp [sched_step, comp_fsm, hcomp, hkernel_done]
    · simp [sched_step, ap_active, hstart, hkernel_done]

end reconic.compute_logic_wrapper
