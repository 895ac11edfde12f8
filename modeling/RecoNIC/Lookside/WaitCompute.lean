import RecoNIC.Lookside.ReadChannel

open clocked clocked.axi_lite

namespace reconic.wait_compute

open reconic.control_command_processor

/-- A call of `wait_compute` that has returned: the words its reads removed from
the status FIFO, its result, and the jobs that had been completed by then. -/
structure Call where
  popped : List (BitVec 32)
  compute_done : BitVec 32
  completed : List (BitVec 16)

/-- The compute side and the host program. Jobs are named by their `work_id`. -/
structure Host where
  issued : List (BitVec 16)
  ker_status : List (BitVec 32)
  completed : List (BitVec 16)
  popped : List (BitVec 32)
  reads : List (BitVec 32)
  calls : List Call

/-- The host issues a command, the kernel completes the oldest command issued,
and a call of `wait_compute` goes once through its loop. -/
inductive Event where
  | issue_ctl_cmd (work_id : BitVec 16)
  | complete
  | poll
  deriving DecidableEq

def host_reset : Host where
  issued := []
  ker_status := []
  completed := []
  popped := []
  reads := []
  calls := []

/-- What a read of the status register returns. -/
def read_status (ker_status : List (BitVec 32)) : BitVec 32 := ker_status.head?.getD DEFAULT_VALUE

/-- One turn of the loop of `wait_compute`: `compute_done` is read from the status
register, and the call returns it unless it is 0. The next turn then belongs to
the next call. -/
def wait_compute_turn (s : Host) : Host :=
  let compute_done := read_status s.ker_status
  let popped := s.popped ++ s.ker_status.head?.toList
  let s := { s with ker_status := s.ker_status.tail, reads := s.reads ++ [compute_done] }
  if compute_done = 0#32 then { s with popped := popped }
  else { s with popped := [], calls := s.calls ++ [⟨popped, compute_done, s.completed⟩] }

def host_step (s : Host) : Event → Host
  | .issue_ctl_cmd work_id => { s with issued := s.issued ++ [work_id] }
  | .complete =>
    match s.issued with
    | [] => s
    | work_id :: issued => { s with
        issued := issued
        ker_status := s.ker_status ++ [work_id.setWidth 32]
        completed := s.completed ++ [work_id] }
  | .poll => wait_compute_turn s

def host_run (events : List Event) : Host := events.foldl host_step host_reset

@[simp] theorem host_run_snoc (events : List Event) (e : Event) :
    host_run (events ++ [e]) = host_step (host_run events) e := by
  simp [host_run]

/-- Every result is the `work_id` of a completed job that no other call has
reported, and a word that a call removes from the FIFO is its result. -/
structure RealCompletions (s : Host) : Prop where
  reports : ∃ job : Nat → Nat, Function.Injective job ∧ ∀ k call, s.calls[k]? = some call →
    ∃ work_id, call.completed[job k]? = some work_id ∧ call.compute_done = work_id.setWidth 32
  nothing_discarded : ∀ call ∈ s.calls, ∀ word ∈ call.popped, word = call.compute_done
  nothing_lost_in_loop : s.popped = []

/-- When a call makes its first read, a completed job waits to be reported and its
`work_id` is not 0. -/
def CalledInTime (events : List Event) : Prop :=
  ∀ earlier later, events = earlier ++ .poll :: later → (host_run earlier).popped = [] →
    ∃ word, (host_run earlier).ker_status.head? = some word ∧ word ≠ 0#32

/-- A result that is no completion, or a completion that was thrown away. -/
def Spoiled (s : Host) : Prop :=
  0#32 ∈ s.popped ∨ ∃ call ∈ s.calls,
    0#32 ∈ call.popped ∧ call.compute_done ≠ 0#32 ∨ call.compute_done = DEFAULT_VALUE

/-- What the calls of a run in which every call comes in time have done. -/
structure InTimeInv (s : Host) : Prop where
  popped : s.popped = []
  conserved : s.completed.map (BitVec.setWidth 32) = s.calls.map Call.compute_done ++ s.ker_status
  results : ∀ (k : Nat) (call : Call), s.calls[k]? = some call →
    call.popped = [call.compute_done] ∧ ∃ work_id : BitVec 16,
      call.completed[k]? = some work_id ∧ call.compute_done = work_id.setWidth 32

theorem default_value_nonzero : DEFAULT_VALUE ≠ 0#32 := by decide

/-- A read of an empty status FIFO ends the call with the default value. -/
theorem turn_empty {s : Host} (hstatus : s.ker_status = []) :
    wait_compute_turn s = { s with
      reads := s.reads ++ [DEFAULT_VALUE]
      popped := []
      calls := s.calls ++ [⟨s.popped, DEFAULT_VALUE, s.completed⟩] } := by
  simp [wait_compute_turn, read_status, hstatus, default_value_nonzero]

/-- A `work_id` of 0 is removed and keeps the call in its loop. -/
theorem turn_zero {s : Host} {rest : List (BitVec 32)} (hstatus : s.ker_status = 0#32 :: rest) :
    wait_compute_turn s = { s with
      ker_status := rest
      reads := s.reads ++ [0#32]
      popped := s.popped ++ [0#32] } := by
  simp [wait_compute_turn, read_status, hstatus]

/-- Any other word ends the call with that word. -/
theorem turn_word {s : Host} {word : BitVec 32} {rest : List (BitVec 32)}
    (hstatus : s.ker_status = word :: rest) (hne : word ≠ 0#32) :
    wait_compute_turn s = { s with
      ker_status := rest
      reads := s.reads ++ [word]
      popped := []
      calls := s.calls ++ [⟨s.popped ++ [word], word, s.completed⟩] } := by
  simp [wait_compute_turn, read_status, hstatus, hne]

/-- The default value is no `work_id`. -/
theorem default_value_not_work_id (work_id : BitVec 16) : DEFAULT_VALUE ≠ work_id.setWidth 32 := by
  intro heq
  have hvalue := congrArg BitVec.toNat heq
  have hdefault : DEFAULT_VALUE.toNat = 3735928559 := rfl
  have hsmall := work_id.isLt
  rw [hdefault, BitVec.toNat_setWidth] at hvalue
  omega

theorem CalledInTime.initial {events : List Event} {e : Event}
    (hintime : CalledInTime (events ++ [e])) : CalledInTime events := by
  intro earlier later hsplit
  exact hintime earlier (later ++ [e]) (by simp [hsplit])

/-- What has been spoiled stays spoiled. -/
theorem Spoiled.step {s : Host} (hspoiled : Spoiled s) (e : Event) : Spoiled (host_step s e) := by
  cases e with
  | issue_ctl_cmd work_id => exact hspoiled
  | complete =>
    cases hissued : s.issued with
    | nil => simpa only [host_step, hissued] using hspoiled
    | cons work_id issued =>
      simp only [host_step, hissued]
      exact hspoiled
  | poll =>
    have hcall : ∀ call completed, (0#32 ∈ s.popped → 0#32 ∈ call.popped ∧ call.compute_done ≠ 0#32) →
        Spoiled { s with popped := [], calls := s.calls ++ [call], completed := completed } := by
      intro call completed hkept
      obtain hpopped | ⟨bad, hbad, hwhy⟩ := hspoiled
      · exact Or.inr ⟨call, List.mem_append_right _ (List.mem_singleton_self _),
          Or.inl (hkept hpopped)⟩
      · exact Or.inr ⟨bad, List.mem_append_left _ hbad, hwhy⟩
    change Spoiled (wait_compute_turn s)
    cases hstatus : s.ker_status with
    | nil =>
      rw [turn_empty hstatus]
      exact hcall ⟨s.popped, DEFAULT_VALUE, s.completed⟩ s.completed fun hzero =>
        ⟨hzero, default_value_nonzero⟩
    | cons word rest =>
      by_cases hzero : word = 0
      · rw [turn_zero (hzero ▸ hstatus)]
        obtain hpopped | hbad := hspoiled
        · exact Or.inl (List.mem_append_left _ hpopped)
        · exact Or.inr hbad
      · rw [turn_word hstatus hzero]
        exact hcall ⟨s.popped ++ [word], word, s.completed⟩ s.completed fun hmem =>
          ⟨List.mem_append_left _ hmem, hzero⟩

theorem Spoiled.run {earlier : List Event} (hspoiled : Spoiled (host_run earlier))
    (events : List Event) : Spoiled (host_run (earlier ++ events)) := by
  induction events using List.reverseRecOn with
  | nil => simpa using hspoiled
  | append_singleton events e ih =>
    rw [← List.append_assoc, host_run_snoc]
    exact ih.step e

/-- A spoiled run has reported something else than a completion, or lost one. -/
theorem Spoiled.not_real {s : Host} (hspoiled : Spoiled s) : ¬RealCompletions s := by
  intro ⟨⟨job, _, hreports⟩, hdiscarded, hloop⟩
  obtain hpopped | ⟨call, hcall, ⟨hzero, hresult⟩ | hdefault⟩ := hspoiled
  · rw [hloop] at hpopped
    cases hpopped
  · exact hresult (hdiscarded call hcall 0#32 hzero).symm
  · obtain ⟨k, hk⟩ := List.mem_iff_getElem?.mp hcall
    obtain ⟨work_id, _, hid⟩ := hreports k call hk
    exact default_value_not_work_id work_id (hdefault.symm.trans hid)

/-- A first read that comes too early, or meets a `work_id` of 0, spoils the run. -/
theorem spoiled_of_late {s : Host}
    (hlate : ¬∃ word, s.ker_status.head? = some word ∧ word ≠ 0#32) :
    Spoiled (host_step s .poll) := by
  change Spoiled (wait_compute_turn s)
  cases hstatus : s.ker_status with
  | nil =>
    rw [turn_empty hstatus]
    exact Or.inr ⟨_, List.mem_append_right _ (List.mem_singleton_self _), Or.inr rfl⟩
  | cons word rest =>
    have hzero : word = 0#32 := by
      by_contra hne
      exact hlate ⟨word, by simp [hstatus], hne⟩
    rw [turn_zero (hzero ▸ hstatus)]
    exact Or.inl (List.mem_append_right _ (List.mem_singleton_self _))

theorem InTimeInv.step {s : Host} (hinv : InTimeInv s) (e : Event)
    (htime : e = .poll → ∃ word, s.ker_status.head? = some word ∧ word ≠ 0#32) :
    InTimeInv (host_step s e) := by
  obtain ⟨hpopped, hconserved, hcalls⟩ := hinv
  cases e with
  | issue_ctl_cmd work_id => exact ⟨hpopped, hconserved, hcalls⟩
  | complete =>
    cases hissued : s.issued with
    | nil => simpa only [host_step, hissued] using ⟨hpopped, hconserved, hcalls⟩
    | cons work_id issued =>
      simp only [host_step, hissued]
      refine ⟨hpopped, ?_, hcalls⟩
      simp only [List.map_append, hconserved, List.append_assoc, List.map_cons, List.map_nil]
  | poll =>
    obtain ⟨word, hhead, hne⟩ := htime rfl
    obtain ⟨rest, hstatus⟩ := List.head?_eq_some_iff.mp hhead
    have hturn := turn_word hstatus hne
    rw [hpopped, List.nil_append] at hturn
    change InTimeInv (wait_compute_turn s)
    rw [hturn]
    refine ⟨rfl, by simp [hconserved, hstatus], ?_⟩
    intro k call hk
    rw [List.getElem?_append] at hk
    by_cases hold : k < s.calls.length
    · rw [if_pos hold] at hk
      exact hcalls k call hk
    · -- The new call reports the job at the head of those not yet reported.
      rw [if_neg hold, List.getElem?_singleton] at hk
      obtain ⟨hlast, hcall⟩ := Option.ite_none_right_eq_some.mp hk
      cases hcall
      have hk : k = s.calls.length := by omega
      have hjob : (s.completed.map (BitVec.setWidth 32))[k]? = some word := by
        rw [hconserved, hstatus, hk]
        simp
      obtain ⟨work_id, hid, hword⟩ := List.getElem?_map ▸ hjob |> Option.map_eq_some_iff.mp
      exact ⟨rfl, work_id, hid, hword.symm⟩

theorem in_time_inv {events : List Event} (hintime : CalledInTime events) :
    InTimeInv (host_run events) := by
  induction events using List.reverseRecOn with
  | nil => exact ⟨rfl, rfl, by simp [host_run, host_reset]⟩
  | append_singleton events e ih =>
    have hinv := ih hintime.initial
    rw [host_run_snoc]
    refine hinv.step e ?_
    rintro rfl
    exact hintime events [] rfl hinv.popped

/-- `wait_compute` reports real completions in exactly the runs in which every
call finds, at its first read, a completed job with a `work_id` other than 0. -/
theorem real_completions_iff (events : List Event) :
    RealCompletions (host_run events) ↔ CalledInTime events := by
  constructor
  · intro hreal earlier later hsplit _
    by_contra hlate
    have hspoiled := spoiled_of_late hlate
    rw [← host_run_snoc] at hspoiled
    have hend := hspoiled.run later
    rw [List.append_assoc, List.singleton_append, ← hsplit] at hend
    exact hend.not_real hreal
  · intro hintime
    obtain ⟨hpopped, _, hcalls⟩ := in_time_inv hintime
    refine ⟨⟨id, Function.injective_id, fun k call hk => (hcalls k call hk).2⟩, ?_, hpopped⟩
    intro call hcall word hword
    obtain ⟨k, hk⟩ := List.mem_iff_getElem?.mp hcall
    rw [(hcalls k call hk).1] at hword
    exact List.mem_singleton.mp hword

/-- A call before any job has completed returns the default value, and a job with
`work_id` 0 is removed from the FIFO and never reported. -/
theorem misreports : ¬RealCompletions (host_run [.issue_ctl_cmd 5, .poll]) ∧
    ¬RealCompletions (host_run [.issue_ctl_cmd 0, .complete, .poll]) :=
  ⟨(spoiled_of_late (s := host_run [.issue_ctl_cmd 5]) (by simp [host_run, host_step, host_reset])).not_real,
    (spoiled_of_late (s := host_run [.issue_ctl_cmd 0, .complete])
      (by simp [host_run, host_step, host_reset])).not_real⟩

/-- The events that a cycle of the status read path stands for: an accepted read
of the status register is a turn of the host's loop, and a word that the FIFO
accepts is the completion of a job issued before. -/
def cycle_events (c : Cycle ReadSide ReadInput) : List Event :=
  (if (read_pins c).ar_taken && decide (c.input.s_axil_araddr = KER_STS) then [.poll] else []) ++
    (c.state.ker_status_afifo.accepted c.input.ker_status_data).flatMap fun word =>
      [.issue_ctl_cmd (word.setWidth 16), .complete]

/-- The kernel writes 16-bit identifiers. -/
def WritesWorkIds (h : List (Cycle ReadSide ReadInput)) : Prop :=
  ∀ c ∈ h, ∀ word ∈ c.input.ker_status_data, (word.setWidth 16).setWidth 32 = word

/-- The host model sees what the hardware shows: the FIFO without the word whose
removal is under way, and the answers to the status reads. -/
structure Mirrors (h : List (Cycle ReadSide ReadInput)) (s : ReadSide) (host : Host) : Prop where
  issued : host.issued = []
  ker_status : host.ker_status = s.ker_status_afifo.kept s.regs.ker_status_rd_en
  reads : host.reads =
    ((reads h).filter fun c => decide (c.input.s_axil_araddr = KER_STS)).map answer

theorem completions_pushed (words : List (BitVec 32))
    (hwords : ∀ word ∈ words, (word.setWidth 16).setWidth 32 = word) (host : Host)
    (hissued : host.issued = []) :
    let host' := (words.flatMap fun word =>
      [Event.issue_ctl_cmd (word.setWidth 16), Event.complete]).foldl host_step host
    host'.issued = [] ∧ host'.ker_status = host.ker_status ++ words ∧ host'.reads = host.reads := by
  induction words generalizing host with
  | nil => simp [hissued]
  | cons word words ih =>
    have hword := hwords word (List.mem_cons_self ..)
    obtain ⟨hissued', hstatus, hreads⟩ := ih (fun w hw => hwords w (List.mem_cons_of_mem _ hw))
      { host with
        issued := []
        ker_status := host.ker_status ++ [word]
        completed := host.completed ++ [word.setWidth 16] } rfl
    simp only [List.flatMap_cons, List.foldl_append, List.foldl_cons, List.foldl_nil, host_step,
      hissued, List.nil_append, hword]
    exact ⟨hissued', by simpa using hstatus, hreads⟩

theorem turn_reads (s : Host) : (wait_compute_turn s).issued = s.issued ∧
    (wait_compute_turn s).ker_status = s.ker_status.tail ∧
    (wait_compute_turn s).reads = s.reads ++ [read_status s.ker_status] := by
  unfold wait_compute_turn
  by_cases hzero : read_status s.ker_status = 0#32 <;> simp [hzero]

section Step

variable {h : List (Cycle ReadSide ReadInput)} {s : ReadSide} {host : Host} {i : ReadInput}

theorem accepted_words (hwords : ∀ word ∈ i.ker_status_data, (word.setWidth 16).setWidth 32 = word) :
    ∀ word ∈ s.ker_status_afifo.accepted i.ker_status_data, (word.setWidth 16).setWidth 32 = word :=
  fun word hword => hwords word ((Fifo.accepted_initial _ _).subset hword)

/-- Without an accepted status read the kernel's words are all that happens. -/
theorem Mirrors.quiet (hmirrors : Mirrors h s host)
    (hwords : ∀ word ∈ i.ker_status_data, (word.setWidth 16).setWidth 32 = word)
    (hnone : ((read_pins ⟨s, i⟩).ar_taken && decide (i.s_axil_araddr = KER_STS)) = false)
    (hrden : (read_step s i).regs.ker_status_rd_en = false) :
    Mirrors (h ++ [⟨s, i⟩]) (read_step s i) ((cycle_events ⟨s, i⟩).foldl host_step host) := by
  obtain ⟨hissued, hstatus, hreads⟩ := hmirrors
  have hfifo : (read_step s i).ker_status_afifo.contents =
      s.ker_status_afifo.kept s.regs.ker_status_rd_en ++
        s.ker_status_afifo.accepted i.ker_status_data := Fifo.clock_contents _ _ _
  obtain ⟨hissued', hstatus', hreads'⟩ := completions_pushed _ (accepted_words hwords) host hissued
  simp only [cycle_events, hnone, Bool.false_eq_true, if_false, List.nil_append]
  refine ⟨hissued', ?_, ?_⟩
  · rw [hstatus', hstatus, hrden, Fifo.kept_false, hfifo]
  · rw [hreads', hreads, reads_snoc]
    cases htaken : (read_pins ⟨s, i⟩).ar_taken with
    | false => simp
    | true =>
      rw [htaken, Bool.true_and] at hnone
      simp [hnone]

/-- An accepted status read is a turn of the host. -/
theorem Mirrors.status_read (hmirrors : Mirrors h s host)
    (hwords : ∀ word ∈ i.ker_status_data, (word.setWidth 16).setWidth 32 = word)
    (htaken : (read_pins ⟨s, i⟩).ar_taken = true) (haddr : i.s_axil_araddr = KER_STS)
    (hidle : s.regs.ker_status_rd_en = false)
    (hrden : (read_step s i).regs.ker_status_rd_en = !s.ker_status_afifo.empty) :
    Mirrors (h ++ [⟨s, i⟩]) (read_step s i) ((cycle_events ⟨s, i⟩).foldl host_step host) := by
  obtain ⟨hissued, hstatus, hreads⟩ := hmirrors
  have hfifo : (read_step s i).ker_status_afifo.contents =
      s.ker_status_afifo.kept s.regs.ker_status_rd_en ++
        s.ker_status_afifo.accepted i.ker_status_data := Fifo.clock_contents _ _ _
  rw [hidle, Fifo.kept_false] at hstatus hfifo
  obtain ⟨hissued', hstatus', hreads'⟩ := turn_reads host
  obtain ⟨hissued'', hstatus'', hreads''⟩ := completions_pushed _ (accepted_words hwords)
    (wait_compute_turn host) (hissued'.trans hissued)
  simp only [cycle_events, htaken, haddr, decide_true, Bool.and_self, if_true,
    List.singleton_append, List.foldl_cons, host_step]
  refine ⟨hissued'', ?_, ?_⟩
  · rw [hstatus'', hstatus', hstatus, hrden]
    cases hcontents : s.ker_status_afifo.contents with
    | nil => simp [Fifo.empty, hfifo, hcontents]
    | cons word rest => simp [Fifo.empty, hfifo, hcontents]
  · rw [hreads'', hreads', hreads, reads_snoc, htaken, hstatus]
    simp [haddr, answer, read_status, Fifo.dout]

theorem Mirrors.step (hmirrors : Mirrors h s host) (i : ReadInput) (hsettled : s.regs.Settled)
    (hwords : ∀ word ∈ i.ker_status_data, (word.setWidth 16).setWidth 32 = word) :
    Mirrors (h ++ [⟨s, i⟩]) (read_step s i) ((cycle_events ⟨s, i⟩).foldl host_step host) := by
  have hedge := read_edge hsettled i
  generalize hnext : (read_step s i).regs = r at hedge
  cases hedge with
  | quiet hstate harready hrvalid hrden har =>
    apply hmirrors.quiet hwords
    · simp [har]
    · rw [hnext, hrden]
  | request hstate harready hrvalid hrden har =>
    by_cases haddr : i.s_axil_araddr = KER_STS
    · apply hmirrors.status_read hwords _ haddr hrden
      · simp [hnext, haddr]
      · simp [har, harready]
    · apply hmirrors.quiet hwords
      · simp [haddr]
      · simp [hnext, haddr]
  | hold hstate harready hrvalid hr =>
    apply hmirrors.quiet hwords
    · simp [harready]
    · rw [hnext]
  | deliver hstate harready hrvalid hr =>
    apply hmirrors.quiet hwords
    · simp [harready]
    · rw [hnext]

end Step

/-- The host model is what the register interface of `control_command_processor`
does: over any run of the read path, its status FIFO and the values the host
reads are those of the hardware. -/
theorem host_mirrors_read_path (inputs : List ReadInput)
    (hids : WritesWorkIds (readMachine.trace inputs)) :
    Mirrors (readMachine.trace inputs) (readMachine.run inputs)
      (host_run ((readMachine.trace inputs).flatMap cycle_events)) := by
  have hinv : (readMachine.run inputs).regs.Settled ∧
      Mirrors (readMachine.trace inputs) (readMachine.run inputs)
        (host_run ((readMachine.trace inputs).flatMap cycle_events)) := by
    apply readMachine.history_induction WritesWorkIds
      (fun h s => s.regs.Settled ∧ Mirrors h s (host_run (h.flatMap cycle_events)))
    · exact fun h c hids d hd => hids d (List.mem_append_left _ hd)
    · exact ⟨⟨rfl, rfl, rfl⟩, rfl, rfl, rfl⟩
    · intro h s i hids ⟨hsettled, hmirrors⟩
      refine ⟨(read_edge hsettled i).settled, ?_⟩
      have hstep := hmirrors.step i hsettled (hids ⟨s, i⟩ (by simp))
      rw [host_run, List.flatMap_append, List.foldl_append, List.flatMap_singleton]
      exact hstep
    · exact hids
  exact hinv.2

end reconic.wait_compute
