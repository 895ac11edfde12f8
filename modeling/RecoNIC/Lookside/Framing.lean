import RecoNIC.Lookside.ClBox

open reconic.control_api reconic.cl_box

namespace reconic.framing

/-- A matrix multiplication as the host asks for it: what it passes to
`gen_ctl_cmd` besides the size. -/
structure Job where
  a_baseaddr : BitVec 32
  b_baseaddr : BitVec 32
  c_baseaddr : BitVec 32
  a_row : BitVec 16
  a_col : BitVec 16
  b_col : BitVec 16
  work_id : BitVec 16
  deriving DecidableEq

def Job.ctl_cmd (job : Job) : CtlCmd :=
  gen_ctl_cmd job.a_baseaddr job.b_baseaddr job.c_baseaddr 6 job.a_row job.a_col job.b_col
    job.work_id

/-- The job in the types of the outputs of `parse_ctl_cmd`. -/
def Job.args (job : Job) : Args where
  a_baseaddr := job.a_baseaddr
  b_baseaddr := job.b_baseaddr
  c_baseaddr := job.c_baseaddr
  a_row := job.a_row.setWidth 32
  a_col := job.a_col.setWidth 32
  b_col := job.b_col.setWidth 32
  work_id := job.work_id.setWidth 32

/-- The bus after a list of jobs has been issued. -/
def issue_jobs (axil_base : BitVec 64) (offset : BitVec 32) (jobs : List Job) : Mmio :=
  (jobs.map Job.ctl_cmd).foldl (fun bus ctl_cmd => issue_ctl_cmd bus axil_base offset ctl_cmd) ⟨[]⟩

theorem lower_mask_bit : ∀ (i : Nat) (hi : i < 32), (0x0000ffff#32)[i] = decide (i < 16) := by
  decide

theorem upper_mask_bit : ∀ (i : Nat) (hi : i < 32), (0xffff0000#32)[i] = decide (16 ≤ i) := by
  decide

theorem ctl_cmd_element_bit (high low : BitVec 16) (i : Nat) (hi : i < 32) :
    (ctl_cmd_element high low)[i] = if i < 16 then low.getLsbD i else high.getLsbD (i - 16) := by
  simp only [ctl_cmd_element, BitVec.getElem_or, BitVec.getElem_and, lower_mask_bit, upper_mask_bit]
  by_cases h : i < 16
  · simp [h]
  · simp [h, Nat.le_of_not_lt h]

/-- The upper half of a packed element is the field that was shifted into it. -/
theorem ctl_cmd_element_high (high low : BitVec 16) :
    ctl_cmd_element high low >>> 16 = high.setWidth 32 := by
  ext i hi
  rw [BitVec.getElem_ushiftRight, BitVec.getElem_setWidth]
  by_cases h : i < 16
  · rw [BitVec.getLsbD_eq_getElem (by omega), ctl_cmd_element_bit, if_neg (by omega),
      Nat.add_sub_cancel_left]
  · rw [BitVec.getLsbD_of_ge _ _ (by omega), BitVec.getLsbD_of_ge _ _ (by omega)]

/-- The lower half of a packed element is the field that was masked into it. -/
theorem ctl_cmd_element_low (high low : BitVec 16) :
    ctl_cmd_element high low &&& 0x0000ffff#32 = low.setWidth 32 := by
  ext i hi
  rw [BitVec.getElem_and, BitVec.getElem_setWidth, ctl_cmd_element_bit, lower_mask_bit]
  by_cases h : i < 16
  · simp [h]
  · simp [h, BitVec.getLsbD_of_ge low i (by omega)]

/-- The words of one job parse to that job, whatever follows them. -/
theorem parse_ctl_cmd_job (job : Job) (stream : List (BitVec 32)) :
    parse_ctl_cmd (job.ctl_cmd.words ++ stream) = .ok (job.args, stream) := by
  simp only [Job.ctl_cmd, gen_ctl_cmd, CtlCmd.words, List.cons_append, List.nil_append]
  rw [parse_ctl_cmd_six, ctl_cmd_element_high, ctl_cmd_element_low, ctl_cmd_element_high,
    ctl_cmd_element_low]
  rfl

/-- Successive calls parse the words of a list of jobs one job a call. -/
theorem parse_ctl_cmds_jobs (jobs : List Job) (stream : List (BitVec 32)) :
    parse_ctl_cmds jobs.length (jobs.flatMap (fun job => job.ctl_cmd.words) ++ stream) =
      .ok (jobs.map Job.args, stream) := by
  induction jobs with
  | nil => rfl
  | cons job jobs ih =>
    rw [List.length_cons, List.flatMap_cons, List.append_assoc, List.map_cons]
    exact parse_ctl_cmds_succ (parse_ctl_cmd_job job _) ih

/-- The framing law. What a host stores by issuing jobs, read back by successive
calls of `parse_ctl_cmd`, is the same list of jobs in the same order, and no word
is left. -/
theorem issued_jobs_parse (axil_base : BitVec 64) (offset : BitVec 32) (jobs : List Job) :
    parse_ctl_cmds jobs.length
        ((issue_jobs axil_base offset jobs).wordsAt (axil_base + offset.setWidth 64)) =
      .ok (jobs.map Job.args, []) := by
  have hwords : (issue_jobs axil_base offset jobs).wordsAt (axil_base + offset.setWidth 64) =
      jobs.flatMap (fun job => job.ctl_cmd.words) := by
    unfold issue_jobs
    rw [issue_all_words, List.flatMap_map]
    rfl
  rw [hwords, ← List.append_nil (jobs.flatMap _)]
  exact parse_ctl_cmds_jobs jobs []

/-- The outputs determine the job. -/
theorem Job.args_injective (job other : Job) (h : job.args = other.args) : job = other := by
  have hwidth : ∀ v w : BitVec 16, v.setWidth 32 = w.setWidth 32 → v = w := by
    intro v w hvw
    have hback := congrArg (BitVec.setWidth 16) hvw
    simpa using hback
  cases job
  cases other
  simp only [Job.args, Args.mk.injEq] at h
  obtain ⟨ha, hb, hc, hrow, hacol, hbcol, hid⟩ := h
  simp only [Job.mk.injEq]
  exact ⟨ha, hb, hc, hwidth _ _ hrow, hwidth _ _ hacol, hwidth _ _ hbcol, hwidth _ _ hid⟩

end reconic.framing
